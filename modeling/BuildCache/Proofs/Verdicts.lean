import BuildCache.Proofs.Loading

/-!
What the files under a root come to when they are loaded, as a function of the disk: the first of
the stages that fails, in their order, or what is in memory then. A load comes to exactly that, unless
it is refused one of the files, and changes nothing.
-/
namespace BuildCache

open Disk Program

/-- What a file holds; one that is missing holds nothing. -/
def Disk.contentAt (d : Disk) (cwd : Place) (p : Path) : Except StoreError Bytes :=
  Log.atPath p (Log.orMissing [] (d.read cwd p))

/-- The mutations that the files of a log hold: the snapshot's, then the journal's. -/
def Log.verdict {K V : Type} [Stored K] [Stored V] (files : LogFiles) (format : StoreFormat)
    (cwd : Place) (d : Disk) : Except StoreError (List (Record K V)) := do
  let snapshot ← d.contentAt cwd files.snapshot
  let pairs ← StoreFile.readSnapshot (K := K) (V := V) files.snapshot format snapshot
  let journal ← d.contentAt cwd files.journal
  let records ← StoreFile.readJournal files.journal format journal
  return (pairs.map fun (e : K × V) => Record.put e.1 e.2) ++ records

/-- The names that an index holds, if its identities are dense. -/
def Index.verdict (files : LogFiles) (cwd : Place) (d : Disk) : Except StoreError Names := do
  let records ← Log.verdict files format cwd d
  (Names.ofRecords records).mapError (.corrupted files.snapshot)

/-- Memory, if its map speaks only of names that it has. -/
def Memory.judged (m : Memory) : Except StoreError Memory :=
  if m.records.isEmpty then .ok m
  else match Cache.validate m.records m.names.size with
    | .ok () => .ok m
    | .error fault =>
      .error (.loading "failed action cache referential integrity check" (.integrity fault))

/-- What the four files hold. -/
def Layout.verdict (l : Layout) (cwd : Place) (d : Disk) : Except StoreError Memory := do
  let names ← (Index.verdict l.indexFiles cwd d).mapError
    (.loading "failed to load action cache index data")
  let records ← (Log.verdict (K := Slot) (V := Bytes) l.mapFiles Cache.format cwd d).mapError
    (.loading "failed to load action cache data")
  Memory.judged ⟨names, DurableMap.replay records⟩

/-- A program that reads comes to what the files say, or it was refused one of them. -/
def Faults.Told {α : Type} (faults : Faults) (said r : Except StoreError α) : Prop :=
  r = said ∨ faults.refusals ∧ ∃ file refusal, r = .error (.io file refusal)

theorem Faults.told_none {α : Type} {said r : Except StoreError α} :
    Faults.none.Told said r ↔ r = said :=
  or_iff_left fun refused => refused.1

variable {faults : Faults} {cwd : Place} {d : Disk}

namespace Log

theorem always_contentAt (p : Path) : Always faults cwd (content p) d fun r d' =>
    d' = d ∧ faults.Told (d.contentAt cwd p) r := by
  refine Always.bind (always_request.mpr fun reply d' answer => answers_read answer) ?_
  rintro reply d' ⟨rfl, rfl | ⟨may, e, other, rfl⟩⟩
  · exact always_pure.mpr ⟨rfl, .inl rfl⟩
  · refine always_pure.mpr ⟨rfl, .inr ⟨may, p, e, ?_⟩⟩
    cases e <;> first | rfl | exact absurd rfl other

theorem always_told {K V : Type} [Stored K] [Stored V] (files : LogFiles)
    (format : StoreFormat) : Always faults cwd (Log.open (K := K) (V := V) files format) d
      fun r d' => d' = d ∧
        faults.Told ((verdict files format cwd d).map ({ files, format }, ·)) r := by
  unfold verdict
  refine Always.bind (always_contentAt files.snapshot) ?_
  rintro snapshot d' ⟨rfl, rfl | ⟨may, file, e, rfl⟩⟩
  case inr => exact always_pure.mpr ⟨rfl, .inr ⟨may, file, e, rfl⟩⟩
  cases d'.contentAt cwd files.snapshot with
  | error e => exact always_pure.mpr ⟨rfl, .inl rfl⟩
  | ok raw =>
    simp only [Bind.bind, Except.bind]
    cases StoreFile.readSnapshot (K := K) (V := V) files.snapshot format raw with
    | error e => exact always_pure.mpr ⟨rfl, .inl rfl⟩
    | ok pairs =>
      refine Always.bind (always_contentAt files.journal) ?_
      rintro journal d₁ ⟨rfl, rfl | ⟨may, file, e, rfl⟩⟩
      case inr => exact always_pure.mpr ⟨rfl, .inr ⟨may, file, e, rfl⟩⟩
      cases d₁.contentAt cwd files.journal with
      | error e => exact always_pure.mpr ⟨rfl, .inl rfl⟩
      | ok raw' =>
        simp only [Except.map]
        cases StoreFile.readJournal (K := K) (V := V) files.journal format raw' with
        | error e => exact always_pure.mpr ⟨rfl, .inl rfl⟩
        | ok records => exact always_pure.mpr ⟨rfl, .inl rfl⟩

theorem always_verdict {K V : Type} [Stored K] [Stored V] (files : LogFiles)
    (format : StoreFormat) : Always .none cwd (Log.open (K := K) (V := V) files format) d
      fun r d' => d' = d ∧ r = (verdict files format cwd d).map ({ files, format }, ·) :=
  (always_told files format).mono fun _ _ told => told.imp_right Faults.told_none.mp

end Log

theorem Index.always_told (files : LogFiles) (interval : Nat) :
    Always faults cwd (Index.open files interval) d fun r d' => d' = d ∧ ∃ gate,
      faults.Told ((verdict files cwd d).map fun names => ⟨names, { files, format }, gate⟩) r := by
  unfold verdict
  refine Always.bind always_tick ?_
  rintro now d rfl
  refine Always.bind (Log.always_told files format) ?_
  rintro r d' ⟨rfl, rfl | ⟨may, file, e, rfl⟩⟩
  case inr => exact always_pure.mpr ⟨rfl, .start interval now, .inr ⟨may, file, e, rfl⟩⟩
  cases Log.verdict (K := PathId) (V := String) files format cwd d' with
  | error e => exact always_pure.mpr ⟨rfl, .start interval now, .inl rfl⟩
  | ok records =>
    simp only [Bind.bind, Except.bind, Except.map]
    cases Names.ofRecords records with
    | error fault => exact always_pure.mpr ⟨rfl, .start interval now, .inl rfl⟩
    | ok names => exact always_pure.mpr ⟨rfl, _, .inl rfl⟩

theorem Index.always_verdict (files : LogFiles) (interval : Nat) :
    Always .none cwd (Index.open files interval) d fun r d' => d' = d ∧
      ∃ gate, r = (verdict files cwd d).map fun names => ⟨names, { files, format }, gate⟩ :=
  (always_told files interval).mono fun _ _ told =>
    told.imp_right fun ⟨gate, told⟩ => ⟨gate, Faults.told_none.mp told⟩

theorem DurableMap.always_told {K V : Type} [DecidableEq K] [Stored K] [Stored V]
    (files : LogFiles) (format : StoreFormat) :
    Always faults cwd (DurableMap.open (K := K) (V := V) files format) d fun r d' => d' = d ∧
      faults.Told ((Log.verdict files format cwd d).map fun records =>
        ⟨replay records, { files, format }⟩) r := by
  refine Always.bind (Log.always_told files format) ?_
  rintro r d' ⟨rfl, rfl | ⟨may, file, e, rfl⟩⟩
  case inr => exact always_pure.mpr ⟨rfl, .inr ⟨may, file, e, rfl⟩⟩
  cases Log.verdict (K := K) (V := V) files format cwd d' with
  | error e => exact always_pure.mpr ⟨rfl, .inl rfl⟩
  | ok records => exact always_pure.mpr ⟨rfl, .inl rfl⟩

theorem DurableMap.always_verdict {K V : Type} [DecidableEq K] [Stored K] [Stored V]
    (files : LogFiles) (format : StoreFormat) :
    Always .none cwd (DurableMap.open (K := K) (V := V) files format) d fun r d' => d' = d ∧
      r = (Log.verdict files format cwd d).map fun records =>
        ⟨replay records, { files, format }⟩ :=
  (always_told files format).mono fun _ _ told => told.imp_right Faults.told_none.mp

theorem mapError_ok {ε ε' α : Type} (f : ε → ε') (a : α) :
    (Except.ok a : Except ε α).mapError f = .ok a :=
  rfl

namespace Cache
variable {layout : Layout}

/-- A load comes to what the files hold, or to the first stage that fails, unless it is refused a
file. -/
theorem always_told (layout : Layout) (options : Options) :
    Always faults cwd (load layout options) d fun res d' => d' = d ∧
      (res.map memory = layout.verdict cwd d ∨ faults.refusals ∧
        ∃ stage file refusal, res = .error (.loading stage (.io file refusal))) := by
  unfold Layout.verdict
  refine Always.bind (Index.always_told layout.indexFiles options.journalInterval) ?_
  rintro res d' ⟨rfl, gate, rfl | ⟨may, file, e, rfl⟩⟩
  case inr => exact always_pure.mpr ⟨rfl, .inr ⟨may, _, file, e, rfl⟩⟩
  cases Index.verdict layout.indexFiles cwd d' with
  | error e => exact always_pure.mpr ⟨rfl, .inl rfl⟩
  | ok names =>
    refine Always.bind always_tick ?_
    rintro now d' rfl
    refine Always.bind (DurableMap.always_told layout.mapFiles format) ?_
    rintro res d' ⟨rfl, rfl | ⟨may, file, e, rfl⟩⟩
    case inr => exact always_pure.mpr ⟨rfl, .inr ⟨may, _, file, e, rfl⟩⟩
    cases Log.verdict (K := Slot) (V := Bytes) layout.mapFiles format cwd d' with
    | error e => exact always_pure.mpr ⟨rfl, .inl rfl⟩
    | ok records =>
      simp only [mapError_ok, Bind.bind, Except.bind, Except.map, Memory.judged]
      by_cases nothing : (DurableMap.replay records).isEmpty = true
      · rw [if_pos nothing, if_pos nothing]
        exact always_pure.mpr ⟨rfl, .inl rfl⟩
      · rw [if_neg nothing, if_neg nothing]
        cases validate (DurableMap.replay records) names.size with
        | error fault => exact always_pure.mpr ⟨rfl, .inl rfl⟩
        | ok u => exact always_pure.mpr ⟨rfl, .inl rfl⟩

theorem always_verdict (layout : Layout) (options : Options) :
    Always .none cwd (load layout options) d fun res d' => d' = d ∧
      res.map memory = layout.verdict cwd d :=
  (always_told layout options).mono fun _ _ told =>
    told.imp_right (·.resolve_right fun refused => refused.1)

end Cache

section Tells
variable {layout : Layout} {r : Place} {ns : Names} {told : List (Record PathId String)}
  {told' : List (Record Slot Bytes)}

theorem Disk.Leads.contentAt {path : Path} {p : Place} (leads : d.Leads cwd path p) :
    d.contentAt cwd path = .ok (d.content p) := by
  rw [Disk.contentAt, leads.read, content]
  cases d.file? p <;> rfl

namespace Log
variable {K V : Type} [Stored K] [Stored V] [Metered K] [Metered V] [Tangible K]
  {format : StoreFormat} {files : LogFiles} {shelf : Shelf} {told : List (Record K V)}

/-- What the store wrote is read as it was written, or some record is too long. -/
theorem verdict_of_tells (holds : shelf.Holds files cwd d)
    (tells : Tells Metered.Sized shelf format d told) :
    verdict files format cwd d = .ok told ∨ (¬∀ rec ∈ told, Fits rec) ∧
      ∃ e, verdict (K := K) (V := V) files format cwd d = .error e ∧ ¬e.isIncompatible := by
  obtain ⟨⟨pairs, rs, isSnapshot, isJournal, rfl⟩, sized⟩ := tells
  have sizedPairs : ∀ e ∈ pairs, Metered.Sized e := fun e mem =>
    sized (.put e.1 e.2) (List.mem_append_left _ (List.mem_map_of_mem mem))
  unfold verdict
  rw [holds.snapshot.contentAt, holds.journal.contentAt]
  simp only [Bind.bind, Except.bind]
  cases first : StoreFile.readSnapshot (K := K) (V := V) files.snapshot format
      (d.content shelf.snapshot) with
  | error e =>
    refine .inr ⟨fun fit => ?_, e, rfl, StoreFile.readSnapshot_other isSnapshot first⟩
    have fitPairs : ∀ e ∈ pairs, Fits e := fun e mem =>
      Fits.pair (fit (.put e.1 e.2) (List.mem_append_left _ (List.mem_map_of_mem mem)))
    rw [StoreFile.readSnapshot_eq files.snapshot isSnapshot fitPairs] at first
    cases first
  | ok read =>
    rw [StoreFile.eq_of_readSnapshot isSnapshot sizedPairs first]
    cases second : StoreFile.readJournal (K := K) (V := V) files.journal format
        (d.content shelf.journal) with
    | error e =>
      refine .inr ⟨fun fit => ?_, e, rfl, StoreFile.readJournal_other isJournal second⟩
      rw [StoreFile.readJournal_eq files.journal isJournal
        fun rec mem => fit rec (List.mem_append_right _ mem)] at second
      cases second
    | ok read =>
      rw [StoreFile.eq_of_readJournal isJournal
        (fun rec mem => sized rec (List.mem_append_right _ mem)) second]
      exact .inl rfl

end Log

/-- The names that are read are told by the records in the files. -/
theorem Index.verdict_eq_ok {files : LogFiles} : verdict files cwd d = .ok ns ↔
    ∃ told, Log.verdict files format cwd d = .ok told ∧ Names.Spells told ns ∧ ns.Sound := by
  unfold verdict
  cases Log.verdict (K := PathId) (V := String) files format cwd d with
  | error e =>
    constructor
    · exact nofun
    · rintro ⟨_, read, _⟩
      cases read
  | ok told =>
    change (Names.ofRecords told).mapError _ = .ok ns ↔ _
    constructor
    · intro read
      cases names : Names.ofRecords told with
      | error fault =>
        rw [names] at read
        cases read
      | ok ms =>
        rw [names] at read
        cases read
        exact ⟨told, rfl, Names.ofRecords_eq_ok.mp names⟩
    · rintro ⟨_, ⟨⟩, spelled⟩
      rw [Names.ofRecords_eq_ok.mpr spelled]
      rfl

theorem Index.verdict_of_tells {files : LogFiles} {shelf : Shelf} (holds : shelf.Holds files cwd d)
    (tells : Log.Tells Metered.Sized shelf format d told) (spells : Names.Spells told ns)
    (sound : ns.Sound) :
    verdict files cwd d = .ok ns ∨ (¬∀ rec ∈ told, Fits rec) ∧
      ∃ e, verdict files cwd d = .error e ∧ ¬e.isIncompatible := by
  rcases Log.verdict_of_tells holds tells with read | ⟨long, e, read, other⟩
  · exact .inl (verdict_eq_ok.mpr ⟨told, read, spells, sound⟩)
  · rw [verdict, read]
    exact .inr ⟨long, e, rfl, other⟩

/-- What the four files hold, if none of their records is too long. -/
theorem Layout.verdict_of_tells (lives : layout.Lives cwd r d)
    (index : Log.Tells Metered.Sized (Layout.home r).index Index.format d told)
    (map : Log.Tells Metered.Sized (Layout.home r).map Cache.format d told')
    (spells : Names.Spells told ns) (sound : ns.Sound) :
    layout.verdict cwd d = Memory.judged ⟨ns, DurableMap.replay told'⟩ ∨
      (¬((∀ rec ∈ told, Fits rec) ∧ ∀ rec ∈ told', Fits rec)) ∧
        ∃ e, layout.verdict cwd d = .error e ∧ ¬e.isIncompatible := by
  unfold verdict
  rcases Index.verdict_of_tells lives.index index spells sound with read | ⟨long, e, read, other⟩
  · rcases Log.verdict_of_tells lives.map map with read' | ⟨long, e, read', other⟩
    · rw [read, read']
      exact .inl rfl
    · rw [read, read']
      exact .inr ⟨fun fit => long fit.2, _, rfl, other⟩
  · rw [read]
    exact .inr ⟨fun fit => long fit.1, _, rfl, other⟩

end Tells
end BuildCache
