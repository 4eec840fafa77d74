import BuildCache.Proofs.Indexing
import BuildCache.Proofs.Mirrors
import BuildCache.Proofs.Outgrowing
import Mathlib.Logic.Relation

/-!
The identities of names over any number of sessions. At any time some names are durable: the files
spell them, whatever the order in which batches were written. The others are pending, and a session
that ends without them leaves their identities to other names.

The files may come from anyone as long as they open. Names may be longer than a record may be when
it is read, and then it is not true that the files open again.
-/
namespace BuildCache

open Disk Program

namespace Index
variable {faults : Faults} {cwd : Place} {files : LogFiles} {shelf : Shelf} {start d d' : Disk}
  {index index' : Index} {ns durable : Names} {name : String} {interval : Nat}
  {told : List (Record PathId String)}

/-- What a request for the identity of a name answers, and the names after it. -/
inductive Interned (ns : Names) (name : String) : Except EncodeFault PathId → Names → Prop
  | known (id : PathId) (known : ns.name? id = some name) : Interned ns name (.ok id) ns
  | new (id : PathId) (new : name ∉ ns.toList) (next : id.toNat = ns.size) :
    Interned ns name (.ok id) ⟨ns.toList ++ [name]⟩
  /-- There is no identity left. -/
  | exhausted (new : name ∉ ns.toList) (full : ns.size = Names.capacity) :
    Interned ns name (.error (.idsExhausted name)) ns

/-- A new name is noted under the next identity, and journaled at once if the gate fires. -/
structure Allotted (faults : Faults) (shelf : Shelf) (index : Index) (name : String) (d : Disk)
    (index' : Index) (d' : Disk) : Prop where
  names : index'.names = ⟨index.names.toList ++ [name]⟩
  sound : index'.names.Sound
  noted : ∃ now, index'.gate = (index.gate.tryFire now).2 ∧
    ((index.gate.tryFire now).1 = false ∧ d' = d ∧
        index'.log = index.log.noted (UInt32.ofNat index.names.size) (some name) ∨
      (index.gate.tryFire now).1 = true ∧ ∃ wrote, index'.log = (Log.settle wrote).2 ∧
        Log.Wrote faults (index.log.noted (UInt32.ofNat index.names.size) (some name)) shelf d
          wrote d')

theorem mappingsFrom_size (ns : Names) : ns.mappingsFrom ns.size = [] := by
  rw [Names.mappingsFrom, Names.size, List.drop_length]
  rfl

theorem mappingsFrom_snoc (ns : Names) (name : String) :
    Names.mappingsFrom ⟨ns.toList ++ [name]⟩ ns.size = [(UInt32.ofNat ns.size, name)] := by
  rw [Names.mappingsFrom, Names.size, List.drop_left]
  rfl

theorem always_intern (stands : index.log.Stands shelf cwd d) (sound : index.names.Sound)
    (name : String) :
    Always faults cwd (index.intern name) d fun r d' => Touches [shelf.journal] d d' ∧
      r.2.log.Stands shelf cwd d' ∧ Interned index.names name r.1 r.2.names ∧
      (r.2 = index ∧ d' = d ∨ Allotted faults shelf index name d r.2 d') := by
  have idle : Touches [shelf.journal] d d := .refl stands.holds.sound
  have sound' := sound.intern name
  unfold intern adopt
  rcases Names.intern_cases index.names name with ⟨id, known, eq⟩ | ⟨new, room, eq⟩ | ⟨full, eq⟩
  · rw [eq]
    dsimp only
    rw [mappingsFrom_size]
    have here := (Names.id?_eq_some sound).mp known
    exact always_pure.mpr ⟨idle, stands, .known id here, .inl ⟨rfl, rfl⟩⟩
  · rw [eq] at sound' ⊢
    dsimp only at sound' ⊢
    rw [mappingsFrom_snoc]
    have value : (UInt32.ofNat index.names.size).toNat = index.names.size :=
      UInt32.toNat_ofNat_of_lt' room
    refine Always.bind (always_bind.mpr (always_request.mpr fun now d₁ answer => ?_))
      fun index' d' noted => always_pure.mpr noted
    obtain rfl := answers_tick answer
    refine Always.bind (Log.always_record stands _ _ _) ?_
    rintro log d₂ ⟨touches, stands', recorded⟩
    refine always_pure.mpr ⟨touches, stands', .new _ new value, .inr ⟨rfl, sound', now, rfl, ?_⟩⟩
    rcases recorded with ⟨quiet, log_, same⟩ | ⟨due, wrote, cases_, log_⟩
    · exact .inl ⟨quiet, same, log_⟩
    · exact .inr ⟨due, wrote, log_, cases_⟩
  · rw [eq]
    dsimp only
    rw [mappingsFrom_size]
    rcases full with ⟨new, full⟩ | excess
    · exact always_pure.mpr ⟨idle, stands, .exhausted new full, .inl ⟨rfl, rfl⟩⟩
    · exact absurd sound.room (Nat.not_le.mpr excess)

/-- An allotment shows in the journal exactly if the gate fires. -/
theorem Allotted.journal_ne_iff (allotted : Allotted .none shelf index name d index' d') :
    ∃ now, index'.gate = (index.gate.tryFire now).2 ∧
      (d'.content shelf.journal ≠ d.content shelf.journal ↔
        (index.gate.tryFire now).1 = true) := by
  obtain ⟨now, gate, ⟨quiet, rfl, _⟩ | ⟨due, wrote, _, cases_⟩⟩ := allotted.noted
  · refine ⟨now, gate, iff_of_false (not_not_intro rfl) ?_⟩
    rw [quiet]
    exact Bool.false_ne_true
  · have changed := cases_.journal_ne Faults.not_possible_none (Log.pending_noted_ne _ _ _)
    exact ⟨now, gate, iff_of_true changed due⟩

/-- An open index with its disk, and with the names as they were when everything was last known to
be written. -/
structure Stage where
  index : Index
  disk : Disk
  sure : Names

/-- After a request for an identity. Everything is written if the journal has changed. -/
def Stage.interned (s : Stage) (shelf : Shelf) (index : Index) (d : Disk) : Stage where
  index
  disk := d
  sure := if d.content shelf.journal = s.disk.content shelf.journal then s.sure else index.names

theorem Stage.interned_idle (s : Stage) (shelf : Shelf) (index : Index) :
    s.interned shelf index s.disk = ⟨index, s.disk, s.sure⟩ := by
  rw [interned, if_pos rfl]

/-- What may happen in a session. A name is only as long as a word can tell. -/
inductive Step (shelf : Shelf) (cwd : Place) (s : Stage) : Stage → Prop
  | intern (name : String) (word : Metered.Sized name) {r : Except EncodeFault PathId}
      {index : Index} {d : Disk} (run : Runs .none cwd (s.index.intern name) s.disk (r, index) d) :
    Step shelf cwd s (s.interned shelf index d)
  | flush {r : Except StoreError Unit} {index : Index} {d : Disk}
      (run : Runs .none cwd s.index.flush s.disk (r, index) d) :
    Step shelf cwd s ⟨index, d, index.names⟩
  | save {r : Except StoreError Nat} {index : Index} {d : Disk}
      (run : Runs .none cwd s.index.save s.disk (r, index) d) :
    Step shelf cwd s ⟨index, d, index.names⟩
  /-- Other files change. -/
  | elsewhere (others : List Place) {d : Disk} (touches : Touches others s.disk d)
      (apart : ∀ p ∈ shelf.places, p ∉ others) : Step shelf cwd s { s with disk := d }

/-- A step of a session, or the end of one, with or without a save, and the start of another. -/
inductive Move (files : LogFiles) (shelf : Shelf) (cwd : Place) (s : Stage) : Stage → Prop
  | step {s' : Stage} (step : Step shelf cwd s s') : Move files shelf cwd s s'
  | reopen {interval : Nat} {index : Index} {d : Disk}
      (opening : Runs .none cwd (Index.open files interval) s.disk (.ok index) d) :
    Move files shelf cwd s ⟨index, d, index.names⟩

/-- The stages that sessions on a disk can come to. -/
inductive Course (files : LogFiles) (shelf : Shelf) (cwd : Place) (start : Disk) : Stage → Prop
  | opened {interval : Nat} {index : Index} {d : Disk}
      (opening : Runs .none cwd (Index.open files interval) start (.ok index) d) :
    Course files shelf cwd start ⟨index, d, index.names⟩
  | next {s s' : Stage} (course : Course files shelf cwd start s)
      (move : Move files shelf cwd s s') : Course files shelf cwd start s'

/-- The files have these records, and they spell the names. -/
structure Spelled (files : LogFiles) (shelf : Shelf) (d : Disk) (told : List (Record PathId String))
    (durable : Names) : Prop where
  yields : ∃ pairs records, told = Record.puts pairs ++ records ∧
    Log.Yields Metered.Sized shelf files format d pairs records
  spells : Names.Spells told durable

/-- The files spell the durable names, which begin the names of the index; what is missing in the
files is pending. -/
structure Steady (files : LogFiles) (shelf : Shelf) (cwd : Place) (s : Stage) (durable : Names) :
    Prop where
  sound : s.index.names.Sound
  sized : ∀ name ∈ s.index.names.toList, Metered.Sized name
  stands : s.index.log.Stands shelf cwd s.disk
  source : s.index.log.files = files
  format : s.index.log.format = Index.format
  front : durable.Prefix s.index.names
  sure : s.sure.Prefix durable
  pending : ∀ r ∈ Log.records s.index.log.pending, s.index.names.Tells r ∧ Metered.Sized r
  told : ∃ told, Spelled files shelf s.disk told durable ∧ Noted s.index.names s.index.log told
  clean : s.index.log.dirty = false → durable = s.index.names

theorem Steady.holds {s : Stage} (steady : Steady files shelf cwd s durable) :
    shelf.Holds files cwd s.disk :=
  steady.source ▸ steady.stands.holds

theorem Spelled.sameAt (spelled : Spelled files shelf d told durable)
    (same : SameAt shelf.places d d') : Spelled files shelf d' told durable where
  yields := by
    obtain ⟨pairs, records, eq, yields⟩ := spelled.yields
    exact ⟨pairs, records, eq, yields.sameAt same⟩
  spells := spelled.spells

/-- Within the limit the files are read as the names that they spell. -/
theorem Spelled.verdict_eq (spelled : Spelled files shelf d told durable)
    (holds : shelf.Holds files cwd d) (sound : durable.Sound)
    (fit : ∀ id name, durable.name? id = some name → Fits (Record.put id name)) :
    verdict files cwd d = .ok durable := by
  obtain ⟨pairs, records, rfl, yields⟩ := spelled.yields
  have each : ∀ r ∈ Record.puts pairs ++ records, Fits r := by
    intro r mem
    have tells := spelled.spells.tells r mem
    cases r with
    | put id name => exact fit id name tells
    | remove id => exact tells.elim
  have yields' : Log.Yields Fits shelf files format d pairs records := by
    refine ⟨yields.snapshot, yields.journal, fun e mem => .inr ?_, fun r mem => .inl ?_⟩
    · exact each _ (List.mem_append_left _ (List.mem_map_of_mem mem))
    · exact each r (List.mem_append_right _ mem)
  exact verdict_eq_ok.mpr ⟨_, yields'.verdict_eq holds, spelled.spells, sound⟩

/-- Whatever the length of the names, no others are read. -/
theorem Spelled.eq_of_verdict (spelled : Spelled files shelf d told durable)
    (holds : shelf.Holds files cwd d) (sound : durable.Sound)
    (read : verdict files cwd d = .ok ns) : ns = durable := by
  obtain ⟨told', records, spells, sound'⟩ := verdict_eq_ok.mp read
  obtain ⟨_, _, rfl, yields⟩ := spelled.yields
  obtain rfl := yields.eq_of_verdict holds records
  have first := Names.ofRecords_eq_ok.mpr ⟨spells, sound'⟩
  have second := Names.ofRecords_eq_ok.mpr ⟨spelled.spells, sound⟩
  exact Except.ok.inj (first.symm.trans second)

/-- Behind a write of the journal the files spell all names. -/
theorem Spelled.wrote {log : Log PathId String} {r : Except StoreError Nat × Log PathId String}
    (spelled : Spelled files shelf d told durable) (sound : ns.Sound) (front : durable.Prefix ns)
    (format_ : log.format = Index.format) (noted : Noted ns log told)
    (pending : ∀ r ∈ Log.records log.pending, ns.Tells r ∧ Metered.Sized r)
    (wrote : Log.Wrote .none log shelf d r d') : ∃ told', Spelled files shelf d' told' ns := by
  obtain ⟨pairs, records, rfl, yields⟩ := spelled.yields
  have old : ∀ r ∈ Record.puts pairs ++ records, ns.Tells r :=
    fun r mem => (spelled.spells.tells r mem).of_front front
  cases wrote with
  | idle nothing =>
    -- With nothing pending, what was noted is in the files already.
    refine ⟨_, ⟨pairs, records, rfl, yields⟩, Names.spells_of_put sound.room old ?_⟩
    intro id name known
    rcases noted id name known with mem | new
    · exact mem
    · rw [nothing] at new
      cases new
  | failed _ _ _ may => exact absurd may Faults.not_possible_none
  | appended batch h d' some_ perm snapshot content =>
    have new := Log.each_records perm pending
    rw [format_] at content
    have yields' := yields.append (fun r mem => (new r mem).2) snapshot content
    refine ⟨_, ⟨pairs, _, rfl, yields'⟩, ?_⟩
    rw [← List.append_assoc]
    refine Names.spells_of_put sound.room (fun r mem => ?_) (noted.wrote perm)
    rcases List.mem_append.mp mem with mem | mem
    · exact old r mem
    · exact (new r mem).1

/-- Behind a save the files spell all names. -/
theorem Spelled.saved {log : Log PathId String} {r : Except StoreError Nat × Log PathId String}
    (spelled : Spelled files shelf d told durable) (sound : ns.Sound)
    (sized : ∀ name ∈ ns.toList, Metered.Sized name) (format_ : log.format = Index.format)
    (clean : log.dirty = false → durable = ns)
    (saved : Log.Saved .none log ns.mappings keepJournal shelf d r d') :
    ∃ told', Spelled files shelf d' told' ns := by
  have bring {log : Log PathId String} {r d d'} (format_ : log.format = Index.format)
      (rest : Log.Brought .none log ns.mappings keepJournal shelf d r d') :
      ∃ told', Spelled files shelf d' told' ns := by
    cases rest with
    -- An index never keeps its journal: the snapshot alone has to spell the names.
    | kept _ _ small => cases small
    | failed _ may => exact absurd may Faults.not_possible_none
    | compacted r d' compacted =>
      cases compacted with
      | early _ _ may => exact absurd may Faults.not_possible_none
      | late _ _ _ may => exact absurd may Faults.not_possible_none
      | done n es d' perm snapshot journal =>
        rw [format_] at snapshot
        have each : ∀ e ∈ es, Fits e ∨ Metered.Sized (Record.put e.1 e.2) := by
          rintro ⟨id, name⟩ mem
          have known := (mem_mappings sound).mp (perm.mem_iff.mp mem)
          exact .inr ⟨trivial, sized name (List.mem_of_getElem? known)⟩
        refine ⟨_, ⟨es, [], rfl, Log.yields_snapshot each snapshot journal⟩, ?_⟩
        rw [List.append_nil]
        exact spells_puts sound perm
  cases saved with
  | unchanged nothing =>
    obtain rfl := clean nothing
    exact ⟨told, spelled⟩
  | done n wrote after d₁ d' changed first rest =>
    exact bring ((Log.format_settle wrote).trans (first.format.trans format_)) rest
  | failed e wrote after d₁ d' changed first rest =>
    exact bring ((Log.format_settle wrote).trans (first.format.trans format_)) rest

/-- Once the files spell all names, all of them are durable. -/
theorem steady_of_spelled {sure : Names} (sound : index.names.Sound)
    (sized : ∀ name ∈ index.names.toList, Metered.Sized name)
    (stands : index.log.Stands shelf cwd d) (source : index.log.files = files)
    (format_ : index.log.format = Index.format)
    (pending : ∀ r ∈ Log.records index.log.pending, index.names.Tells r ∧ Metered.Sized r)
    (sure_ : sure.Prefix index.names) (spelled : Spelled files shelf d told index.names) :
    Steady files shelf cwd ⟨index, d, sure⟩ index.names where
  sound := sound
  sized := sized
  stands := stands
  source := source
  format := format_
  front := .refl _
  sure := sure_
  pending := pending
  told := ⟨told, spelled, .of_toldBy spelled.spells.toldBy⟩
  clean _ := rfl

/-- An index that opens has been read. -/
theorem read_of_open (opening : Runs .none cwd (Index.open files interval) start (.ok index) d) :
    d = start ∧ verdict files cwd start = .ok index.names ∧ index.log = { files, format } := by
  obtain ⟨rfl, gate, same⟩ := always_verdict files interval _ _ opening
  obtain ⟨names, read, rfl⟩ := map_eq_ok.mp same.symm
  exact ⟨rfl, read, rfl⟩

/-- Names that were read are short enough for that. -/
theorem fits_of_verdict (holds : shelf.Holds files cwd d) (read : verdict files cwd d = .ok ns) :
    ∀ id name, ns.name? id = some name → Fits (id, name) := by
  intro id name known
  obtain ⟨told, records, spells, _⟩ := verdict_eq_ok.mp read
  exact Log.fits_of_verdict holds records (spells.toldBy id name known)

theorem steady_of_open (holds : shelf.Holds files cwd start)
    (opening : Runs .none cwd (Index.open files interval) start (.ok index) d) :
    d = start ∧ Steady files shelf cwd ⟨index, d, index.names⟩ index.names := by
  obtain ⟨rfl, read, log⟩ := read_of_open opening
  obtain ⟨told, records, spells, sound⟩ := verdict_eq_ok.mp read
  refine ⟨rfl, steady_of_spelled sound ?_ ?_ ?_ ?_ ?_ (.refl _)
    ⟨Log.exists_yields_of_verdict holds records, spells⟩⟩
  · intro name mem
    obtain ⟨i, small, rfl⟩ := List.mem_iff_getElem.mp mem
    exact (fits_of_verdict holds read _ _ (Names.name?_ofNat sound.room small)).sized.2
  · rw [log]
    exact ⟨holds, nofun⟩
  · rw [log]
  · rw [log]
  · rw [log]
    exact nofun

section Noting
variable {s : Stage} {gate : Gate} {sure : Names}

/-- A new name that is only noted is not durable. -/
theorem Steady.noted (steady : Steady files shelf cwd s durable) (word : Metered.Sized name)
    (sound : Names.Sound ⟨s.index.names.toList ++ [name]⟩)
    (stands : (s.index.log.noted (UInt32.ofNat s.index.names.size) (some name)).Stands shelf cwd
      s.disk) :
    Steady files shelf cwd ⟨⟨⟨s.index.names.toList ++ [name]⟩,
      s.index.log.noted (UInt32.ofNat s.index.names.size) (some name), gate⟩, s.disk, s.sure⟩
      durable := by
  obtain ⟨told, spelled, noted⟩ := steady.told
  constructor
  · exact sound
  · exact List.forall_mem_append.mpr ⟨steady.sized, List.forall_mem_singleton.mpr word⟩
  · exact stands
  · exact steady.source
  · exact steady.format
  · exact steady.front.trans (List.prefix_append ..)
  · exact steady.sure
  · exact each_noted steady.pending sound ⟨trivial, word⟩
  · exact ⟨told, spelled, noted.next sound⟩
  · exact nofun

/-- A new name that is journaled is durable, and so is every other one then. -/
theorem Steady.journaled {wrote : Except StoreError Nat × Log PathId String}
    (steady : Steady files shelf cwd s durable) (word : Metered.Sized name)
    (sound : Names.Sound ⟨s.index.names.toList ++ [name]⟩)
    (stands : (Log.settle wrote).2.Stands shelf cwd d)
    (cases_ : Log.Wrote .none (s.index.log.noted (UInt32.ofNat s.index.names.size) (some name))
      shelf s.disk wrote d)
    (sure_ : sure.Prefix ⟨s.index.names.toList ++ [name]⟩) :
    Steady files shelf cwd ⟨⟨⟨s.index.names.toList ++ [name]⟩, (Log.settle wrote).2, gate⟩, d, sure⟩
      ⟨s.index.names.toList ++ [name]⟩ := by
  have front := steady.front.trans (List.prefix_append _ [name])
  have pending := each_noted steady.pending sound ⟨trivial, word⟩
  have format_ : (s.index.log.noted (UInt32.ofNat s.index.names.size) (some name)).format =
      Index.format := steady.format
  obtain ⟨told, spelled, noted⟩ := steady.told
  obtain ⟨_, spelled'⟩ := spelled.wrote sound front format_ (noted.next sound) pending cases_
  refine steady_of_spelled sound ?_ stands ?_ ?_ ?_ sure_ spelled'
  · exact List.forall_mem_append.mpr ⟨steady.sized, List.forall_mem_singleton.mpr word⟩
  · exact cases_.same_files.trans steady.source
  · exact (Log.format_settle wrote).trans (cases_.format.trans steady.format)
  · intro r mem
    rw [Log.pending_settle] at mem
    exact pending r (List.map_subset _ cases_.pending_sub mem)

/-- Behind a new name all that was durable is. -/
theorem Steady.allotted (steady : Steady files shelf cwd s durable)
    (word : Metered.Sized name) (stands : index'.log.Stands shelf cwd d')
    (allotted : Allotted .none shelf s.index name s.disk index' d') :
    ∃ durable', durable.Prefix durable' ∧
      Steady files shelf cwd (s.interned shelf index' d') durable' := by
  have sound := allotted.sound
  obtain ⟨names, log, gate⟩ := index'
  obtain ⟨rfl, _, now, _, ⟨_, rfl, rfl⟩ | ⟨_, wrote, rfl, cases_⟩⟩ := allotted
  · rw [Stage.interned_idle]
    exact ⟨durable, .refl _, steady.noted word sound stands⟩
  · have more := steady.front.trans (List.prefix_append _ [name])
    refine ⟨_, more, steady.journaled word sound stands cases_ ?_⟩
    split
    · exact steady.sure.trans more
    · exact .refl _

end Noting

/-- In a session names only come, and what is durable stays. -/
theorem Steady.step {s s' : Stage} (steady : Steady files shelf cwd s durable)
    (step : Step shelf cwd s s') : s.index.names.Prefix s'.index.names ∧
      ∃ durable', durable.Prefix durable' ∧ Steady files shelf cwd s' durable' := by
  cases step with
  | @intern name word r index' d' run =>
    obtain ⟨_, stands, _, ⟨rfl, rfl⟩ | allotted⟩ :=
      always_intern steady.stands steady.sound name _ _ run
    · rw [Stage.interned_idle]
      exact ⟨.refl _, durable, .refl _, steady⟩
    · refine ⟨?_, steady.allotted word stands allotted⟩
      have names := allotted.names
      exact names ▸ List.prefix_append ..
  | flush run =>
    obtain ⟨_, stands, wrote, log, rfl, cases_, _⟩ := always_flush steady.stands _ _ run
    obtain ⟨told, spelled, noted⟩ := steady.told
    obtain ⟨told', spelled'⟩ := spelled.wrote steady.sound steady.front steady.format noted
      steady.pending cases_
    have same := cases_.same_files
    rw [Log.settle_of_isOk (cases_.isOk Faults.not_possible_none)] at same
    refine ⟨.refl _, _, steady.front, steady_of_spelled steady.sound steady.sized stands
      (same.trans steady.source) (cases_.format.trans steady.format) ?_ (.refl _) spelled'⟩
    intro r mem
    exact steady.pending r (List.map_subset _ cases_.pending_sub mem)
  | save run =>
    obtain ⟨_, stands, log, rfl, saved⟩ := always_save steady.stands _ _ run
    obtain ⟨told, spelled, _⟩ := steady.told
    obtain ⟨told', spelled'⟩ := spelled.saved steady.sound steady.sized steady.format steady.clean
      saved
    obtain ⟨sub, same⟩ := saved.same
    refine ⟨.refl _, _, steady.front, steady_of_spelled steady.sound steady.sized stands
      (saved.same_files.trans steady.source) (same.trans steady.format) ?_ (.refl _) spelled'⟩
    intro r mem
    exact steady.pending r (List.map_subset _ sub mem)
  | elsewhere others touches apart =>
    obtain ⟨told, spelled, noted⟩ := steady.told
    have stands := steady.stands.of_touches touches (apart _ (by simp [Shelf.places]))
    exact ⟨.refl _, durable, .refl _, { steady with
      stands := stands
      told := ⟨told, spelled.sameAt (touches.sameAt apart), noted⟩ }⟩

/-- Another session finds the durable names, or one of them was too long for a record. -/
theorem Steady.reopened {s : Stage} {r : Except StoreError Index}
    (steady : Steady files shelf cwd s durable)
    (opening : Runs .none cwd (Index.open files interval) s.disk r d) :
    d = s.disk ∧ ((∃ index, r = .ok index ∧ index.names = durable) ∨ (∃ e, r = .error e) ∧
      ∃ id name, s.index.names.name? id = some name ∧ ¬Fits (Record.put id name)) := by
  obtain ⟨same, gate, eq⟩ := always_verdict files interval _ _ opening
  obtain ⟨told, spelled, _⟩ := steady.told
  have sound := steady.front.sound steady.sound
  refine ⟨same, ?_⟩
  cases read : verdict files cwd s.disk with
  | ok ns =>
    rw [read] at eq
    exact .inl ⟨_, eq, spelled.eq_of_verdict steady.holds sound read⟩
  | error e =>
    rw [read] at eq
    -- If every name were short enough, what the files spell would have been read.
    refine .inr ⟨⟨e, eq⟩, ?_⟩
    apply Classical.byContradiction
    intro none
    have fit : ∀ id name, durable.name? id = some name → Fits (Record.put id name) := by
      intro id name known
      apply Classical.byContradiction
      intro long
      exact none ⟨id, name, steady.front.name? known, long⟩
    rw [spelled.verdict_eq steady.holds sound fit] at read
    cases read

theorem Steady.move {s s' : Stage} (steady : Steady files shelf cwd s durable)
    (move : Move files shelf cwd s s') :
    ∃ durable', durable.Prefix durable' ∧ Steady files shelf cwd s' durable' := by
  cases move with
  | step step => exact (steady.step step).2
  | @reopen interval index d opening =>
    obtain ⟨_, ⟨_, eq, names⟩ | ⟨⟨e, eq⟩, _⟩⟩ := steady.reopened opening
    · cases eq
      exact ⟨index.names, names ▸ .refl _, (steady_of_open steady.holds opening).2⟩
    · cases eq

/-- What is durable stays so, whatever happens and over any number of sessions. -/
theorem Steady.moves {s s' : Stage} (steady : Steady files shelf cwd s durable)
    (moves : Relation.ReflTransGen (Move files shelf cwd) s s') :
    ∃ durable', durable.Prefix durable' ∧ Steady files shelf cwd s' durable' := by
  induction moves with
  | refl => exact ⟨durable, .refl _, steady⟩
  | tail _ move ih =>
    obtain ⟨durable₁, more, steady₁⟩ := ih
    obtain ⟨durable₂, more', steady₂⟩ := steady₁.move move
    exact ⟨durable₂, more.trans more', steady₂⟩

theorem Steady.steps {s s' : Stage} (steady : Steady files shelf cwd s durable)
    (steps : Relation.ReflTransGen (Step shelf cwd) s s') :
    s.index.names.Prefix s'.index.names := by
  have both : s.index.names.Prefix s'.index.names ∧
      ∃ durable', Steady files shelf cwd s' durable' := by
    induction steps with
    | refl => exact ⟨.refl _, durable, steady⟩
    | tail _ step ih =>
      obtain ⟨more, _, steady'⟩ := ih
      obtain ⟨more', durable'', _, steady''⟩ := steady'.step step
      exact ⟨more.trans more', durable'', steady''⟩
  exact both.1

theorem Course.steady {s : Stage} (course : Course files shelf cwd start s)
    (holds : shelf.Holds files cwd start) : ∃ durable, Steady files shelf cwd s durable := by
  induction course with
  | opened opening => exact ⟨_, (steady_of_open holds opening).2⟩
  | next _ move ih =>
    obtain ⟨durable, steady⟩ := ih
    obtain ⟨durable', _, steady'⟩ := steady.move move
    exact ⟨durable', steady'⟩

/-- The names and the numbers below their count determine each other. -/
structure Numbered (ns : Names) : Prop where
  room : ns.size ≤ Names.capacity
  dense : ∀ id : PathId, id.toNat < ns.size ↔ ∃ name, ns.name? id = some name
  inverse : ∀ id name, ns.id? name = some id ↔ ns.name? id = some name

theorem numbered_of_sound (sound : ns.Sound) : Numbered ns where
  room := sound.room
  dense id := by
    constructor
    · intro small
      exact ⟨_, List.getElem?_eq_getElem small⟩
    · rintro ⟨name, known⟩
      exact Names.lt_size_of_name? known
  inverse _ _ := Names.id?_eq_some sound

/-- What is true of an index at every stage that sessions come to. -/
structure Stable (files : LogFiles) (shelf : Shelf) (cwd : Place) (s : Stage) : Prop where
  numbered : Numbered s.index.names
  /-- The gate is asked for a new name only, and the journal shows its answer. -/
  interned : ∀ name r index d, Runs .none cwd (s.index.intern name) s.disk (r, index) d →
    Interned s.index.names name r index.names ∧ (index = s.index ∧ d = s.disk ∨
      ∃ now, index.gate = (s.index.gate.tryFire now).2 ∧
        (d.content shelf.journal ≠ s.disk.content shelf.journal ↔
          (s.index.gate.tryFire now).1 = true))
  /-- No pair changes in a session. -/
  kept : ∀ s', Relation.ReflTransGen (Step shelf cwd) s s' → s.index.names.Prefix s'.index.names
  /-- No pair that was written changes in any session. -/
  durable : ∀ s', Relation.ReflTransGen (Move files shelf cwd) s s' →
    s.sure.Prefix s'.index.names
  opens : ∀ interval, ∃ r d, Runs .none cwd (Index.open files interval) s.disk r d
  /-- Another session has the names that were written and perhaps more, but no others, as long as no
  name is too long for a record. -/
  reopened : ∀ interval r d, Runs .none cwd (Index.open files interval) s.disk r d → d = s.disk ∧
    ((∃ index, r = .ok index ∧ s.sure.Prefix index.names ∧ index.names.Prefix s.index.names) ∨
      (∃ e, r = .error e) ∧
        ∃ id name, s.index.names.name? id = some name ∧ ¬Fits (Record.put id name))

/-- Identities are dense and stable, and once they are written no session gives them to other names.
-/
theorem stable_of_course {s : Stage} (holds : shelf.Holds files cwd start)
    (course : Course files shelf cwd start s) : Stable files shelf cwd s := by
  obtain ⟨durable, steady⟩ := course.steady holds
  constructor
  · exact numbered_of_sound steady.sound
  · intro name r index d run
    obtain ⟨_, _, interned, same | allotted⟩ :=
      always_intern steady.stands steady.sound name _ _ run
    · exact ⟨interned, .inl same⟩
    · exact ⟨interned, .inr allotted.journal_ne_iff⟩
  · intro s' steps
    exact steady.steps steps
  · intro s' moves
    obtain ⟨durable', more, steady'⟩ := steady.moves moves
    exact (steady.sure.trans more).trans steady'.front
  · intro interval
    exact exists_runs ..
  · intro interval r d opening
    obtain ⟨same, ⟨index, eq, rfl⟩ | refused⟩ := steady.reopened opening
    · exact ⟨same, .inl ⟨index, eq, steady.sure, steady.front⟩⟩
    · exact ⟨same, .inr refused⟩

/-- An empty index, just opened. -/
def sampleOpened : Index := ⟨.empty, { files := Layout.sample.indexFiles, format }, .start 1000 0⟩

theorem course_sample : Course Layout.sample.indexFiles (Layout.home ["cache"]).index [] .sample
    ⟨sampleOpened, .sample, .empty⟩ := by
  have opening : Runs .none [] (Index.open Layout.sample.indexFiles 1000) .sample
      (.ok sampleOpened) .sample :=
    runs_run .none (Index.open Layout.sample.indexFiles 1000) (Situation.host [] .sample)
  exact .opened opening

/-- The stage behind a request, on a host whose clocks stand still. -/
def Stage.intern (s : Stage) (shelf : Shelf) (name : String) : Stage :=
  let r := (s.index.intern name).run (Situation.host [] s.disk)
  s.interned shelf r.1.2 r.2.disk

def Stage.flush (s : Stage) : Stage :=
  let r := s.index.flush.run (Situation.host [] s.disk)
  ⟨r.1.2, r.2.disk, r.1.2.names⟩

theorem Course.intern {s : Stage} (course : Course files shelf [] start s)
    (word : Metered.Sized name) : Course files shelf [] start (s.intern shelf name) :=
  course.next (.step (.intern name word (runs_run .none _ (Situation.host [] s.disk))))

theorem Course.flush {s : Stage} (course : Course files shelf [] start s) :
    Course files shelf [] start s.flush :=
  course.next (.step (.flush (runs_run .none _ (Situation.host [] s.disk))))

/-- One name is written by a flush, and another one is not when the session ends. -/
theorem stable_of_course_sample : ∃ s index d,
    Course Layout.sample.indexFiles (Layout.home ["cache"]).index [] .sample s ∧
      s.index.names = ⟨["a", "b"]⟩ ∧
      Runs .none [] (Index.open Layout.sample.indexFiles 0) s.disk (.ok index) d ∧
      Names.Prefix ⟨["a"]⟩ index.names ∧ index.names.Prefix ⟨["a", "b"]⟩ := by
  let shelf := (Layout.home ["cache"]).index
  let first := Stage.intern ⟨sampleOpened, .sample, .empty⟩ shelf "a"
  let s := first.flush.intern shelf "b"
  have short : ∀ id, ∀ name ∈ ["a", "b"], Fits (Record.put (id : PathId) name) := by
    have each : ∀ name ∈ ["a", "b"], 4 + (4 + (8 + (Text.utf8 name).length)) ≤ recordLimit := by
      decide
    exact fun _ => each
  have word (name : String) (mem : name ∈ ["a", "b"]) : Metered.Sized name :=
    (short 0 name mem).sized.2
  have course : Course Layout.sample.indexFiles shelf [] .sample s :=
    (Course.flush (Course.intern course_sample (word "a" (by simp)))).intern (word "b" (by simp))
  have names : s.index.names = ⟨["a", "b"]⟩ := by decide +kernel
  have sure : s.sure = ⟨["a"]⟩ := by decide +kernel
  have stable := stable_of_course Layout.empty_sample.lives.index course
  obtain ⟨r, d, opening⟩ := stable.opens 0
  obtain ⟨_, ⟨index, rfl, some_, more⟩ | ⟨_, id, name, known, long⟩⟩ :=
    stable.reopened 0 r d opening
  · rw [sure] at some_
    rw [names] at more
    exact ⟨s, index, d, course, names, opening, some_, more⟩
  · rw [names] at known
    exact absurd (short id name (List.mem_of_getElem? known)) long

/-- A save that is done and after which no session opens the index again: there is a name in it that
takes as many bytes as a whole record may. -/
theorem unopened_of_save : ∃ s n index d,
    Course Layout.sample.indexFiles (Layout.home ["cache"]).index [] .sample s ∧
      Runs .none [] s.index.save s.disk (.ok n, index) d ∧
      (∃ r d', Runs .none [] (Index.open Layout.sample.indexFiles 0) d r d') ∧
      ∀ interval r d', Runs .none [] (Index.open Layout.sample.indexFiles interval) d r d' →
        ∃ e, r = .error e := by
  let shelf := (Layout.home ["cache"]).index
  have holds := Layout.empty_sample.lives.index
  obtain ⟨name, long⟩ := exists_long recordLimit
  have word : Metered.Sized name := by
    change (Text.utf8 name).length < UInt64.size
    rw [long]
    exact recordLimit_lt
  obtain ⟨_, steady⟩ := course_sample.steady holds
  obtain ⟨⟨r, index⟩, d, intern⟩ := exists_runs .none [] (sampleOpened.intern name) .sample
  have known : index.names.name? 0 = some name := by
    obtain ⟨_, _, interned, _⟩ := always_intern steady.stands steady.sound name _ _ intern
    change Interned .empty name r index.names at interned
    generalize index.names = names at interned
    cases interned with
    | known id known => cases known
    | new id new next => rfl
    | exhausted new full => cases full
  have course := course_sample.next (.step (.intern name word intern))
  obtain ⟨_, steady⟩ := course.steady holds
  obtain ⟨⟨r, index'⟩, d', save⟩ := exists_runs .none [] index.save d
  obtain ⟨_, _, _, same, saved⟩ := always_save steady.stands _ _ save
  have ok := saved.isOk Faults.not_possible_none
  cases r with
  | error e => cases ok
  | ok n =>
    refine ⟨_, n, index', d', course, save, exists_runs .., ?_⟩
    obtain ⟨durable, steady'⟩ := (course.next (.step (.save save))).steady holds
    intro interval r d'' opening
    obtain ⟨rfl, ⟨index'', rfl, names⟩ | ⟨refused, _⟩⟩ := steady'.reopened opening
    · have sure : index.names.Prefix durable := by
        have names' := congrArg Index.names same
        exact names' ▸ steady'.sure
      obtain ⟨_, read, _⟩ := read_of_open opening
      have short := fits_of_verdict steady'.holds read 0 name (names ▸ sure.name? known)
      change 4 + (8 + (Text.utf8 name).length) ≤ recordLimit at short
      omega
    · exact refused

end Index
end BuildCache
