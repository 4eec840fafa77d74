import BuildCache.Proofs.Situations

/-!
A cache keeps to the files of its layout. Which files those are is settled when it is opened, and
nothing that it does, or that is done to it, changes them, whatever the disk answers.
-/
namespace BuildCache

namespace Program
variable {α β : Type}

/-- The program can only end with a value of `Q`, whatever it is answered. -/
def Delivers (Q : α → Prop) : Program α → Prop
  | done a => Q a
  | ask _ next => ∀ reply, Delivers Q (next reply)

variable {P : α → Prop} {Q : β → Prop}

theorem delivers_pure {a : α} (holds : P a) : Delivers P (pure a) := holds

/-- A failure has no value that something could be asked of. -/
theorem delivers_failed {ε : Type} {e : ε} {b : β} {res : β → Except ε α}
    (failed : res b = .error e) : Delivers (fun b => ∀ a, res b = .ok a → P a) (pure b) := by
  refine delivers_pure fun a done => ?_
  rw [failed] at done
  cases done

theorem Delivers.bind {x : Program α} {f : α → Program β} (first : Delivers P x)
    (next : ∀ a, P a → Delivers Q (f a)) : Delivers Q (x >>= f) := by
  induction x with
  | done a => exact next a first
  | ask r rest ih => exact fun reply => ih reply (first reply)

/-- The value that comes first does not matter. -/
theorem delivers_bind {x : Program α} {f : α → Program β} (next : ∀ a, Delivers Q (f a)) :
    Delivers Q (x >>= f) := by
  induction x with
  | done a => exact next a
  | ask r rest ih => exact fun reply => ih reply

theorem Delivers.mono {p : Program α} {P P' : α → Prop} (delivers : Delivers P p)
    (imp : ∀ a, P a → P' a) : Delivers P' p := by
  induction p with
  | done a => exact imp a delivers
  | ask r next ih => exact fun reply => ih reply (delivers reply)

theorem Delivers.of_runs {p : Program α} {faults : Faults} {cwd : Place} {d d' : Disk} {a : α}
    (delivers : Delivers P p) (run : Runs faults cwd p d a d') : P a := by
  induction run with
  | done => exact delivers
  | ask _ _ ih => exact ih (delivers _)

end Program

open Program

namespace Log
variable {K V : Type} [Stored K] [Stored V] (log : Log K V)

omit [Stored K] [Stored V] in
theorem files_settle (r : Except StoreError Nat × Log K V) : (settle r).2.files = r.2.files := by
  obtain ⟨r, log⟩ := r
  cases r <;> rfl

theorem delivers_open (files : LogFiles) (format : StoreFormat) :
    Delivers (fun r => ∀ log rs, r = .ok (log, rs) → log = { files, format })
      (Log.open (K := K) (V := V) files format) := by
  refine delivers_bind fun snapshot => ?_
  cases snapshot with
  | error e => exact delivers_pure nofun
  | ok raw =>
    dsimp only
    split
    · exact delivers_pure nofun
    refine delivers_bind fun journal => ?_
    cases journal with
    | error e => exact delivers_pure nofun
    | ok raw =>
      dsimp only
      split
      · exact delivers_pure nofun
      · refine delivers_pure ?_
        rintro log rs ⟨⟩
        rfl

/-- A write of the journal concerns what is pending and the open journal, and nothing else. -/
theorem delivers_writeJournal_else :
    Delivers (fun r => r.2 = { log with pending := r.2.pending, journal := r.2.journal })
      log.writeJournal := by
  unfold writeJournal
  split
  · exact delivers_pure rfl
  refine delivers_bind fun ready => ?_
  cases ready with
  | error e => exact delivers_pure rfl
  | ok h =>
    refine delivers_bind fun pending => delivers_bind fun written => ?_
    cases written <;> exact delivers_pure rfl

theorem delivers_writeJournal : Delivers (fun r => r.2.files = log.files) log.writeJournal :=
  log.delivers_writeJournal_else.mono fun _ same => by rw [same]

theorem delivers_flush_else :
    Delivers (fun r => r.2 = { log with pending := r.2.pending, journal := r.2.journal })
      log.flush := by
  refine log.delivers_writeJournal_else.bind ?_
  rintro ⟨wrote, after⟩ same
  cases wrote with
  | error e => exact delivers_pure same
  | ok n => exact delivers_bind fun synced => delivers_pure same

theorem delivers_flush : Delivers (fun r => r.2.files = log.files) log.flush :=
  log.delivers_flush_else.mono fun _ same => by rw [same]

theorem delivers_record [DecidableEq K] (key : K) (value : Option V) (now : Bool) :
    Delivers (fun after => after.files = log.files) (log.record key value now) := by
  cases now with
  | false => exact delivers_pure rfl
  | true =>
    refine (log.noted key value).delivers_writeJournal.bind fun wrote same => ?_
    exact delivers_pure ((files_settle wrote).trans same)

theorem delivers_compact (entries : Table K V) (appended : Nat) :
    Delivers (fun r => r.2.files = log.files) (log.compact entries appended) := by
  refine delivers_bind fun es => delivers_bind fun replaced => ?_
  cases replaced with
  | error e => exact delivers_pure rfl
  | ok u =>
    refine delivers_bind fun removed => ?_
    cases removed <;> exact delivers_pure rfl

theorem delivers_bring (entries : Table K V) (keep : Nat → Nat → Bool) (appended : Nat) :
    Delivers (fun r => r.2.files = log.files) (log.bring entries keep appended) := by
  refine delivers_bind fun may => ?_
  cases may with
  | error e => exact delivers_pure rfl
  | ok kept =>
    cases kept with
    | false => exact log.delivers_compact entries appended
    | true =>
      refine delivers_bind fun synced => ?_
      cases synced <;> exact delivers_pure rfl

theorem delivers_saveChanged (entries : Table K V) (keep : Nat → Nat → Bool) :
    Delivers (fun r => r.2.files = log.files) (log.saveChanged entries keep) := by
  rw [saveChanged_eq]
  refine log.delivers_writeJournal.bind fun wrote same => ?_
  have rest := (settle wrote).2.delivers_bring entries keep (settle wrote).1
  rwa [files_settle, same] at rest

theorem delivers_save (entries : Table K V) (keep : Nat → Nat → Bool) :
    Delivers (fun r => r.2.files = log.files) (log.save entries keep) := by
  unfold save
  split
  · exact delivers_pure rfl
  refine ({ log with dirty := false }.delivers_saveChanged entries keep).bind ?_
  rintro ⟨saved, after⟩ same
  cases saved <;> exact delivers_pure same

end Log

namespace DurableMap
variable {K V : Type} [DecidableEq K] [Stored K] [Stored V] (m : DurableMap K V)

theorem delivers_open (files : LogFiles) (format : StoreFormat) :
    Delivers (fun r => ∀ m, r = .ok m → m.log = { files, format })
      (DurableMap.open (K := K) (V := V) files format) := by
  refine (Log.delivers_open files format).bind fun opened same => ?_
  cases opened with
  | error e => exact delivers_pure nofun
  | ok found =>
    refine delivers_pure ?_
    rintro m ⟨⟩
    exact same _ _ rfl

theorem delivers_put (k : K) (v : V) (now : Bool) :
    Delivers (fun m' => m'.log.files = m.log.files) (m.put k v now) :=
  (m.log.delivers_record k (some v) now).bind fun _ same => delivers_pure same

theorem delivers_remove (k : K) (now : Bool) :
    Delivers (fun m' => m'.log.files = m.log.files) (m.remove k now) := by
  unfold remove
  split
  · exact delivers_pure rfl
  · exact (m.log.delivers_record k none now).bind fun _ same => delivers_pure same

omit [DecidableEq K] in
theorem delivers_save (keep : Nat → Nat → Bool) :
    Delivers (fun r => r.2.log.files = m.log.files) (m.save keep) :=
  (m.log.delivers_save m.entries keep).bind fun _ same => delivers_pure same

end DurableMap

namespace Index
variable (index : Index)

theorem delivers_open (files : LogFiles) (interval : Nat) :
    Delivers (fun r => ∀ index, r = .ok index → index.log = { files, format })
      (Index.open files interval) := by
  refine delivers_bind fun now => (Log.delivers_open files format).bind fun opened same => ?_
  cases opened with
  | error e => exact delivers_pure nofun
  | ok found =>
    dsimp only
    split
    · exact delivers_pure nofun
    · refine delivers_pure ?_
      rintro index ⟨⟩
      exact same _ _ rfl

theorem delivers_noteAll (pairs : List (PathId × String)) :
    Delivers (fun after => after.log.files = index.log.files) (index.noteAll pairs) := by
  induction pairs generalizing index with
  | nil => exact delivers_pure rfl
  | cons pair pairs ih =>
    refine delivers_bind fun now => ?_
    refine (index.log.delivers_record _ _ _).bind fun log same => ?_
    have rest := ih { index with log, gate := (index.gate.tryFire now).2 }
    rw [same] at rest
    exact rest

theorem delivers_adopt (names : Names) :
    Delivers (fun after => after.log.files = index.log.files) (index.adopt names) :=
  delivers_noteAll { index with names } _

theorem delivers_flush : Delivers (fun r => r.2.log.files = index.log.files) index.flush :=
  index.log.delivers_flush.bind fun _ same => delivers_pure same

theorem delivers_save : Delivers (fun r => r.2.log.files = index.log.files) index.save :=
  (index.log.delivers_save _ keepJournal).bind fun _ same => delivers_pure same

end Index

/-- The logs of the cache write the files of the layout. -/
structure Cache.Filed (c : Cache) (layout : Layout) : Prop where
  index : c.index.log.files = layout.indexFiles
  map : c.map.log.files = layout.mapFiles

namespace Cache
variable {layout : Layout} {options : Options} {c : Cache}

/-- The cache has just been opened under the layout: nothing waits for its files. -/
structure Begun (c : Cache) (layout : Layout) (options : Options) : Prop
    extends c.Opened layout options c.memory where
  layout : c.layout = layout

theorem Begun.filed (begun : c.Begun layout options) : c.Filed layout :=
  ⟨congrArg Log.files begun.index, congrArg Log.files begun.map⟩

theorem delivers_load (layout : Layout) (options : Options) :
    Delivers (fun r => ∀ c, r = .ok c → c.Begun layout options) (load layout options) := by
  refine (Index.delivers_open _ _).bind fun index index_ => ?_
  cases index with
  | error e => exact delivers_failed rfl
  | ok index =>
    refine delivers_bind fun now => (DurableMap.delivers_open _ _).bind fun map map_ => ?_
    cases map with
    | error e => exact delivers_failed rfl
    | ok map =>
      have begun : Begun ⟨layout, options, index, map, .start options.journalInterval now, .zero,
          none, none⟩ layout options := ⟨⟨rfl, rfl, index_ _ rfl, map_ _ rfl⟩, rfl⟩
      dsimp only
      split
      · exact delivers_pure fun c same => Except.ok.inj same ▸ begun
      split
      · exact delivers_pure fun c same => Except.ok.inj same ▸ begun
      · exact delivers_failed rfl

theorem delivers_loadOrReset (layout : Layout) (options : Options) :
    Delivers (fun r => ∀ c, r.1 = .ok c → c.Begun layout options)
      (loadOrReset layout options) := by
  refine delivers_bind fun made => ?_
  cases made with
  | error e => exact delivers_failed rfl
  | ok u =>
    refine (delivers_load layout options).bind fun loaded begun => ?_
    cases loaded with
    | ok c => exact delivers_pure begun
    | error cause =>
      refine delivers_bind fun recovered => ?_
      cases recovered with
      | error e => exact delivers_failed rfl
      | ok messages =>
        refine delivers_bind fun made => ?_
        cases made with
        | error e => exact delivers_failed rfl
        | ok u =>
          refine (delivers_load layout options).bind fun loaded begun => ?_
          cases loaded with
          | ok c => exact delivers_pure begun
          | error cause => exact delivers_failed rfl

theorem delivers_open (layout : Layout) (options : Options) :
    Delivers (fun r => ∀ c, r.1 = .ok c → c.Begun layout options)
      (Cache.open layout options) := by
  refine delivers_bind fun before => (delivers_loadOrReset layout options).bind ?_
  rintro ⟨opened, messages⟩ begun
  cases opened with
  | error e => exact delivers_failed rfl
  | ok c =>
    refine delivers_bind fun after => delivers_pure ?_
    intro c' same
    obtain ⟨⟨_, known, index, map⟩, place⟩ := begun c rfl
    rw [← Except.ok.inj same]
    exact ⟨⟨rfl, known, index, map⟩, place⟩

theorem delivers_journalDue (filed : c.Filed layout) :
    Delivers (fun r => r.2.Filed layout) c.journalDue := by
  refine delivers_bind fun now => ?_
  dsimp only
  split
  · refine c.index.delivers_flush.bind fun flushed same => ?_
    exact delivers_pure ⟨same.trans filed.index, filed.map⟩
  · exact delivers_pure ⟨filed.index, filed.map⟩

/-- No change of memory makes a cache write other files. -/
theorem delivers_change (filed : c.Filed layout) (change : Change) :
    Delivers (Filed · layout) (c.change change) := by
  cases change with
  | learn names =>
    refine (c.index.delivers_adopt names).bind fun index same => ?_
    exact delivers_pure ⟨same.trans filed.index, filed.map⟩
  | put slot bytes =>
    refine (delivers_journalDue filed).bind ?_
    rintro ⟨due, c⟩ filed
    refine (c.map.delivers_put slot bytes due).bind fun map same => ?_
    exact delivers_pure ⟨filed.index, same.trans filed.map⟩
  | remove slot =>
    unfold Cache.change removeRecord
    dsimp only
    split
    · exact delivers_pure filed
    refine (delivers_journalDue filed).bind ?_
    rintro ⟨due, c⟩ filed
    refine (c.map.delivers_remove slot due).bind fun map same => ?_
    exact delivers_pure ⟨filed.index, same.trans filed.map⟩

theorem delivers_save (filed : c.Filed layout) :
    Delivers (fun r => r.2.Filed layout) c.save := by
  refine delivers_bind fun before => c.index.delivers_save.bind ?_
  rintro ⟨saved, index⟩ same
  cases saved with
  | error e => exact delivers_pure ⟨same.trans filed.index, filed.map⟩
  | ok n =>
    refine (c.map.delivers_save _).bind ?_
    rintro ⟨saved, map⟩ same'
    cases saved with
    | error e => exact delivers_pure ⟨same.trans filed.index, same'.trans filed.map⟩
    | ok n =>
      refine delivers_bind fun after => ?_
      exact delivers_pure ⟨same.trans filed.index, same'.trans filed.map⟩

theorem Filed.clear (filed : c.Filed layout) : c.clear.Filed layout := ⟨filed.index, filed.map⟩

end Cache
end BuildCache
