import BuildCache.Proofs.Changing
import BuildCache.Proofs.Mirrors
import BuildCache.Proofs.Rehearsals

/-!
A map on disk outlives its session. Whatever was in its files when it was opened, and whatever goes
wrong at any file operation from then on, a save that says it is done has left files from which the
same table is opened again.
-/
namespace BuildCache

open Disk Program

variable {K V : Type} [Stored K] [Stored V]

namespace DurableMap
variable [DecidableEq K] {faults : Faults} {cwd : Place} {shelf : Shelf} {files : LogFiles}
  {format : StoreFormat} {start d d' : Disk} {m m' : DurableMap K V} {written : List (Record K V)}
  {t : Table K V} {P : Record K V → Prop}

/-- Where the course of a map has come to. What was put and removed on the way is listed, the latest
first; the removal of a key that is not there is none. -/
structure Stage (K V : Type) where
  written : List (Record K V)
  map : DurableMap K V
  disk : Disk

/-- One thing is done to a map. Anything may go wrong at any file operation, and in between anything
may happen at other places of the disk. -/
inductive Step (shelf : Shelf) (cwd : Place) (s : Stage K V) : Stage K V → Prop
  | put (k : K) (v : V) (now : Bool) {m' : DurableMap K V} {d' : Disk}
      (run : Runs .any cwd (s.map.put k v now) s.disk m' d') :
    Step shelf cwd s ⟨.put k v :: s.written, m', d'⟩
  | remove (k : K) (now : Bool) {m' : DurableMap K V} {d' : Disk}
      (run : Runs .any cwd (s.map.remove k now) s.disk m' d') :
    Step shelf cwd s
      ⟨if (s.map.get? k).isSome then .remove k :: s.written else s.written, m', d'⟩
  | clear : Step shelf cwd s ⟨s.written, s.map.clear, s.disk⟩
  | save (keep : Nat → Nat → Bool) {r : Except StoreError Nat} {m' : DurableMap K V} {d' : Disk}
      (run : Runs .any cwd (s.map.save keep) s.disk (r, m') d') :
    Step shelf cwd s ⟨s.written, m', d'⟩
  | elsewhere (others : List Place) {d' : Disk} (touches : Touches others s.disk d')
      (apart : ∀ p ∈ shelf.places, p ∉ others) : Step shelf cwd s ⟨s.written, s.map, d'⟩

theorem Step.written_sub {s s' : Stage K V} (step : Step shelf cwd s s') :
    s.written ⊆ s'.written := by
  cases step with
  | put => exact List.subset_cons_self _ _
  | remove =>
    dsimp only
    split
    · exact List.subset_cons_self _ _
    · exact List.Subset.refl _
  | _ => exact List.Subset.refl _

/-- A map that was opened, and then used. -/
inductive Course (files : LogFiles) (format : StoreFormat) (shelf : Shelf) (cwd : Place)
    (start : Disk) : Stage K V → Prop
  | opened {m : DurableMap K V} {d : Disk}
      (opening : Runs .none cwd (DurableMap.open files format) start (.ok m) d) :
    Course files format shelf cwd start ⟨[], m, d⟩
  | next {s s' : Stage K V} (course : Course files format shelf cwd start s)
      (step : Step shelf cwd s s') : Course files format shelf cwd start s'

/-- A map that opens has been read. -/
theorem read_of_open (opening : Runs .none cwd (DurableMap.open files format) start (.ok m) d) :
    d = start ∧ ∃ told, Log.verdict files format cwd start = .ok told ∧
      m = ⟨replay told, { files, format }⟩ := by
  obtain ⟨rfl, same⟩ := always_verdict files format _ _ opening
  obtain ⟨told, read, rfl⟩ := map_eq_ok.mp same.symm
  exact ⟨rfl, told, read, rfl⟩

/-- A log starts out with nothing to do. -/
theorem log_of_open (opening : Runs .none cwd (DurableMap.open files format) start (.ok m) d) :
    m.log = { files, format } := by
  obtain ⟨_, told, _, rfl⟩ := read_of_open opening
  rfl

variable [Metered K] [Metered V]

/-- The map's log is at its place, with the files and the format it was opened with, and vouches
for the map. -/
structure Upheld (P : Record K V → Prop) (m : DurableMap K V) (files : LogFiles)
    (format : StoreFormat) (shelf : Shelf) (cwd : Place) (d : Disk) : Prop where
  stands : m.log.Stands shelf cwd d
  files : m.log.files = files
  format : m.log.format = format
  vouches : Log.Vouches P m.log shelf d m.entries

omit [Metered K] [Metered V] in
theorem Mutated.recorded {k : K} {v? : Option V} {now : Bool}
    (mutated : Mutated faults m shelf d k v? now m' d') :
    Log.Recorded faults m.log shelf d k v? m'.log d' := by
  obtain ⟨_, ⟨_, log, rfl⟩ | ⟨_, wrote, cases_, log⟩⟩ := mutated
  · rw [log]
    exact .noted
  · rw [log]
    exact .journaled cases_

theorem Upheld.mutated {k : K} {v? : Option V} {now : Bool}
    (upheld : Upheld P m files format shelf cwd d) (stands : m'.log.Stands shelf cwd d')
    (mutated : Mutated faults m shelf d k v? now m' d') (new : P (.of k v?)) :
    Upheld P m' files format shelf cwd d' where
  stands := stands
  files := mutated.recorded.same_files.trans upheld.files
  format := mutated.recorded.format.trans upheld.format
  vouches := by
    have entries := mutated.1
    refine upheld.vouches.recorded ?_ new (fun k' => ?_) mutated.recorded
    · rw [entries]
      exact nodup_keys_apply upheld.vouches.distinct _
    · rw [entries, get?_apply, Record.key_of, Record.value?_of]

theorem Upheld.saved {keep : Nat → Nat → Bool} {r : Except StoreError Nat}
    (upheld : Upheld P m files format shelf cwd d)
    (run : Runs faults cwd (m.save keep) d (r, m') d') :
    m'.entries = m.entries ∧ Upheld P m' files format shelf cwd d' ∧
      (r.isOk → Log.Complete P m'.log shelf d' m'.entries) := by
  obtain ⟨_, stands, log, rfl, saved⟩ := always_save upheld.stands keep _ _ run
  obtain ⟨vouches, complete⟩ := upheld.vouches.saved saved
  have sameFiles := saved.same_files.trans upheld.files
  exact ⟨rfl, ⟨stands, sameFiles, saved.same.2.trans upheld.format, vouches⟩, complete⟩

theorem upheld_clear (upheld : Upheld P m files format shelf cwd d) :
    Upheld P m.clear files format shelf cwd d where
  stands := ⟨upheld.stands.holds, upheld.stands.attached⟩
  files := upheld.files
  format := upheld.format
  vouches := Log.vouches_clear m.log shelf d

theorem Upheld.elsewhere {others : List Place} (upheld : Upheld P m files format shelf cwd d)
    (touches : Touches others d d') (apart : ∀ p ∈ shelf.places, p ∉ others) :
    Upheld P m files format shelf cwd d' where
  stands := upheld.stands.of_touches touches (apart _ (by simp [Shelf.places]))
  files := upheld.files
  format := upheld.format
  vouches := upheld.vouches.sameAt (touches.sameAt apart)

variable [Framed K] [Framed V] [Tangible K]

/-- A map that was opened is what its files have, whoever wrote them. -/
theorem upheld_of_open (holds : shelf.Holds files cwd start)
    (opening : Runs .none cwd (DurableMap.open files format) start (.ok m) d) :
    d = start ∧ Upheld P m files format shelf cwd start := by
  obtain ⟨rfl, told, read, rfl⟩ := read_of_open opening
  exact ⟨rfl, ⟨holds, nofun⟩, rfl, rfl, Log.vouches_of_verdict holds read⟩

omit [Framed K] [Framed V] [Tangible K] in
/-- Whatever goes wrong at a step, the map knows what its files are good for. -/
theorem Upheld.step {s s' : Stage K V} (upheld : Upheld P s.map files format shelf cwd s.disk)
    (step : Step shelf cwd s s') (each : ∀ r ∈ s'.written, P r) :
    Upheld P s'.map files format shelf cwd s'.disk := by
  cases step with
  | put k v now run =>
    obtain ⟨_, stands, mutated⟩ := always_put upheld.stands k v now _ _ run
    exact upheld.mutated stands mutated (each _ List.mem_cons_self)
  | remove k now run =>
    by_cases present : s.map.get? k = none
    · rw [remove_of_absent present] at run
      cases run
      exact upheld
    · dsimp only at each
      rw [if_pos (Option.isSome_iff_ne_none.mpr present)] at each
      obtain ⟨_, stands, mutated⟩ := always_remove upheld.stands present now _ _ run
      exact upheld.mutated stands mutated (each _ List.mem_cons_self)
  | clear => exact upheld_clear upheld
  | save keep run => exact (upheld.saved run).2.1
  | elsewhere others touches apart => exact upheld.elsewhere touches apart

theorem Course.upheld {s : Stage K V} (course : Course files format shelf cwd start s)
    (holds : shelf.Holds files cwd start) (each : ∀ r ∈ s.written, P r) :
    Upheld P s.map files format shelf cwd s.disk := by
  induction course with
  | opened opening =>
    obtain ⟨same, upheld⟩ := upheld_of_open (P := P) holds opening
    exact same ▸ upheld
  | next course step ih => exact (ih fun r mem => each r (step.written_sub mem)).step step each

/-- Opening the files without a fault gives this table, up to the order of its entries, and leaves
everything as it is. -/
structure Reopens (files : LogFiles) (format : StoreFormat) (cwd : Place) (d : Disk)
    (t : Table K V) : Prop where
  opens : ∃ m : DurableMap K V, Runs .none cwd (DurableMap.open files format) d (.ok m) d
  same : ∀ (r : Except StoreError (DurableMap K V)) d',
    Runs .none cwd (DurableMap.open files format) d r d' →
      d' = d ∧ ∃ m, r = .ok m ∧ m.entries.Perm t

omit [Metered K] [Metered V] [Framed K] [Framed V] [Tangible K] in
theorem reopens_of_verdict {told : List (Record K V)}
    (read : Log.verdict files format cwd d = .ok told) (perm : (replay told).Perm t) :
    Reopens files format cwd d t := by
  have each {r : Except StoreError (DurableMap K V)} {d' : Disk}
      (run : Runs .none cwd (DurableMap.open files format) d r d') :
      d' = d ∧ r = .ok ⟨replay told, { files, format }⟩ := by
    obtain ⟨rfl, same⟩ := always_verdict files format _ _ run
    rw [read] at same
    exact ⟨rfl, same⟩
  constructor
  · obtain ⟨r, d', run⟩ := exists_runs .none cwd (DurableMap.open (K := K) (V := V) files format) d
    obtain ⟨rfl, rfl⟩ := each run
    exact ⟨_, run⟩
  · intro r d' run
    obtain ⟨rfl, rfl⟩ := each run
    exact ⟨rfl, _, rfl, perm⟩

/-- A table that is opened again has nothing in it that is too long for a record. -/
theorem Reopens.fits (reopens : Reopens files format cwd d t) (holds : shelf.Holds files cwd d) :
    ∀ e ∈ t, Fits e := by
  intro e mem
  obtain ⟨m, opening⟩ := reopens.opens
  obtain ⟨_, told, read, rfl⟩ := read_of_open opening
  obtain ⟨_, _, ⟨⟩, perm⟩ := reopens.same _ _ opening
  have found := Table.get?_of_mem (nodup_keys_replay told) (perm.mem_iff.mpr mem)
  exact Log.fits_of_verdict holds read (mem_of_get?_replay found)

omit [Stored K] [Stored V] [Metered K] [Metered V] [Framed K] [Framed V] [Tangible K] in
theorem perm_of_covers {told : List (Record K V)} (covers : Log.Covers told [] t)
    (distinct : t.keys.Nodup) : (replay told).Perm t :=
  Table.perm_of_get? (nodup_keys_replay told) distinct covers.get?_replay

theorem reopens_of_complete {log : Log K V} (complete : Log.Complete Fits log shelf d t)
    (distinct : t.keys.Nodup) (holds : shelf.Holds log.files cwd d) :
    Reopens log.files log.format cwd d t := by
  obtain ⟨pairs, records, yields, covers⟩ := complete
  exact reopens_of_verdict (yields.verdict_eq holds) (perm_of_covers covers distinct)

theorem Upheld.reopens {keep : Nat → Nat → Bool} {n : Nat}
    (upheld : Upheld Fits m files format shelf cwd d)
    (save : Runs faults cwd (m.save keep) d (.ok n, m') d') :
    m'.entries = m.entries ∧ Reopens files format cwd d' m'.entries := by
  obtain ⟨same, upheld', complete⟩ := upheld.saved save
  have reopens := reopens_of_complete (complete rfl) upheld'.vouches.distinct upheld'.stands.holds
  rw [upheld'.files, upheld'.format] at reopens
  exact ⟨same, reopens⟩

/-- A save that is done is durable, whatever has gone wrong before it and in it. -/
theorem reopens_of_save {s : Stage K V} (holds : shelf.Holds files cwd start)
    (course : Course files format shelf cwd start s) (fit : ∀ r ∈ s.written, Fits r)
    {keep : Nat → Nat → Bool} {n : Nat}
    (save : Runs .any cwd (s.map.save keep) s.disk (.ok n, m') d') :
    m'.entries = s.map.entries ∧ Reopens files format cwd d' m'.entries :=
  (course.upheld holds fit).reopens save

/-- A map in an empty directory, as it is when it has been opened. -/
def fresh : DurableMap Slot Bytes :=
  ⟨[], { files := Layout.sample.mapFiles, format := Cache.format }⟩

theorem runs_open_fresh : Runs .none [] (DurableMap.open Layout.sample.mapFiles Cache.format)
    .sample (.ok fresh) .sample :=
  runs_run .none (DurableMap.open Layout.sample.mapFiles Cache.format) (Situation.host [] .sample)

/-- A put whose write of the journal was refused, and then a save that may do without the journal
but must not. -/
theorem reopens_of_save_sample : ∃ (s : Stage Slot Bytes) (m' : DurableMap Slot Bytes) (d' : Disk)
    (n : Nat),
    Course Layout.sample.mapFiles Cache.format (Layout.home ["cache"]).map [] .sample s ∧
      s.written = [.put .validation [7]] ∧ s.map.log.needsSnapshot = true ∧
      Runs .any [] (s.map.save fun _ _ => true) s.disk (.ok n, m') d' ∧
      m'.entries = [(.validation, [7])] ∧
      Reopens Layout.sample.mapFiles Cache.format [] d' m'.entries := by
  let noted : DurableMap Slot Bytes := ⟨[(.validation, [7])],
    { fresh.log with pending := [(.validation, some [7])], dirty := true, needsSnapshot := true }⟩
  have refused : Runs .any [] (fresh.put .validation [7] true) .sample noted .sample :=
    .ask (.refused (.openJournal _) .busy _ trivial (by decide) rfl) (.done noted .sample)
  have course : Course Layout.sample.mapFiles Cache.format (Layout.home ["cache"]).map [] .sample
      ⟨[.put .validation [7]], noted, .sample⟩ :=
    (Course.opened runs_open_fresh).next (.put _ _ _ refused)
  have fits : Fits (Record.put Slot.validation ([7] : Bytes)) := by
    change 4 + (4 + (8 + 1)) ≤ recordLimit
    decide
  have save := runs_run .any (noted.save fun _ _ => true) (Situation.host [] .sample)
  have done : ((noted.save fun _ _ => true).run (Situation.host [] .sample)).1.1.isOk = true := by
    decide +kernel
  cases found : ((noted.save fun _ _ => true).run (Situation.host [] .sample)).1 with
  | mk r m' =>
    rw [found] at save done
    cases r with
    | error e => cases done
    | ok n =>
      obtain ⟨same, reopens⟩ := reopens_of_save Layout.empty_sample.lives.map course
        (List.forall_mem_singleton.mpr fits) save
      exact ⟨_, m', _, n, course, rfl, rfl, save, same, reopens⟩

end DurableMap
end BuildCache
