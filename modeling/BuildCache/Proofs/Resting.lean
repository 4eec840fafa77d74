import BuildCache.Proofs.Compaction
import BuildCache.Proofs.Recovery
import BuildCache.Proofs.Removing

/-!
When a save has nothing to do. It answers that no byte was written where it had nothing to bring to
disk, and only there, and then it has left the files alone, whatever failed in it or before it: every
snapshot and every batch of records takes at least a byte. Behind a save that was done neither log
has anything in mind, and that lasts until a mutation. A cache that has just been opened has nothing
in mind either, and so a journal that waits for its snapshot waits on.

Nothing is asked of the cache and of the disk for any of this. That the files agree with the flags
of the logs is another matter.
-/
namespace BuildCache

open Disk Program

variable {faults : Faults} {cwd : Place} {d d' : Disk}

namespace Log
variable {K V : Type} [Stored K] [Stored V] {log : Log K V}

omit [Stored K] [Stored V] in
theorem dirty_settle (r : Except StoreError Nat × Log K V) : (settle r).2.dirty = r.2.dirty := by
  obtain ⟨r, log⟩ := r
  cases r <;> rfl

/-- A write of the journal that has something to write adds to it, or fails, and then only a snapshot
will do. -/
theorem always_writeJournal_some [Tangible K] (some_ : log.pending ≠ []) :
    Always faults cwd log.writeJournal d fun r _ =>
      (settle r).1 ≠ 0 ∨ (settle r).2.needsSnapshot = true := by
  unfold writeJournal
  rw [if_neg (by simpa using some_)]
  refine always_bind.mpr fun ready d₁ _ => ?_
  cases ready with
  | error e => exact always_pure.mpr (.inr rfl)
  | ok h =>
    refine Always.bind (always_walk log.pending) ?_
    rintro batch d₂ ⟨rfl, perm⟩
    refine always_bind.mpr fun written d₃ _ => ?_
    cases written with
    | error e => exact always_pure.mpr (.inr rfl)
    | ok u =>
      refine always_pure.mpr (.inl fun zero => ?_)
      exact journalBatch_ne_nil perm some_ (List.eq_nil_of_length_eq_zero zero)

/-- The journal may stay as it is, by the sizes that are seen of the files. -/
def Stays (log : Log K V) (keep : Nat → Nat → Bool) (cwd : Place) (d : Disk) : Prop :=
  log.needsSnapshot = false ∧ ∃ journal snapshot,
    orMissing 0 (d.size cwd log.files.journal) = .ok journal ∧
      orMissing 0 (d.size cwd log.files.snapshot) = .ok snapshot ∧ keep journal snapshot = true

/-- A save has nothing to bring to disk: nothing has changed since the last one, or all of it went to
a journal that may stay. -/
def UpToDate (log : Log K V) (keep : Nat → Nat → Bool) (cwd : Place) (d : Disk) : Prop :=
  log.dirty = false ∨ log.pending = [] ∧ log.Stays keep cwd d

omit [Stored K] [Stored V] in
theorem always_mayKeep_iff (log : Log K V) (keep : Nat → Nat → Bool) :
    Always faults cwd (log.mayKeep keep) d fun r d' => d' = d ∧
      ∀ kept, r = .ok kept → (kept = true ↔ log.Stays keep cwd d) := by
  unfold mayKeep
  cases needs : log.needsSnapshot with
  | true =>
    refine always_pure.mpr ⟨rfl, ?_⟩
    rintro kept ⟨⟩
    exact iff_of_false Bool.false_ne_true fun stays => by cases needs.symm.trans stays.1
  | false =>
    refine Always.bind always_fileSize_any ?_
    rintro journal d₁ ⟨rfl, first⟩
    cases journal with
    | error e => exact always_pure.mpr ⟨rfl, nofun⟩
    | ok journal =>
      refine Always.bind always_fileSize_any ?_
      rintro snapshot d₂ ⟨rfl, second⟩
      cases snapshot with
      | error e => exact always_pure.mpr ⟨rfl, nofun⟩
      | ok snapshot =>
        refine always_pure.mpr ⟨rfl, ?_⟩
        rintro kept ⟨⟩
        refine ⟨fun may => ⟨needs, journal, snapshot, first _ rfl, second _ rfl, may⟩, ?_⟩
        rintro ⟨_, journal', snapshot', size, size', may⟩
        cases (first _ rfl).symm.trans size
        cases (second _ rfl).symm.trans size'
        exact may

/-- A snapshot is never empty. -/
theorem delivers_compact_ne (log : Log K V) (entries : Table K V) (appended : Nat) :
    Delivers (fun r => r.2.dirty = log.dirty ∧ r.1 ≠ .ok 0) (log.compact entries appended) := by
  refine delivers_bind fun es => delivers_bind fun replaced => ?_
  cases replaced with
  | error e => exact delivers_pure ⟨rfl, nofun⟩
  | ok u =>
    refine delivers_bind fun removed => ?_
    cases removed with
    | error e => exact delivers_pure ⟨rfl, nofun⟩
    | ok u =>
      refine delivers_pure ⟨rfl, fun zero => ?_⟩
      have none_ : appended + _ = 0 := Except.ok.inj zero
      have front := List.length_pos_iff.mpr
        (StoreFile.front_ne_nil ⟨log.format.magic, log.format.version, .snapshot,
          some (StoreFile.snapshotPayload es).checksum⟩)
      change 0 < (StoreFile.snapshotFront log.format (StoreFile.snapshotPayload es)).length at front
      omega

/-- What a save that is done comes to: it has written nothing exactly if there was nothing to write,
and then the disk is as it was. -/
def Tallies (upToDate : Prop) (d : Disk) (res : Except StoreError Nat) (d' : Disk) : Prop :=
  ∀ n, res = .ok n → (n = 0 ↔ upToDate) ∧ (n = 0 → d' = d)

theorem tallies_error {upToDate : Prop} {e : StoreError} : Tallies upToDate d (.error e) d' := nofun

theorem Tallies.congr {p q : Prop} {res : Except StoreError Nat} (tallies : Tallies p d res d')
    (same : p ↔ q) : Tallies q d res d' := fun n done =>
  ⟨(tallies n done).1.trans same, (tallies n done).2⟩

theorem always_bring_tallies (log : Log K V) (entries : Table K V) (keep : Nat → Nat → Bool)
    (appended : Nat) : Always faults cwd (log.bring entries keep appended) d fun r d' =>
      r.2.dirty = log.dirty ∧ Tallies (appended = 0 ∧ log.Stays keep cwd d) d r.1 d' := by
  refine Always.bind (always_mayKeep_iff log keep) ?_
  rintro may d₁ ⟨rfl, stays⟩
  cases may with
  | error e => exact always_pure.mpr ⟨rfl, tallies_error⟩
  | ok kept =>
    have stays := stays kept rfl
    cases kept with
    | true =>
      refine Always.bind (always_syncJournal log d₁) ?_
      rintro synced d₂ ⟨rfl, _⟩
      cases synced with
      | error e => exact always_pure.mpr ⟨rfl, tallies_error⟩
      | ok u =>
        refine always_pure.mpr ⟨rfl, ?_⟩
        rintro n ⟨⟩
        exact ⟨(and_iff_left (stays.mp rfl)).symm, fun _ => rfl⟩
    | false =>
      intro r d' run
      obtain ⟨dirty, written⟩ := (delivers_compact_ne log entries appended).of_runs run
      refine ⟨dirty, fun n done => ?_⟩
      have some_ : n ≠ 0 := fun zero => written (by rw [done, zero])
      exact ⟨iff_of_false some_ fun ⟨_, may⟩ => Bool.false_ne_true (stays.mpr may),
        fun zero => absurd zero some_⟩

theorem always_saveChanged_tallies [Tangible K] (log : Log K V) (entries : Table K V)
    (keep : Nat → Nat → Bool) : Always faults cwd (log.saveChanged entries keep) d fun r d' =>
      r.2.dirty = log.dirty ∧ Tallies (log.pending = [] ∧ log.Stays keep cwd d) d r.1 d' := by
  rw [saveChanged_eq]
  by_cases nothing : log.pending = []
  · rw [writeJournal_of_nil nothing, pure_bind]
    refine (always_bring_tallies log entries keep 0).mono fun r d' ⟨dirty, tallies⟩ => ?_
    exact ⟨dirty, tallies.congr (and_congr_left' (iff_of_true rfl nothing))⟩
  · intro r d' run
    obtain ⟨wrote, d₁, write, rest⟩ := runs_bind.mp run
    obtain ⟨dirty, tallies⟩ := always_bring_tallies _ entries keep _ r d' rest
    refine ⟨?_, fun n done => ?_⟩
    · rw [dirty, dirty_settle, log.delivers_writeJournal_else.of_runs write]
    · have some_ : n ≠ 0 := by
        intro zero
        obtain ⟨none_, whole, _⟩ := (tallies n done).1.mp zero
        rcases always_writeJournal_some nothing wrote d₁ write with more | needs
        · exact more none_
        · cases whole.symm.trans needs
      exact ⟨iff_of_false some_ fun idle => nothing idle.1, fun zero => absurd zero some_⟩

/-- Whatever was pending and whatever failed before, a save that was done leaves nothing to save. -/
theorem always_save_tallies [Tangible K] (log : Log K V) (entries : Table K V)
    (keep : Nat → Nat → Bool) : Always faults cwd (log.save entries keep) d fun r d' =>
      Tallies (log.UpToDate keep cwd d) d r.1 d' ∧ (r.1.isOk → r.2.dirty = false) := by
  unfold save
  cases changed : log.dirty with
  | false =>
    refine always_pure.mpr ⟨?_, fun _ => changed⟩
    rintro n ⟨⟩
    exact ⟨iff_of_true rfl (.inl changed), fun _ => rfl⟩
  | true =>
    refine Always.bind (always_saveChanged_tallies { log with dirty := false } entries keep) ?_
    rintro ⟨saved, after⟩ d₁ ⟨clean, tallies⟩
    have same : (log.pending = [] ∧ log.Stays keep cwd d) ↔ log.UpToDate keep cwd d :=
      (or_iff_right (by simp [changed])).symm
    cases saved with
    | error e => exact always_pure.mpr ⟨tallies_error, nofun⟩
    | ok n => exact always_pure.mpr ⟨tallies.congr same, fun _ => clean⟩

end Log

/-- Names that are known already are not noted again. -/
theorem Index.adopt_self (index : Index) : index.adopt index.names = pure index := by
  unfold adopt
  rw [mappingsFrom_size]
  rfl

namespace Cache
variable {c : Cache}

/-- A save has nothing to bring to disk. An index never keeps its journal, so that there nothing may
have changed. -/
def UpToDate (c : Cache) (cwd : Place) (d : Disk) : Prop :=
  c.index.log.dirty = false ∧
    c.map.log.UpToDate (keepJournal c.options.compactionPercent) cwd d

theorem always_save_tallies (c : Cache) : Always faults cwd c.save d fun r d' =>
    Log.Tallies (c.UpToDate cwd d) d r.1 d' ∧ (r.1.isOk → r.2.Rested) := by
  have never (log : Log PathId String) :
      log.UpToDate Index.keepJournal cwd d ↔ log.dirty = false := by
    refine or_iff_left fun ⟨_, _, _, _, _, _, kept⟩ => ?_
    cases kept
  have index : Always faults cwd c.index.save d fun r d' =>
      Log.Tallies (c.index.log.dirty = false) d r.1 d' ∧ (r.1.isOk → r.2.log.dirty = false) :=
    Always.bind (Log.always_save_tallies _ _ _) fun _ _ ⟨tallies, clean⟩ =>
      always_pure.mpr ⟨tallies.congr (never _), clean⟩
  refine always_save_of index (fun _ _ _ _ => ⟨Log.tallies_error, nofun⟩)
    fun n index d₁ ⟨first, clean⟩ => ?_
  refine Always.bind (Log.always_save_tallies _ _ _) ?_
  rintro ⟨r, map⟩ d₂ ⟨second, clean'⟩
  refine always_pure.mpr ⟨fun _ _ => ⟨Log.tallies_error, nofun⟩, ?_⟩
  rintro n' rfl millis
  refine ⟨?_, fun _ => ⟨clean rfl, clean' rfl⟩⟩
  obtain ⟨indexZero, same⟩ := first n rfl
  obtain ⟨mapZero, same'⟩ := second n' rfl
  rintro sum ⟨⟩
  rw [Nat.add_eq_zero_iff]
  refine ⟨⟨?_, ?_⟩, ?_⟩
  -- Where the index wrote nothing, the map meets the disk as it was.
  · rintro ⟨none_, none'⟩
    exact ⟨indexZero.mp none_, same none_ ▸ mapZero.mp none'⟩
  · rintro ⟨upToDate, upToDate'⟩
    have none_ := indexZero.mpr upToDate
    exact ⟨none_, mapZero.mpr (by rwa [same none_])⟩
  · rintro ⟨none_, none'⟩
    exact (same' none').trans (same none_)

/-- A save has nothing to do: it is done, writes nothing and leaves the disk as it is, whichever disk
that is and whatever may fail on it. -/
def SavesNothing (c : Cache) : Prop :=
  ∀ faults cwd d, (∃ r d', Runs faults cwd c.save d r d') ∧
    Always faults cwd c.save d fun r d' => r.1 = .ok 0 ∧ d' = d

theorem Rested.savesNothing (rested : c.Rested) : c.SavesNothing := by
  refine fun faults cwd d => ⟨exists_runs faults cwd c.save d, rested.always_save.mono ?_⟩
  rintro _ d' ⟨same, ms, rfl⟩
  exact ⟨rfl, same⟩

/-- What may happen beside mutations. An operation that could be one finds that there is nothing to
note: the names are known, no entry is there to be removed, and one that is put has no stored form.
The index may be flushed and another save be done, times and counters be taken, and the disk may
change by another hand. -/
inductive Pause (faults : Faults) (cwd : Place) : Cache × Disk → Cache × Disk → Prop
  | put {c c' : Cache} {d d' : Disk} (key : String) (e : Entry)
      (nothing : c.memory.putting key e = [.learn c.index.names])
      (run : Runs faults cwd (c.put key e) d c' d') : Pause faults cwd (c, d) (c', d')
  | remove {c c' : Cache} {d d' : Disk} (key : String) (nothing : c.get? key = none)
      (run : Runs faults cwd (c.remove key) d c' d') : Pause faults cwd (c, d) (c', d')
  | removeIf {c c' : Cache} {d d' : Disk} {n : Nat} (p : Cached → Bool)
      (nothing : c.memory.doomed p = []) (run : Runs faults cwd (c.removeIf p) d (n, c') d') :
    Pause faults cwd (c, d) (c', d')
  | intern {c : Cache} {index : Index} {d d' : Disk} {res : Except EncodeFault PathId}
      (name : String) (nothing : (c.index.names.intern name).2 = c.index.names)
      (run : Runs faults cwd (c.index.intern name) d (res, index) d') :
    Pause faults cwd (c, d) ({ c with index }, d')
  | flush {c : Cache} {index : Index} {d d' : Disk} {res : Except StoreError Unit}
      (run : Runs faults cwd c.index.flush d (res, index) d') :
    Pause faults cwd (c, d) ({ c with index }, d')
  | save {c c' : Cache} {d d' : Disk} {res : Except StoreError Nat}
      (run : Runs faults cwd c.save d (res, c') d') : Pause faults cwd (c, d) (c', d')
  | account {c : Cache} {d : Disk} (counters : Counters) (loadMillis saveMillis : Option Nat) :
    Pause faults cwd (c, d) ({ c with counters, loadMillis, saveMillis }, d)
  | elsewhere {c : Cache} {d : Disk} (d' : Disk) : Pause faults cwd (c, d) (c, d')

theorem remove_of_absent {key : String} (nothing : c.get? key = none) :
    c.remove key = pure c := by
  unfold remove Memory.removing
  cases known : c.memory.names.id? key with
  | none => rfl
  | some id =>
    have absent : (c.map.get? (.entry id)).isNone = true := by
      rw [get?, Memory.get?, known] at nothing
      rw [DurableMap.get?]
      change (c.map.entries.get? (.entry id)).bind _ = none at nothing
      cases there : c.map.entries.get? (.entry id) with
      | none => rfl
      | some bytes =>
        rw [there] at nothing
        cases nothing
    simp only [changeAll, change, removeRecord, if_pos absent, pure_bind]

theorem Pause.rested {s s' : Cache × Disk} (pause : Pause faults cwd s s') (rested : s.1.Rested) :
    s'.1.Rested := by
  cases pause with
  | @put c c' d d' key e nothing run =>
    have idle : c.put key e = pure c := by
      rw [Cache.put, nothing, changeAll, change, Index.adopt_self]
      rfl
    rw [idle] at run
    cases run
    exact rested
  | remove key nothing run =>
    rw [remove_of_absent nothing] at run
    cases run
    exact rested
  | removeIf p nothing run =>
    obtain ⟨same, _⟩ := always_removeIf_idle nothing _ _ run
    cases same
    exact rested
  | @intern c index d d' res name nothing run =>
    have idle : c.index.intern name = pure ((c.index.names.intern name).1, c.index) := by
      unfold Index.intern
      simp only [nothing, Index.adopt_self, pure_bind]
    rw [idle] at run
    cases run
    exact rested
  | @flush c index d d' res run =>
    have same : Delivers (fun r => r.2.log.dirty = c.index.log.dirty) c.index.flush :=
      c.index.log.delivers_flush_else.bind fun _ same => delivers_pure (by rw [same])
    exact ⟨(same.of_runs run).trans rested.index, rested.map⟩
  | save run =>
    obtain ⟨_, ms, same⟩ := rested.always_save _ _ run
    cases same
    exact ⟨rested.index, rested.map⟩
  | account => exact ⟨rested.index, rested.map⟩
  | elsewhere => exact rested

/-- The cache has nothing to save, and it stays so until a mutation. -/
def Rests (faults : Faults) (cwd : Place) (c : Cache) (d : Disk) : Prop :=
  ∀ s, Relation.ReflTransGen (Pause faults cwd) (c, d) s → s.1.SavesNothing

theorem Rested.rests (rested : c.Rested) : c.Rests faults cwd d := by
  intro s pauses
  have lasting : s.1.Rested := by
    induction pauses with
    | refl => exact rested
    | tail _ pause ih => exact pause.rested ih
  exact lasting.savesNothing

/-- Whatever state the cache is in, what the disk holds and what has failed: a save that is done answers
zero exactly if there was nothing to bring to disk, and then it has left the disk as it was. Behind
it, and behind an opening, every further save answers zero and leaves the disk as it is, until there
is a mutation. Files that load are opened without a change, so that a save right after that leaves
them as they were, with their journals. -/
theorem idempotent_of_save (faults : Faults) (cwd : Place) :
    (∀ (c : Cache) d n c' d', Runs faults cwd c.save d (.ok n, c') d' →
      (n = 0 ↔ c.UpToDate cwd d) ∧ (n = 0 → d' = d) ∧ c'.Rests faults cwd d') ∧
    (∀ layout options d (c : Cache) messages d',
      Runs faults cwd (Cache.open layout options) d (.ok c, messages) d' → c.Rests faults cwd d') ∧
    ∀ layout options d m, Layout.Ready layout cwd d → layout.verdict cwd d = .ok m →
      (∃ r d', Runs .none cwd (Cache.open layout options) d r d') ∧
      Always .none cwd (Cache.open layout options) d fun r d' => d' = d ∧
        ∃ c, r = (.ok c, []) ∧ c.memory = m ∧ c.Rests faults cwd d' := by
  refine ⟨fun c d n c' d' save => ?_, fun layout options d c messages d' opening => ?_,
    fun layout options d m ready verdict => ⟨exists_runs .none cwd _ d, fun r d' opening => ?_⟩⟩
  · obtain ⟨tallies, rested⟩ := always_save_tallies c _ d' save
    obtain ⟨zero, same⟩ := tallies n rfl
    exact ⟨zero, same, (rested rfl).rests⟩
  · exact ((delivers_open layout options).of_runs opening c rfl).rested.rests
  · obtain ⟨same, c, rfl, found⟩ := always_open_of_ready ready verdict r d' opening
    have begun := (delivers_open layout options).of_runs opening c rfl
    exact ⟨same, c, rfl, found, begun.rested.rests⟩

/-- One entry stored: the save has something to write. The same entry stored again: the journal has it
at once, so that the save writes nothing although there was a mutation, and keeps the journal. It is
still there behind the next opening and the save after that. -/
theorem idempotent_of_save_sample : ∃ s n c d s' c' d' m c'',
    Run .wild .sample [] (Layout.home ["cache"]) .sample s ∧ ¬s.cache.UpToDate [] s.disk ∧
      Runs .any [] s.cache.save s.disk (.ok n, c) d ∧ c.Rests .any [] d ∧
    Run .wild .sample [] (Layout.home ["cache"]) .sample s' ∧ s'.cache.map.log.dirty = true ∧
      s'.cache.UpToDate [] s'.disk ∧ Runs .any [] s'.cache.save s'.disk (.ok 0, c') d' ∧
      d' = s'.disk ∧ c'.Rests .any [] d' ∧
    d'.size [] Layout.sample.journalFile ≠ .ok 0 ∧ Layout.sample.verdict [] d' = .ok m ∧
      Runs .none [] (Cache.open .sample {}) d' (.ok c'', []) d' ∧ c''.memory = m ∧
      c''.Rests .any [] d' ∧ c''.Rests .none [] d' := by
  obtain ⟨saves, _, opens⟩ := idempotent_of_save .any []
  obtain ⟨_, opened, _⟩ := idempotent_of_save .none []
  obtain ⟨s, ⟨res, c⟩, d, run, save, found⟩ := Situation.exists_runs_sample .wild .any ⟨0, 150⟩
    [.put "a" (.sample "a" none)] (fun s => s.cache.save)
    (fun _ r _ => r.1.toOption.any (· ≠ 0)) true (by simp [Rules.Permits]) (by decide +kernel)
  obtain ⟨s', ⟨res', c'⟩, d', run', save', found'⟩ :=
    Situation.exists_runs_sample .wild .any ⟨0, 150⟩
      [.put "a" (.sample "a" none), .save, .put "a" (.sample "a" none)] (fun s => s.cache.save)
      (fun s r d => (s.cache.map.log.dirty, r.1.toOption,
        (d.size [] Layout.sample.journalFile).toOption.any (· ≠ 0),
        d.isDir [] Layout.sample.root, (Layout.sample.verdict [] d).isOk))
      (true, some 0, true, true, true) (by simp [Rules.Permits]) (by decide +kernel)
  simp only [Prod.mk.injEq] at found'
  obtain ⟨changed, zero, journal, isDir, loads⟩ := found'
  rcases res with e | n
  · cases found
  have written : n ≠ 0 := by simpa [Except.toOption] using found
  rcases res' with e | n'
  · cases zero
  cases zero
  cases verdict : Layout.sample.verdict [] d' with
  | error e =>
    rw [verdict] at loads
    cases loads
  | ok m =>
    obtain ⟨⟨r, d₁, opening⟩, always⟩ := opens .sample {} d' m (.inr isDir) verdict
    obtain ⟨rfl, c'', rfl, memory, rests⟩ := always r d₁ opening
    obtain ⟨zero, _, rests₁⟩ := saves _ _ _ _ _ save
    obtain ⟨zero', same, rests₂⟩ := saves _ _ _ _ _ save'
    refine ⟨s, n, c, d, s', c', d₁, m, c'', run, fun upToDate => written (zero.mpr upToDate), save,
      rests₁, run', changed, zero'.mp rfl, save', same rfl, rests₂, fun empty => ?_, verdict,
      opening, memory, rests, opened _ _ _ _ _ _ opening⟩
    rw [empty] at journal
    cases journal

end Cache
end BuildCache
