import BuildCache.Proofs.Interruptions

/-!
What becomes of pending mutations when the journal cannot be written. A write of the journal takes
them before its append can fail, so whoever asked for it has to remember that a snapshot is due. A
record and a save do. A flush does not: it loses what it was to bring to disk if the append itself
fails, and it leaves a journal without a whole header behind if that is where it broke off.
-/
namespace BuildCache

open Disk Program

namespace Log
variable {K V : Type} [Stored K] [Stored V] {faults : Faults} {cwd : Place} {shelf : Shelf}
  {d d₁ d' : Disk} {log mid after : Log K V} {t : Table K V} {keep : Nat → Nat → Bool}

/-- None of the mutations that are pending in `log` is forgotten in `after`. -/
inductive Retains (log after : Log K V) (shelf : Shelf) (d d' : Disk) : Prop
  /-- The next save writes a snapshot, whatever its policy says. -/
  | due (needs : after.needsSnapshot = true)
  /-- They are still pending, behind a journal that has got nothing but its header. -/
  | waiting (pending : after.pending = log.pending)
      (journal : d'.content shelf.journal = d.content shelf.journal ∨
        d'.content shelf.journal = StoreFile.opened log.format (d.content shelf.journal))
  /-- The journal has got all of them. -/
  | journaled (batch : Table K (Option V)) (perm : batch.Perm log.pending)
      (pending : after.pending = [])
      (journal : d'.content shelf.journal = StoreFile.opened log.format (d.content shelf.journal) ++
        StoreFile.journalBatch (records batch))

/-- Nothing is forgotten where nothing changes any more. -/
theorem Retains.stays (retains : log.Retains mid shelf d d₁)
    (needs : after.needsSnapshot = mid.needsSnapshot) (pending : after.pending = mid.pending)
    (journal : d'.content shelf.journal = d₁.content shelf.journal) :
    log.Retains after shelf d d' := by
  cases retains with
  | due due => exact .due (needs.trans due)
  | waiting same journal₁ => exact .waiting (pending.trans same) (journal ▸ journal₁)
  | journaled batch perm nothing journal₁ =>
    exact .journaled batch perm (pending.trans nothing) (journal.trans journal₁)

theorem Retains.of_dirty {dirty : Bool}
    (retains : { log with dirty := dirty }.Retains after shelf d d') :
    log.Retains after shelf d d' := by
  cases retains with
  | due due => exact .due due
  | waiting same journal => exact .waiting same journal
  | journaled batch perm nothing journal => exact .journaled batch perm nothing journal

/-- What was pending is forgotten where it is so no more, and the journal has got nothing but its
header. -/
theorem not_retains_of_opened (waits : log.pending ≠ []) (nothing : after.pending = [])
    (whole : after.needsSnapshot = false)
    (bare : d'.content shelf.journal = StoreFile.opened log.format (d.content shelf.journal)) :
    ¬log.Retains after shelf d d' := by
  intro retains
  cases retains with
  | due due =>
    rw [whole] at due
    cases due
  | waiting same => exact waits (same.symm.trans nothing)
  | journaled batch perm _ journal =>
    rw [bare] at journal
    exact journalBatch_ne_nil perm waits (List.self_eq_append_right.mp journal)

/-- Whoever takes note of a write that failed forgets nothing. -/
theorem Wrote.retains_settle {r : Except StoreError Nat × Log K V}
    (wrote : Wrote faults log shelf d r d') : log.Retains (settle r).2 shelf d d' := by
  cases wrote with
  | idle nothing => exact .waiting rfl (.inl rfl)
  | appended batch h d' some_ perm snapshot content => exact .journaled batch perm rfl content
  | failed => exact .due rfl

/-- Without that, what is pending is lost with the append, or the header is broken. -/
theorem Wrote.retains {result : Except StoreError Nat}
    (wrote : Wrote faults log shelf d (result, after) d')
    (header : result.isOk = false → after.pending ≠ [] →
      d'.content shelf.journal = d.content shelf.journal ∨
        HeaderBroke faults log.format shelf.journal d d') :
    log.Retains after shelf d d' ∨ result.isOk = false ∧ log.needsSnapshot = false ∧
      (after.pending = [] ∨ HeaderBroke faults log.format shelf.journal d d') := by
  cases wrote with
  | idle nothing => exact .inl (.waiting rfl (.inl rfl))
  | appended batch h d' some_ perm snapshot content => exact .inl (.journaled batch perm rfl content)
  | failed e after d' may log_ snapshot content =>
    cases needs : log.needsSnapshot with
    | true => rcases log_ with rfl | rfl <;> exact .inl (.due needs)
    | false =>
      rcases log_ with rfl | rfl
      · by_cases nothing : after.pending = []
        · exact .inr ⟨rfl, rfl, .inl nothing⟩
        · rcases header rfl nothing with same | broke
          · exact .inl (.waiting rfl (.inl same))
          · exact .inr ⟨rfl, rfl, .inr broke⟩
      · exact .inr ⟨rfl, rfl, .inl rfl⟩

/-- A flush that forgets something has failed at the append, or at the header before it. -/
theorem always_flush_retains (stands : log.Stands shelf cwd d) :
    Always faults cwd log.flush d fun r d' => log.Retains r.2 shelf d d' ∨
      r.1.isOk = false ∧ log.needsSnapshot = false ∧
        (r.2.pending = [] ∨ HeaderBroke faults log.format shelf.journal d d') := by
  have writing : Always faults cwd log.writeJournal d fun r d' => log.Retains r.2 shelf d d' ∨
      r.1.isOk = false ∧ log.needsSnapshot = false ∧
        (r.2.pending = [] ∨ HeaderBroke faults log.format shelf.journal d d') := by
    intro r d' run
    obtain ⟨_, _, wrote⟩ := always_writeJournal stands r d' run
    exact wrote.retains (always_writeJournal_header stands r d' run)
  refine Always.bind writing ?_
  rintro ⟨wrote, after⟩ d' known
  cases wrote with
  | error e => exact always_pure.mpr (known.imp_right fun ⟨_, rest⟩ => ⟨rfl, rest⟩)
  | ok n =>
    refine Always.bind (always_syncJournal after d') ?_
    rintro r d'' ⟨rfl, _⟩
    exact always_pure.mpr (.inl (known.resolve_right nofun))

theorem Wrote.flags {r : Except StoreError Nat × Log K V} (wrote : Wrote faults log shelf d r d') :
    r.2.files = log.files ∧ r.2.dirty = log.dirty ∧ r.2.needsSnapshot = log.needsSnapshot ∧
      (r.2.pending = log.pending ∨ r.2.pending = []) := by
  cases wrote with
  | idle => exact ⟨rfl, rfl, rfl, .inl rfl⟩
  | appended => exact ⟨rfl, rfl, rfl, .inr rfl⟩
  | failed e after d' may log_ =>
    rcases log_ with rfl | rfl
    · exact ⟨rfl, rfl, rfl, .inl rfl⟩
    · exact ⟨rfl, rfl, rfl, .inr rfl⟩

/-- A save that fails behind its write of the journal leaves that as it is. -/
theorem Brought.stays {e : StoreError}
    (brought : Brought faults log t keep shelf d (.error e, after) d') :
    after.needsSnapshot = log.needsSnapshot ∧ after.pending = log.pending ∧
      d'.content shelf.journal = d.content shelf.journal := by
  cases brought with
  | failed e may => exact ⟨rfl, rfl, rfl⟩
  | compacted r d' compacted =>
    cases compacted with
    | early e d' may snapshot journal => exact ⟨rfl, rfl, journal⟩
    | late e es d' may perm snapshot journal => exact ⟨rfl, rfl, journal⟩

theorem Saved.retains {e : StoreError}
    (saved : Saved faults log t keep shelf d (.error e, after) d') :
    log.Retains after shelf d d' := by
  cases saved with
  | failed e wrote after d₁ d' changed first rest =>
    obtain ⟨needs, pending, journal⟩ := rest.stays
    have stays := first.retains_settle.of_dirty.stays needs pending journal
    exact stays.stays rfl rfl rfl

/-- Behind a save a snapshot is due only if it failed, and then the log is dirty. -/
theorem Saved.due {r : Except StoreError Nat × Log K V}
    (saved : Saved faults log t keep shelf d r d')
    (due : log.needsSnapshot = true → log.dirty = true) :
    r.2.needsSnapshot = true → r.2.dirty = true := by
  intro needs
  cases saved with
  | unchanged clean => exact due needs
  | failed => rfl
  | done n wrote after d₁ d' changed first rest =>
    cases rest with
    | kept n whole small =>
      rw [whole] at needs
      cases needs
    | compacted r d' compacted =>
      cases compacted
      cases needs

variable [Metered K] [Metered V] [DecidableEq K] {P : Record K V → Prop}

/-- A log that has forgotten nothing mirrors the table on. -/
theorem Mirrors.retained (mirrors : Mirrors P log shelf d t)
    (retains : log.Retains after shelf d d') (files : after.files = log.files)
    (format : after.format = log.format) (needs : after.needsSnapshot = log.needsSnapshot)
    (pending : after.pending = log.pending ∨ after.pending = [])
    (snapshot : d'.content shelf.snapshot = d.content shelf.snapshot) :
    Mirrors P after shelf d' t where
  distinct := mirrors.distinct
  pendingDistinct := by
    rcases pending with same | nothing
    · exact same ▸ mirrors.pendingDistinct
    · exact nothing ▸ List.nodup_nil
  agrees := by
    rcases pending with same | nothing
    · exact same ▸ mirrors.agrees
    · exact nothing ▸ nofun
  each := mirrors.each
  pendingEach := by
    rcases pending with same | nothing
    · exact same ▸ mirrors.pendingEach
    · exact nothing ▸ nofun
  replays whole := by
    obtain ⟨pairs, records, yields, covers⟩ := mirrors.replays (needs ▸ whole)
    rw [files, format]
    cases retains with
    | due due =>
      rw [due] at whole
      cases whole
    | waiting same journal => exact ⟨pairs, records, yields.opened snapshot journal, same ▸ covers⟩
    | journaled batch perm nothing journal =>
      refine ⟨pairs, _, yields.append (each_records perm mirrors.pendingEach) snapshot journal, ?_⟩
      rw [nothing, ← List.append_assoc]
      exact covers.write mirrors.pendingDistinct perm

end Log

namespace DurableMap
variable {K V : Type} [Stored K] [Stored V] [DecidableEq K] {faults : Faults} {cwd : Place}
  {shelf : Shelf} {files : LogFiles} {format : StoreFormat} {start d d' : Disk}
  {m m' : DurableMap K V} {s s' : Stage K V} {P : Record K V → Prop} {log : Log K V}

/-- One thing is done to a map, or its log is flushed and forgets nothing. -/
inductive RetainingStep (shelf : Shelf) (cwd : Place) (s : Stage K V) : Stage K V → Prop
  | step {s' : Stage K V} (step : Step shelf cwd s s') : RetainingStep shelf cwd s s'
  | flush {r : Except StoreError Unit} {log : Log K V} {d' : Disk}
      (run : Runs .any cwd s.map.log.flush s.disk (r, log) d')
      (retains : s.map.log.Retains log shelf s.disk d') :
    RetainingStep shelf cwd s ⟨s.written, { s.map with log }, d'⟩

/-- A map that was opened, and then used, with flushes in between that forget nothing. -/
inductive RetainingCourse (files : LogFiles) (format : StoreFormat) (shelf : Shelf) (cwd : Place)
    (start : Disk) : Stage K V → Prop
  | opened {m : DurableMap K V} {d : Disk}
      (opening : Runs .none cwd (DurableMap.open files format) start (.ok m) d) :
    RetainingCourse files format shelf cwd start ⟨[], m, d⟩
  | next {s s' : Stage K V} (course : RetainingCourse files format shelf cwd start s)
      (step : RetainingStep shelf cwd s s') : RetainingCourse files format shelf cwd start s'

theorem Course.retaining (course : Course files format shelf cwd start s) :
    RetainingCourse files format shelf cwd start s := by
  induction course with
  | opened opening => exact .opened opening
  | next _ step ih => exact ih.next (.step step)

theorem RetainingStep.written_sub (step : RetainingStep shelf cwd s s') :
    s.written ⊆ s'.written := by
  cases step with
  | step step => exact step.written_sub
  | flush => exact List.Subset.refl _

variable [Metered K] [Metered V]

/-- The map is upheld, and its next save does not pass over a snapshot that is due. -/
structure Heeded (P : Record K V → Prop) (m : DurableMap K V) (files : LogFiles)
    (format : StoreFormat) (shelf : Shelf) (cwd : Place) (d : Disk) : Prop
    extends Upheld P m files format shelf cwd d where
  due : m.log.needsSnapshot = true → m.log.dirty = true

theorem Heeded.flushed {r : Except StoreError Unit} (heeded : Heeded P m files format shelf cwd d)
    (run : Runs faults cwd m.log.flush d (r, log) d') (retains : m.log.Retains log shelf d d') :
    Heeded P { m with log } files format shelf cwd d' := by
  obtain ⟨_, stands, wrote, cases_, _⟩ := Log.always_flush heeded.stands _ _ run
  obtain ⟨sameFiles, dirty, needs, pending⟩ := cases_.flags
  have sameFormat := cases_.format
  have mirrors := heeded.vouches.toMirrors.retained retains sameFiles sameFormat needs pending
    cases_.snapshot
  refine ⟨⟨stands, sameFiles.trans heeded.files, sameFormat.trans heeded.format,
    ⟨mirrors, fun clean => ?_⟩⟩, fun due => dirty.trans (heeded.due (needs.symm.trans due))⟩
  have clean' : m.log.dirty = false := dirty.symm.trans clean
  have whole : log.needsSnapshot = false := by
    rw [needs]
    cases due : m.log.needsSnapshot with
    | false => rfl
    | true =>
      rw [heeded.due due] at clean'
      cases clean'
  cases retains with
  | due due =>
    rw [due] at whole
    cases whole
  | waiting same journal =>
    obtain ⟨pairs, records, yields, covers⟩ := heeded.vouches.clean clean'
    have yields := yields.opened cases_.snapshot journal
    rw [← sameFiles, ← sameFormat] at yields
    exact ⟨pairs, records, yields, covers⟩
  | journaled batch perm nothing journal =>
    obtain ⟨pairs, records, yields, covers⟩ := mirrors.replays whole
    exact ⟨pairs, records, yields, nothing ▸ covers⟩

theorem Heeded.step (heeded : Heeded P s.map files format shelf cwd s.disk)
    (step : Step shelf cwd s s') (each : ∀ r ∈ s'.written, P r) :
    Heeded P s'.map files format shelf cwd s'.disk where
  toUpheld := heeded.toUpheld.step step each
  due := by
    cases step with
    | put k v now run =>
      obtain ⟨_, _, mutated⟩ := always_put heeded.stands k v now _ _ run
      exact fun _ => mutated.recorded.dirty
    | remove k now run =>
      by_cases present : s.map.get? k = none
      · rw [remove_of_absent present] at run
        cases run
        exact heeded.due
      · obtain ⟨_, _, mutated⟩ := always_remove heeded.stands present now _ _ run
        exact fun _ => mutated.recorded.dirty
    | clear => exact fun _ => rfl
    | save keep run =>
      obtain ⟨_, _, log, rfl, saved⟩ := always_save heeded.stands keep _ _ run
      exact saved.due heeded.due
    | elsewhere => exact heeded.due

variable [Framed K] [Framed V] [Tangible K]

theorem RetainingCourse.heeded (course : RetainingCourse files format shelf cwd start s)
    (holds : shelf.Holds files cwd start) (each : ∀ r ∈ s.written, P r) :
    Heeded P s.map files format shelf cwd s.disk := by
  induction course with
  | opened opening =>
    obtain ⟨rfl, upheld⟩ := upheld_of_open (P := P) holds opening
    refine ⟨upheld, fun due => ?_⟩
    rw [log_of_open opening] at due
    cases due
  | next course step ih =>
    have before := ih fun r mem => each r (step.written_sub mem)
    cases step with
    | step step => exact before.step step each
    | flush run retains => exact before.flushed run retains

/-- A record and a save never forget what is pending, however they fail, nor does a flush unless the
append or the header it writes is what failed. As long as no flush forgets anything, a save that is
done has brought everything to disk, whatever the policies say and whatever else went wrong. -/
theorem forgets_nothing (faults : Faults) (holds : shelf.Holds files cwd start) :
    (∀ (log : Log K V) (d : Disk), log.Stands shelf cwd d →
      (∀ k v? now, Always faults cwd (log.record k v? now) d fun after d' =>
        (log.noted k v?).Retains after shelf d d') ∧
      (∀ t keep, Always faults cwd (log.save t keep) d fun r d' =>
        r.1.isOk ∨ log.Retains r.2 shelf d d') ∧
      Always faults cwd log.flush d fun r d' => log.Retains r.2 shelf d d' ∨
        r.1.isOk = false ∧ log.needsSnapshot = false ∧
          (r.2.pending = [] ∨ Log.HeaderBroke faults log.format shelf.journal d d')) ∧
    ∀ s : Stage K V, RetainingCourse files format shelf cwd start s →
      (∀ r ∈ s.written, Metered.Sized r) → ∀ keep n m' d',
        Runs .any cwd (s.map.save keep) s.disk (.ok n, m') d' →
          m'.entries = s.map.entries ∧ Rebuilds s.written files format cwd d' m'.entries := by
  refine ⟨fun log d stands => ⟨fun k v? now => ?_, fun t keep => ?_, ?_⟩, ?_⟩
  · refine (Log.always_record stands k v? now).mono ?_
    rintro after d' ⟨_, _, ⟨_, rfl, rfl⟩ | ⟨_, wrote, cases_, rfl⟩⟩
    · exact .waiting rfl (.inl rfl)
    · exact cases_.retains_settle
  · refine (Log.always_save stands t keep).mono ?_
    rintro ⟨r, after⟩ d' ⟨_, _, saved⟩
    cases r with
    | ok n => exact .inl rfl
    | error e => exact .inr saved.retains
  · exact Log.always_flush_retains stands
  · intro s course sized keep n m' d' save
    have heeded := course.heeded (P := (· ∈ s.written)) holds fun r mem => mem
    exact heeded.toUpheld.rebuilds sized save

/-- A map in an empty directory, with one entry that is still pending. -/
def sample : DurableMap Slot Bytes where
  entries := [(.validation, [7])]
  log :=
    { files := Layout.sample.mapFiles
      format := Cache.format
      pending := [(.validation, some [7])]
      dirty := true }

theorem course_sample : Course Layout.sample.mapFiles Cache.format (Layout.home ["cache"]).map []
    .sample ⟨[.put .validation [7]], sample, .sample⟩ :=
  (steadyCourse_noted [7]).course

/-- A flush is refused before it has taken anything, and a save that keeps the journal writes it. -/
theorem forgets_nothing_sample : ∃ (s : Stage Slot Bytes) (m' : DurableMap Slot Bytes) (d' : Disk)
    (n : Nat),
    RetainingCourse Layout.sample.mapFiles Cache.format (Layout.home ["cache"]).map [] .sample s ∧
      s.map.log.pending = [(.validation, some [7])] ∧ s.map.log.needsSnapshot = false ∧
      Runs .any [] (s.map.save fun _ _ => true) s.disk (.ok n, m') d' ∧
      m'.entries = [(.validation, [7])] ∧
      Rebuilds s.written Layout.sample.mapFiles Cache.format [] d' m'.entries := by
  have refused : Runs .any [] sample.log.flush .sample
      (.error (.io Layout.sample.mapFiles.journal .busy), sample.log) .sample :=
    .ask (.refused (.openJournal _) .busy _ trivial (by decide) rfl) (.done _ _)
  have course : RetainingCourse Layout.sample.mapFiles Cache.format (Layout.home ["cache"]).map []
      .sample ⟨[.put .validation [7]], sample, .sample⟩ :=
    course_sample.retaining.next (.flush refused (.waiting rfl (.inl rfl)))
  have save := runs_run .any (sample.save fun _ _ => true) (Situation.host [] .sample)
  have done : ((sample.save fun _ _ => true).run (Situation.host [] .sample)).1.1.isOk = true := by
    decide +kernel
  cases found : ((sample.save fun _ _ => true).run (Situation.host [] .sample)).1 with
  | mk r m' =>
    rw [found] at save done
    cases r with
    | error e => cases done
    | ok n =>
      obtain ⟨same, rebuilds⟩ := (forgets_nothing .any Layout.empty_sample.lives.map).2 _ course
        (sized_noted (by decide)) _ n m' _ save
      exact ⟨_, m', _, n, course, rfl, rfl, save, same, rebuilds⟩

/-- The append of a flush is refused. The log has nothing to do any more, and a save that keeps the
journal is done without a trace of what was pending. -/
theorem forgotten_of_flush : ∃ (s : Stage Slot Bytes) (e : StoreError) (log : Log Slot Bytes)
    (d d' : Disk) (n : Nat) (m' : DurableMap Slot Bytes),
    Course Layout.sample.mapFiles Cache.format (Layout.home ["cache"]).map [] .sample s ∧
      s.map.log.pending = [(.validation, some [7])] ∧
      Runs .refusalsOnly [] s.map.log.flush s.disk (.error e, log) d ∧
      ¬s.map.log.Retains log (Layout.home ["cache"]).map s.disk d ∧
      Runs .none [] ({ s.map with log }.save fun _ _ => true) d (.ok n, m') d' ∧
      m'.entries = [(.validation, [7])] ∧
      Reopens (K := Slot) (V := Bytes) Layout.sample.mapFiles Cache.format [] d' [] := by
  have flushed : Runs .refusalsOnly [] sample.log.flush .sample
      (refuse 3 sample.log.flush (Situation.host [] .sample)).1
      (refuse 3 sample.log.flush (Situation.host [] .sample)).2.disk :=
    runs_refuse trivial 3 sample.log.flush (Situation.host [] .sample)
  have found : let flush := refuse 3 sample.log.flush (Situation.host [] .sample)
      let save := ({ sample with log := flush.1.2 }.save fun _ _ => true).run
        (Situation.host [] flush.2.disk)
      flush.1.1.isOk = false ∧ flush.1.2.pending = [] ∧ flush.1.2.needsSnapshot = false ∧
        flush.2.disk.content ["cache", "action_journal.bin"] =
          StoreFile.journalFront Cache.format ∧
        save.1.1.isOk = true ∧ save.1.2.entries = [(.validation, [7])] ∧
        (Log.verdict (K := Slot) (V := Bytes) Layout.sample.mapFiles Cache.format []
          save.2.disk).toOption = some [] := by decide +kernel
  generalize refuse 3 sample.log.flush (Situation.host [] .sample) = flush at flushed found
  obtain ⟨⟨r, log⟩, host⟩ := flush
  have saved := runs_run .none ({ sample with log }.save fun _ _ => true)
    (Situation.host [] host.disk)
  obtain ⟨failed, nothing, whole, bare, done, entries, told⟩ := found
  dsimp only at flushed failed nothing whole bare done entries told
  generalize ({ sample with log }.save fun _ _ => true).run (Situation.host [] host.disk) = save
    at saved done entries told
  obtain ⟨⟨r', m'⟩, host'⟩ := save
  have forgotten : ¬sample.log.Retains log (Layout.home ["cache"]).map .sample host.disk :=
    Log.not_retains_of_opened (List.cons_ne_nil _ _) nothing whole bare
  have reopens : Reopens (K := Slot) (V := Bytes) Layout.sample.mapFiles Cache.format []
      host'.disk [] := by
    cases read : Log.verdict (K := Slot) (V := Bytes) Layout.sample.mapFiles Cache.format []
        host'.disk with
    | error e =>
      rw [read] at told
      cases told
    | ok records =>
      rw [read] at told
      cases told
      exact reopens_of_verdict read (.refl _)
  cases r with
  | ok => cases failed
  | error e =>
    cases r' with
    | error e' => cases done
    | ok n =>
      exact ⟨_, e, log, _, _, n, m', course_sample, rfl, flushed, forgotten, saved, entries, reopens⟩

end DurableMap
end BuildCache
