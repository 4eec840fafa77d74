import BuildCache.Proofs.Durability
import Mathlib.Logic.Relation

/-!
A save that does not come to its end. It writes the journal first, and from then on the files have
the whole table whatever happens: a stop between two requests, or a failure, leaves the old
snapshot with the journal behind it, a new snapshot with the old journal, or a new snapshot alone.
Up to the end of the journal's append the files have the table of the write before.
-/
namespace BuildCache

open Disk Program

namespace Program
variable {α β : Type} {faults faults' : Faults} {cwd : Place} {d d' d'' : Disk}

/-- The program may be stopped in front of one of its requests, with the disk as it is in `d'`. -/
inductive Halts (faults : Faults) (cwd : Place) : Program α → Disk → Disk → Prop
  | here (r : Request) (next : r.Reply → Program α) (d : Disk) :
    Halts faults cwd (.ask r next) d d
  | later {r : Request} {next : r.Reply → Program α} {reply : r.Reply} {d d' d'' : Disk} :
    d.Answers faults cwd r reply d' → Halts faults cwd (next reply) d' d'' →
      Halts faults cwd (.ask r next) d d''

theorem Halts.stops {p : Program α} (halt : Halts faults cwd p d d') : Stops faults cwd p d d' := by
  induction halt with
  | here r next d => exact .here _ d
  | later answer _ ih => exact .later answer ih

theorem Runs.stops {p : Program α} {a : α} (run : Runs faults cwd p d a d') :
    Stops faults cwd p d d' := by
  induction run with
  | done a d => exact .here _ d
  | ask answer _ ih => exact .later answer ih

/-- A stop falls into the first part of a program, or behind it. -/
theorem stops_bind {x : Program α} {f : α → Program β}
    (stop : Stops faults cwd (x >>= f) d d'') : Halts faults cwd x d d'' ∨
      ∃ a d', Runs faults cwd x d a d' ∧ Stops faults cwd (f a) d' d'' := by
  induction x generalizing d with
  | done a => exact .inr ⟨a, d, .done a d, stop⟩
  | ask r next ih =>
    cases stop with
    | here => exact .inl (.here r next _)
    | later answer rest =>
      rcases ih _ rest with halt | ⟨a, d', run, stop⟩
      · exact .inl (.later answer halt)
      · exact .inr ⟨a, d', .ask answer run, stop⟩

/-- Behind a first part that is done, every stop of the rest is a stop of the whole. -/
theorem Runs.stops_bind {x : Program α} {f : α → Program β} {a : α}
    (run : Runs faults cwd x d a d') (stop : Stops faults cwd (f a) d' d'') :
    Stops faults cwd (x >>= f) d d'' := by
  induction run with
  | done a d => exact stop
  | ask answer _ ih => exact .later answer (ih stop)

theorem halts_bind {x : Program α} {f : α → Program β}
    (halt : Halts faults cwd (x >>= f) d d'') : Halts faults cwd x d d'' ∨
      ∃ a d', Runs faults cwd x d a d' ∧ Halts faults cwd (f a) d' d'' := by
  induction x generalizing d with
  | done a => exact .inr ⟨a, d, .done a d, halt⟩
  | ask r next ih =>
    cases halt with
    | here => exact .inl (.here r next _)
    | later answer rest =>
      rcases ih _ rest with halt | ⟨a, d', run, halt⟩
      · exact .inl (.later answer halt)
      · exact .inr ⟨a, d', .ask answer run, halt⟩

/-- Wherever the program is stopped in front of a request, `Q` holds of the disk. -/
def Amid (faults : Faults) (cwd : Place) (p : Program α) (d : Disk) (Q : Disk → Prop) : Prop :=
  ∀ d', Halts faults cwd p d d' → Q d'

variable {Q : Disk → Prop}

theorem amid_pure (a : α) : Amid faults cwd (pure a) d Q := nofun

theorem amid_request {r : Request} (here : Q d) : Amid faults cwd (request r) d Q := by
  intro d' halt
  cases halt with
  | here => exact here
  | later _ rest => cases rest

theorem Amid.bind {x : Program α} {f : α → Program β} {P : α → Disk → Prop}
    (first : Amid faults cwd x d Q) (run : Always faults cwd x d P)
    (next : ∀ a d', P a d' → Amid faults cwd (f a) d' Q) : Amid faults cwd (x >>= f) d Q := by
  intro d'' halt
  rcases halts_bind halt with halt | ⟨a, d', ran, halt⟩
  · exact first d'' halt
  · exact next a d' (run a d' ran) d'' halt

theorem Amid.mono {p : Program α} {P : Disk → Prop} (amid : Amid faults cwd p d P)
    (imp : ∀ d', P d' → Q d') : Amid faults cwd p d Q :=
  fun d' halt => imp d' (amid d' halt)

theorem amid_walk (as : List α) : Amid faults cwd (walk as) d (· = d) :=
  Amid.bind (P := fun _ _ => True) (amid_request rfl) (fun _ _ _ => trivial)
    fun _ _ _ => amid_pure _

/-- Whatever happens may happen where more can go wrong. -/
theorem answers_mono {r : Request} {reply : r.Reply} (refusals : faults.refusals → faults'.refusals)
    (tears : faults.tears → faults'.tears) (answer : d.Answers faults cwd r reply d') :
    d.Answers faults' cwd r reply d' := by
  cases answer with
  | served clock r => exact .served clock r
  | walked count places => exact .walked count places
  | refused r e reply may other refusal => exact .refused r e reply (refusals may) other refusal
  | torn h bs front e may part => exact .torn h bs front e (tears may) part

theorem Runs.any {p : Program α} {a : α} (run : Runs faults cwd p d a d') :
    Runs .any cwd p d a d' := by
  induction run with
  | done a d => exact .done a d
  | ask answer _ ih => exact .ask (answers_mono (fun _ => trivial) (fun _ => trivial) answer) ih

theorem Stops.any {p : Program α} (stop : Stops faults cwd p d d') : Stops .any cwd p d d' := by
  induction stop with
  | here p d => exact .here p d
  | later answer _ ih => exact .later (answers_mono (fun _ => trivial) (fun _ => trivial) answer) ih

end Program

namespace Log
variable {K V : Type} {cwd : Place} {shelf : Shelf} {files : LogFiles} {d d' : Disk}

/-- A journal that is being opened has what it had before. -/
theorem amid_openJournal (holds : shelf.Holds files cwd d) (format : StoreFormat) :
    Amid .none cwd (openJournal files.journal format) d fun d' =>
      Touches [shelf.journal] d d' ∧ d'.content shelf.journal = d.content shelf.journal := by
  refine Amid.bind (amid_request ⟨.refl holds.sound, rfl⟩)
    (always_request.mpr fun reply d' answer =>
      answers_openJournal holds.sound holds.journal answer) ?_
  rintro r d' (⟨h, rfl, touches, file⟩ | ⟨_, may, _⟩)
  · dsimp only
    split
    · refine Amid.bind (P := fun _ _ => True) (amid_request ⟨touches, content_of_file? file⟩)
        (fun _ _ _ => trivial) fun _ _ _ => amid_pure _
    · exact amid_pure _
  · exact may.elim

variable [Stored K] [Stored V] {log : Log K V}

/-- Until its append has happened, a write of the journal has added a header at the most. -/
theorem amid_writeJournal (stands : log.Stands shelf cwd d) :
    Amid .none cwd log.writeJournal d fun d' => Touches [shelf.journal] d d' ∧
      (d'.content shelf.journal = d.content shelf.journal ∨
        d'.content shelf.journal = StoreFile.opened log.format (d.content shelf.journal)) := by
  by_cases nothing : log.pending = []
  · rw [writeJournal_of_nil nothing]
    exact amid_pure _
  unfold writeJournal
  rw [if_neg (by simpa using nothing)]
  refine Amid.bind ?_ (always_ensureJournal stands) ?_
  · unfold ensureJournal
    cases log.journal with
    | some h => exact amid_pure _
    | none =>
      exact (amid_openJournal stands.holds log.format).mono fun d' known => known.imp_right .inl
  · rintro r d' ⟨touches, ⟨h, rfl, file⟩ | ⟨_, ⟨e, rfl⟩, _⟩⟩
    · have same := content_of_file? file
      refine Amid.bind (Amid.bind (P := fun _ _ => True) (amid_request ⟨touches, .inr same⟩)
        (fun _ _ _ => trivial) fun _ _ _ => amid_pure _) (always_walk log.pending) ?_
      rintro batch d' ⟨rfl, _⟩
      exact Amid.bind (P := fun _ _ => True) (amid_request ⟨touches, .inr same⟩)
        (fun _ _ _ => trivial) fun r _ _ => by cases r <;> exact amid_pure _
    · exact amid_pure _

/-- The first part of a save: the write of the journal, if anything has changed. -/
def prepare (log : Log K V) : Program (Option (Except StoreError Nat × Log K V)) :=
  if !log.dirty then return none
  else do return some (← { log with dirty := false }.writeJournal)

/-- A log that could not be saved stays dirty. -/
def conclude : Except StoreError Nat × Log K V → Except StoreError Nat × Log K V
  | (.error e, log) => (.error e, { log with dirty := true })
  | (.ok n, log) => (.ok n, log)

/-- The rest of a save. -/
def finish (log : Log K V) (entries : Table K V) (keep : Nat → Nat → Bool) :
    Option (Except StoreError Nat × Log K V) → Program (Except StoreError Nat × Log K V)
  | none => return (.ok 0, log)
  | some wrote => do return conclude (← (settle wrote).2.bring entries keep (settle wrote).1)

theorem save_eq (log : Log K V) (entries : Table K V) (keep : Nat → Nat → Bool) :
    log.save entries keep = log.prepare >>= log.finish entries keep := by
  unfold save prepare
  cases log.dirty with
  | false => rfl
  | true =>
    rw [if_neg (by decide), if_neg (by decide), saveChanged_eq, bind_assoc, bind_assoc]
    refine congrArg _ (funext fun wrote => congrArg _ (funext fun brought => ?_))
    obtain ⟨r, log⟩ := brought
    cases r <;> rfl

omit [Stored K] [Stored V] in
theorem conclude_eq (r : Except StoreError Nat) (log : Log K V) :
    ∃ dirty, conclude (r, log) = (r, { log with dirty }) := by
  cases r with
  | error e => exact ⟨true, rfl⟩
  | ok n => exact ⟨log.dirty, rfl⟩

theorem Wrote.needsSnapshot {r : Except StoreError Nat × Log K V}
    (wrote : Wrote .none log shelf d r d') : (settle r).2.needsSnapshot = log.needsSnapshot := by
  cases wrote with
  | idle => rfl
  | appended => rfl
  | failed _ _ _ may => exact absurd may Faults.not_possible_none

theorem Wrote.snapshot {faults : Faults} {r : Except StoreError Nat × Log K V}
    (wrote : Wrote faults log shelf d r d') :
    d'.content shelf.snapshot = d.content shelf.snapshot := by
  cases wrote <;> first | rfl | assumption

variable {faults : Faults} {entries : Table K V} {keep : Nat → Nat → Bool}

theorem Brought.needsSnapshot {r : Except StoreError Nat × Log K V}
    (brought : Brought faults log entries keep shelf d r d') (whole : log.needsSnapshot = false) :
    r.2.needsSnapshot = false := by
  cases brought with
  | kept => exact whole
  | failed => exact whole
  | compacted r d' compacted =>
    cases compacted with
    | done => rfl
    | early => exact whole
    | late => exact whole

/-- The snapshot is the old one, or a new one with all of the table. -/
def SnapshotKept (format : StoreFormat) (entries : Table K V) (p : Place) (d d' : Disk) : Prop :=
  d'.content p = d.content p ∨
    ∃ es : Table K V, es.Perm entries ∧ d'.content p = StoreFile.snapshot format es

theorem Brought.snapshot {r : Except StoreError Nat × Log K V}
    (brought : Brought faults log entries keep shelf d r d') :
    SnapshotKept log.format entries shelf.snapshot d d' := by
  cases brought with
  | kept => exact .inl rfl
  | failed => exact .inl rfl
  | compacted r d' compacted =>
    cases compacted with
    | done n es d' perm snapshot journal => exact .inr ⟨es, perm, snapshot⟩
    | early e d' may snapshot journal => exact .inl snapshot
    | late e es d' may perm snapshot journal => exact .inr ⟨es, perm, snapshot⟩

end Log

namespace DurableMap
variable {K V : Type} [Stored K] [Stored V]

/-- The rest of a save, behind its write of the journal. -/
def finish (m : DurableMap K V) (keep : Nat → Nat → Bool)
    (wrote : Option (Except StoreError Nat × Log K V)) :
    Program (Except StoreError Nat × DurableMap K V) := do
  let (result, log) ← m.log.finish m.entries keep wrote
  return (result, { m with log })

theorem save_eq (m : DurableMap K V) (keep : Nat → Nat → Bool) :
    m.save keep = m.log.prepare >>= m.finish keep := by
  unfold save finish
  rw [Log.save_eq, bind_assoc]

variable [DecidableEq K] {cwd : Place} {shelf : Shelf} {files : LogFiles} {format : StoreFormat}
  {start d d' : Disk} {m m' : DurableMap K V} {s s' mark : Stage K V}

/-- One thing is done to a map, and no write of its journal fails; behind that write, anything may
go wrong in a save. It is told whether the journal was written, or a save begun. -/
inductive Steady (shelf : Shelf) (cwd : Place) (s : Stage K V) : Stage K V → Bool → Prop
  | put (k : K) (v : V) (now : Bool) {m' : DurableMap K V} {d' : Disk}
      (run : Runs .none cwd (s.map.put k v now) s.disk m' d') :
    Steady shelf cwd s ⟨.put k v :: s.written, m', d'⟩ now
  | remove (k : K) (now : Bool) {m' : DurableMap K V} {d' : Disk}
      (run : Runs .none cwd (s.map.remove k now) s.disk m' d') :
    Steady shelf cwd s
      ⟨if (s.map.get? k).isSome then .remove k :: s.written else s.written, m', d'⟩
      ((s.map.get? k).isSome && now)
  | save (keep : Nat → Nat → Bool) {wrote : Option (Except StoreError Nat × Log K V)} {d₁ : Disk}
      {r : Except StoreError Nat} {m' : DurableMap K V} {d' : Disk}
      (first : Runs .none cwd s.map.log.prepare s.disk wrote d₁)
      (rest : Runs .any cwd (s.map.finish keep wrote) d₁ (r, m') d') :
    Steady shelf cwd s ⟨s.written, m', d'⟩ true
  | elsewhere (others : List Place) {d' : Disk} (touches : Touches others s.disk d')
      (apart : ∀ p ∈ shelf.places, p ∉ others) : Steady shelf cwd s ⟨s.written, s.map, d'⟩ false

theorem Steady.step {wrote : Bool} (steady : Steady shelf cwd s s' wrote) :
    Step shelf cwd s s' := by
  cases steady with
  | put k v _ run => exact .put k v wrote run.any
  | remove k now run => exact .remove k now run.any
  | save keep first rest =>
    have whole := runs_bind.mpr ⟨_, _, first.any, rest⟩
    rw [← save_eq] at whole
    exact .save keep whole
  | elsewhere others touches apart => exact .elsewhere others touches apart

/-- The course of a map in which no write of the journal has failed, and where it was at the latest
of these writes, or behind the latest save. -/
inductive SteadyCourse (files : LogFiles) (format : StoreFormat) (shelf : Shelf) (cwd : Place)
    (start : Disk) : Stage K V → Stage K V → Prop
  | opened {m : DurableMap K V} {d : Disk}
      (opening : Runs .none cwd (DurableMap.open files format) start (.ok m) d) :
    SteadyCourse files format shelf cwd start ⟨[], m, d⟩ ⟨[], m, d⟩
  | next {s s' mark : Stage K V} {wrote : Bool}
      (course : SteadyCourse files format shelf cwd start s mark)
      (steady : Steady shelf cwd s s' wrote) :
    SteadyCourse files format shelf cwd start s' (if wrote then s' else mark)

theorem SteadyCourse.course (course : SteadyCourse files format shelf cwd start s mark) :
    Course files format shelf cwd start s := by
  induction course with
  | opened opening => exact .opened opening
  | next course steady ih => exact ih.next steady.step

theorem SteadyCourse.mark_sub (course : SteadyCourse files format shelf cwd start s mark) :
    mark.written ⊆ s.written := by
  induction course with
  | opened => exact List.Subset.refl _
  | next course steady ih =>
    split
    · exact List.Subset.refl _
    · exact List.Subset.trans ih steady.step.written_sub

variable [Metered K] [Metered V]

/-- The files are good for the map as it was at the mark, and with what is pending for the map as it
is. -/
structure Ledger (files : LogFiles) (format : StoreFormat) (shelf : Shelf) (cwd : Place)
    (s mark : Stage K V) : Prop where
  stands : s.map.log.Stands shelf cwd s.disk
  files : s.map.log.files = files
  format : s.map.log.format = format
  whole : s.map.log.needsSnapshot = false
  clean : s.map.log.dirty = false → s.map.log.pending = []
  mirrors : Log.Mirrors (· ∈ s.written) s.map.log shelf s.disk s.map.entries
  complete : Log.Complete (· ∈ mark.written) s.map.log shelf s.disk mark.map.entries
  distinct : mark.map.entries.keys.Nodup

theorem Ledger.holds (ledger : Ledger files format shelf cwd s mark) :
    shelf.Holds files cwd s.disk := by
  rw [← ledger.files]
  exact ledger.stands.holds

theorem Ledger.now (ledger : Ledger files format shelf cwd s mark)
    (nothing : s.map.log.pending = []) :
    Log.Complete (· ∈ s.written) s.map.log shelf s.disk s.map.entries := by
  obtain ⟨pairs, records, yields, covers⟩ := ledger.mirrors.replays ledger.whole
  rw [nothing] at covers
  exact ⟨pairs, records, yields, covers⟩

/-- A mutation is noted, or noted and journaled. -/
theorem Ledger.mutated {k : K} {v? : Option V} {now : Bool}
    (ledger : Ledger files format shelf cwd s mark) (stands : m'.log.Stands shelf cwd d')
    (mutated : Mutated .none s.map shelf s.disk k v? now m' d') :
    Ledger files format shelf cwd ⟨.of k v? :: s.written, m', d'⟩
      (if now then ⟨.of k v? :: s.written, m', d'⟩ else mark) := by
  have old := ledger.mirrors.mono fun r mem => List.mem_cons_of_mem (Record.of k v?) mem
  have distinct : m'.entries.keys.Nodup := by
    rw [mutated.1]
    exact nodup_keys_apply ledger.mirrors.distinct _
  have noted := old.noted distinct List.mem_cons_self (fun k' => by
    rw [mutated.1, get?_apply, Record.key_of, Record.value?_of])
  have sameFiles := mutated.recorded.same_files.trans ledger.files
  have sameFormat := mutated.recorded.format.trans ledger.format
  have dirty := mutated.recorded.dirty
  obtain ⟨entries, ⟨rfl, log, rfl⟩ | ⟨rfl, wrote, cases_, log⟩⟩ := mutated
  · refine ⟨stands, sameFiles, sameFormat, ?_, fun clean => ?_, ?_, ?_, ledger.distinct⟩
    · rw [log]
      exact ledger.whole
    · rw [dirty] at clean
      cases clean
    · rw [log]
      exact noted
    · rw [log]
      exact ledger.complete
  · have mirrors := noted.wrote cases_
    have whole := cases_.needsSnapshot.trans ledger.whole
    have nothing := cases_.pending_settle whole
    rw [← log] at mirrors whole nothing
    have written : Ledger files format shelf cwd ⟨.of k v? :: s.written, m', d'⟩
        ⟨.of k v? :: s.written, m', d'⟩ := by
      refine ⟨stands, sameFiles, sameFormat, whole, fun _ => nothing, mirrors, ?_, distinct⟩
      obtain ⟨pairs, records, yields, covers⟩ := mirrors.replays whole
      rw [nothing] at covers
      exact ⟨pairs, records, yields, covers⟩
    exact written

omit [DecidableEq K] [Metered K] [Metered V] in
/-- A save that has written the journal brings the table to disk, or fails, and is dirty then. -/
theorem exists_brought {keep : Nat → Nat → Bool} {wrote : Except StoreError Nat × Log K V}
    {faults : Faults} {r : Except StoreError Nat} (stands : wrote.2.Stands shelf cwd d)
    (rest : Runs faults cwd (m.finish keep (some wrote)) d (r, m') d') :
    ∃ log dirty, m' = { m with log := { log with dirty } } ∧ log.Stands shelf cwd d' ∧
      Log.Brought faults (Log.settle wrote).2 m.entries keep shelf d (r, log) d' := by
  obtain ⟨⟨r', after⟩, d₂, finished, last⟩ := runs_bind.mp rest
  cases last
  obtain ⟨⟨r₁, log⟩, d₃, ran, last⟩ := runs_bind.mp finished
  obtain ⟨_, stands', brought⟩ := Log.always_bring stands.settle m.entries keep _ _ _ ran
  obtain ⟨dirty, concluded⟩ := Log.conclude_eq r₁ log
  rw [concluded] at last
  cases last
  exact ⟨log, dirty, rfl, stands', brought⟩

/-- A save whose write of the journal has not failed may end as it likes. -/
theorem Ledger.saved {keep : Nat → Nat → Bool} {wrote : Option (Except StoreError Nat × Log K V)}
    {d₁ : Disk} {r : Except StoreError Nat} (ledger : Ledger files format shelf cwd s mark)
    (first : Runs .none cwd s.map.log.prepare s.disk wrote d₁)
    (rest : Runs .any cwd (s.map.finish keep wrote) d₁ (r, m') d') :
    m'.entries = s.map.entries ∧
      Ledger files format shelf cwd ⟨s.written, m', d'⟩ ⟨s.written, m', d'⟩ ∧
      Log.SnapshotKept format s.map.entries shelf.snapshot s.disk d' := by
  unfold Log.prepare at first
  cases changed : s.map.log.dirty with
  | false =>
    rw [changed] at first
    cases first
    cases rest
    have complete := ledger.now (ledger.clean changed)
    refine ⟨rfl, ?_, .inl rfl⟩
    exact ⟨ledger.stands, ledger.files, ledger.format, ledger.whole, ledger.clean, ledger.mirrors,
      complete, ledger.mirrors.distinct⟩
  | true =>
    rw [changed] at first
    obtain ⟨w, d₂, ran, last⟩ := runs_bind.mp first
    cases last
    have stands₀ : { s.map.log with dirty := false }.Stands shelf cwd s.disk :=
      ⟨ledger.stands.holds, ledger.stands.attached⟩
    obtain ⟨_, stands₁, cases_⟩ := Log.always_writeJournal stands₀ _ _ ran
    obtain ⟨log, dirty, rfl, stands₂, brought⟩ := exists_brought stands₁ rest
    have start : Log.Mirrors (· ∈ s.written) { s.map.log with dirty := false } shelf s.disk
        s.map.entries := ledger.mirrors.of_flags rfl rfl rfl rfl
    have whole := cases_.needsSnapshot.trans ledger.whole
    have nothing := cases_.pending_settle whole
    have mirrors := ((start.wrote cases_).brought brought fun _ => nothing).1
    have sameFormat : log.format = format := by
      rw [brought.same.2, Log.format_settle, cases_.format]
      exact ledger.format
    have nothing' : log.pending = [] := brought.same.1.trans nothing
    have ledger' : Ledger files format shelf cwd
        ⟨s.written, { s.map with log := { log with dirty } }, d'⟩
        ⟨s.written, { s.map with log := { log with dirty } }, d'⟩ := by
      refine ⟨⟨stands₂.holds, stands₂.attached⟩, ?_, sameFormat, brought.needsSnapshot whole,
        fun _ => nothing', mirrors.of_flags rfl rfl rfl rfl, ?_, mirrors.distinct⟩
      · exact (brought.same_files.trans cases_.same_files).trans ledger.files
      · obtain ⟨pairs, records, yields, covers⟩ := mirrors.replays (brought.needsSnapshot whole)
        rw [nothing'] at covers
        exact ⟨pairs, records, yields, covers⟩
    refine ⟨rfl, ledger', ?_⟩
    have kept := brought.snapshot
    rw [Log.SnapshotKept, Log.format_settle, cases_.format, cases_.snapshot] at kept
    rw [← ledger.format]
    exact kept

theorem Ledger.elsewhere {others : List Place} (ledger : Ledger files format shelf cwd s mark)
    (touches : Touches others s.disk d') (apart : ∀ p ∈ shelf.places, p ∉ others) :
    Ledger files format shelf cwd ⟨s.written, s.map, d'⟩ mark := by
  have same := touches.sameAt apart
  have snapshot := same shelf.snapshot (by simp [Shelf.places])
  have journal := same shelf.journal (by simp [Shelf.places])
  refine ⟨ledger.stands.of_touches touches (apart _ (by simp [Shelf.places])), ledger.files,
    ledger.format, ledger.whole, ledger.clean, ledger.mirrors.same_content snapshot journal, ?_,
    ledger.distinct⟩
  obtain ⟨pairs, records, yields, covers⟩ := ledger.complete
  exact ⟨pairs, records, yields.same_content snapshot journal, covers⟩

/-- No step of a steady course costs the files what they are good for. -/
theorem Ledger.steady {wrote : Bool} (ledger : Ledger files format shelf cwd s mark)
    (steady : Steady shelf cwd s s' wrote) :
    Ledger files format shelf cwd s' (if wrote then s' else mark) := by
  cases steady with
  | put k v _ run =>
    obtain ⟨_, stands, mutated⟩ := always_put ledger.stands k v _ _ _ run
    exact ledger.mutated stands mutated
  | remove k now run =>
    cases found : s.map.get? k with
    | none =>
      rw [remove_of_absent found] at run
      cases run
      exact ledger
    | some v =>
      obtain ⟨_, stands, mutated⟩ := always_remove ledger.stands (by simp [found]) now _ _ run
      exact ledger.mutated stands mutated
  | save keep first rest => exact (ledger.saved first rest).2.1
  | elsewhere others touches apart => exact ledger.elsewhere touches apart

variable [Framed K] [Framed V] [Tangible K]

theorem SteadyCourse.ledger (course : SteadyCourse files format shelf cwd start s mark)
    (holds : shelf.Holds files cwd start) : Ledger files format shelf cwd s mark := by
  induction course with
  | opened opening =>
    obtain ⟨rfl, upheld⟩ := upheld_of_open (P := (· ∈ ([] : List (Record K V)))) holds opening
    have log := log_of_open opening
    refine ⟨upheld.stands, upheld.files, upheld.format, ?_, fun _ => ?_, upheld.vouches.toMirrors,
      upheld.vouches.clean ?_, upheld.vouches.distinct⟩
    all_goals rw [log]
  | next course steady ih => exact ih.steady steady

omit [Stored K] [Stored V] [DecidableEq K] [Metered K] [Metered V] [Framed K] [Framed V]
  [Tangible K] in
theorem course_of_steps [Stored K] [Stored V] [DecidableEq K]
    (course : Course files format shelf cwd start s)
    (steps : Relation.ReflTransGen (Step shelf cwd) s s') :
    Course files format shelf cwd start s' := by
  induction steps with
  | refl => exact course
  | tail _ step ih => exact ih.next step

/-- Opening the files without a fault gives this table, or it is refused, and then one of the
records that were written is over the limit. -/
def Rebuilds (written : List (Record K V)) (files : LogFiles) (format : StoreFormat) (cwd : Place)
    (d : Disk) (t : Table K V) : Prop :=
  Reopens files format cwd d t ∨ (∃ r ∈ written, ¬Fits r) ∧
    ∀ (r : Except StoreError (DurableMap K V)) d',
      Runs .none cwd (DurableMap.open files format) d r d' → d' = d ∧ r.isOk = false

theorem rebuilds_of_complete {written : List (Record K V)} {log : Log K V} {t : Table K V}
    (complete : Log.Complete (· ∈ written) log shelf d t) (distinct : t.keys.Nodup)
    (holds : shelf.Holds log.files cwd d) (sameFiles : log.files = files)
    (sameFormat : log.format = format) (sized : ∀ r ∈ written, Metered.Sized r) :
    Rebuilds written files format cwd d t := by
  subst sameFiles sameFormat
  obtain ⟨pairs, records, yields, covers⟩ := complete
  cases read : Log.verdict (K := K) (V := V) log.files log.format cwd d with
  | ok told =>
    obtain rfl := (yields.mono sized).eq_of_verdict holds read
    exact .inl (reopens_of_verdict read (perm_of_covers covers distinct))
  | error e =>
    refine .inr ⟨?_, fun r d' run => ?_⟩
    · refine Classical.byContradiction fun none_ => ?_
      have fit : ∀ r ∈ written, Fits r :=
        fun r mem => Classical.byContradiction fun beyond => none_ ⟨r, mem, beyond⟩
      rw [(yields.mono fit).verdict_eq holds] at read
      cases read
    · obtain ⟨rfl, rfl⟩ := always_verdict log.files log.format _ _ run
      rw [read]
      exact ⟨rfl, rfl⟩

theorem Upheld.rebuilds {written : List (Record K V)} {faults : Faults}
    {keep : Nat → Nat → Bool} {n : Nat} (upheld : Upheld (· ∈ written) m files format shelf cwd d)
    (sized : ∀ r ∈ written, Metered.Sized r)
    (save : Runs faults cwd (m.save keep) d (.ok n, m') d') :
    m'.entries = m.entries ∧ Rebuilds written files format cwd d' m'.entries := by
  obtain ⟨same, upheld', complete⟩ := upheld.saved save
  exact ⟨same, rebuilds_of_complete (complete rfl) upheld'.vouches.distinct upheld'.stands.holds
    upheld'.files upheld'.format sized⟩

/-- A table with an entry that is too long for a record is not opened again. -/
theorem Rebuilds.refused {written : List (Record K V)} {t : Table K V} {e : K × V}
    (rebuilds : Rebuilds written files format cwd d t) (holds : shelf.Holds files cwd d)
    (mem : e ∈ t) (long : ¬Fits e) (r : Except StoreError (DurableMap K V)) (d' : Disk)
    (run : Runs .none cwd (DurableMap.open files format) d r d') : d' = d ∧ r.isOk = false := by
  rcases rebuilds with reopens | ⟨_, refused⟩
  · exact absurd (reopens.fits holds e mem) long
  · exact refused r d' run

/-- The files are good for the map as it was at the mark. -/
theorem Ledger.rebuilds (ledger : Ledger files format shelf cwd s mark)
    (sized : ∀ r ∈ mark.written, Metered.Sized r) :
    Rebuilds mark.written files format cwd s.disk mark.map.entries :=
  rebuilds_of_complete ledger.complete ledger.distinct ledger.stands.holds ledger.files
    ledger.format sized

/-- They are so until the append of the journal has happened. -/
theorem Ledger.halted (ledger : Ledger files format shelf cwd s mark)
    (sized : ∀ r ∈ mark.written, Metered.Sized r)
    (halt : Halts .none cwd s.map.log.prepare s.disk d) :
    Rebuilds mark.written files format cwd d mark.map.entries := by
  have away : shelf.snapshot ∉ [shelf.journal] := by
    have distinct := ledger.stands.holds.distinct
    simp only [Shelf.places, List.nodup_cons, List.mem_cons, not_or] at distinct
    simpa using distinct.1.1
  unfold Log.prepare at halt
  split at halt
  · cases halt
  rcases halts_bind halt with halt | ⟨_, _, _, halt⟩
  · have stands₀ : { s.map.log with dirty := false }.Stands shelf cwd s.disk :=
      ⟨ledger.stands.holds, ledger.stands.attached⟩
    obtain ⟨touches, journal⟩ := Log.amid_writeJournal stands₀ d halt
    have snapshot := touches.content away
    have complete : Log.Complete (· ∈ mark.written) s.map.log shelf d mark.map.entries := by
      obtain ⟨pairs, records, yields, covers⟩ := ledger.complete
      exact ⟨pairs, records, yields.opened snapshot journal, covers⟩
    exact rebuilds_of_complete complete ledger.distinct (ledger.stands.holds.touches touches)
      ledger.files ledger.format sized
  · cases halt

/-- Once it has, they are good for the map as it is, however the save goes on. -/
theorem Ledger.ended {keep : Nat → Nat → Bool} {wrote : Option (Except StoreError Nat × Log K V)}
    {d₁ : Disk} {r : Except StoreError Nat} (ledger : Ledger files format shelf cwd s mark)
    (sized : ∀ r ∈ s.written, Metered.Sized r)
    (first : Runs .none cwd s.map.log.prepare s.disk wrote d₁)
    (rest : Runs .any cwd (s.map.finish keep wrote) d₁ (r, m') d) :
    m'.entries = s.map.entries ∧ Rebuilds s.written files format cwd d s.map.entries ∧
      Log.SnapshotKept format s.map.entries shelf.snapshot s.disk d := by
  obtain ⟨same, ledger', kept⟩ := ledger.saved first rest
  have rebuilds := ledger'.rebuilds sized
  dsimp only at rebuilds
  rw [same] at rebuilds
  exact ⟨same, rebuilds, kept⟩

/-- What can become of a save in the middle of its work, and what the files are good for then. -/
structure Survives (files : LogFiles) (format : StoreFormat) (shelf : Shelf) (cwd : Place)
    (s mark : Stage K V) (keep : Nat → Nat → Bool) : Prop where
  /-- A stop falls into the write of the journal, or behind it. -/
  parts : ∀ d, Stops .none cwd (s.map.save keep) s.disk d →
    Halts .none cwd s.map.log.prepare s.disk d ∨ ∃ wrote d₁,
      Runs .none cwd s.map.log.prepare s.disk wrote d₁ ∧
        Stops .any cwd (s.map.finish keep wrote) d₁ d
  /-- Until the append has happened, the files are good for the map as it was at the mark. -/
  early : ∀ d, Halts .none cwd s.map.log.prepare s.disk d →
    Rebuilds mark.written files format cwd d mark.map.entries
  /-- From then on they are good for the map as it is, wherever the save is stopped. -/
  late : ∀ wrote d₁ d, Runs .none cwd s.map.log.prepare s.disk wrote d₁ →
    Stops .any cwd (s.map.finish keep wrote) d₁ d →
      Rebuilds s.written files format cwd d s.map.entries ∧
        Log.SnapshotKept format s.map.entries shelf.snapshot s.disk d
  /-- And so they are if it ends, whether it is done or not. -/
  ended : ∀ wrote d₁ r m' d, Runs .none cwd s.map.log.prepare s.disk wrote d₁ →
    Runs .any cwd (s.map.finish keep wrote) d₁ (r, m') d → m'.entries = s.map.entries ∧
      Rebuilds s.written files format cwd d s.map.entries ∧
        Log.SnapshotKept format s.map.entries shelf.snapshot s.disk d
  /-- Whatever happens after that, a later save that is done brings everything to disk. -/
  later : ∀ wrote d₁ r m' d, Runs .none cwd s.map.log.prepare s.disk wrote d₁ →
    Runs .any cwd (s.map.finish keep wrote) d₁ (r, m') d → ∀ s' : Stage K V,
      Relation.ReflTransGen (Step shelf cwd) ⟨s.written, m', d⟩ s' →
      (∀ r ∈ s'.written, Metered.Sized r) → ∀ keep' n m'' d',
        Runs .any cwd (s'.map.save keep') s'.disk (.ok n, m'') d' →
          m''.entries = s'.map.entries ∧ Rebuilds s'.written files format cwd d' m''.entries

/-- A save may be stopped anywhere, and behind its write of the journal anything may fail in it. -/
theorem survives_interruption (holds : shelf.Holds files cwd start)
    (course : SteadyCourse files format shelf cwd start s mark)
    (sized : ∀ r ∈ s.written, Metered.Sized r) (keep : Nat → Nat → Bool) :
    Survives files format shelf cwd s mark keep := by
  have ledger := course.ledger holds
  constructor
  case parts =>
    intro d stop
    rw [save_eq] at stop
    rcases stops_bind stop with halt | ⟨wrote, d₁, first, stop⟩
    · exact .inl halt
    · exact .inr ⟨wrote, d₁, first, stop.any⟩
  case early => exact fun d halt => ledger.halted (fun r mem => sized r (course.mark_sub mem)) halt
  case late =>
    intro wrote d₁ d first stop
    obtain ⟨⟨r, m'⟩, rest⟩ := stop.exists_runs trivial
    exact (ledger.ended sized first rest).2
  case ended => exact fun wrote d₁ r m' d first rest => ledger.ended sized first rest
  case later =>
    intro wrote d₁ r m' d first rest s' steps sized' keep' n m'' d' save
    have course' := course_of_steps (course.next (.save keep first rest)).course steps
    exact (course'.upheld (P := (· ∈ s'.written)) holds fun r mem => mem).rebuilds sized' save

/-- A map in an empty directory with one value, which is still pending. -/
def noted (value : Bytes) : DurableMap Slot Bytes := ⟨[(.validation, value)],
  { fresh.log with pending := [(.validation, some value)], dirty := true }⟩

theorem steadyCourse_noted (value : Bytes) :
    SteadyCourse Layout.sample.mapFiles Cache.format (Layout.home ["cache"]).map [] .sample
      ⟨[.put .validation value], noted value, .sample⟩ ⟨[], fresh, .sample⟩ := by
  have run : Runs .none [] (fresh.put .validation value false) .sample (noted value) .sample :=
    .done _ _
  exact (SteadyCourse.opened runs_open_fresh).next (.put _ _ _ run)

theorem sized_noted {value : Bytes} (short : value.length < UInt64.size) :
    ∀ r ∈ [Record.put Slot.validation value], Metered.Sized r :=
  List.forall_mem_singleton.mpr ⟨trivial, short⟩

/-- A put that is pending, and a save that is stopped between the rename and the removal of the
journal. -/
theorem survives_interruption_sample : ∃ s mark : Stage Slot Bytes,
    SteadyCourse Layout.sample.mapFiles Cache.format (Layout.home ["cache"]).map [] .sample s mark ∧
      s.map.entries = [(.validation, [7])] ∧ mark.map.entries = [] ∧
      Survives Layout.sample.mapFiles Cache.format (Layout.home ["cache"]).map [] s mark
        (fun _ _ => false) ∧
      Halts .none [] s.map.log.prepare s.disk s.disk ∧
      ∃ d, Stops .none [] (s.map.save fun _ _ => false) s.disk d ∧
        d.content ["cache", "action_cache.bin"] ≠ [] ∧
          d.content ["cache", "action_journal.bin"] ≠ [] := by
  refine ⟨_, _, steadyCourse_noted [7], rfl, rfl, survives_interruption
    Layout.empty_sample.lives.map (steadyCourse_noted [7]) (sized_noted (by decide)) _,
    .here _ _ _, _, stops_halt .none 12 ((noted [7]).save fun _ _ => false)
      (Situation.host [] .sample), ?_⟩
  decide +kernel

/-- A value that is too long for a record is journaled like any other. Stopped right behind that
append, a save has left files that no session opens. -/
theorem unopened_of_interruption : ∃ (s mark : Stage Slot Bytes) (keep : Nat → Nat → Bool)
    (wrote : Option (Except StoreError Nat × Log Slot Bytes)) (d : Disk),
    SteadyCourse Layout.sample.mapFiles Cache.format (Layout.home ["cache"]).map [] .sample s mark ∧
      (∀ r ∈ s.written, Metered.Sized r) ∧
      Runs .none [] s.map.log.prepare s.disk wrote d ∧
      Stops .none [] (s.map.save keep) s.disk d ∧
      (∃ r d', Runs .none [] (DurableMap.open (K := Slot) (V := Bytes) Layout.sample.mapFiles
        Cache.format) d r d') ∧
      ∀ (r : Except StoreError (DurableMap Slot Bytes)) d',
        Runs .none [] (DurableMap.open Layout.sample.mapFiles Cache.format) d r d' →
          d' = d ∧ r.isOk = false := by
  obtain ⟨value, length⟩ : ∃ bs : Bytes, bs.length = recordLimit :=
    ⟨List.replicate recordLimit 0, List.length_replicate⟩
  have limit : recordLimit = 67108864 := rfl
  have word : UInt64.size = 18446744073709551616 := rfl
  have sized : ∀ r ∈ [Record.put Slot.validation value], Metered.Sized r := sized_noted (by omega)
  have long : ¬Fits (Slot.validation, value) := by
    change ¬(4 + (8 + value.length) ≤ recordLimit)
    omega
  have course := steadyCourse_noted value
  have ledger := course.ledger Layout.empty_sample.lives.map
  obtain ⟨wrote, d, first⟩ := exists_runs .none [] (noted value).log.prepare .sample
  have stop : Stops .none [] ((noted value).save fun _ _ => false) .sample d := by
    rw [save_eq]
    exact first.stops_bind (.here _ d)
  -- the files are as they would be if all the rest of the save had been refused
  obtain ⟨⟨r, m'⟩, rest⟩ : ∃ a, Runs .any [] ((noted value).finish (fun _ _ => false) wrote) d a d :=
    exists_runs_idle trivial _ d
  obtain ⟨_, ledger', _⟩ := ledger.saved first rest
  obtain ⟨_, rebuilds, _⟩ := ledger.ended sized first rest
  exact ⟨_, _, _, wrote, d, course, sized, first, stop, exists_runs .none [] _ d,
    rebuilds.refused ledger'.holds List.mem_cons_self long⟩

end DurableMap
end BuildCache
