import BuildCache.Command
import BuildCache.Proofs.FileTrees
import BuildCache.Proofs.Filing
import BuildCache.Proofs.Openings

/-!
What the exit code of a check says. It is one if the files were moved away, and zero if they were
loaded as they are; but zero also if they were of another version and are deleted now. Whatever
the first check came to, a second one has nothing to report and changes nothing.
-/
namespace BuildCache

open Disk Program

variable {cwd : Place} {d d' : Disk}

namespace Program
variable {α β : Type} {x p : Program α} {a : α}

/-- The program only looks: the disk settles what it comes to, and stays as it is. -/
def Looks (cwd : Place) (d : Disk) (p : Program α) : Prop :=
  ∃ a, Always .none cwd p d fun b d' => d' = d ∧ b = a

theorem looks_pure (a : α) : Looks cwd d (pure a) := ⟨a, always_pure.mpr ⟨rfl, rfl⟩⟩

theorem Looks.bind {f : α → Program β} (first : Looks cwd d x) (next : ∀ a, Looks cwd d (f a)) :
    Looks cwd d (x >>= f) := by
  obtain ⟨a, first⟩ := first
  obtain ⟨b, next⟩ := next a
  refine ⟨b, Always.bind first ?_⟩
  rintro _ d' ⟨rfl, rfl⟩
  exact next

theorem looks_read (path : Path) : Looks cwd d (request (.read path)) := by
  refine ⟨d.read cwd path, always_request.mpr fun reply d' answer => ?_⟩
  obtain ⟨same, read | ⟨may, _⟩⟩ := answers_read answer
  · exact ⟨same, read⟩
  · exact may.elim

theorem looks_size (path : Path) : Looks cwd d (request (.size path)) := by
  refine ⟨d.size cwd path, always_request.mpr fun reply d' answer => ?_⟩
  obtain ⟨same, size | ⟨may, _⟩⟩ := answers_size answer
  · exact ⟨same, size⟩
  · exact may.elim

/-- Looking once more, one sees the same. -/
theorem Looks.again (looks : Looks cwd d p) (run : Runs .none cwd p d a d') :
    d' = d ∧ Always .none cwd p d fun b d'' => d'' = d ∧ b = a := by
  obtain ⟨b, always⟩ := looks
  obtain ⟨same, rfl⟩ := always a d' run
  exact ⟨same, always⟩

end Program

/-- A log with nothing in mind is not saved. -/
theorem Log.save_of_clean {K V : Type} [Stored K] [Stored V] {log : Log K V}
    (clean : log.dirty = false) (entries : Table K V) (keep : Nat → Nat → Bool) :
    log.save entries keep = pure (.ok 0, log) := by
  rw [Log.save, clean]
  rfl

namespace Cache
variable {layout : Layout} {options : Options} {c : Cache}

theorem looks_totalSize (ps : List Path) : Looks cwd d (totalSize ps) := by
  induction ps with
  | nil => exact looks_pure _
  | cons p ps ih =>
    refine Looks.bind ((looks_size p).bind fun size => looks_pure _) fun size => ?_
    cases size with
    | error e => exact looks_pure _
    | ok n => exact ih.bind fun total => looks_pure _

/-- Nothing has changed since the latest save that was done, or since the cache was opened. -/
structure Rested (c : Cache) : Prop where
  index : c.index.log.dirty = false
  map : c.map.log.dirty = false

theorem Begun.rested (begun : c.Begun layout options) : c.Rested :=
  ⟨congrArg Log.dirty begun.index, congrArg Log.dirty begun.map⟩

/-- A cache for whose files nothing waits has nothing to save. -/
theorem Rested.always_save {faults : Faults} (rested : c.Rested) :
    Always faults cwd c.save d fun r d' => d' = d ∧
      ∃ ms, r = (.ok 0, { c with saveMillis := ms }) := by
  refine Always.bind always_wallTime ?_
  rintro before d rfl
  rw [Index.save, Log.save_of_clean rested.index, DurableMap.save, Log.save_of_clean rested.map]
  simp only [Program.pure_bind]
  refine Always.bind always_wallTime ?_
  rintro after d rfl
  exact always_pure.mpr ⟨rfl, _, rfl⟩

end Cache

namespace Layout

/-- For the root there is nothing to make. -/
def Ready (l : Layout) (cwd : Place) (d : Disk) : Prop :=
  l.root.text = "" ∨ d.isDir cwd l.root = true

/-- The root was made if it was missing, and nothing else has changed. -/
structure Founded (l : Layout) (cwd : Place) (d d' : Disk) : Prop where
  widened : Widened (Station cwd l.root) d d'
  same : l.Ready cwd d → d' = d
  ready : l.Ready cwd d'

/-- The sizes of the files can be seen. -/
def Visible (l : Layout) (cwd : Place) (d : Disk) : Prop :=
  ∃ n, Always .none cwd (Cache.totalSize [l.cacheFile, l.journalFile, l.indexFile,
    l.indexJournalFile]) d fun r d' => d' = d ∧ r = .ok n

/-- The files load as they are, so that a check has nothing to report. -/
structure InOrder (l : Layout) (cwd : Place) (d : Disk) : Prop where
  ready : l.Ready cwd d
  loads : ∃ m, l.verdict cwd d = .ok m
  visible : l.Visible cwd d

end Layout

namespace Cache
variable {layout : Layout} {options : Options} {c : Cache} {cause : StoreError}

theorem always_makeDirs_of_ready (ready : layout.Ready cwd d) :
    Always .none cwd (Cache.makeDirs layout.root) d fun res d' => d' = d ∧ res = .ok () := by
  have made : Always .none cwd (Program.makeDirs layout.root) d fun res d' =>
      d' = d ∧ res = .ok () := by
    rcases ready with empty | isDir
    · unfold Program.makeDirs makeDirsFrom
      rw [if_pos empty]
      exact always_pure.mpr ⟨rfl, rfl⟩
    · exact Program.always_makeDirs_of_isDir isDir
  refine Always.bind made ?_
  rintro res d' ⟨rfl, rfl⟩
  exact always_pure.mpr ⟨rfl, rfl⟩

theorem always_founded (sound : d.Sound) :
    Always .none cwd (Cache.makeDirs layout.root) d fun res d' =>
      res = .ok () → layout.Founded cwd d d' := by
  intro res d' run ok
  obtain ⟨widened, isDir⟩ := always_makeDirs sound res d' run
  refine ⟨widened, fun ready => (always_makeDirs_of_ready ready res d' run).1, ?_⟩
  by_cases empty : layout.root.text = ""
  · exact .inl empty
  · exact .inr (isDir ok empty)

/-- What a check has found, and its exit code. -/
inductive Checked (layout : Layout) (cwd : Place) (d : Disk) : UInt8 → Disk → Prop
  /-- The files were loaded as they are. -/
  | loaded {d' : Disk} {m : Memory} (founded : layout.Founded cwd d d')
      (verdict : layout.verdict cwd d' = .ok m) : Checked layout cwd d 0 d'
  /-- Files of another version were deleted. -/
  | deleted {d₁ d₂ d' : Disk} {cause : StoreError} (founded : layout.Founded cwd d d₁)
      (verdict : layout.verdict cwd d₁ = .error cause) (version : cause.isIncompatible)
      (recovery : Runs .none cwd (recover layout cause) d₁ (.ok []) d₂)
      (anew : layout.Founded cwd d₂ d')
      (gone : ∀ p, isUnder (goal cwd layout.root) p → d'.file? p = none) :
    Checked layout cwd d 0 d'
  /-- Any others were moved away. -/
  | quarantined {d₁ d₂ d' : Disk} {cause : StoreError} (founded : layout.Founded cwd d d₁)
      (verdict : layout.verdict cwd d₁ = .error cause) (other : ¬cause.isIncompatible)
      (recovery : Runs .none cwd (recover layout cause) d₁ (.ok [movedAway cause]) d₂)
      (anew : layout.Founded cwd d₂ d') : Checked layout cwd d 1 d'

/-- The exit code of a check that gets to its end. -/
def exitCode (messages : List Diagnostic) : UInt8 := if messages.isEmpty then 0 else 1

/-- A root without a name is not removed. -/
theorem always_remove_nameless {path : Path} (empty : path.text = "") :
    Always .none cwd (removeTreeIfExists path) d fun _ d' => d' = d := by
  have unnamed : d.resolve cwd path = .error .notFound := by rw [Disk.resolve, if_pos empty]
  have kept : Always .none cwd (request (.removeTree path)) d fun _ d' => d' = d := by
    refine always_request.mpr fun reply d' answer => ?_
    cases answer with
    | refused _ _ _ may => exact may.elim
    | served clock => simp only [Host.answer, Disk.removeTree, unnamed]
  refine Always.bind kept ?_
  rintro res d' rfl
  exact always_pure.mpr rfl

/-- What a recovery says that is done. Behind a deletion the root is empty, or it has no name. -/
theorem always_recover_checked (sound : d.Sound) (ready : layout.Ready cwd d) :
    Always .none cwd (recover layout cause) d fun res d' => ∀ messages, res = .ok messages →
      cause.isIncompatible ∧ messages = [] ∧ (layout.root.text = "" ∧ d' = d ∨
        ∀ p, isUnder (goal cwd layout.root) p → d'.node? p = none) ∨
      ¬cause.isIncompatible ∧ messages = [movedAway cause] := by
  unfold recover
  by_cases version : cause.isIncompatible = true
  · rw [if_pos version]
    have emptied : Always .none cwd (removeTreeIfExists layout.root) d fun res d' =>
        res = .ok () → layout.root.text = "" ∧ d' = d ∨
          ∀ p, isUnder (goal cwd layout.root) p → d'.node? p = none := by
      intro res d' run done
      rcases ready with empty | isDir
      · exact .inl ⟨empty, always_remove_nameless empty res d' run⟩
      · exact .inr ((always_removeTreeIfExists sound res d' run).2 isDir done)
    refine Always.bind emptied ?_
    rintro (e | u) d' emptied
    · exact always_pure.mpr nofun
    · exact always_pure.mpr fun messages done =>
        .inl ⟨version, (Except.ok.inj done).symm, emptied rfl⟩
  · rw [if_neg version]
    refine Always.bind (fun _ _ _ => trivial) (P := fun _ _ => True) ?_
    rintro (e | u) d' _
    · exact always_pure.mpr nofun
    · exact always_pure.mpr fun messages done => .inr ⟨version, (Except.ok.inj done).symm⟩

/-- What opening a cache comes to, as a check counts it. The files as they are now can be loaded. -/
theorem always_checked (sound : d.Sound) :
    Always .none cwd (Cache.open layout options) d fun res d' => ∀ c, res.1 = .ok c →
      Checked layout cwd d (exitCode res.2) d' ∧ layout.Ready cwd d' ∧
        layout.verdict cwd d' = .ok c.memory := by
  refine always_open_of_loadOrReset ?_ ?_
  · intro c messages ms d' checked c' same
    cases same
    exact checked c rfl
  have failed {e : StoreError} {messages : List Diagnostic} {Q : Cache → Prop} :
      ∀ c, (Except.error e, messages).1 = .ok c → Q c := by
    rintro c ⟨⟩
  refine Always.bind (always_founded sound) ?_
  rintro (e | u) d₁ founded
  · exact always_pure.mpr failed
  have founded := founded rfl
  have sound₁ := founded.widened.sound
  refine Always.bind (always_verdict layout options) ?_
  rintro (cause | c) d₁ ⟨rfl, verdict⟩
  · have verdict : layout.verdict cwd d₁ = .error cause := verdict.symm
    have recovered : Always .none cwd (recover layout cause) d₁ fun res d₂ =>
        Runs .none cwd (recover layout cause) d₁ res d₂ := fun _ _ run => run
    refine Always.bind recovered ?_
    rintro (e | messages) d₂ recovery
    · exact always_pure.mpr failed
    refine Always.bind (always_founded (sound_of_runs sound₁ recovery)) ?_
    rintro (e | u) d₃ anew
    · exact always_pure.mpr failed
    have anew := anew rfl
    refine Always.bind (always_verdict layout options) ?_
    rintro (again | c) d₃ ⟨rfl, verdict'⟩
    · exact always_pure.mpr failed
    have verdict' : layout.verdict cwd d₃ = .ok c.memory := verdict'.symm
    refine always_pure.mpr ?_
    rintro c' ⟨⟩
    refine ⟨?_, anew.ready, verdict'⟩
    rcases always_recover_checked sound₁ founded.ready _ d₂ recovery messages rfl with
      ⟨version, rfl, emptied⟩ | ⟨other, rfl⟩
    · refine .deleted founded verdict version recovery anew fun p under => ?_
      rcases emptied with ⟨empty, rfl⟩ | gone
      · rw [anew.same (.inl empty), verdict] at verdict'
        cases verdict'
      · rw [anew.widened.file?, Disk.file?, gone p under]
    · exact .quarantined founded verdict other recovery anew
  · refine always_pure.mpr ?_
    rintro c' ⟨⟩
    exact ⟨.loaded founded verdict.symm, founded.ready, verdict.symm⟩

/-- Files that were loaded are loaded again. -/
theorem always_open_of_ready {m : Memory} (ready : layout.Ready cwd d)
    (verdict : layout.verdict cwd d = .ok m) :
    Always .none cwd (Cache.open layout options) d fun res d' => d' = d ∧
      ∃ c, res = (.ok c, []) ∧ c.memory = m := by
  refine always_open_of_loadOrReset ?_ ?_
  · rintro c messages ms d' ⟨rfl, c', same, found⟩
    cases same
    exact ⟨rfl, _, rfl, found⟩
  refine Always.bind (always_makeDirs_of_ready ready) ?_
  rintro res d' ⟨rfl, rfl⟩
  refine Always.bind (always_verdict layout options) ?_
  rintro loaded d' ⟨rfl, verdict'⟩
  rw [verdict] at verdict'
  cases loaded with
  | error cause => cases verdict'
  | ok c => exact always_pure.mpr ⟨rfl, c, rfl, Except.ok.inj verdict'⟩

/-- A summary can be given where the sizes can be seen, and only there. -/
theorem always_collect : Always .none cwd (Summary.collect c) d fun r d' => d' = d ∧
    (r.1.isOk ↔ c.layout.Visible cwd d) := by
  obtain ⟨total, looked⟩ : Looks cwd d (totalSize [c.layout.cacheFile, c.layout.journalFile,
      c.layout.indexFile, c.layout.indexJournalFile]) := looks_totalSize _
  have visible {r : Except StoreError Nat} (same : r = total) : r.isOk ↔ c.layout.Visible cwd d := by
    constructor
    · intro ok
      cases r with
      | error e => cases ok
      | ok n => exact ⟨n, same ▸ looked⟩
    · rintro ⟨n, always⟩
      obtain ⟨r', d', run⟩ := exists_runs .none cwd (totalSize [c.layout.cacheFile,
        c.layout.journalFile, c.layout.indexFile, c.layout.indexJournalFile]) d
      have agree := (looked r' d' run).2.symm.trans (always r' d' run).2
      rw [same, agree]
      rfl
  refine Always.bind looked ?_
  rintro r d' ⟨rfl, same⟩
  cases r with
  | error e => exact always_pure.mpr ⟨rfl, visible same⟩
  | ok n => exact always_pure.mpr ⟨rfl, visible same⟩

end Cache

namespace Invocation
variable {i : Invocation} {here : Surroundings} {place : Layout × Options}

theorem looks_settings (i : Invocation) (here : Path) : Looks cwd d (i.settings here) := by
  have file (path : Path) : Looks cwd d (Config.loadFile path) := by
    refine (looks_read path).bind fun raw => ?_
    cases raw with
    | error e => exact looks_pure _
    | ok raw =>
      dsimp only
      split <;> exact looks_pure _
  unfold settings
  split
  · exact (file _).bind fun c => looks_pure _
  · refine Looks.bind ((looks_size _).bind fun size => ?_) fun c => looks_pure _
    cases size with
    | error e => exact looks_pure _
    | ok n => exact file _

/-- What a check does with the cache of its settings. A failure on the way has its outcome, too. -/
def examine (i : Invocation) (here : Surroundings) (place : Layout × Options) :
    Program (Except Outcome Outcome) := do
  match ← Cache.open place.1 place.2 with
  | (.error e, _) => return .error (.failed "" e.message)
  | (.ok c, messages) =>
    let coloured := i.colour.isOn here.terminal
    let printed := i.unlessQuiet (String.join (messages.map fun d => d.render coloured ++ "\n"))
    match ← c.save with
    | (.error e, _) => return .error (.failed printed e.message)
    | (.ok _, c) =>
      match (← Summary.collect c).1 with
      | .error e => return .error (.failed printed e.message)
      | .ok s =>
        let millis := s.statistics.saveMillis.getD 0
        let line := s!"    Checked {s.entries} entries, {s.paths} paths in {c.layout.root.text}" ++
          s!" (saved in {millis} ms)\n"
        return .ok { stderr := printed ++ i.unlessQuiet line, code := Cache.exitCode messages }

/-- The command is that, and what comes of it is its outcome. -/
theorem run_check (asked : i.command = .check) : i.run here = i.settings here.cwd >>= fun
    | .error e => pure (.failed "" e.message)
    | .ok s => i.examine here (s.1.cacheAt s.2 i.cacheDir) >>= fun
      | .error out | .ok out => pure out := by
  refine congrArg (i.settings here.cwd >>= ·) (funext fun s => ?_)
  cases s with
  | error e => rfl
  | ok s =>
    obtain ⟨config, base⟩ := s
    dsimp only
    rw [examine, bind_assoc]
    refine congrArg (Cache.open _ _ >>= ·) (funext fun r => ?_)
    obtain ⟨opened, messages⟩ := r
    cases opened with
    | error e => rfl
    | ok c =>
      simp only [asked]
      rw [check, bind_assoc]
      refine congrArg (c.save >>= ·) (funext fun r => ?_)
      obtain ⟨saved, c⟩ := r
      cases saved with
      | error e => rfl
      | ok n =>
        dsimp only
        rw [bind_assoc]
        refine congrArg (Summary.collect c >>= ·) (funext fun r => ?_)
        obtain ⟨collected, c⟩ := r
        cases collected <;> rfl

theorem always_examine (sound : d.Sound) :
    Always .none cwd (i.examine here place) d fun r d' => ∀ out, r = .ok out →
      Cache.Checked place.1 cwd d out.code d' ∧ place.1.InOrder cwd d' := by
  have opened : Always .none cwd (Cache.open place.1 place.2) d fun res d' => ∀ c,
      res.1 = .ok c → c.Begun place.1 place.2 ∧ Cache.Checked place.1 cwd d
        (Cache.exitCode res.2) d' ∧ place.1.Ready cwd d' ∧
          place.1.verdict cwd d' = .ok c.memory := fun res d' run c same =>
    ⟨(Cache.delivers_open _ _).of_runs run c same, Cache.always_checked sound res d' run c same⟩
  refine Always.bind opened ?_
  rintro ⟨e | c, messages⟩ d₁ opened
  · exact always_pure.mpr nofun
  obtain ⟨begun, checked, ready, verdict⟩ := opened c rfl
  refine Always.bind begun.rested.always_save ?_
  rintro _ d₁ ⟨rfl, ms, rfl⟩
  refine Always.bind Cache.always_collect ?_
  rintro ⟨e | summary, c'⟩ d₁ ⟨rfl, visible⟩
  · exact always_pure.mpr nofun
  refine always_pure.mpr ?_
  rintro out ⟨⟩
  refine ⟨checked, ready, ⟨_, verdict⟩, ?_⟩
  rw [← begun.layout]
  exact visible.mp rfl

theorem always_examine_again (order : place.1.InOrder cwd d) :
    Always .none cwd (i.examine here place) d fun r d' => d' = d ∧
      ∃ out, r = .ok out ∧ out.code = 0 := by
  obtain ⟨ready, ⟨m, verdict⟩, seen⟩ := order
  have opened : Always .none cwd (Cache.open place.1 place.2) d fun res d' => d' = d ∧
      ∃ c, res = (.ok c, []) ∧ c.Begun place.1 place.2 := by
    intro res d' run
    obtain ⟨same, c, rfl, _⟩ := Cache.always_open_of_ready ready verdict res d' run
    exact ⟨same, c, rfl, (Cache.delivers_open _ _).of_runs run c rfl⟩
  refine Always.bind opened ?_
  rintro _ d ⟨rfl, c, rfl, begun⟩
  refine Always.bind begun.rested.always_save ?_
  rintro _ d ⟨rfl, ms, rfl⟩
  refine Always.bind Cache.always_collect ?_
  rintro ⟨e | summary, c'⟩ d ⟨rfl, visible⟩
  · rw [← begun.layout] at seen
    cases visible.mpr seen
  · exact always_pure.mpr ⟨rfl, _, rfl, rfl⟩

/-- Every check that gets to its end without a failure, whatever the files hold: its exit code is one
if they were moved away, and zero if they were loaded as they are or, being of another version, were
deleted. Checking again right after, with the same settings, gives zero and changes nothing. -/
theorem code_of_check (asked : i.command = .check) (sound : d.Sound) {s : Config × Path}
    (settled : Runs .none cwd (i.settings here.cwd) d (.ok s) d) {out : Outcome}
    (run : Runs .none cwd (i.examine here (s.1.cacheAt s.2 i.cacheDir)) d (.ok out) d') :
    Runs .none cwd (i.run here) d out d' ∧
      Cache.Checked (s.1.cacheAt s.2 i.cacheDir).1 cwd d out.code d' ∧
      (Runs .none cwd (i.settings here.cwd) d' (.ok s) d' →
        (∃ out' d'', Runs .none cwd (i.run here) d' out' d'') ∧
        ∀ out' d'', Runs .none cwd (i.run here) d' out' d'' → d'' = d' ∧ out'.code = 0) := by
  obtain ⟨checked, order⟩ := always_examine sound _ d' run out rfl
  rw [run_check asked]
  refine ⟨runs_bind.mpr ⟨_, _, settled, runs_bind.mpr ⟨_, _, run, .done out d'⟩⟩, checked,
    fun settled' => ⟨exists_runs .none cwd _ d', ?_⟩⟩
  refine Always.bind ((looks_settings i here.cwd).again settled').2 ?_
  rintro _ d' ⟨rfl, rfl⟩
  refine Always.bind (always_examine_again order) ?_
  rintro _ d' ⟨rfl, out', rfl, zero⟩
  exact always_pure.mpr ⟨rfl, zero⟩

theorem settled_of_run {path : Path} {s : Config × Path}
    (found : ((i.settings path).run (Situation.host cwd d)).1.toOption = some s) :
    Runs .none cwd (i.settings path) d (.ok s) d := by
  have run := runs_run .none (i.settings path) (Situation.host cwd d)
  obtain ⟨same, _⟩ := (looks_settings i path).again run
  rw [same] at run
  cases known : ((i.settings path).run (Situation.host cwd d)).1 with
  | error e =>
    rw [known] at found
    cases found
  | ok s' =>
    rw [known] at found run
    obtain rfl : s' = s := Option.some.inj found
    exact run

/-- A check of the directory `cache`, seen from the top, where there are no settings. -/
def sample : Invocation := { command := .check, cacheDir := some ⟨"cache"⟩ }

def top : Surroundings := ⟨⟨"/"⟩, false⟩

def unset : Config × Path := ({}, ⟨"/"⟩)

/-- A snapshot that breaks off is reported, and once only. -/
theorem code_of_check_damaged : ∃ out d',
    Runs .none [] (sample.run top) (.holding "cache" "action_cache.bin" [0]) out d' ∧
      out.code = 1 ∧ d'.node? ["cache.corrupted", "action_cache.bin"] = some (.file 0 [0]) ∧
      ∀ out' d'', Runs .none [] (sample.run top) d' out' d'' → d'' = d' ∧ out'.code = 0 := by
  have settled : Runs .none [] (sample.settings top.cwd) (.holding "cache" "action_cache.bin" [0])
      (.ok unset) (.holding "cache" "action_cache.bin" [0]) :=
    settled_of_run (by decide +kernel)
  obtain ⟨r, d', run, code, moved, found⟩ : ∃ r d',
      Runs .none [] (sample.examine top (unset.1.cacheAt unset.2 sample.cacheDir))
        (.holding "cache" "action_cache.bin" [0]) r d' ∧
      r.toOption.map Outcome.code = some 1 ∧
      d'.node? ["cache.corrupted", "action_cache.bin"] = some (.file 0 [0]) ∧
      ((sample.settings top.cwd).run (Situation.host [] d')).1.toOption = some unset :=
    ⟨_, _, runs_run .none _ (Situation.host ..), by decide +kernel⟩
  cases r with
  | error out => cases code
  | ok out =>
    obtain ⟨run, _, again⟩ := code_of_check rfl (sound_holding ..) settled run
    exact ⟨out, d', run, Option.some.inj code, moved, (again (settled_of_run found)).2⟩

/-- Nothing is said of a snapshot of the next version, which is gone. -/
theorem code_of_check_outdated : ∃ out d',
    Runs .none [] (CommandLine.run ["check", "--cache-dir", "cache"] ⟨⟨"/"⟩, false⟩)
      (.holding "cache" "action_cache.bin" Cache.outdated) out d' ∧
    out.code = 0 ∧ out.stderr = "    Checked 0 entries, 0 paths in /cache (saved in 0 ms)\n" ∧
      d'.node? ["cache", "action_cache.bin"] = none ∧
      d'.node? ["cache.corrupted", "action_cache.bin"] = none :=
  ⟨_, _, runs_run .none _ (Situation.host ..), by decide +kernel⟩

end Invocation
end BuildCache
