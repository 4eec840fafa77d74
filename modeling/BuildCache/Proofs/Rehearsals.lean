import BuildCache.Proofs.Situations

/-!
Runs that can be computed. A list of deeds is carried out on a host on which no time passes, and
what comes of it, if every session opens, is the situation that one of the runs has come to.
-/
namespace BuildCache

open Disk Program

namespace Program

/-- The host as it is when the program is stopped after so many requests. -/
def halt {α : Type} : Nat → Program α → Host → Host
  | 0, _, h => h
  | _ + 1, done _, h => h
  | n + 1, ask r next, h => let a := h.answer r; halt n (next a.1) a.2

theorem answer_cwd (h : Host) (r : Request) : (h.answer r).2.cwd = h.cwd := by
  have kept {α : Type} (res : Except OsError (α × Disk)) : (h.change res).2.cwd = h.cwd := by
    cases res <;> rfl
  cases r <;> first | rfl | exact kept _

theorem stops_halt {α : Type} (faults : Faults) (n : Nat) (p : Program α) (h : Host) :
    Stops faults h.cwd p h.disk (halt n p h).disk := by
  induction n generalizing p h with
  | zero => exact .here p h.disk
  | succ n ih =>
    cases p with
    | done a => exact .here _ h.disk
    | ask r next =>
      have answer : h.disk.Answers faults h.cwd r (h.answer r).1 (h.answer r).2.disk :=
        .served h.clock r
      have rest := ih (next (h.answer r).1) (h.answer r).2
      rw [answer_cwd] at rest
      exact .later answer rest

/-- A run on a host that refuses the request behind the first `n` ones, if it can be refused. -/
def refuse {α : Type} : Nat → Program α → Host → α × Host
  | _, done a, h => (a, h)
  | 0, ask r next, h =>
    match r.refusal .busy with
    | some reply => (next reply).run h
    | none => (ask r next).run h
  | n + 1, ask r next, h => let a := h.answer r; refuse n (next a.1) a.2

theorem runs_refuse {α : Type} {faults : Faults} (may : faults.refusals) (n : Nat)
    (p : Program α) (h : Host) :
    Runs faults h.cwd p h.disk (refuse n p h).1 (refuse n p h).2.disk := by
  induction n generalizing p h with
  | zero =>
    cases p with
    | done a => exact .done a h.disk
    | ask r next =>
      unfold refuse
      cases refusal : r.refusal .busy with
      | none => exact runs_run faults (ask r next) h
      | some reply =>
        have refused : h.disk.Answers faults h.cwd r reply h.disk :=
          .refused r .busy reply may (by decide) refusal
        exact .ask refused (runs_run faults (next reply) h)
  | succ n ih =>
    cases p with
    | done a => exact .done a h.disk
    | ask r next =>
      have answer : h.disk.Answers faults h.cwd r (h.answer r).1 (h.answer r).2.disk :=
        .served h.clock r
      have rest := ih (next (h.answer r).1) (h.answer r).2
      rw [answer_cwd] at rest
      exact .ask answer rest

end Program

/-- What is done to a cache. -/
inductive Deed
  | put (key : String) (e : Entry)
  | remove (key : String)
  | removeIf (p : Cached → Bool)
  | clear
  | save
  /-- The session ends, and another one follows. -/
  | reopen
  /-- A save is stopped after so many requests, and another session follows. -/
  | stop (requests : Nat)

namespace Situation

/-- A host on which no time passes. -/
def host (cwd : Place) (d : Disk) : Host := ⟨d, cwd, ⟨0, 0, 0⟩⟩

/-- Changes of memory, one after the other. -/
def carry (cwd : Place) (home : Home) : List Change → Situation → Situation
  | [], s => s
  | change :: changes, s =>
    let r := (s.cache.change change).run (host cwd s.disk)
    carry cwd home changes (s.changed home r.1 r.2.disk)

/-- The first situation of a session. -/
def start? (layout : Layout) (options : Options) (cwd : Place) (stored : Stores)
    (past : List Memory) (d : Disk) : Option Situation :=
  match (Cache.open layout options).run (host cwd d) with
  | ((.ok c, _), h) => some (opened stored past c h.disk)
  | ((.error _, _), _) => none

/-- After a save, whether it was done or not. -/
def settled (home : Home) (s : Situation) (c : Cache) (d : Disk) :
    Except StoreError Nat → Situation
  | .ok _ => s.saved c d
  | .error _ => s.unsaved home c d

def act (layout : Layout) (options : Options) (cwd : Place) (home : Home) (s : Situation) :
    Deed → Option Situation
  | .put key e =>
    some (carry cwd home (s.cache.memory.putting key e) { s with stored := (key, e) :: s.stored })
  | .remove key => some (carry cwd home (s.cache.memory.removing key) s)
  | .removeIf p => some (carry cwd home ((s.cache.memory.doomed p).map .remove) s)
  | .clear => some s.cleared_
  | .save =>
    let r := s.cache.save.run (host cwd s.disk)
    some (s.settled home r.1.2 r.2.disk r.1.1)
  | .reopen => start? layout options cwd s.stored s.past s.disk
  | .stop requests =>
    start? layout options cwd s.stored s.past (s.cache.save.halt requests (host cwd s.disk)).disk

def rehearse (layout : Layout) (options : Options) (cwd : Place) (home : Home) :
    List Deed → Situation → Option Situation
  | [], s => some s
  | deed :: deeds, s =>
    (s.act layout options cwd home deed).bind (rehearse layout options cwd home deeds)

/-- Deeds from the first session on. -/
def rehearsal (layout : Layout) (options : Options) (cwd : Place) (home : Home) (start : Disk)
    (deeds : List Deed) : Option Situation :=
  (start? layout options cwd [] [] start).bind (rehearse layout options cwd home deeds)

end Situation

/-- Whether the rules let this happen in any situation. -/
def Rules.Permits (rules : Rules) : Deed → Prop
  | .clear => rules.clears
  | .reopen => ∀ s, rules.ends s
  | .stop _ => rules.stops ∧ ∀ s, rules.ends s
  | _ => True

namespace Situation
variable {rules : Rules} {layout : Layout} {options : Options} {cwd : Place} {home : Home}
  {start d : Disk} {s s' : Situation}

theorem changes_carry (faults : Faults) (changes : List Change) (s : Situation) :
    Changes faults cwd home changes s (s.carry cwd home changes) := by
  induction changes generalizing s with
  | nil => exact .done s
  | cons change changes ih =>
    exact .next (runs_run faults (s.cache.change change) (host cwd s.disk)) (ih _)

theorem runs_of_start? {stored : Stores} {past : List Memory}
    (started : start? layout options cwd stored past d = some s) :
    ∃ c messages d', Runs .none cwd (Cache.open layout options) d (.ok c, messages) d' ∧
      s = opened stored past c d' := by
  have run := runs_run .none (Cache.open layout options) (host cwd d)
  unfold start? at started
  split at started
  · rename_i c messages h same
    rw [same] at run
    exact ⟨c, messages, h.disk, run, (Option.some.inj started).symm⟩
  · cases started

theorem run_settled {res : Except StoreError Nat} {c : Cache}
    (run : Run rules layout cwd home start s)
    (save : Runs rules.saves cwd s.cache.save s.disk (res, c) d) :
    Run rules layout cwd home start (s.settled home c d res) := by
  cases res with
  | ok n => exact run.saved save
  | error e => exact run.unsaved save

/-- A deed that the rules permit is a step of a run. -/
theorem run_of_act {deed : Deed} (run : Run rules layout cwd home start s)
    (may : rules.Permits deed) (done : s.act layout options cwd home deed = some s') :
    Run rules layout cwd home start s' := by
  cases deed with
  | put key e =>
    cases done
    exact run.put key e (changes_carry _ _ _)
  | remove key =>
    cases done
    exact run.remove key (changes_carry _ _ _)
  | removeIf p =>
    cases done
    exact run.removeIf p _ (.refl _) (changes_carry _ _ _)
  | clear =>
    cases done
    exact run.clear may
  | save =>
    have save := runs_run rules.saves s.cache.save (host cwd s.disk)
    cases done
    exact run_settled run save
  | reopen =>
    obtain ⟨c, messages, d', opening, rfl⟩ := runs_of_start? done
    exact run.reopened (may s) opening
  | stop requests =>
    obtain ⟨c, messages, d', opening, rfl⟩ := runs_of_start? done
    have stop := stops_halt rules.saves requests s.cache.save (host cwd s.disk)
    exact run.stopped may.1 stop (may.2 _) opening

theorem run_of_rehearse {deeds : List Deed} (run : Run rules layout cwd home start s)
    (may : ∀ deed ∈ deeds, rules.Permits deed)
    (done : s.rehearse layout options cwd home deeds = some s') :
    Run rules layout cwd home start s' := by
  induction deeds generalizing s with
  | nil =>
    cases done
    exact run
  | cons deed deeds ih =>
    obtain ⟨s₁, first, rest⟩ := Option.bind_eq_some_iff.mp done
    exact ih (run_of_act run (may _ List.mem_cons_self) first)
      (fun deed mem => may deed (List.mem_cons_of_mem _ mem)) rest

/-- What is found at the end of a rehearsal is found in a run. -/
theorem exists_run_of_rehearsal {α : Type} (rules : Rules) {deeds : List Deed}
    {look : Situation → α} {a : α} (may : ∀ deed ∈ deeds, rules.Permits deed)
    (found : (rehearsal layout options cwd home start deeds).map look = some a) :
    ∃ s, Run rules layout cwd home start s ∧ look s = a := by
  obtain ⟨s', done, looked⟩ := Option.map_eq_some_iff.mp found
  obtain ⟨s, started, done⟩ := Option.bind_eq_some_iff.mp done
  obtain ⟨c, messages, d', opening, rfl⟩ := runs_of_start? started
  exact ⟨s', run_of_rehearse (.opened opening) may done, looked⟩

end Situation

namespace Memory
variable {m : Memory}

/-- Few names, and nothing long. -/
def modest (m : Memory) : Bool :=
  decide (m.names.size ≤ 1000) && m.names.toList.all (fun s => decide ((Text.utf8 s).length ≤ 1000)) &&
    m.records.all fun e => decide (e.2.length ≤ 1000)

theorem size_le_of_modest (modest : m.modest) : m.names.size ≤ 1000 := by
  simp only [Memory.modest, Bool.and_eq_true, decide_eq_true_eq] at modest
  exact modest.1.1

theorem within_fits_of_modest (modest : m.modest) : m.Within .fits := by
  simp only [Memory.modest, Bool.and_eq_true, List.all_eq_true, decide_eq_true_eq] at modest
  obtain ⟨⟨_, names⟩, records⟩ := modest
  have limit : recordLimit = 67108864 := rfl
  refine ⟨fun id s known => ?_, fun slot bytes found => ?_, trivial⟩
  · have short := names s (List.mem_of_getElem? known)
    change 4 + (4 + (8 + (Text.utf8 s).length)) ≤ recordLimit
    omega
  · have short : bytes.length ≤ 1000 := records _ (Table.mem_of_get? found)
    cases slot with
    | validation =>
      change 4 + (4 + (8 + bytes.length)) ≤ recordLimit
      omega
    | entry id =>
      change 4 + (8 + (8 + bytes.length)) ≤ recordLimit
      omega

end Memory

/-- A cache in the working directory, with its quarantine beside it. -/
def Layout.sample : Layout := ⟨⟨"cache"⟩, ⟨"cache.corrupted"⟩⟩

/-- A disk with nothing but a directory for the cache. -/
def Disk.sample : Disk := { nodes := [(["cache"], .dir)], fresh := 0 }

def Entry.sample (key : String) (inputs : Option (List String)) : Entry where
  key
  fileDigest := []
  inputs
  propertiesDigest := []
  files := .empty
  trees := .empty

theorem Disk.node?_sample (p : Place) :
    Disk.sample.node? p = if p = [] ∨ p = ["cache"] then some .dir else none := by
  rw [node?, Disk.sample, Table.get?_cons]
  by_cases root : p = []
  · simp [root]
  · by_cases here : p = ["cache"]
    · simp [here]
    · simp [root, here, Ne.symm here, Table.get?]

theorem Disk.file?_sample (p : Place) : Disk.sample.file? p = none := by
  rw [file?, node?_sample]
  split
  · rename_i same
    split at same <;> cases same
  · rfl

theorem Disk.sound_sample : Disk.sample.Sound where
  tree p there := by
    rw [node?_sample] at there ⊢
    split at there
    · rename_i known
      rcases known with rfl | rfl <;> rfl
    · exact absurd rfl there
  single p q h c c' here := by
    rw [file?_sample] at here
    cases here
  fresh p h c here := by
    rw [file?_sample] at here
    cases here

theorem Layout.empty_sample : Layout.sample.Empty [] ["cache"] Disk.sample where
  sound := Disk.sound_sample
  start := rfl
  arrives := rfl
  text := by decide
  valid := by
    have all : ∀ p ∈ Layout.sample.paths, '\x00' ∉ p.text.toList ∧
        p.text.utf8ByteSize ≤ pathLimit := by decide +kernel
    exact fun p mem => ⟨(all p mem).1, (all p mem).2⟩
  short := by decide
  bare name := by
    rw [Disk.node?_sample, if_neg]
    simp

/-- What is found where a program runs at the end of a rehearsal is found behind a run. -/
theorem Situation.exists_runs_sample {α β : Type} (rules : Rules) (faults : Faults)
    (options : Options) (deeds : List Deed) (prog : Situation → Program α)
    (look : Situation → α → Disk → β) (b : β) (may : ∀ deed ∈ deeds, rules.Permits deed)
    (found : (rehearsal .sample options [] (Layout.home ["cache"]) .sample deeds).map (fun s =>
      let r := (prog s).run (host [] s.disk)
      look s r.1 r.2.disk) = some b) :
    ∃ s a d, Run rules .sample [] (Layout.home ["cache"]) .sample s ∧
      Runs faults [] (prog s) s.disk a d ∧ look s a d = b := by
  obtain ⟨s, run, found⟩ := exists_run_of_rehearsal rules may found
  exact ⟨s, _, _, run, runs_run faults (prog s) (host [] s.disk), found⟩

end BuildCache
