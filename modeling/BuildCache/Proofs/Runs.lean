import BuildCache.Program

/-!
What can become of a program. A run takes an answer for each request: what a host with the disk as
it stands would answer, whatever its clocks show and in whatever order its tables are walked, or,
where faults are allowed, a refusal that changes nothing or an append that breaks off. A program
that is stopped between two requests leaves the disk as it stands there.

Nothing is said of what a failed operation leaves behind other than that: a refused rename has not
moved anything, and a broken append has added a front of its bytes.
-/
namespace BuildCache

/-- What may go wrong at a request. -/
structure Faults where
  /-- An operation on files is refused. -/
  refusals : Prop
  /-- An append breaks off and leaves a front of its bytes behind. -/
  tears : Prop

namespace Faults

def none : Faults := ⟨False, False⟩

/-- Every operation happens as a whole or not at all. -/
def refusalsOnly : Faults := ⟨True, False⟩

def any : Faults := ⟨True, True⟩

abbrev possible (faults : Faults) : Prop := faults.refusals ∨ faults.tears

theorem not_possible_none : ¬none.possible := by
  rintro (h | h) <;> exact h

end Faults

/-- The reply that an operation was refused, for those that can be. -/
def Request.refusal (e : OsError) : (r : Request) → Option r.Reply
  | .read _ => some (.error e)
  | .size _ => some (.error e)
  | .openJournal _ => some (.error e)
  | .create _ => some (.error e)
  | .append _ _ => some (.error e)
  | .sync _ => some (.error e)
  | .rename _ _ => some (.error e)
  | .removeFile _ => some (.error e)
  | .makeDir _ => some (.error e)
  | .removeTree _ => some (.error e)
  | .isDir _ | .wallTime | .tick | .order _ => Option.none

/-- The reply to a request, and the disk after it. -/
inductive Disk.Answers (faults : Faults) (cwd : Place) (d : Disk) :
    (r : Request) → r.Reply → Disk → Prop
  | served (clock : Clock) (r : Request) :
    Answers faults cwd d r ((Host.mk d cwd clock).answer r).1 ((Host.mk d cwd clock).answer r).2.disk
  | walked (count : Nat) (places : List Nat) : Answers faults cwd d (.order count) places d
  /-- That something is not there is never a mere refusal. -/
  | refused (r : Request) (e : OsError) (reply : r.Reply) (may : faults.refusals)
      (other : e ≠ .notFound) (refusal : r.refusal e = some reply) : Answers faults cwd d r reply d
  | torn (h : Handle) (bs front : Bytes) (e : OsError) (may : faults.tears) (part : front <+: bs) :
    Answers faults cwd d (.append h bs) (.error e) (d.append h front)

namespace Program
variable {α β : Type} {faults : Faults} {cwd : Place} {d d' d'' : Disk}

/-- The program may end with `a` and leave the disk `d'`. -/
inductive Runs (faults : Faults) (cwd : Place) : Program α → Disk → α → Disk → Prop
  | done (a : α) (d : Disk) : Runs faults cwd (.done a) d a d
  | ask {r : Request} {next : r.Reply → Program α} {reply : r.Reply} {d d' d'' : Disk} {a : α} :
    d.Answers faults cwd r reply d' → Runs faults cwd (next reply) d' a d'' →
      Runs faults cwd (.ask r next) d a d''

/-- The program may be stopped with the disk as it is in `d'`. -/
inductive Stops (faults : Faults) (cwd : Place) : Program α → Disk → Disk → Prop
  | here (p : Program α) (d : Disk) : Stops faults cwd p d d
  | later {r : Request} {next : r.Reply → Program α} {reply : r.Reply} {d d' d'' : Disk} :
    d.Answers faults cwd r reply d' → Stops faults cwd (next reply) d' d'' →
      Stops faults cwd (.ask r next) d d''

theorem runs_bind {x : Program α} {f : α → Program β} {b : β} : Runs faults cwd (x >>= f) d b d'' ↔
    ∃ a d', Runs faults cwd x d a d' ∧ Runs faults cwd (f a) d' b d'' := by
  constructor
  · intro run
    induction x generalizing d with
    | done a => exact ⟨a, d, .done a d, run⟩
    | ask r next ih =>
      cases run with
      | ask answer rest =>
        obtain ⟨a, d', first, last⟩ := ih _ rest
        exact ⟨a, d', .ask answer first, last⟩
  · rintro ⟨a, d', first, last⟩
    induction first with
    | done a d => exact last
    | ask answer _ ih => exact .ask answer (ih last)

/-- A program runs on every host. -/
theorem runs_run (faults : Faults) (p : Program α) (h : Host) :
    Runs faults h.cwd p h.disk (p.run h).1 (p.run h).2.disk := by
  induction p generalizing h with
  | done a => exact .done a h.disk
  | ask r next ih =>
    have answer : h.disk.Answers faults h.cwd r (h.answer r).1 (h.answer r).2.disk :=
      .served h.clock r
    have stays : (h.answer r).2.cwd = h.cwd := by
      cases r <;> simp only [Host.answer, Host.change] <;> split <;> rfl
    refine .ask answer ?_
    have rest := ih (h.answer r).1 (h.answer r).2
    rw [stays] at rest
    exact rest

theorem exists_runs (faults : Faults) (cwd : Place) (p : Program α) (d : Disk) :
    ∃ a d', Runs faults cwd p d a d' :=
  ⟨_, _, runs_run faults p ⟨d, cwd, ⟨0, 0, 0⟩⟩⟩

/-- Where operations may be refused, a program can end without any further effect. -/
theorem exists_runs_idle (may : faults.refusals) (p : Program α) (d : Disk) :
    ∃ a, Runs faults cwd p d a d := by
  induction p with
  | done a => exact ⟨a, .done a d⟩
  | ask r next ih =>
    have idle : ∃ reply, d.Answers faults cwd r reply d := by
      cases r with
      | isDir p => exact ⟨_, .served ⟨0, 0, 0⟩ (.isDir p)⟩
      | wallTime => exact ⟨_, .served ⟨0, 0, 0⟩ .wallTime⟩
      | tick => exact ⟨_, .served ⟨0, 0, 0⟩ .tick⟩
      | order count => exact ⟨[], .walked count []⟩
      | _ => exact ⟨_, .refused _ .busy _ may (by decide) rfl⟩
    obtain ⟨reply, answer⟩ := idle
    obtain ⟨a, rest⟩ := ih reply
    exact ⟨a, .ask answer rest⟩

/-- A stop leaves the disk as some run does in which everything after it was refused. -/
theorem Stops.exists_runs {p : Program α} (may : faults.refusals)
    (stop : Stops faults cwd p d d') : ∃ a, Runs faults cwd p d a d' := by
  induction stop with
  | here p d => exact exists_runs_idle may p d
  | later answer _ ih =>
    obtain ⟨a, rest⟩ := ih
    exact ⟨a, .ask answer rest⟩

/-- Every run of the program ends in `Q`. -/
def Always (faults : Faults) (cwd : Place) (p : Program α) (d : Disk) (Q : α → Disk → Prop) :
    Prop :=
  ∀ a d', Runs faults cwd p d a d' → Q a d'

theorem Always.mono {p : Program α} {P Q : α → Disk → Prop} (h : Always faults cwd p d P)
    (imp : ∀ a d', P a d' → Q a d') : Always faults cwd p d Q :=
  fun a d' run => imp a d' (h a d' run)

theorem always_pure {a : α} {Q : α → Disk → Prop} :
    Always faults cwd (pure a) d Q ↔ Q a d := by
  constructor
  · exact fun h => h a d (.done a d)
  · intro h b d' run
    cases run
    exact h

theorem always_bind {x : Program α} {f : α → Program β} {Q : β → Disk → Prop} :
    Always faults cwd (x >>= f) d Q ↔
      Always faults cwd x d fun a d' => Always faults cwd (f a) d' Q := by
  constructor
  · exact fun h a d' first b d'' last => h b d'' (runs_bind.mpr ⟨a, d', first, last⟩)
  · intro h b d'' run
    obtain ⟨a, d', first, last⟩ := runs_bind.mp run
    exact h a d' first b d'' last

theorem Always.bind {x : Program α} {f : α → Program β} {P : α → Disk → Prop}
    {Q : β → Disk → Prop} (first : Always faults cwd x d P)
    (next : ∀ a d', P a d' → Always faults cwd (f a) d' Q) : Always faults cwd (x >>= f) d Q :=
  always_bind.mpr (first.mono next)

theorem always_request {r : Request} {Q : r.Reply → Disk → Prop} :
    Always faults cwd (request r) d Q ↔ ∀ reply d', d.Answers faults cwd r reply d' → Q reply d' := by
  constructor
  · exact fun h reply d' answer => h reply d' (.ask answer (.done reply d'))
  · intro h a d' run
    cases run with
    | ask answer last =>
      cases last
      exact h _ _ answer

end Program
end BuildCache
