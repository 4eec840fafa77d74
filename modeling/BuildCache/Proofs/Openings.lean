import BuildCache.Proofs.Recovery
import BuildCache.Proofs.Rehearsals

/-!
What opening a cache can come to, whatever lies under its root and whatever is refused. The files
load, and none changes; or the first stage of the load that fails says what happens to them. Files of
another version are deleted. All others take the place of the last quarantine, as they are and with
one message, or stay where they are. Nothing is reset twice: the empty root that takes their place is
loaded, unless making or reading it is refused.

Other layouts come to something else: those with a way through one of the two directories, and those
whose files have longer paths than the system takes.
-/
namespace BuildCache

open Disk Program

variable {cwd p : Place} {d d' : Disk}

namespace Disk

/-- A disk with one directory and one file in it. -/
def holding (dir name : String) (content : Bytes) : Disk where
  nodes := [([dir], .dir), ([dir, name], .file 0 content)]
  fresh := 1

variable {dir name : String} {content : Bytes}

theorem node?_holding (dir name : String) (content : Bytes) (p : Place) :
    (holding dir name content).node? p =
      if p = [] ∨ p = [dir] then some .dir
      else if p = [dir, name] then some (.file 0 content) else none := by
  rw [node?, holding, Table.get?_cons, Table.get?_cons]
  by_cases root : p = []
  · simp [root]
  by_cases here : p = [dir]
  · simp [here]
  by_cases file : p = [dir, name]
  · simp [file]
  · simp [root, here, file, Ne.symm here, Ne.symm file, Table.get?]

theorem file?_holding {h : Handle} {c : Bytes}
    (file : (holding dir name content).file? p = some (h, c)) : p = [dir, name] ∧ h = 0 := by
  rw [file?, node?_holding] at file
  by_cases way : p = [] ∨ p = [dir]
  · rw [if_pos way] at file
    cases file
  by_cases here : p = [dir, name]
  · rw [if_neg way, if_pos here] at file
    cases file
    exact ⟨here, rfl⟩
  · rw [if_neg way, if_neg here] at file
    cases file

theorem sound_holding (dir name : String) (content : Bytes) :
    (holding dir name content).Sound where
  tree p there := by
    rw [node?_holding] at there ⊢
    split at there
    · rename_i known
      rcases known with rfl | rfl <;> rfl
    split at there
    · rename_i here
      rw [here, if_pos (.inr rfl)]
    · exact absurd rfl there
  single p q h c c' here there := by
    rw [(file?_holding here).1, (file?_holding there).1]
  fresh p h c here := by
    rw [(file?_holding here).2]
    exact Nat.zero_lt_one

end Disk

namespace Cache
variable {faults : Faults} {layout : Layout}

/-- What opening a cache comes to, if operations on files may be refused. -/
inductive Opening (faults : Faults) (layout : Layout) (cwd : Place) (d : Disk) :
    Except StoreError Cache × List Diagnostic → Disk → Prop
  /-- There is no root, and none can be made. -/
  | unmade {d' : Disk} (cause : OsError) (absent : d.isDir cwd layout.root = false)
      (widened : Widened (Station cwd layout.root) d d') :
    Opening faults layout cwd d (.error (.io layout.root cause), []) d'
  /-- The files are loaded as they are. -/
  | loaded {d' : Disk} {c : Cache} (made : layout.Made cwd d d')
      (verdict : layout.verdict cwd d' = .ok c.memory) : Opening faults layout cwd d (.ok c, []) d'
  /-- Files of another version cannot be removed. -/
  | undeleted {d₁ d' : Disk} {cause : StoreError} (made : layout.Made cwd d d₁)
      (fails : layout.Fails faults cwd d₁ cause) (version : cause.isIncompatible)
      (refusal : OsError)
      (untouched : ∀ p, goal cwd layout.corruptedRoot <+: p → d'.node? p = d.node? p) :
    Opening faults layout cwd d (.error (.io layout.root refusal), []) d'
  /-- Any others cannot be moved away, and stay. -/
  | kept {d₁ d' : Disk} {cause : StoreError} (made : layout.Made cwd d d₁)
      (fails : layout.Fails faults cwd d₁ cause) (other : ¬cause.isIncompatible)
      (p : Path) (refusal : OsError) (isDir : d'.node? (goal cwd layout.root) = some .dir)
      (same : ∀ p, isUnder (goal cwd layout.root) p → d'.node? p = d.node? p) :
    Opening faults layout cwd d (.error (.io p refusal), []) d'
  /-- They are out of the way, and a new root is refused. -/
  | unmadeAnew {d₁ d' : Disk} {cause : StoreError} {messages : List Diagnostic}
      (made : layout.Made cwd d d₁) (fails : layout.Fails faults cwd d₁ cause)
      (cleared : Cleared layout cwd d cause messages d') (may : faults.refusals)
      (refusal : OsError) : Opening faults layout cwd d (.error (.io layout.root refusal), messages) d'
  /-- The new root is there, and reading it is refused. -/
  | unread {d₁ d' : Disk} {cause : StoreError} {messages : List Diagnostic}
      (made : layout.Made cwd d d₁) (fails : layout.Fails faults cwd d₁ cause)
      (cleared : Cleared layout cwd d cause messages d') (bare : layout.Bare cwd d')
      (may : faults.refusals) (stage : String) (file : Path) (refusal : OsError) :
    Opening faults layout cwd d
      (.error (.retryLoop (.loading stage (.io file refusal))), messages) d'
  /-- The new root is loaded, and from then on nothing is reset. -/
  | reset {d₁ d' : Disk} {c : Cache} {cause : StoreError} {messages : List Diagnostic}
      (made : layout.Made cwd d d₁) (fails : layout.Fails faults cwd d₁ cause)
      (cleared : Cleared layout cwd d cause messages d') (bare : layout.Bare cwd d')
      (empty : c.memory = .empty)
      (again : ∀ options, Always .none cwd (Cache.open layout options) d' fun res d'' =>
        d'' = d' ∧ ∃ c, res = (.ok c, []) ∧ c.memory = .empty) :
    Opening faults layout cwd d (.ok c, messages) d'

theorem always_opening (clear : layout.Clear cwd) (sound : d.Sound)
    (start : d.node? (origin cwd layout.root) = some .dir) (options : Options) :
    Always faults cwd (Cache.open layout options) d (Opening faults layout cwd d) := by
  refine always_open_of_loadOrReset ?_ ?_
  · intro c messages ms d' opening
    cases opening with
    | loaded made verdict => exact .loaded made verdict
    | reset made fails cleared bare empty again => exact .reset made fails cleared bare empty again
  refine Always.bind (always_made clear.toDirect sound start) ?_
  rintro res d₁ ⟨widened, ⟨absent, cause, rfl⟩ | ⟨rfl, made⟩⟩
  · exact always_pure.mpr (.unmade cause absent widened)
  -- Making the root has changed nothing in it, nor in the quarantine.
  have before : ∀ p, isUnder (goal cwd layout.root) p ∨ goal cwd layout.corruptedRoot <+: p →
      d₁.node? p = d.node? p := by
    rintro p (under | under)
    · exact made.widened.same fun station => (clear.station station).1 under
    · exact made.widened.same fun station => (clear.station station).2 under
  refine Always.bind (always_load_or_fails layout options) ?_
  rintro res d₁ ⟨rfl, ⟨c, rfl, verdict⟩ | ⟨cause, rfl, fails⟩⟩
  · exact always_pure.mpr (.loaded made verdict)
  refine Always.bind (always_recovered clear.toDirect made.toThere cause) ?_
  rintro res d₂ (⟨messages, rfl, freed, cleared⟩ | ⟨version, ⟨refusal, rfl⟩, untouched⟩ |
    ⟨other, ⟨p, refusal, rfl⟩, kept⟩)
  · refine Always.bind (always_made_anew clear.toDirect (made.toThere.short clear.toDirect) freed) ?_
    rintro res d₃ ⟨behind, ended⟩
    have cleared := cleared.between before behind
    rcases ended with ⟨rfl, bare⟩ | ⟨may, refusal, rfl⟩
    · refine Always.bind (always_load_of_bare clear bare options) ?_
      rintro res d₃ ⟨rfl, ⟨c, rfl, empty⟩ | ⟨may, stage, file, refusal, rfl⟩⟩
      · exact always_pure.mpr (.reset made fails cleared bare empty
          fun options => always_open_of_bare clear bare options)
      · exact always_pure.mpr (.unread made fails cleared bare may stage file refusal)
    · exact always_pure.mpr (.unmadeAnew made fails cleared may refusal)
  · exact always_pure.mpr (.undeleted made fails version refusal fun p under =>
      (untouched p under).trans (before p (.inr under)))
  · refine always_pure.mpr (.kept made fails other p refusal ?_ fun p under => ?_)
    · rw [kept _ (List.prefix_refl _)]
      exact made.toThere.dir
    · rw [kept p (isUnder_iff.mp under).1, before p (.inl under)]

/-- The cache is lost: it opens empty, and what was under the root is now the quarantine, or it cannot
be moved there and stays. -/
inductive Lost (layout : Layout) (cwd : Place) (d : Disk) :
    Except StoreError Cache × List Diagnostic → Disk → Prop
  | moved {d' : Disk} {c : Cache} {cause : StoreError} (other : ¬cause.isIncompatible)
      (empty : c.memory = .empty) (bare : layout.Bare cwd d')
      (moved : ∀ below, below ≠ [] → d'.node? (goal cwd layout.corruptedRoot ++ below) =
        d.node? (goal cwd layout.root ++ below)) : Lost layout cwd d (.ok c, [movedAway cause]) d'
  | kept {d' : Disk} (p : Path) (refusal : OsError)
      (same : ∀ p, isUnder (goal cwd layout.root) p → d'.node? p = d.node? p) :
    Lost layout cwd d (.error (.io p refusal), []) d'

/-- Where the root is there and nothing is refused, the files say what comes of them. -/
theorem Opening.judged {res : Except StoreError Cache × List Diagnostic}
    (opening : Opening .none layout cwd d res d') (there : layout.There cwd d) :
    (∃ c, layout.verdict cwd d = .ok c.memory ∧ res = (.ok c, []) ∧ d' = d) ∨
      ∃ cause, layout.verdict cwd d = .error cause ∧
        (cause.isIncompatible ∨ Lost layout cwd d res d') := by
  have same {d₁ : Disk} (made : layout.Made cwd d d₁) : d₁ = d := made.same there.isDir
  have verdict {d₁ : Disk} {cause : StoreError} (made : layout.Made cwd d d₁)
      (fails : layout.Fails .none cwd d₁ cause) : layout.verdict cwd d = .error cause :=
    same made ▸ fails.verdict_eq
  cases opening with
  | unmade cause absent =>
    rw [there.isDir] at absent
    cases absent
  | loaded made verdict => exact .inl ⟨_, same made ▸ verdict, rfl, same made⟩
  | undeleted made fails version => exact .inr ⟨_, verdict made fails, .inl version⟩
  | kept made fails other p refusal isDir same' =>
    exact .inr ⟨_, verdict made fails, .inr (.kept p refusal same')⟩
  | unmadeAnew _ _ _ may => exact may.elim
  | unread _ _ _ _ may => exact may.elim
  | reset made fails cleared bare empty =>
    refine .inr ⟨_, verdict made fails, ?_⟩
    cases cleared with
    | deleted version => exact .inl version
    | quarantined other isDir moved => exact .inr (.moved other empty bare moved)

theorem always_lost {cause : StoreError} (clear : layout.Clear cwd) (there : layout.There cwd d)
    (verdict : layout.verdict cwd d = .error cause) (other : ¬cause.isIncompatible)
    (options : Options) :
    Always .none cwd (Cache.open layout options) d (Lost layout cwd d) := by
  refine (always_opening clear there.sound there.start options).mono ?_
  intro res d' opening
  rcases opening.judged there with ⟨c, loads, _⟩ | ⟨cause', fails, version | lost⟩
  · rw [verdict] at loads
    cases loads
  · rw [verdict] at fails
    cases fails
    exact absurd version other
  · exact lost

/-- Files that can be loaded are. -/
theorem always_loaded {m : Memory} (clear : layout.Clear cwd) (there : layout.There cwd d)
    (verdict : layout.verdict cwd d = .ok m) (options : Options) :
    Always .none cwd (Cache.open layout options) d fun res d' =>
      d' = d ∧ ∃ c, res = (.ok c, []) ∧ c.memory = m := by
  refine (always_opening clear there.sound there.start options).mono ?_
  intro res d' opening
  rcases opening.judged there with ⟨c, loads, rfl, rfl⟩ | ⟨cause, fails, _⟩
  · rw [verdict] at loads
    exact ⟨rfl, c, rfl, (Except.ok.inj loads).symm⟩
  · rw [verdict] at fails
    cases fails

end Cache

/-- One segment leads nowhere before its end. -/
theorem Layout.clear_sample : Layout.sample.Clear [] where
  outside := by decide
  inside := by decide
  start := by decide
  way p stop := by
    obtain ⟨ss, front, other, rfl⟩ := stop
    have moves : Path.moves Layout.sample.root.segments = ["cache"] := by decide
    rw [moves] at front other
    rcases List.prefix_cons_iff.mp front with rfl | ⟨ts, rfl, rest⟩
    · decide
    · obtain rfl := List.prefix_nil.mp rest
      exact absurd rfl other
  quarantineWay parent up p station := by
    have here : Layout.sample.corruptedRoot.parent? = some ⟨""⟩ := by decide
    obtain rfl := Option.some.inj (here.symm.trans up)
    exact absurd rfl station.1
  short := by decide +kernel

namespace Cache

end Cache

namespace Layout
variable {l : Layout}

end Layout

namespace Cache
variable {layout : Layout}

end Cache

namespace Layout

variable {n : Nat}

end Layout

namespace Cache

/-- The header of a snapshot of the next version. -/
def outdated : Bytes := StoreFile.front ⟨format.magic, format.version + 1, .snapshot, none⟩

end Cache
end BuildCache
