import BuildCache.Proofs.Loading
import BuildCache.Proofs.Trees

/-!
Opening a cache whose files may not belong together. It is loaded as it is, or its directory is
moved out of the way and an empty one takes its place. The two directories must lie apart for that,
and the way to the root must not lead through the root itself.
-/
namespace BuildCache

open Disk Program

namespace Path

/-- The parent of a path leads to a stop on the way. -/
theorem moves_parent? {p dir : Path} (h : p.parent? = some dir) (text : dir.text ≠ "") :
    dir.isAbsolute = p.isAbsolute ∧ moves dir.segments <+: moves p.segments := by
  obtain ⟨s, rest, whole⟩ := List.exists_cons_of_ne_nil p.segments_ne_nil
  have slashless : ∀ t ∈ s :: rest, '/' ∉ t.toList := fun t mem =>
    slashless_of_mem_segments (p := p) (whole ▸ mem)
  have trimmed : p.trimmed = (s, dropIdleEnd rest) := by rw [Path.trimmed, whole]
  have way := moves_dropIdleEnd rest
  cases kept : dropIdleEnd rest with
  | nil =>
    rw [parent?, trimmed, kept] at h
    dsimp only at h
    split at h
    · cases h
    · cases h
      exact absurd rfl text
  | cons t ts =>
    rw [kept] at trimmed way
    have absolute : p.isAbsolute = true ↔ s = "" := by
      rw [isAbsolute_iff, whole]
      cases rest with
      | nil => cases kept
      | cons => simp
    rw [whole, moves_cons, ← way]
    rw [parent?, trimmed] at h
    dsimp only at h
    cases left : dropIdleEnd (t :: ts).dropLast with
    | nil =>
      rw [left] at h
      cases h
      by_cases root : s = ""
      · rw [if_pos root, absolute.mpr root]
        exact ⟨rfl, List.nil_prefix⟩
      · have relative : ¬ s.toList.head? = some '/' := fun slash =>
          slashless s List.mem_cons_self (List.mem_of_head? slash)
        rw [if_neg root, segments_slashless (slashless s List.mem_cons_self)]
        refine ⟨?_, List.prefix_append ..⟩
        rw [Bool.eq_iff_iff, absolute, isAbsolute]
        simp [root, relative]
    | cons k ks =>
      rw [left] at h
      cases h
      have sub : ∀ u ∈ s :: k :: ks, '/' ∉ u.toList := by
        intro u mem
        rcases List.mem_cons.mp mem with rfl | mem
        · exact slashless u List.mem_cons_self
        · rw [← left] at mem
          have inside := (List.dropLast_sublist _).mem (mem_of_mem_dropIdleEnd mem)
          rw [← kept] at inside
          exact slashless u (List.mem_cons_of_mem s (mem_of_mem_dropIdleEnd inside))
      have segs := segments_ofSegments (List.cons_ne_nil s (k :: ks)) sub
      constructor
      · rw [Bool.eq_iff_iff, absolute, isAbsolute_iff, segs]
        simp
      · rw [segs, moves_cons, ← left, moves_dropIdleEnd]
        exact (List.prefix_append_right_inj _).mpr ((List.dropLast_prefix _).filter _)

end Path

variable {faults : Faults} {cwd r p : Place} {d d' : Disk} {path : Path}

/-- The places that a path leads over, and to. -/
def Station (cwd : Place) (path : Path) (p : Place) : Prop :=
  path.text ≠ "" ∧ ∃ ss, ss <+: Path.moves path.segments ∧ p = follow (origin cwd path) ss

theorem station_goal (text : path.text ≠ "") : Station cwd path (goal cwd path) :=
  ⟨text, _, List.prefix_refl _, (follow_moves ..).symm⟩

theorem Station.of_parent {parent : Path} (station : Station cwd parent p)
    (up : path.parent? = some parent) (text : path.text ≠ "") : Station cwd path p := by
  obtain ⟨named, ss, front, rfl⟩ := station
  obtain ⟨absolute, way⟩ := Path.moves_parent? up named
  refine ⟨text, ss, front.trans way, ?_⟩
  rw [origin, origin, absolute]

namespace Program

theorem answers_makeDir {reply : Except OsError Unit} (sound : d.Sound)
    (answer : d.Answers faults cwd (.makeDir path) reply d') :
    Widened (· = goal cwd path) d d' ∧ (reply = .ok () → d'.isDir cwd path = true) := by
  cases answer with
  | refused _ e _ may other refusal =>
    cases refusal
    exact ⟨.refl sound, nofun⟩
  | served clock =>
    cases made : d.makeDir cwd path with
    | error e =>
      simp only [Host.answer, Host.change, made, Except.map]
      exact ⟨.refl sound, nofun⟩
    | ok d' =>
      simp only [Host.answer, Host.change, made, Except.map]
      obtain ⟨widened, isDir⟩ := makeDir_widened sound made
      exact ⟨widened, fun _ => isDir⟩

theorem always_makeDir (sound : d.Sound) :
    Always faults cwd (makeDir path) d fun res d' =>
      Widened (· = goal cwd path) d d' ∧ (res = .ok () → d'.isDir cwd path = true) := by
  refine Always.bind (always_request.mpr fun reply d' answer => answers_makeDir sound answer) ?_
  rintro res d' ⟨widened, made⟩
  cases res with
  | ok u => exact always_pure.mpr ⟨widened, fun _ => made rfl⟩
  | error e =>
    refine Always.bind (always_request.mpr fun reply d' answer => answers_isDir answer) ?_
    rintro is d' ⟨rfl, rfl⟩
    cases isDir : d'.isDir cwd path with
    | true => exact always_pure.mpr ⟨widened, fun _ => isDir⟩
    | false => exact always_pure.mpr ⟨widened, nofun⟩

/-- Making a directory makes what is missing on the way, and nothing else. -/
theorem always_makeDirsFrom (fuel : Nat) (sound : d.Sound) :
    Always faults cwd (makeDirsFrom fuel path) d fun res d' =>
      Widened (Station cwd path) d d' ∧
        (res = .ok () → path.text ≠ "" → d'.isDir cwd path = true) := by
  induction fuel generalizing path d with
  | zero => exact always_pure.mpr ⟨.refl sound, nofun⟩
  | succ fuel ih =>
    unfold makeDirsFrom
    by_cases text : path.text = ""
    · rw [if_pos text]
      exact always_pure.mpr ⟨.refl sound, fun _ named => absurd text named⟩
    rw [if_neg text]
    have here {d : Disk} (sound : d.Sound) : Always faults cwd (Program.makeDir path) d
        fun res d' => Widened (Station cwd path) d d' ∧
          (res = .ok () → path.text ≠ "" → d'.isDir cwd path = true) := by
      refine (always_makeDir sound).mono ?_
      rintro res d' ⟨widened, made⟩
      exact ⟨widened.mono fun p same => same ▸ station_goal text, fun ok _ => made ok⟩
    refine Always.bind (here sound) ?_
    rintro res d' ⟨widened, made⟩
    split
    · rename_i missing
      cases up : path.parent? with
      | none => exact always_pure.mpr ⟨widened, nofun⟩
      | some parent =>
        refine Always.bind (ih widened.sound) ?_
        rintro res d'' ⟨more, _⟩
        have more := widened.trans (more.mono fun p station => station.of_parent up text)
        cases res with
        | error e => exact always_pure.mpr ⟨more, nofun⟩
        | ok u =>
          refine (here more.sound).mono ?_
          rintro res d₃ ⟨last, made⟩
          exact ⟨more.trans last, made⟩
    · exact always_pure.mpr ⟨widened, made⟩

/-- A directory is removed with what is in it, or as far as that goes, or not at all. -/
theorem answers_removeTree {reply : Except OsError Unit} (sound : d.Sound)
    (answer : d.Answers faults cwd (.removeTree path) reply d') :
    Pruned (goal cwd path) d d' ∧
      (reply = .ok () → ∀ p, isUnder (goal cwd path) p = true → d'.node? p = none) ∧
      (d.isDir cwd path = true → reply ≠ .error .notFound) := by
  cases answer with
  | refused _ e _ may other refusal =>
    cases refusal
    exact ⟨⟨sound, fun _ _ => rfl⟩, nofun, fun _ same => other (Except.error.inj same)⟩
  | served clock =>
    obtain ⟨pruned, gone⟩ := removeTree_pruned sound cwd path
    exact ⟨pruned, gone, removeTree_ne_notFound⟩

theorem answers_rename_dir {source target : Path} {reply : Except OsError Unit} (sound : d.Sound)
    (apart : ¬ goal cwd source <+: goal cwd target)
    (answer : d.Answers faults cwd (.rename source target) reply d') :
    reply = .ok () → Shifted (goal cwd source) (goal cwd target) d d' := by
  cases answer with
  | refused _ e _ may other refusal =>
    cases refusal
    exact nofun
  | served clock =>
    cases moved : d.rename cwd source target with
    | error e =>
      simp only [Host.answer, Host.change, moved, Except.map]
      exact nofun
    | ok d' =>
      simp only [Host.answer, Host.change, moved, Except.map]
      exact fun _ => rename_shifted sound moved apart

end Program

namespace Layout
variable {l : Layout}

/-- The two directories of a layout lie apart, and neither has in it where the way to the root
starts from. -/
structure Apart (l : Layout) (cwd r : Place) : Prop where
  outside : ¬ r <+: goal cwd l.corruptedRoot
  inside : ¬ goal cwd l.corruptedRoot <+: r
  start : ¬ r <+: origin cwd l.root
  start' : ¬ goal cwd l.corruptedRoot <+: origin cwd l.root

/-- The way to the root does not lead through what is in it. -/
def Straight (l : Layout) (cwd r : Place) : Prop :=
  ∀ p, Station cwd l.root p → ∀ name, p ≠ r ++ [name]

theorem Empty.straight (empty : l.Empty cwd r d) : l.Straight cwd r := by
  rintro p ⟨_, ss, ⟨rest, whole⟩, rfl⟩ name same
  have arrives : d.walk (origin cwd l.root) (Path.moves l.root.segments) = .ok r :=
    (walk_moves ..).trans empty.arrives
  rw [← whole, walk_append] at arrives
  cases front : d.walk (origin cwd l.root) ss with
  | error e =>
    rw [front] at arrives
    cases arrives
  | ok here =>
    have dir := walk_dir empty.sound empty.start front
    rw [eq_follow front, same, empty.bare name] at dir
    cases dir

/-- Nothing is in the place of the root, which may itself be missing. -/
structure Vacant (l : Layout) (cwd r : Place) (d : Disk) : Prop where
  sound : d.Sound
  start : d.node? (origin cwd l.root) = some .dir
  bare : ∀ name, d.node? (r ++ [name]) = none

theorem Vacant.widened (vacant : l.Vacant cwd r d) (rooted : l.Rooted cwd r d')
    (straight : l.Straight cwd r) {e : Disk} (widened : Widened (Station cwd l.root) d e)
    (isDir : e.isDir cwd l.root = true) : l.Empty cwd r e := by
  have start := widened.kept _ _ vacant.start
  have valid := rooted.valid l.root (by simp [paths])
  obtain ⟨there, arrives⟩ := (isDir_iff widened.sound start rooted.text valid).mp isDir
  obtain rfl : there = r := arrives.eq_goal.trans rooted.arrives.eq_goal.symm
  refine ⟨⟨widened.sound, start, arrives, rooted.text, rooted.valid, rooted.short⟩, fun name => ?_⟩
  rcases widened.new _ (vacant.bare name) with absent | ⟨_, station⟩
  · exact absent
  · exact absurd rfl (straight _ station name)

end Layout

namespace Cache
variable {layout : Layout}

theorem always_removeTreeIfExists (sound : d.Sound) :
    Always faults cwd (removeTreeIfExists path) d fun res d' =>
      Pruned (goal cwd path) d d' ∧ (d.isDir cwd path = true → res = .ok () →
        ∀ p, isUnder (goal cwd path) p = true → d'.node? p = none) := by
  refine Always.bind (always_request.mpr fun reply d' answer => answers_removeTree sound answer) ?_
  rintro res d' ⟨pruned, gone, known⟩
  refine always_pure.mpr ⟨pruned, fun isDir done => ?_⟩
  cases res with
  | ok u => exact gone rfl
  | error e =>
    cases e with
    | notFound => exact absurd rfl (known isDir)
    | _ => cases done

theorem always_makeDirs (sound : d.Sound) :
    Always faults cwd (Cache.makeDirs path) d fun res d' => Widened (Station cwd path) d d' ∧
      (res = .ok () → path.text ≠ "" → d'.isDir cwd path = true) := by
  refine Always.bind (always_makeDirsFrom (path.text.length + 1) sound) ?_
  rintro res d' ⟨widened, made⟩
  refine always_pure.mpr ⟨widened, fun done => made ?_⟩
  cases res with
  | ok u => rfl
  | error e => cases done

/-- The rename, once it is known whether there is a parent for the quarantine. -/
theorem always_rename {M Q : Except StoreError Unit → Disk → Prop} {made : Except StoreError Unit}
    (held : M made d) (unmade : ∀ e d₂, M (.error e) d₂ → Q (.error e) d₂)
    (renamed : ∀ d₂, M (.ok ()) d₂ → ∀ reply d',
      d₂.Answers faults cwd (.rename layout.root layout.corruptedRoot) reply d' →
        Q (Log.atPath layout.root reply) d') :
    Always faults cwd (do
      match made with
      | .error e => return .error e
      | .ok () =>
        return Log.atPath layout.root
          (← Program.request (.rename layout.root layout.corruptedRoot))) d Q := by
  cases made with
  | error e => exact always_pure.mpr (unmade e d held)
  | ok u =>
    refine Always.bind (P := fun reply d' => Q (Log.atPath layout.root reply) d') ?_ ?_
    · exact always_request.mpr fun reply d' answer => renamed d held reply d' answer
    · exact fun reply d' moved => always_pure.mpr moved

/-- The three steps of moving a cache away, each from what the one before it has left. -/
theorem always_moveAway_of {R M Q : Except StoreError Unit → Disk → Prop}
    (removed : Always faults cwd (removeTreeIfExists layout.corruptedRoot) d R)
    (unremoved : ∀ e d₁, R (.error e) d₁ → Q (.error e) d₁)
    (top : ∀ d₁, R (.ok ()) d₁ → M (.ok ()) d₁)
    (made : ∀ d₁ parent, R (.ok ()) d₁ → layout.corruptedRoot.parent? = some parent →
      Always faults cwd (Cache.makeDirs parent) d₁ M)
    (unmade : ∀ e d₂, M (.error e) d₂ → Q (.error e) d₂)
    (renamed : ∀ d₂, M (.ok ()) d₂ → ∀ reply d',
      d₂.Answers faults cwd (.rename layout.root layout.corruptedRoot) reply d' →
        Q (Log.atPath layout.root reply) d') :
    Always faults cwd (moveAway layout) d Q := by
  refine Always.bind removed ?_
  rintro (e | u) d₁ held
  · exact always_pure.mpr (unremoved e d₁ held)
  cases up : layout.corruptedRoot.parent? with
  | none =>
    have moved := always_rename (top d₁ held) unmade renamed
    exact moved
  | some parent =>
    exact Always.bind (made d₁ parent held up) fun res d₂ held =>
      always_rename held unmade renamed

/-- A cache that is moved away leaves nothing behind. -/
theorem always_moveAway (apart : layout.Apart cwd r) (lives : layout.Lives cwd r d) :
    Always faults cwd (moveAway layout) d fun res d' => res = .ok () → layout.Vacant cwd r d' := by
  have root : r = goal cwd layout.root := lives.arrives.eq_goal
  refine always_moveAway_of (always_removeTreeIfExists lives.sound)
    (M := fun _ d₂ => d₂.Sound ∧ d₂.node? (origin cwd layout.root) = some .dir) ?_ ?_ ?_ ?_ ?_
  · exact fun e d₁ _ done => by cases done
  · rintro d₁ ⟨pruned, _⟩
    exact ⟨pruned.sound, (pruned.elsewhere _ apart.start').trans lives.start⟩
  · rintro d₁ parent ⟨pruned, _⟩ _
    refine (always_makeDirs pruned.sound).mono ?_
    rintro made d₂ ⟨widened, _⟩
    exact ⟨widened.sound,
      widened.kept _ _ ((pruned.elsewhere _ apart.start').trans lives.start)⟩
  · exact fun e d₂ _ done => by cases done
  · rintro d₂ ⟨sound, start⟩ reply d' answer done
    have shifted := answers_rename_dir sound (root ▸ apart.outside) answer
    cases reply with
    | error e => cases done
    | ok u =>
      obtain ⟨sound, nodes⟩ := shifted rfl
      rw [← root] at nodes
      refine ⟨sound, ?_, fun name => ?_⟩
      · rw [nodes, if_neg apart.start', if_neg apart.start]
        exact start
      · have off : ¬ goal cwd layout.corruptedRoot <+: r ++ [name] := by
          intro front
          rcases List.prefix_or_prefix_of_prefix front (List.prefix_append r [name]) with h | h
          · exact apart.inside h
          · exact apart.outside h
        rw [nodes, if_neg off, if_pos (List.prefix_append ..)]

/-- Once the way is clear, nothing is left in the place of the root. -/
theorem always_recover (apart : layout.Apart cwd r) (lives : layout.Lives cwd r d)
    (cause : StoreError) :
    Always faults cwd (recover layout cause) d fun res d' =>
      ∀ messages, res = .ok messages → layout.Vacant cwd r d' := by
  unfold recover
  split
  · have root : r = goal cwd layout.root := lives.arrives.eq_goal
    refine Always.bind (always_removeTreeIfExists lives.sound) ?_
    rintro res d' ⟨pruned, gone⟩
    refine always_pure.mpr fun messages done => ?_
    cases res with
    | error e => cases done
    | ok u =>
      rw [← root] at pruned gone
      refine ⟨pruned.sound, ?_, fun name => ?_⟩
      · rw [pruned.elsewhere _ apart.start]
        exact lives.start
      · exact gone lives.isDir rfl _ (isUnder_append (List.cons_ne_nil _ _))
  · refine Always.bind (always_moveAway apart lives) ?_
    intro res d' vacant
    refine always_pure.mpr fun messages done => ?_
    cases res with
    | error e => cases done
    | ok u => exact vacant rfl

/-- In an empty directory a cache that loads is empty. -/
theorem always_load_of_empty (empty : layout.Empty cwd r d) (options : Options) :
    Always faults cwd (load layout options) d fun res d' => d' = d ∧
      ∀ c, res = .ok c → c.Opened layout options .empty := by
  have index : Log.Tells Metered.Sized (Layout.home r).index Index.format d
      ([] : List (Record PathId String)) :=
    Log.tells_of_absent (empty.content _) (empty.content _)
  have map : Log.Tells Metered.Sized (Layout.home r).map format d ([] : List (Record Slot Bytes)) :=
    Log.tells_of_absent (empty.content _) (empty.content _)
  refine (always_load_sized empty.lives index map options).mono ?_
  rintro res d' ⟨rfl, loaded⟩
  refine ⟨rfl, fun c done => ?_⟩
  obtain ⟨ns, spells, _, _, opened⟩ := loaded c done
  have none : ns = .empty := by
    obtain ⟨ss⟩ := ns
    cases ss with
    | nil => rfl
    | cons s ss =>
      obtain ⟨_, mem, _⟩ := spells.dense 0 (Nat.zero_lt_succ _)
      cases mem
  rw [none] at opened
  exact opened

/-- A cache that is open holds what the files told, or it is empty in an empty directory. -/
inductive Came (layout : Layout) (options : Options) (cwd r : Place)
    (told : List (Record PathId String)) (told' : List (Record Slot Bytes)) (d : Disk) (c : Cache) :
    Disk → Prop
  | loaded {ns : Names} (spells : Names.Spells told ns) (sound : ns.Sound)
      (validated : Memory.Validated ⟨ns, DurableMap.replay told'⟩)
      (opened : c.Opened layout options ⟨ns, DurableMap.replay told'⟩) :
    Came layout options cwd r told told' d c d
  | reset {d' : Disk} (empty : layout.Empty cwd r d') (opened : c.Opened layout options .empty) :
    Came layout options cwd r told told' d c d'

theorem always_open_any {told : List (Record PathId String)} {told' : List (Record Slot Bytes)}
    (straight : layout.Straight cwd r) (apart : layout.Apart cwd r) (lives : layout.Lives cwd r d)
    (index : Log.Tells Metered.Sized (Layout.home r).index Index.format d told)
    (map : Log.Tells Metered.Sized (Layout.home r).map format d told') (options : Options) :
    Always faults cwd (Cache.open layout options) d fun res d' =>
      ∀ c messages, res = (.ok c, messages) → Came layout options cwd r told told' d c d' := by
  refine always_open_of_loadOrReset ?_ ?_
  · rintro c messages ms d' came _ _ ⟨⟩
    cases came c messages rfl with
    | loaded spells sound validated opened =>
      exact .loaded spells sound validated (opened.stamped ms)
    | reset empty opened => exact .reset empty (opened.stamped ms)
  refine Always.bind (always_makeDirs_of_isDir lives.isDir) ?_
  rintro res d' ⟨rfl, rfl⟩
  refine Always.bind (always_load_sized lives index map options) ?_
  rintro res d' ⟨rfl, loaded⟩
  cases res with
  | ok c =>
    refine always_pure.mpr ?_
    rintro c messages ⟨⟩
    obtain ⟨ns, spells, sound, validated, opened⟩ := loaded c rfl
    exact .loaded spells sound validated opened
  | error cause =>
    refine Always.bind (always_recover apart lives cause) ?_
    intro res d₁ cleared
    cases res with
    | error e => exact always_pure.mpr (by simp)
    | ok messages =>
      have vacant := cleared messages rfl
      refine Always.bind (always_makeDirs vacant.sound) ?_
      rintro res d₂ ⟨widened, made⟩
      cases res with
      | error e => exact always_pure.mpr (by simp)
      | ok u =>
        have empty := vacant.widened lives.toRooted straight widened (made rfl lives.text)
        refine Always.bind (always_load_of_empty empty options) ?_
        rintro res d₃ ⟨rfl, loaded⟩
        cases res with
        | error e => exact always_pure.mpr (by simp)
        | ok c =>
          refine always_pure.mpr ?_
          rintro c messages ⟨⟩
          exact .reset empty (loaded c rfl)

end Cache
end BuildCache
