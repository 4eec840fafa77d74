import BuildCache.Command
import BuildCache.Proofs.FileTrees
import BuildCache.Proofs.Openings

/-!
Where the quarantine of a configured cache lies. By default it is beside the cache, if the
directory of the cache is called by a name; if it is called `.` or `..`, the quarantine is in the
cache. One that is given is taken as it is. A recovery loses nothing as long as neither directory
is in the other; otherwise it moves nothing away, and may delete what it should have moved.
-/
namespace BuildCache

open Disk Program

namespace Path

theorem Plain.corrupted {name : String} (plain : Plain name) : Plain (name ++ ".corrupted") := by
  have long : (name ++ ".corrupted").length = name.length + 10 := by
    rw [String.length_append]
    rfl
  have other {t : String} (short : t.length < 10) : name ++ ".corrupted" ≠ t := by
    intro same
    rw [same] at long
    omega
  exact ⟨other (by decide), other (by decide), other (by decide), by simp [plain.slashless]⟩

theorem notIdle_of_getLast? {ss : List String} {name : String}
    (last : (dropIdleEnd ss).getLast? = some name) : isIdle name = false := by
  rw [dropIdleEnd, List.getLast?_reverse] at last
  have first := List.head?_dropWhile_not isIdle ss.reverse
  rw [last] at first
  exact first

/-- What comes before a name at the end of a path, and what of it moves. -/
theorem shape_of_fileName? {p : Path} {name : String} (named : p.fileName? = some name) :
    Plain name ∧ ∃ s rest ss, p.segments = s :: rest ∧ s :: dropIdleEnd rest = ss ++ [name] := by
  obtain ⟨s, rest, whole⟩ := List.exists_cons_of_ne_nil p.segments_ne_nil
  have trimmed : p.trimmed = (s, dropIdleEnd rest) := by rw [Path.trimmed, whole]
  have slashless : ∀ t ∈ s :: rest, '/' ∉ t.toList := fun t mem =>
    slashless_of_mem_segments (p := p) (whole ▸ mem)
  obtain ⟨known, notUp⟩ := Option.filter_eq_some_iff.mp named
  rw [trimmed] at known
  have plain (mem : name ∈ s :: rest) (moves : isIdle name = false) : Plain name := by
    simp only [isIdle, Bool.or_eq_false_iff, decide_eq_false_iff_not] at moves
    exact ⟨moves.1, moves.2, by simpa using notUp, slashless name mem⟩
  cases kept : dropIdleEnd rest with
  | nil =>
    rw [kept] at known
    dsimp only at known
    split at known
    · cases known
    · rename_i moves
      cases known
      exact ⟨plain List.mem_cons_self (by simpa using moves), _, rest, [], whole, by rw [kept]; rfl⟩
  | cons t ts =>
    rw [kept] at known
    have last : (dropIdleEnd rest).getLast? = some name := by rw [kept]; exact known
    obtain ⟨front, shape⟩ := List.getLast?_eq_some_iff.mp last
    have mem : name ∈ rest := mem_of_mem_dropIdleEnd (List.mem_of_getLast? last)
    exact ⟨plain (List.mem_cons_of_mem s mem) (notIdle_of_getLast? last), s, rest, s :: front, whole,
      by rw [shape]; rfl⟩

/-- A path with a name has a parent, and leads from there to the name. -/
theorem exists_parent?_of_fileName? {p : Path} {name : String} (named : p.fileName? = some name) :
    Plain name ∧ ∃ dir, p.parent? = some dir ∧ dir.isAbsolute = p.isAbsolute ∧
      moves p.segments = moves dir.segments ++ [name] := by
  obtain ⟨plain, s, rest, ss, whole, shape⟩ := shape_of_fileName? named
  have slashless : ∀ t ∈ s :: dropIdleEnd rest, '/' ∉ t.toList := by
    intro t mem
    refine slashless_of_mem_segments (p := p) ?_
    rw [whole]
    rcases List.mem_cons.mp mem with rfl | mem
    · exact List.mem_cons_self
    · exact List.mem_cons_of_mem s (mem_of_mem_dropIdleEnd mem)
  have again : dropIdleEnd (dropIdleEnd rest) = dropIdleEnd rest := by
    cases ss with
    | nil =>
      rw [(List.cons.inj shape).2]
      rfl
    | cons t ts =>
      rw [(List.cons.inj shape).2]
      exact dropIdleEnd_append plain ts
  -- the same path without what counts for nothing at its end
  have segments := segments_ofSegments (List.cons_ne_nil s (dropIdleEnd rest)) slashless
  have trimmed : (ofSegments (s :: dropIdleEnd rest)).trimmed = p.trimmed := by
    rw [Path.trimmed, Path.trimmed, segments, whole]
    dsimp only
    rw [again]
  obtain ⟨dir, parent, absolute, way⟩ := parent?_of_segments plain (segments.trans shape)
  refine ⟨plain, dir, ?_, absolute.trans ?_, ?_⟩
  · rw [← parent, parent?, parent?, trimmed]
  · have absolute_iff (l : List String) : (∃ t ts, s :: l = "" :: t :: ts) ↔ s = "" ∧ l ≠ [] := by
      simp [List.ne_nil_iff_exists_cons]
    rw [Bool.eq_iff_iff, isAbsolute_iff, isAbsolute_iff, segments, whole, absolute_iff, absolute_iff]
    refine and_congr_right fun root => ⟨fun kept none => kept (by rw [none]; rfl), fun _ none => ?_⟩
    rw [none, root] at shape
    have last := congrArg List.getLast? shape
    rw [List.getLast?_concat] at last
    exact plain.nonempty (Option.some.inj last).symm
  · rw [whole, moves_cons, ← moves_dropIdleEnd rest, ← moves_cons, shape, way]
    simp [moves, plain.notIdle]

end Path

variable {cwd : Place} {d d' : Disk} {faults : Faults}

namespace Disk

/-- A path that is seen from a base goes on from there, unless it is absolute. -/
theorem goal_join (base p : Path) : goal cwd (base.join p) =
    follow (if p.isAbsolute then [] else goal cwd base) (Path.moves p.segments) := by
  by_cases absolute : p.isAbsolute = true
  · rw [Path.join, if_pos absolute, if_pos absolute, goal, origin, if_pos absolute, follow_moves]
  · obtain ⟨same, ss, segments, way⟩ := Path.join_relative base (p := p) (by simpa using absolute)
    have front (here : Place) : follow here ss = follow here base.segments := by
      rw [← follow_moves, way, follow_moves]
    rw [if_neg absolute, goal, goal, origin, origin, same, segments, follow_append, front,
      follow_moves]

theorem goal_join_named {name : String} (plain : Path.Plain name) (base dir : Path) :
    goal cwd (base.join (dir.join ⟨name⟩)) = goal cwd (base.join dir) ++ [name] := by
  obtain ⟨absolute, ss, segments, front⟩ := Path.ends_join dir plain
  have way : Path.moves (dir.join ⟨name⟩).segments = Path.moves dir.segments ++ [name] := by
    rw [segments, ← front]
    simp [Path.moves, plain.notIdle]
  rw [goal_join, goal_join, absolute, way, follow_plain plain]

end Disk

namespace CacheSettings
variable {s : CacheSettings}

/-- The default quarantine of a directory with a name is beside it. -/
theorem goal_quarantine_named {name : String} (cwd : Place) (base : Path) (unset : s.corruptedDir = none)
    (named : s.dir.fileName? = some name) : ∃ up, goal cwd (base.join s.dir) = up ++ [name] ∧
      goal cwd (base.join s.quarantine) = up ++ [name ++ ".corrupted"] := by
  obtain ⟨plain, dir, parent, absolute, way⟩ := Path.exists_parent?_of_fileName? named
  have beside : s.quarantine = dir.join ⟨name ++ ".corrupted"⟩ := by
    rw [quarantine, unset, Option.getD_none, Path.withFileName, named, parent]
    rfl
  refine ⟨goal cwd (base.join dir), ?_, ?_⟩
  · rw [goal_join, goal_join, absolute, way, follow_plain plain]
  · rw [beside, goal_join_named plain.corrupted]

/-- That of a directory without a name is in it. -/
theorem goal_quarantine_nameless (base : Path) (unset : s.corruptedDir = none)
    (nameless : s.dir.fileName? = none) : goal cwd (base.join s.quarantine) =
      goal cwd (base.join s.dir) ++ ["action_cache.corrupted"] := by
  have inside : s.quarantine = s.dir.join ⟨"action_cache.corrupted"⟩ := by
    rw [quarantine, unset, Option.getD_none, Path.withFileName, nameless]
    rfl
  rw [inside, goal_join_named ⟨by decide, by decide, by decide, by decide⟩]

/-- What the settings say of whether the two directories are parted. -/
theorem parted_iff (s : CacheSettings) (base : Path) (cwd : Place) :
    Parted (goal cwd (base.join s.dir)) (goal cwd (base.join s.quarantine)) ↔
      match s.corruptedDir with
      | none => s.dir.fileName?.isSome
      | some dir => Parted (goal cwd (base.join s.dir)) (goal cwd (base.join dir)) := by
  cases given : s.corruptedDir with
  | some dir =>
    rw [quarantine, given]
    rfl
  | none =>
    cases named : s.dir.fileName? with
    | some name =>
      obtain ⟨up, root, beside⟩ := goal_quarantine_named cwd base given named
      rw [root, beside]
      refine iff_of_true (parted_names up fun same => ?_) rfl
      have longer := congrArg String.length same
      rw [String.length_append] at longer
      exact absurd longer (Nat.ne_of_lt (Nat.lt_add_of_pos_right (by decide)))
    | none =>
      refine iff_of_false (fun parted => parted.outside ?_) Bool.false_ne_true
      rw [goal_quarantine_nameless base given named]
      exact List.prefix_append ..

end CacheSettings

/-- The settings of the cache, with a directory given beside them. -/
def Config.cacheWith (c : Config) (dir : Option Path) : CacheSettings :=
  match dir with
  | some dir => { c.cache with dir, corruptedDir := none }
  | none => c.cache

theorem Config.cacheAt_eq (c : Config) (base : Path) (dir : Option Path) :
    (c.cacheAt base dir).1 =
      ⟨base.join (c.cacheWith dir).dir, base.join (c.cacheWith dir).quarantine⟩ :=
  rfl

namespace Layout
variable {l : Layout}

/-- Moving the cache away loses no file of it, whatever is refused: all are where they were, or all
are in the quarantine. -/
def Spares (l : Layout) (cwd : Place) : Prop :=
  ∀ faults d, d.Sound → Always faults cwd (Cache.moveAway l) d fun _ d' =>
    (∀ p, goal cwd l.root <+: p → d'.file? p = d.file? p) ∨
      ∀ below, d'.file? (goal cwd l.corruptedRoot ++ below) = d.file? (goal cwd l.root ++ below)

/-- The root can be renamed to the quarantine where that is free. -/
def Moves (l : Layout) (cwd : Place) : Prop :=
  ∀ (d : Disk) slash slash', d.resolve cwd l.root = .ok (.named (goal cwd l.root) slash) →
    d.lookup (goal cwd l.root) = .ok (some .dir) →
    d.resolve cwd l.corruptedRoot = .ok (.named (goal cwd l.corruptedRoot) slash') →
    d.lookup (goal cwd l.corruptedRoot) = .ok none →
    ∃ d', d.rename cwd l.root l.corruptedRoot = .ok d'

/-- Nothing can be moved away, except from the root to itself. If the quarantine is at the root or
above it, and there, what is in the root goes with it. -/
structure Clashes (l : Layout) (cwd : Place) : Prop where
  stays : ∀ faults d, d.Sound → Always faults cwd (Cache.moveAway l) d fun res _ =>
    res = .ok () → goal cwd l.root = goal cwd l.corruptedRoot
  loses : goal cwd l.corruptedRoot <+: goal cwd l.root → ∀ faults d, d.Sound →
    d.isDir cwd l.corruptedRoot = true →
      Always faults cwd (Cache.removeTreeIfExists l.corruptedRoot) d fun res d' =>
        res = .ok () → ∀ p, isUnder (goal cwd l.root) p → d'.node? p = none

theorem spares_of_parted (parted : Parted (goal cwd l.root) (goal cwd l.corruptedRoot)) :
    l.Spares cwd := by
  intro faults d sound
  have removed : Always faults cwd (Cache.removeTreeIfExists l.corruptedRoot) d fun _ d₁ =>
      d₁.Sound ∧ ∀ p, goal cwd l.root <+: p → d₁.file? p = d.file? p := by
    refine (Cache.always_removeTreeIfExists sound).mono ?_
    rintro res d₁ ⟨pruned, _⟩
    exact ⟨pruned.sound, fun p under =>
      file?_of_node? (pruned.elsewhere p (parted.apart under))⟩
  refine Cache.always_moveAway_of removed
    (M := fun _ d₂ => d₂.Sound ∧ ∀ p, goal cwd l.root <+: p → d₂.file? p = d.file? p) ?_ ?_ ?_ ?_ ?_
  · exact fun e d₁ held => .inl held.2
  · exact fun d₁ held => held
  · rintro d₁ parent ⟨sound₁, same⟩ _
    refine (Cache.always_makeDirs sound₁).mono ?_
    rintro made d₂ ⟨widened, _⟩
    exact ⟨widened.sound, fun p under => (widened.file? p).trans (same p under)⟩
  · exact fun e d₂ held => .inl held.2
  · rintro d₂ ⟨sound₂, same⟩ reply d₃ answer
    rcases answers_rename_any sound₂ answer with rfl | shifted
    · exact .inl same
    · refine .inr fun below => ?_
      rw [← same _ (List.prefix_append ..), Disk.file?, Disk.file?, shifted.nodes,
        if_pos (List.prefix_append ..), List.drop_left]

theorem moves_of_parted (parted : Parted (goal cwd l.root) (goal cwd l.corruptedRoot)) :
    l.Moves cwd := by
  intro d slash slash' leads here leads' there
  have away {a b : Place} (apart : ¬ a <+: b) : ¬ isUnder a b = true := fun under =>
    apart (isUnder_iff.mp under).1
  have other : goal cwd l.root ≠ goal cwd l.corruptedRoot := fun same =>
    parted.outside (same ▸ List.prefix_refl _)
  rw [Disk.rename, leads, leads']
  simp only [Bind.bind, Except.bind, here, there]
  rw [if_neg (away parted.outside), if_neg (away parted.inside), if_neg other]
  exact ⟨_, rfl⟩

theorem clashes_of_not_parted (clash : ¬ Parted (goal cwd l.root) (goal cwd l.corruptedRoot)) :
    l.Clashes cwd where
  stays faults d sound := by
    refine Cache.always_moveAway_of (always_sound sound _) (M := fun _ d₂ => d₂.Sound) ?_ ?_ ?_ ?_ ?_
    · exact fun e d₁ _ done => by cases done
    · exact fun d₁ held => held
    · exact fun d₁ parent sound₁ _ => always_sound sound₁ _
    · exact fun e d₂ _ done => by cases done
    · rintro d₂ sound₂ reply d₃ answer done
      have renamed : ∃ d', d₂.rename cwd l.root l.corruptedRoot = .ok d' := by
        cases answer with
        | refused _ e _ _ _ refusal =>
          cases refusal
          cases done
        | served clock =>
          cases moved : d₂.rename cwd l.root l.corruptedRoot with
          | error e =>
            simp only [Host.answer, Host.change, moved, Except.map] at done
            cases done
          | ok d' => exact ⟨d', rfl⟩
      obtain ⟨d', moved⟩ := renamed
      rcases rename_shifts sound₂ moved with ⟨same, _⟩ | ⟨parted, _⟩
      · exact same
      · exact absurd parted clash
  loses above faults d sound isDir := by
    refine (Cache.always_removeTreeIfExists sound).mono ?_
    rintro res d' ⟨_, gone⟩ done p under
    obtain ⟨front, longer⟩ := isUnder_iff.mp under
    exact gone isDir done p (isUnder_iff.mpr ⟨above.trans front,
      Nat.lt_of_le_of_lt above.length_le longer⟩)

end Layout

namespace Config

/-- For all settings, directories given beside them and bases: the quarantine and the cache are
parted just where the default is used and the cache has a name, or where the directories that were
given are parted themselves. Then no recovery loses a file of the cache, and the cache can be moved
away. Where they are not parted it cannot be moved away. -/
theorem parted_cacheAt (c : Config) (base : Path) (dir : Option Path) (cwd : Place) :
    (Parted (goal cwd (c.cacheAt base dir).1.root)
        (goal cwd (c.cacheAt base dir).1.corruptedRoot) ↔
      match (c.cacheWith dir).corruptedDir with
      | none => (c.cacheWith dir).dir.fileName?.isSome
      | some q => Parted (goal cwd (base.join (c.cacheWith dir).dir)) (goal cwd (base.join q))) ∧
    (Parted (goal cwd (c.cacheAt base dir).1.root)
        (goal cwd (c.cacheAt base dir).1.corruptedRoot) →
      (c.cacheAt base dir).1.Spares cwd ∧ (c.cacheAt base dir).1.Moves cwd) ∧
    (¬ Parted (goal cwd (c.cacheAt base dir).1.root)
        (goal cwd (c.cacheAt base dir).1.corruptedRoot) →
      (c.cacheAt base dir).1.Clashes cwd) := by
  rw [cacheAt_eq]
  exact ⟨(c.cacheWith dir).parted_iff base cwd,
    fun parted => ⟨Layout.spares_of_parted parted, Layout.moves_of_parted parted⟩,
    Layout.clashes_of_not_parted⟩

/-- Settings that are taken although the quarantine is in the cache, or the cache itself; the latter
costs a damaged cache its files. -/
theorem parted_cacheAt_nested :
    (∃ c, (parse "[cache]\ndir = \".\"\n").toOption = some c ∧
      goal [] (c.cacheAt ⟨"/w"⟩ none).1.root = ["w"] ∧
      goal [] (c.cacheAt ⟨"/w"⟩ none).1.corruptedRoot = ["w", "action_cache.corrupted"]) ∧
    ∃ c, (parse "[cache]\ndir = \"w\"\ncorrupted_dir = \"w\"\n").toOption = some c ∧
      (c.cacheAt ⟨"/"⟩ none).1 = ⟨⟨"/w"⟩, ⟨"/w"⟩⟩ ∧
      ∃ res d', Runs .none [] (Cache.open ⟨⟨"/w"⟩, ⟨"/w"⟩⟩ {}) (.holding "w" "action_cache.bin" [0])
        res d' ∧ res.1.isOk = false ∧ d'.nodes = [] := by
  refine ⟨⟨{ cache := { dir := ⟨"."⟩ } }, ?_, ?_⟩,
    { cache := { dir := ⟨"w"⟩, corruptedDir := some ⟨"w"⟩ } }, ?_, ?_,
    _, _, runs_run .none _ (Situation.host ..), ?_⟩
  · decide +kernel
  · decide +kernel
  · decide +kernel
  · decide +kernel
  · decide +kernel

end Config
end BuildCache
