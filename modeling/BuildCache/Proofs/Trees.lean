import BuildCache.Proofs.Homes

/-!
What becomes of the tree when directories are made, moved or removed with all that is in them.
Where a path leads is settled by its names alone, whatever is there, so that one knows beforehand
which part of the tree an operation can reach.
-/
namespace BuildCache

namespace Disk
variable {d d' d'' : Disk} {cwd p q : Place} {path : Path}

/-- Where names lead from a directory on, whatever is there. -/
def follow (here : Place) : List String → Place
  | [] => here
  | s :: ss =>
    if s = "" ∨ s = "." then follow here ss
    else if s = ".." then follow here.dropLast ss
    else follow (here ++ [s]) ss

theorem follow_append (here : Place) (ss ts : List String) :
    follow here (ss ++ ts) = follow (follow here ss) ts := by
  induction ss generalizing here with
  | nil => rfl
  | cons s ss ih =>
    rw [List.cons_append, follow, follow]
    split
    · exact ih here
    · split
      · exact ih _
      · exact ih _

theorem follow_moves (here : Place) (ss : List String) :
    follow here (Path.moves ss) = follow here ss := by
  induction ss generalizing here with
  | nil => rfl
  | cons s ss ih =>
    by_cases idle : s = "" ∨ s = "."
    · rw [Path.moves_of_idle idle, follow, if_pos idle]
      exact ih here
    · rw [Path.moves_of_not_idle idle, follow, follow, if_neg idle, if_neg idle]
      split
      · exact ih _
      · exact ih _

theorem follow_plain {name : String} (plain : Path.Plain name) (here : Place) (ss : List String) :
    follow here (ss ++ [name]) = follow here ss ++ [name] := by
  rw [follow_append, follow, if_neg (not_or.mpr ⟨plain.nonempty, plain.notHere⟩),
    if_neg plain.notUp]
  rfl

theorem eq_follow {here there : Place} {ss : List String} (arrives : d.walk here ss = .ok there) :
    there = follow here ss := by
  rw [walk_eq_ok] at arrives
  induction arrives with
  | done => rfl
  | idle idle _ ih => rw [follow, if_pos idle, ih]
  | up _ ih => rw [follow, if_neg (by decide), if_pos rfl, ih]
  | into notIdle notUp _ _ ih => rw [follow, if_neg notIdle, if_neg notUp, ih]

/-- Where a path leads, whatever is there. -/
def goal (cwd : Place) (path : Path) : Place := follow (origin cwd path) path.segments

theorem Arrives.eq_goal (arrives : d.Arrives cwd path p) : p = goal cwd path := eq_follow arrives

theorem isAbsolute_of_idle (text : path.text ≠ "") (idle : solid path.segments = []) :
    path.isAbsolute = true := by
  have empty : ∀ s ∈ path.segments, s = "" := by
    intro s mem
    have whole := List.takeWhile_append_dropWhile (p := fun s : String => decide (s = ""))
      (l := path.segments.reverse)
    rw [List.reverse_eq_nil_iff.mp idle, List.append_nil] at whole
    have all := List.all_takeWhile (p := fun s : String => decide (s = ""))
      (l := path.segments.reverse)
    rw [whole] at all
    exact of_decide_eq_true (List.all_eq_true.mp all s (List.mem_reverse.mpr mem))
  rw [Path.isAbsolute_iff]
  obtain ⟨s, rest, whole⟩ := List.exists_cons_of_ne_nil path.segments_ne_nil
  obtain rfl := empty s (whole ▸ List.mem_cons_self)
  cases rest with
  | cons t ts => exact ⟨t, ts, whole⟩
  | nil =>
    have only : Path.splitSlash path.text.toList = [[]] := by
      obtain ⟨cs, chars, single⟩ := List.map_eq_singleton_iff.mp whole
      rw [chars, String.ofList_eq_empty_iff.mp single]
    have chars := Path.joinSlash_splitSlash path.text.toList
    rw [only] at chars
    exact absurd (String.toList_eq_nil_iff.mp chars.symm) text

/-- What a path stands for is where it leads. If that has a name, it is in a directory; otherwise
it cannot be removed, but that is never for its not being there. -/
theorem resolve_goal {t : Target} (leads : d.resolve cwd path = .ok t) :
    t.place = goal cwd path ∧
      (∀ p slash, t = .named p slash → p ≠ [] ∧ d.node? p.dropLast = some .dir) ∧
      ∀ p refusal, t = .onTheWay p refusal → refusal ≠ .notFound := by
  have whole : follow (origin cwd path) (solid path.segments) = goal cwd path := by
    rw [← follow_moves, moves_solid, follow_moves, goal]
  obtain ⟨text, _, denotes⟩ := resolve_eq_ok.mp leads
  rw [← whole]
  cases denotes with
  | top nameless =>
    rw [nameless, origin, if_pos (isAbsolute_of_idle text nameless)]
    refine ⟨rfl, ?_, ?_⟩
    · rintro p slash ⟨⟩
    · rintro p refusal ⟨⟩
      simp
  | here shape arrives =>
    rw [shape, follow_append, ← eq_follow arrives]
    refine ⟨rfl, ?_, ?_⟩
    · rintro p slash ⟨⟩
    · rintro p refusal ⟨⟩
      simp
  | up shape arrives =>
    rw [shape, follow_append, ← eq_follow arrives]
    refine ⟨rfl, ?_, ?_⟩
    · rintro p slash ⟨⟩
    · rintro p refusal ⟨⟩
      simp
  | @named front parent name shape notHere notUp arrives dir =>
    have named : name ≠ "" := by
      apply ne_of_getLast?_solid
      rw [shape, List.getLast?_concat]
    rw [shape, follow_append, ← eq_follow arrives]
    refine ⟨?_, ?_, ?_⟩
    · simp [Target.place, follow, named, notHere, notUp]
    · rintro p slash ⟨⟩
      rw [List.dropLast_concat]
      exact ⟨by simp, dir⟩
    · rintro p refusal ⟨⟩

theorem isUnder_iff : isUnder p q = true ↔ p <+: q ∧ p.length < q.length := by
  simp [isUnder]

theorem isUnder_of_ne (front : p <+: q) (other : p ≠ q) : isUnder p q = true :=
  isUnder_iff.mpr ⟨front, Nat.lt_of_le_of_ne front.length_le fun same =>
    other (front.eq_of_length same)⟩

theorem isUnder_append {below : Place} (more : below ≠ []) : isUnder p (p ++ below) = true :=
  isUnder_of_ne (List.prefix_append ..) fun same => more (List.self_eq_append_right.mp same)

theorem isUnder_of_dropLast (under : isUnder p q.dropLast = true) : isUnder p q = true := by
  obtain ⟨front, shorter⟩ := isUnder_iff.mp under
  rw [List.length_dropLast] at shorter
  exact isUnder_iff.mpr ⟨front.trans (List.dropLast_prefix q), by omega⟩

/-- Nodes are gone, and with each directory all that was in it. -/
theorem Sound.of_gone {gone : Place → Prop} [DecidablePred gone] (sound : d.Sound)
    (fresh : d'.fresh = d.fresh)
    (nodes : ∀ p, d'.node? p = if gone p then none else d.node? p)
    (down : ∀ p, gone p.dropLast → d.node? p ≠ none → gone p) : d'.Sound where
  tree p node := by
    rw [nodes] at node ⊢
    by_cases lost : gone p
    · rw [if_pos lost] at node
      exact absurd rfl node
    · rw [if_neg lost] at node
      rw [if_neg fun up => lost (down p up node)]
      exact sound.tree p node
  single p q h c c' fp fq := by
    have less {p : Place} {c : Bytes} (f : d'.file? p = some (h, c)) : d.file? p = some (h, c) := by
      rw [file?_eq_some, nodes] at f
      split at f
      · cases f
      · exact file?_eq_some.mpr f
    exact sound.single p q h c c' (less fp) (less fq)
  fresh p h c f := by
    rw [file?_eq_some, nodes] at f
    split at f
    · cases f
    · rw [fresh]
      exact sound.fresh p h c (file?_eq_some.mpr f)

theorem node?_dropWhere (d : Disk) {drop : Place → Bool} (root : drop [] = false) (p : Place) :
    (d.dropWhere drop).node? p = if drop p then none else d.node? p := by
  unfold node? dropWhere
  by_cases top : p = []
  · subst top
    rw [if_pos rfl, if_pos rfl, root]
    rfl
  · rw [if_neg top, if_neg top, Table.get?_filter_keys d.nodes (fun p => !drop p) p]
    cases drop p <;> rfl

/-- The disk without some of what lies at a place or under it. -/
structure Pruned (q : Place) (d d' : Disk) : Prop where
  sound : d'.Sound
  elsewhere : ∀ p, ¬ q <+: p → d'.node? p = d.node? p

theorem find_of_isDir (isDir : d.isDir cwd path = true) : d.find cwd path = .ok .dir := by
  rw [Disk.isDir] at isDir
  split at isDir
  · assumption
  · cases isDir

theorem exists_resolve {n : Node} (found : d.find cwd path = .ok n) :
    ∃ t, d.resolve cwd path = .ok t := by
  obtain ⟨t, leads, _⟩ := bind_eq_ok.mp found
  exact ⟨t, leads⟩

theorem removeTree_ne_notFound (isDir : d.isDir cwd path = true) :
    (d.removeTree cwd path).1 ≠ .error .notFound := by
  have found := find_of_isDir isDir
  obtain ⟨t, leads⟩ := exists_resolve found
  simp only [removeTree, leads, found]
  cases leads' : (d.dropWhere (isUnder t.place)).resolve cwd path with
  | error e => cases e <;> simp
  | ok t' =>
    cases t' with
    | named place slash => simp
    | onTheWay place refusal =>
      obtain ⟨_, _, known⟩ := resolve_goal leads'
      exact fun same => known place refusal rfl (Except.error.inj same)

/-- Removing a directory reaches nothing but what is in it. -/
theorem removeTree_pruned (sound : d.Sound) (cwd : Place) (path : Path) :
    Pruned (goal cwd path) d (d.removeTree cwd path).2 ∧
      ((d.removeTree cwd path).1 = .ok () →
        ∀ p, isUnder (goal cwd path) p = true → (d.removeTree cwd path).2.node? p = none) := by
  unfold removeTree
  cases leads : d.resolve cwd path with
  | error e => exact ⟨⟨sound, fun _ _ => rfl⟩, fun done => by cases done⟩
  | ok t =>
    obtain ⟨at_, _⟩ := resolve_goal leads
    cases d.find cwd path with
    | error e => exact ⟨⟨sound, fun _ _ => rfl⟩, fun done => by cases done⟩
    | ok n =>
      cases n with
      | file h c => exact ⟨⟨sound, fun _ _ => rfl⟩, fun done => by cases done⟩
      | dir =>
        dsimp only
        rw [at_]
        generalize toward : goal cwd path = q
        have nodes (p : Place) : (d.dropWhere (isUnder q)).node? p =
            if isUnder q p then none else d.node? p := node?_dropWhere d (by simp [isUnder]) p
        have emptied : (d.dropWhere (isUnder q)).Sound := by
          exact sound.of_gone rfl nodes fun p up _ => isUnder_of_dropLast up
        have pruned : Pruned q d (d.dropWhere (isUnder q)) := by
          refine ⟨emptied, fun p away => ?_⟩
          rw [nodes, if_neg fun under => away (isUnder_iff.mp under).1]
        have gone : ∀ p, isUnder q p = true → (d.dropWhere (isUnder q)).node? p = none := by
          intro p under
          rw [nodes, if_pos under]
        generalize d.dropWhere (isUnder q) = e at emptied pruned gone
        cases leads' : e.resolve cwd path with
        | error cause =>
          cases cause with
          | notFound => exact ⟨pruned, fun _ => gone⟩
          | _ => exact ⟨pruned, fun done => by cases done⟩
        | ok t' =>
          cases t' with
          | onTheWay place refusal => exact ⟨pruned, fun done => by cases done⟩
          | named place slash =>
            obtain ⟨same, named, _⟩ := resolve_goal leads'
            obtain ⟨notRoot, _⟩ := named place slash rfl
            rw [toward] at same
            obtain rfl : place = q := same
            have nodes := node?_erase e notRoot
            refine ⟨⟨emptied.of_gone rfl nodes fun p up node => ?_, fun p away => ?_⟩, ?_⟩
            · by_cases top : p = []
              · subst top
                exact absurd up.symm notRoot
              · refine absurd (gone p (isUnder_iff.mpr ?_)) node
                have shorter : p.dropLast.length = p.length - 1 := List.length_dropLast
                have some_ := List.length_pos_iff.mpr top
                exact ⟨up ▸ List.dropLast_prefix p, by rw [← up]; omega⟩
            · have other : p ≠ place := fun same => away (same ▸ List.prefix_refl p)
              exact (nodes p).trans ((if_neg other).trans (pruned.elsewhere p away))
            · intro _ p under
              refine (nodes p).trans ?_
              split
              · rfl
              · exact gone p under

/-- The disk with more directories, each at one of these places. -/
structure Widened (at_ : Place → Prop) (d d' : Disk) : Prop where
  sound : d'.Sound
  kept : ∀ p n, d.node? p = some n → d'.node? p = some n
  new : ∀ p, d.node? p = none → d'.node? p = none ∨ d'.node? p = some .dir ∧ at_ p

theorem Widened.refl {at_ : Place → Prop} (sound : d.Sound) : Widened at_ d d :=
  ⟨sound, fun _ _ => id, fun _ => .inl⟩

/-- No file comes or goes. -/
theorem Widened.file? {at_ : Place → Prop} (widened : Widened at_ d d') (p : Place) :
    d'.file? p = d.file? p := by
  cases here : d.node? p with
  | some n => rw [Disk.file?, Disk.file?, widened.kept p n here, here]
  | none =>
    rcases widened.new p here with absent | ⟨dir, _⟩
    · rw [Disk.file?, Disk.file?, absent, here]
    · rw [Disk.file?, Disk.file?, dir, here]

theorem Widened.trans {at_ : Place → Prop} (first : Widened at_ d d')
    (next : Widened at_ d' d'') : Widened at_ d d'' where
  sound := next.sound
  kept p n node := next.kept p n (first.kept p n node)
  new p absent := by
    rcases first.new p absent with absent | new
    · exact next.new p absent
    · exact .inr ⟨next.kept p _ new.1, new.2⟩

theorem Widened.mono {at_ more : Place → Prop} (widened : Widened at_ d d')
    (sub : ∀ p, at_ p → more p) : Widened more d d' :=
  ⟨widened.sound, widened.kept, fun p absent =>
    (widened.new p absent).imp_right fun new => ⟨new.1, sub p new.2⟩⟩

/-- A directory is made right in one that is there, where there was nothing. -/
theorem makeDir_eq_ok (made : d.makeDir cwd path = .ok d') : ∃ place slash,
    d.resolve cwd path = .ok (.named place slash) ∧ d.lookup place = .ok none ∧
      d' = d.put place .dir := by
  rw [makeDir] at made
  obtain ⟨t, leads, made⟩ := bind_eq_ok.mp made
  cases t with
  | onTheWay place refusal => cases made
  | named place slash =>
    obtain ⟨node, found, made⟩ := bind_eq_ok.mp made
    cases node with
    | some n => cases made
    | none =>
      cases made
      exact ⟨place, slash, leads, found, rfl⟩

/-- One more directory, right in one that is there. -/
theorem put_widened {place : Place} (sound : d.Sound) (notRoot : place ≠ [])
    (parent : d.node? place.dropLast = some .dir) (absent : d.node? place = none) :
    Widened (· = place) d (d.put place .dir) := by
  have nodes := node?_put (d := d) notRoot .dir
  have kept : ∀ p n, d.node? p = some n → (d.put place .dir).node? p = some n := by
    intro p n node
    have other : p ≠ place := by
      rintro rfl
      rw [absent] at node
      cases node
    rw [nodes, if_neg other]
    exact node
  have files : ∀ p h c, (d.put place .dir).file? p = some (h, c) → d.file? p = some (h, c) := by
    intro p h c file
    rw [file?_eq_some, nodes] at file
    split at file
    · cases file
    · exact file?_eq_some.mpr file
  refine ⟨⟨fun p node => ?_, ?_, ?_⟩, kept, fun p nothing => ?_⟩
  · rw [nodes] at node
    split at node
    · rename_i same
      rw [same]
      exact kept _ _ parent
    · exact kept _ _ (sound.tree p node)
  · exact fun p q h c c' fp fq => sound.single p q h c c' (files p h c fp) (files q h c' fq)
  · exact fun p h c f => sound.fresh p h c (files p h c f)
  · rw [nodes]
    split
    · rename_i same
      exact .inr ⟨rfl, same⟩
    · exact .inl nothing

theorem makeDir_widened (sound : d.Sound) (made : d.makeDir cwd path = .ok d') :
    Widened (· = goal cwd path) d d' ∧ d'.isDir cwd path = true := by
  obtain ⟨place, slash, leads, found, rfl⟩ := makeDir_eq_ok made
  obtain ⟨short, absent⟩ := lookup_eq_ok found
  obtain ⟨at_, named, _⟩ := resolve_goal leads
  obtain rfl : place = goal cwd path := at_
  obtain ⟨notRoot, parent⟩ := named _ _ rfl
  have widened := put_widened sound notRoot parent absent
  refine ⟨widened, ?_⟩
  have there : (d.put (goal cwd path) .dir).lookup (goal cwd path) = .ok (some .dir) := by
    rw [lookup_of_short short, node?_put notRoot, if_pos rfl]
  rw [isDir, find, resolve_mono (fun p => widened.kept p .dir) leads]
  simp only [bind, Except.bind, there]
  rfl

/-- A place that nothing is at or under is in no entry of the table. -/
theorem notUnder_of_absent (sound : d.Sound) {b : Place} (notRoot : b ≠ [])
    (absent : d.node? b = none) : ∀ e ∈ d.nodes, ¬ b <+: e.1 := by
  rintro e mem ⟨below, whole⟩
  have there : d.node? e.1 ≠ none := by
    have top : e.1 ≠ [] := by simp [← whole, notRoot]
    rw [node?, if_neg top, ← Option.isSome_iff_ne_none, ← Table.mem_keys]
    exact List.mem_map_of_mem mem
  by_cases strict : below = []
  · rw [strict, List.append_nil] at whole
    rw [← whole] at there
    exact there absent
  · rw [← whole] at there
    rw [sound.node?_prefix b below strict there] at absent
    cases absent

theorem erase_of_absent (sound : d.Sound) {b : Place} (notRoot : b ≠ [])
    (absent : d.node? b = none) : d.nodes.erase b = d.nodes :=
  List.filter_eq_self.mpr fun e mem => decide_eq_true fun same =>
    notUnder_of_absent sound notRoot absent e mem (same ▸ List.prefix_refl _)

/-- The nodes after a directory has moved to a place where there was nothing. -/
theorem node?_moveDir {a b : Place} (rootA : a ≠ []) (rootB : b ≠ [])
    (absent : ∀ e ∈ d.nodes, ¬ b <+: e.1) (p : Place) :
    Disk.node? { d with nodes := d.nodes.map fun e => (moved a b e.1, e.2) } p =
      if b <+: p then d.node? (a ++ p.drop b.length) else if a <+: p then none else d.node? p := by
  have under {q : Place} (h : a <+: q) : moved a b q = b ++ q.drop a.length := by
    rw [moved, if_pos (List.isPrefixOf_iff_prefix.mpr h)]
  have away {q : Place} (h : ¬ a <+: q) : moved a b q = q := by
    rw [moved, if_neg (by simpa using h)]
  -- what comes to lie under `b` is exactly what was under `a`
  have front {q : Place} (h : a <+: q) : b <+: moved a b q := by
    rw [under h]
    exact List.prefix_append ..
  unfold node?
  by_cases top : p = []
  · subst top
    have notB : ¬ b <+: [] := fun h => rootB (List.prefix_nil.mp h)
    have notA : ¬ a <+: [] := fun h => rootA (List.prefix_nil.mp h)
    rw [if_pos rfl, if_neg notB, if_neg notA, if_pos rfl]
  rw [if_neg top]
  by_cases inB : b <+: p
  · obtain ⟨below, rfl⟩ := inB
    have inner : a ++ below ≠ [] := by simp [rootA]
    rw [if_pos (List.prefix_append ..), List.drop_left, if_neg inner]
    refine Table.get?_map_keys _ _ _ _ fun e mem => ?_
    by_cases h : a <+: e.1
    · obtain ⟨rest, whole⟩ := h
      rw [under ⟨rest, whole⟩, ← whole, List.drop_left, List.append_right_inj,
        List.append_right_inj]
    · rw [away h]
      constructor
      · exact fun same => absurd ⟨below, same.symm⟩ (absent e mem)
      · exact fun same => absurd ⟨below, same.symm⟩ h
  rw [if_neg inB]
  by_cases inA : a <+: p
  · rw [if_pos inA, ← Option.not_isSome_iff_eq_none, ← Table.mem_keys]
    intro known
    obtain ⟨e', mem', rfl⟩ := List.mem_map.mp known
    obtain ⟨e, mem, rfl⟩ := List.mem_map.mp mem'
    by_cases h : a <+: e.1
    · exact inB (front h)
    · rw [away h] at inA
      exact h inA
  · rw [if_neg inA, if_neg top]
    refine Table.get?_map_keys _ _ _ _ fun e mem => ?_
    by_cases h : a <+: e.1
    · constructor
      · exact fun same => absurd (same ▸ front h) inB
      · exact fun same => absurd (same ▸ h) inA
    · rw [away h]

/-- A directory that has moved takes all that is in it along, and nothing else changes. -/
structure Shifted (a b : Place) (d d' : Disk) : Prop where
  sound : d'.Sound
  nodes : ∀ p, d'.node? p =
    if b <+: p then d.node? (a ++ p.drop b.length) else if a <+: p then none else d.node? p

theorem Shifted.of_nodes {a b : Place} (sound : d.Sound) (fresh : d'.fresh = d.fresh)
    (rootB : b ≠ []) (parent : d.node? b.dropLast = some .dir)
    (apart : ¬ a <+: b) (nodes : ∀ p, d'.node? p =
      if b <+: p then d.node? (a ++ p.drop b.length) else if a <+: p then none else d.node? p) :
    Shifted a b d d' := by
  have source : ∀ p h c, d'.file? p = some (h, c) →
      d.file? (if b <+: p then a ++ p.drop b.length else p) = some (h, c) ∧
        (¬ b <+: p → ¬ a <+: p) := by
    intro p h c file
    rw [file?_eq_some, nodes] at file
    by_cases inB : b <+: p
    · rw [if_pos inB] at file ⊢
      exact ⟨file?_eq_some.mpr file, fun away => absurd inB away⟩
    · rw [if_neg inB] at file ⊢
      split at file
      · cases file
      · rename_i inA
        exact ⟨file?_eq_some.mpr file, fun _ => inA⟩
  have stays {p : Place} (notB : ¬ b <+: p) (notA : ¬ a <+: p) : d'.node? p = d.node? p := by
    rw [nodes, if_neg notB, if_neg notA]
  refine ⟨⟨fun p node => ?_, fun p q h c c' fp fq => ?_, fun p h c f => ?_⟩, nodes⟩
  · by_cases inB : b <+: p
    · obtain ⟨below, rfl⟩ := inB
      rw [nodes, if_pos (List.prefix_append ..), List.drop_left] at node
      by_cases top : below = []
      · subst top
        rw [List.append_nil, stays _ fun h => apart (h.trans (List.dropLast_prefix b))]
        · exact parent
        · intro h
          have shorter := h.length_le
          have some_ := List.length_pos_iff.mpr rootB
          rw [List.length_dropLast] at shorter
          omega
      · have up := sound.tree _ node
        rw [List.dropLast_append_of_ne_nil top] at up ⊢
        rw [nodes, if_pos (List.prefix_append ..), List.drop_left]
        exact up
    · have inA : ¬ a <+: p := by
        intro inA
        rw [nodes, if_neg inB, if_pos inA] at node
        exact node rfl
      rw [stays inB inA] at node
      rw [stays (fun h => inB (h.trans (List.dropLast_prefix p)))
        fun h => inA (h.trans (List.dropLast_prefix p))]
      exact sound.tree p node
  · obtain ⟨fp, awayP⟩ := source p h c fp
    obtain ⟨fq, awayQ⟩ := source q h c' fq
    have same := sound.single _ _ h c c' fp fq
    by_cases inP : b <+: p <;> by_cases inQ : b <+: q
    · rw [if_pos inP, if_pos inQ] at same
      obtain ⟨x, rfl⟩ := inP
      obtain ⟨y, rfl⟩ := inQ
      rw [List.drop_left, List.drop_left, List.append_right_inj] at same
      rw [same]
    · rw [if_pos inP, if_neg inQ] at same
      exact absurd ⟨_, same⟩ (awayQ inQ)
    · rw [if_neg inP, if_pos inQ] at same
      exact absurd ⟨_, same.symm⟩ (awayP inP)
    · rwa [if_neg inP, if_neg inQ] at same
  · rw [fresh]
    exact sound.fresh _ h c (source p h c f).1

/-- Nothing lies under what is no directory. -/
theorem bare_of_notDir (sound : d.Sound) {b : Place} (notDir : d.node? b ≠ some .dir) :
    ∀ e ∈ d.nodes, ¬ isUnder b e.1 := by
  intro e mem under
  obtain ⟨⟨below, whole⟩, longer⟩ := isUnder_iff.mp under
  have top : e.1 ≠ [] := List.ne_nil_of_length_pos (Nat.lt_of_le_of_lt (Nat.zero_le _) longer)
  have strict : below ≠ [] := by
    rintro rfl
    rw [← whole, List.append_nil] at longer
    exact Nat.lt_irrefl _ longer
  refine notDir (sound.node?_prefix b below strict ?_)
  rw [whole, node?, if_neg top, ← Option.isSome_iff_ne_none, ← Table.mem_keys]
  exact List.mem_map_of_mem mem

/-- A place in a directory is not under a file. -/
theorem Sound.apart_of_file (sound : d.Sound) {a b : Place} {h : Handle} {c : Bytes}
    (file : d.node? a = some (.file h c)) (parent : d.node? b.dropLast = some .dir)
    (other : a ≠ b) : ¬ a <+: b := by
  rintro ⟨below, rfl⟩
  have strict : below ≠ [] := by
    rintro rfl
    exact other (List.append_nil a).symm
  rw [List.dropLast_append_of_ne_nil strict] at parent
  by_cases direct : below.dropLast = []
  · rw [direct, List.append_nil, file] at parent
    cases parent
  · have dir := sound.node?_prefix a below.dropLast direct (by simp [parent])
    rw [file] at dir
    cases dir

/-- What moves replaces what is at its new place, as long as nothing is under that. -/
theorem Shifted.of_move {a b : Place} (sound : d.Sound) (rootA : a ≠ []) (rootB : b ≠ [])
    (parent : d.node? b.dropLast = some .dir) (apart : ¬ a <+: b)
    (bare : ∀ e ∈ d.nodes, ¬ isUnder b e.1) :
    Shifted a b d { d with nodes := (d.nodes.erase b).map fun e => (moved a b e.1, e.2) } := by
  have erased := node?_erase d rootB
  have absent : ∀ e ∈ d.nodes.erase b, ¬ b <+: e.1 := by
    rintro e mem front
    obtain ⟨mem, notB⟩ := List.mem_filter.mp mem
    exact bare e mem (isUnder_of_ne front (Ne.symm (of_decide_eq_true notB)))
  refine .of_nodes sound rfl rootB parent apart fun p => ?_
  have nodes := node?_moveDir (d := { d with nodes := d.nodes.erase b }) rootA rootB absent p
  rw [erased, erased] at nodes
  rw [nodes]
  by_cases inB : b <+: p
  · have off : a ++ p.drop b.length ≠ b := fun same => apart ⟨_, same⟩
    rw [if_pos inB, if_pos inB, if_neg off]
  · have off : p ≠ b := fun same => inB (same ▸ List.prefix_refl p)
    rw [if_neg inB, if_neg inB, if_neg off]

/-- Neither place is the other one, or under it. -/
structure Parted (a b : Place) : Prop where
  outside : ¬ a <+: b
  inside : ¬ b <+: a

theorem not_prefix_of_not_isUnder {a b : Place} (notUnder : ¬ isUnder a b = true) (other : a ≠ b) :
    ¬ a <+: b :=
  fun front => notUnder (isUnder_of_ne front other)

theorem Parted.apart {a b : Place} (parted : Parted a b) (under : a <+: p) : ¬ b <+: p := by
  intro under'
  rcases List.prefix_or_prefix_of_prefix under under' with h | h
  · exact parted.outside h
  · exact parted.inside h

/-- Two names in one place are parted. -/
theorem parted_names {name name' : String} (up : Place) (other : name ≠ name') :
    Parted (up ++ [name]) (up ++ [name']) := by
  have away {s t : String} (other : s ≠ t) : ¬ up ++ [s] <+: up ++ [t] := by
    rw [List.prefix_append_right_inj]
    intro front
    exact other (List.singleton_inj.mp (front.eq_of_length rfl))
  exact ⟨away other, away (Ne.symm other)⟩

/-- What a rename that is done has found, and what it has made of it. -/
theorem rename_eq_ok {source target : Path} (done : d.rename cwd source target = .ok d') :
    ∃ a b slash slash' n, d.resolve cwd source = .ok (.named a slash) ∧
      d.resolve cwd target = .ok (.named b slash') ∧ d.node? a = some n ∧
      (a = b ∧ d' = d ∨ a ≠ b ∧ ¬ isUnder b a ∧ (n = .dir → ¬ isUnder a b) ∧
        (d.node? b = some .dir → ∀ e ∈ d.nodes, ¬ isUnder b e.1) ∧
        ∃ nodes, (nodes = d.nodes.erase b ∨ d.node? b = none ∧ nodes = d.nodes) ∧
          d' = { d with nodes := nodes.map fun e => (moved a b e.1, e.2) }) := by
  rw [rename] at done
  obtain ⟨t, leads, done⟩ := bind_eq_ok.mp done
  obtain ⟨t', leads', done⟩ := bind_eq_ok.mp done
  cases t with
  | onTheWay place refusal => cases t' <;> cases done
  | named a slash =>
  cases t' with
  | onTheWay place refusal => cases done
  | named b slash' =>
  obtain ⟨node, found, done⟩ := bind_eq_ok.mp done
  cases node with
  | none => cases done
  | some n =>
  obtain ⟨replaced, found', done⟩ := bind_eq_ok.mp done
  have there := (lookup_eq_ok found').2
  refine ⟨a, b, slash, slash', n, leads, leads', (lookup_eq_ok found).2, ?_⟩
  rw [there]
  cases n with
  | file h c =>
    dsimp only at done
    split at done
    · cases done
    split at done
    · cases done
    rename_i notOver
    split at done
    · cases done
    rename_i notDir
    split at done
    · rename_i same
      cases done
      exact .inl ⟨same, rfl⟩
    · rename_i other
      cases done
      refine .inr ⟨other, notOver, ?_, fun dir => absurd dir notDir, _, .inl rfl, rfl⟩
      rintro ⟨⟩
  | dir =>
    dsimp only at done
    split at done
    · cases done
    rename_i notUnder
    split at done
    · cases done
    rename_i notOver
    split at done
    · rename_i same
      cases done
      exact .inl ⟨same, rfl⟩
    rename_i other
    refine .inr ⟨other, notOver, fun _ => notUnder, ?_⟩
    cases replaced with
    | none =>
      cases done
      refine ⟨?_, _, .inr ⟨rfl, rfl⟩, rfl⟩
      rintro ⟨⟩
    | some n =>
      cases n with
      | file h c => cases done
      | dir =>
        dsimp only at done
        split at done
        · cases done
        rename_i bare
        cases done
        exact ⟨fun _ e mem under => bare (List.any_eq_true.mpr ⟨e, mem, under⟩), _, .inl rfl, rfl⟩

/-- A rename that is done has moved what was there, unless both paths lead to the same place. -/
theorem rename_shifts {source target : Path} (sound : d.Sound)
    (done : d.rename cwd source target = .ok d') :
    goal cwd source = goal cwd target ∧ d' = d ∨
      Parted (goal cwd source) (goal cwd target) ∧
        Shifted (goal cwd source) (goal cwd target) d d' := by
  obtain ⟨a, b, slash, slash', n, leads, leads', here, outcome⟩ := rename_eq_ok done
  obtain ⟨atA, namedA, _⟩ := resolve_goal leads
  obtain ⟨atB, namedB, _⟩ := resolve_goal leads'
  obtain ⟨rootA, _⟩ := namedA a slash rfl
  obtain ⟨rootB, parent⟩ := namedB b slash' rfl
  rw [← show a = goal cwd source from atA, ← show b = goal cwd target from atB]
  rcases outcome with same | ⟨other, notOver, notUnder, bare, nodes, erased, rfl⟩
  · exact .inl same
  have apart : ¬ a <+: b := by
    cases n with
    | file h c => exact sound.apart_of_file here parent other
    | dir => exact not_prefix_of_not_isUnder (notUnder rfl) other
  have empty : ∀ e ∈ d.nodes, ¬ isUnder b e.1 := by
    by_cases dir : d.node? b = some .dir
    · exact bare dir
    · exact bare_of_notDir sound dir
  obtain rfl : nodes = d.nodes.erase b := by
    rcases erased with rfl | ⟨absent, rfl⟩
    · rfl
    · exact (erase_of_absent sound rootB absent).symm
  exact .inr ⟨⟨apart, not_prefix_of_not_isUnder notOver (Ne.symm other)⟩,
    .of_move sound rootA rootB parent apart empty⟩

theorem rename_shifted {source target : Path} (sound : d.Sound)
    (done : d.rename cwd source target = .ok d')
    (apart : ¬ goal cwd source <+: goal cwd target) :
    Shifted (goal cwd source) (goal cwd target) d d' := by
  rcases rename_shifts sound done with ⟨same, _⟩ | ⟨_, shifted⟩
  · exact absurd (same ▸ List.prefix_refl _) apart
  · exact shifted

end Disk
end BuildCache
