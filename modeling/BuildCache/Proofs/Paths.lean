import BuildCache.Log

/-!
The paths of a store. All of them are a base and a plain name behind it, and the temporary sibling
of such a path lies behind the same base; segments that count for nothing come and go on the way.
-/
namespace BuildCache

namespace Path

/-- A name that can only stand for an entry of a directory. -/
structure Plain (name : String) : Prop where
  nonempty : name ≠ ""
  notHere : name ≠ "."
  notUp : name ≠ ".."
  slashless : '/' ∉ name.toList

theorem Plain.notIdle {name : String} (h : Plain name) : isIdle name = false := by
  simp [isIdle, h.nonempty, h.notHere]

theorem splitSlash_slashless {cs : List Char} (h : '/' ∉ cs) : splitSlash cs = [cs] := by
  induction cs with
  | nil => rfl
  | cons c cs ih =>
    obtain ⟨first, rest⟩ := not_or.mp (mt List.mem_cons.mpr h)
    rw [splitSlash, if_neg (Ne.symm first), ih rest]

theorem splitSlash_append (cs ds : List Char) :
    splitSlash (cs ++ '/' :: ds) = splitSlash cs ++ splitSlash ds := by
  induction cs with
  | nil => simp [splitSlash]
  | cons c cs ih =>
    simp only [List.cons_append, splitSlash, ih]
    split
    · rfl
    · cases front : splitSlash cs with
      | nil => exact absurd front (splitSlash_ne_nil cs)
      | cons s ss => rfl

theorem slashless_of_mem_splitSlash {cs s : List Char} (h : s ∈ splitSlash cs) : '/' ∉ s := by
  induction cs generalizing s with
  | nil => simp [List.mem_singleton.mp h]
  | cons c cs ih =>
    rw [splitSlash] at h
    split at h
    · rcases List.mem_cons.mp h with rfl | h
      · exact List.not_mem_nil
      · exact ih h
    · rename_i other
      cases rest : splitSlash cs with
      | nil => exact absurd rest (splitSlash_ne_nil cs)
      | cons t ts =>
        rw [rest] at h
        rcases List.mem_cons.mp h with rfl | h
        · have := ih (rest ▸ List.mem_cons_self)
          simp [Ne.symm other, this]
        · exact ih (rest ▸ List.mem_cons_of_mem t h)

theorem splitSlash_joinSlash {ss : List (List Char)} (nonempty : ss ≠ [])
    (slashless : ∀ s ∈ ss, '/' ∉ s) : splitSlash (joinSlash ss) = ss := by
  induction ss with
  | nil => exact absurd rfl nonempty
  | cons s ss ih =>
    have first := splitSlash_slashless (slashless s List.mem_cons_self)
    cases ss with
    | nil => exact first
    | cons t ts =>
      rw [joinSlash, splitSlash_append, first,
        ih (by simp) fun s mem => slashless s (List.mem_cons_of_mem _ mem)]
      · rfl
      · simp

theorem segments_ne_nil (p : Path) : p.segments ≠ [] := by
  simp [segments, splitSlash_ne_nil]

theorem segments_slashless {s : String} (h : '/' ∉ s.toList) : segments ⟨s⟩ = [s] := by
  simp [segments, splitSlash_slashless h]

theorem segments_append (a b : String) :
    segments ⟨a ++ "/" ++ b⟩ = segments ⟨a⟩ ++ segments ⟨b⟩ := by
  have whole : (a ++ "/" ++ b).toList = a.toList ++ '/' :: b.toList := by simp
  rw [segments, whole, splitSlash_append, List.map_append]
  rfl

theorem slashless_of_mem_segments {p : Path} {s : String} (h : s ∈ p.segments) :
    '/' ∉ s.toList := by
  obtain ⟨cs, mem, rfl⟩ := List.mem_map.mp h
  rw [String.toList_ofList]
  exact slashless_of_mem_splitSlash mem

theorem segments_ofSegments {ss : List String} (nonempty : ss ≠ [])
    (slashless : ∀ s ∈ ss, '/' ∉ s.toList) : (ofSegments ss).segments = ss := by
  have chars : splitSlash (joinSlash (ss.map String.toList)) = ss.map String.toList := by
    refine splitSlash_joinSlash (by simpa using nonempty) fun s mem => ?_
    obtain ⟨t, mem', rfl⟩ := List.mem_map.mp mem
    exact slashless t mem'
  simp [segments, ofSegments, chars]

/-- A path is absolute if its first segment is empty and not its only one. -/
theorem isAbsolute_iff (p : Path) : p.isAbsolute = true ↔ ∃ s ss, p.segments = "" :: s :: ss := by
  rw [isAbsolute, decide_eq_true_eq, segments]
  cases p.text.toList with
  | nil => simp [splitSlash]
  | cons c cs =>
    by_cases slash : c = '/'
    · obtain ⟨t, ts, rest⟩ := List.exists_cons_of_ne_nil (splitSlash_ne_nil cs)
      simp [splitSlash, slash, rest]
    · obtain ⟨t, ts, rest⟩ := List.exists_cons_of_ne_nil (splitSlash_ne_nil cs)
      simp [splitSlash, slash, rest]

/-- The segments that move. -/
def moves (ss : List String) : List String := ss.filter fun s => !isIdle s

theorem moves_dropIdleEnd (ss : List String) : moves (dropIdleEnd ss) = moves ss := by
  have front (ts : List String) : moves (ts.dropWhile isIdle) = moves ts := by
    induction ts with
    | nil => rfl
    | cons t ts ih =>
      cases idle : isIdle t
      · rw [List.dropWhile_cons_of_neg (by simp [idle])]
      · rw [List.dropWhile_cons_of_pos idle, ih]
        simp [moves, idle]
  rw [dropIdleEnd, moves, List.filter_reverse, ← moves, front, moves, List.filter_reverse,
    List.reverse_reverse]
  rfl

theorem mem_of_mem_dropIdleEnd {ss : List String} {s : String} (h : s ∈ dropIdleEnd ss) :
    s ∈ ss := by
  rw [dropIdleEnd, List.mem_reverse] at h
  exact List.mem_reverse.mp ((List.dropWhile_sublist isIdle).mem h)

theorem moves_cons (s : String) (ss : List String) : moves (s :: ss) = moves [s] ++ moves ss :=
  List.filter_append [s] ss

theorem moves_of_idle {s : String} (idle : s = "" ∨ s = ".") (ss : List String) :
    moves (s :: ss) = moves ss :=
  List.filter_cons_of_neg (by simpa [isIdle] using idle.resolve_left)

theorem moves_of_not_idle {s : String} (other : ¬(s = "" ∨ s = ".")) (ss : List String) :
    moves (s :: ss) = s :: moves ss :=
  List.filter_cons_of_pos (by simpa [isIdle] using other)

/-- The path leads over the moves of `way` to an entry that is called `name`. -/
structure Ends (p : Path) (absolute : Bool) (way : List String) (name : String) : Prop where
  absolute_eq : p.isAbsolute = absolute
  segments_eq : ∃ ss, p.segments = ss ++ [name] ∧ moves ss = way

theorem isAbsolute_append {a : String} (b : String) (h : a ≠ "") :
    isAbsolute ⟨a ++ b⟩ = isAbsolute ⟨a⟩ := by
  cases chars : a.toList with
  | nil => exact absurd (String.toList_eq_nil_iff.mp chars) h
  | cons c cs => simp [isAbsolute, chars]

/-- A path that is seen from a base has its segments behind what moves as the base does. -/
theorem join_relative (base : Path) {p : Path} (relative : p.isAbsolute = false) :
    (base.join p).isAbsolute = base.isAbsolute ∧
      ∃ ss, (base.join p).segments = ss ++ p.segments ∧ moves ss = moves base.segments := by
  obtain ⟨text⟩ := base
  obtain ⟨rest⟩ := p
  rw [join, if_neg (by simp [relative])]
  by_cases empty : text = ""
  · subst empty
    refine ⟨?_, [], ?_, rfl⟩
    · simpa [isAbsolute] using relative
    · simp
  by_cases slash : text.toList.getLast? = some '/'
  · rw [if_pos (.inr slash)]
    obtain ⟨cs, chars⟩ := List.getLast?_eq_some_iff.mp slash
    have shape : text = String.ofList cs ++ "/" := by
      apply String.toList_injective
      simp [chars]
    refine ⟨isAbsolute_append rest empty, segments ⟨String.ofList cs⟩, ?_, ?_⟩
    · rw [shape, segments_append]
    · have before := segments_append (String.ofList cs) ""
      rw [String.append_empty, ← shape] at before
      rw [before]
      simp [moves, segments, splitSlash, isIdle]
  · rw [if_neg (not_or.mpr ⟨empty, slash⟩)]
    refine ⟨?_, segments ⟨text⟩, segments_append .., rfl⟩
    have front : text ++ "/" ≠ "" := by simp
    rw [isAbsolute_append rest front, isAbsolute_append "/" empty]

theorem ends_join (base : Path) {name : String} (plain : Plain name) :
    (base.join ⟨name⟩).Ends base.isAbsolute (moves base.segments) name := by
  have relative : isAbsolute ⟨name⟩ = false := by
    rw [isAbsolute, decide_eq_false_iff_not]
    exact fun slash => plain.slashless (List.mem_of_head? slash)
  obtain ⟨absolute, ss, segments, way⟩ := join_relative base relative
  rw [segments_slashless plain.slashless] at segments
  exact ⟨absolute, ss, segments, way⟩

theorem dropIdleEnd_append {name : String} (plain : Plain name) (ss : List String) :
    dropIdleEnd (ss ++ [name]) = ss ++ [name] := by
  simp [dropIdleEnd, List.dropWhile_cons_of_neg, plain.notIdle]

theorem fileName?_of_segments {p : Path} {ss : List String} {name : String} (plain : Plain name)
    (h : p.segments = ss ++ [name]) : p.fileName? = some name := by
  cases ss with
  | nil =>
    have whole : p.trimmed = (name, []) := by simp [trimmed, h, dropIdleEnd]
    simp [fileName?, whole, plain.notIdle, plain.notUp]
  | cons s rest =>
    have whole : p.trimmed = (s, rest ++ [name]) := by
      simp only [trimmed, h, List.cons_append, dropIdleEnd_append plain]
    have last : (rest ++ [name]).getLast? = some name := List.getLast?_concat
    obtain ⟨t, ts, tail⟩ := List.exists_cons_of_ne_nil (List.append_ne_nil_of_right_ne_nil rest
      (List.cons_ne_nil name []))
    rw [tail] at whole last
    simp [fileName?, whole, last, plain.notUp]

/-- The parent of a path leads where the path leads to, all but the name. -/
theorem parent?_of_cons {p : Path} {s name : String} {rest : List String} (plain : Plain name)
    (h : p.segments = s :: rest ++ [name]) : p.parent? = match dropIdleEnd rest with
      | [] => some ⟨if s = "" then "/" else s⟩
      | kept => some (ofSegments (s :: kept)) := by
  have whole : p.trimmed = (s, rest ++ [name]) := by
    simp only [trimmed, h, List.cons_append, dropIdleEnd_append plain]
  have front : (rest ++ [name]).dropLast = rest := List.dropLast_concat
  obtain ⟨t, ts, tail⟩ := List.exists_cons_of_ne_nil (List.append_ne_nil_of_right_ne_nil rest
    (List.cons_ne_nil name []))
  rw [tail] at whole front
  rw [parent?, whole]
  dsimp only
  subst front
  rfl

theorem parent?_of_segments {p : Path} {ss : List String} {name : String} (plain : Plain name)
    (h : p.segments = ss ++ [name]) : ∃ dir, p.parent? = some dir ∧
      dir.isAbsolute = p.isAbsolute ∧ moves dir.segments = moves ss := by
  cases ss with
  | nil =>
    have whole : p.trimmed = (name, []) := by simp [trimmed, h, dropIdleEnd]
    refine ⟨⟨""⟩, by simp [parent?, whole, plain.nonempty], ?_, rfl⟩
    rw [Bool.eq_iff_iff, isAbsolute_iff, isAbsolute_iff, h]
    simp [segments, splitSlash]
  | cons s rest =>
    have slashless : ∀ t ∈ s :: rest, '/' ∉ t.toList := fun t mem =>
      slashless_of_mem_segments (p := p) (by rw [h]; exact List.mem_append_left _ mem)
    have absolute : p.isAbsolute = true ↔ s = "" := by
      rw [isAbsolute_iff, h]
      cases rest <;> simp
    have parent := parent?_of_cons plain h
    have idle := moves_dropIdleEnd rest
    cases kept : dropIdleEnd rest with
    | nil =>
      rw [kept] at parent idle
      have tail : moves (s :: rest) = moves [s] := by
        have : moves rest = [] := idle.symm
        simp only [moves, List.filter_cons] at this ⊢
        simp [this]
      refine ⟨_, parent, ?_, ?_⟩
      · rw [Bool.eq_iff_iff, absolute]
        by_cases root : s = ""
        · simp [root, isAbsolute]
        · have relative : ¬(s.toList.head? = some '/') := fun slash =>
            slashless s List.mem_cons_self (List.mem_of_head? slash)
          simp [root, isAbsolute, relative]
      · rw [tail]
        by_cases root : s = ""
        · simp [root, segments, splitSlash, moves, isIdle]
        · rw [if_neg root, segments_slashless (slashless s List.mem_cons_self)]
    | cons t ts =>
      rw [kept] at parent idle
      have sub : ∀ u ∈ s :: t :: ts, '/' ∉ u.toList := by
        intro u mem
        rcases List.mem_cons.mp mem with rfl | mem
        · exact slashless u List.mem_cons_self
        · rw [← kept] at mem
          exact slashless u (List.mem_cons_of_mem s (mem_of_mem_dropIdleEnd mem))
      have segs := segments_ofSegments (List.cons_ne_nil s (t :: ts)) sub
      refine ⟨_, parent, ?_, ?_⟩
      · rw [Bool.eq_iff_iff, absolute, isAbsolute_iff, segs]
        simp
      · rw [segs]
        simp only [moves, List.filter_cons] at idle ⊢
        rw [idle]

theorem ends_temporary {p : Path} {absolute : Bool} {way : List String} {name : String}
    (plain : Plain name) (plain' : Plain (name ++ ".tmp")) (h : p.Ends absolute way name) :
    (Log.temporary p).Ends absolute way (name ++ ".tmp") := by
  obtain ⟨ss, segs, rfl⟩ := h.segments_eq
  obtain ⟨dir, parent, same, along⟩ := parent?_of_segments plain segs
  have joined := ends_join dir plain'
  rw [same, along, h.absolute_eq] at joined
  rw [Log.temporary, withFileName, fileName?_of_segments plain segs, parent]
  exact joined

end Path
end BuildCache
