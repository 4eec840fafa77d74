/-!
File paths as texts. A path is read as the segments between its slashes; empty segments and `.`
count for nothing behind the first one. Taking a path apart keeps its text: the parent of `a//b/.`
is `a`, and the name beside it is `a/c`.
-/
namespace BuildCache

structure Path where
  text : String
  deriving DecidableEq, Repr, Inhabited

namespace Path

def splitSlash : List Char → List (List Char)
  | [] => [[]]
  | c :: cs =>
    if c = '/' then [] :: splitSlash cs
    else match splitSlash cs with
      | [] => [[c]]
      | s :: ss => (c :: s) :: ss

def joinSlash : List (List Char) → List Char
  | [] => []
  | [s] => s
  | s :: ss => s ++ '/' :: joinSlash ss

theorem splitSlash_ne_nil (cs : List Char) : splitSlash cs ≠ [] := by
  cases cs with
  | nil => simp [splitSlash]
  | cons c cs =>
    simp only [splitSlash]
    split
    · simp
    · split <;> simp

theorem joinSlash_splitSlash (cs : List Char) : joinSlash (splitSlash cs) = cs := by
  induction cs with
  | nil => rfl
  | cons c cs ih =>
    simp only [splitSlash]
    split
    · rename_i h
      subst h
      cases hs : splitSlash cs with
      | nil => exact absurd hs (splitSlash_ne_nil cs)
      | cons s ss => simp [joinSlash, ← hs, ih]
    · cases hs : splitSlash cs with
      | nil => exact absurd hs (splitSlash_ne_nil cs)
      | cons s ss =>
        rw [hs] at ih
        cases ss with
        | nil => simpa [joinSlash] using ih
        | cons t ts => simpa [joinSlash] using ih

/-- The texts between the slashes; the first is empty when the path is absolute or empty. -/
def segments (p : Path) : List String := (splitSlash p.text.toList).map String.ofList

def ofSegments (ss : List String) : Path :=
  ⟨String.ofList (joinSlash (ss.map String.toList))⟩

def isAbsolute (p : Path) : Bool := p.text.toList.head? = some '/'

/-- Such a segment stays where it is. -/
def isIdle (s : String) : Bool := s = "" || s = "."

def dropIdleEnd (ss : List String) : List String := (ss.reverse.dropWhile isIdle).reverse

/-- The first segment, and the others without what counts for nothing at the end. -/
def trimmed (p : Path) : String × List String :=
  match p.segments with
  | [] => ("", [])
  | s :: ss => (s, dropIdleEnd ss)

/-- The path without its last component; a root and the empty path have none. -/
def parent? (p : Path) : Option Path :=
  match p.trimmed with
  | (s, []) => if s = "" then none else some ⟨""⟩
  | (s, ss) =>
    match dropIdleEnd ss.dropLast with
    | [] => some ⟨if s = "" then "/" else s⟩
    | rest => some (ofSegments (s :: rest))

/-- The last component, unless it is one that only moves. -/
def fileName? (p : Path) : Option String :=
  let name := match p.trimmed with
    | (s, []) => if isIdle s then none else some s
    | (_, ss) => ss.getLast?
  name.filter fun n => decide (n ≠ "..")

/-- The second path as seen from the first. -/
def join (base p : Path) : Path :=
  if p.isAbsolute then p
  else if base.text = "" ∨ base.text.toList.getLast? = some '/' then ⟨base.text ++ p.text⟩
  else ⟨base.text ++ "/" ++ p.text⟩

/-- The path beside this one that is called `name`. -/
def withFileName (p : Path) (name : String) : Path :=
  match p.fileName?, p.parent? with
  | some _, some dir => dir.join ⟨name⟩
  | _, _ => p.join ⟨name⟩

end Path
end BuildCache
