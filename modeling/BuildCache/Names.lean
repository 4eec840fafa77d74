import BuildCache.Error
import BuildCache.Record

/-!
The names that an index knows. A name's identity is the number of names that came before it, so
identities are dense, and a name never gets a second one.
-/
namespace BuildCache

structure Names where
  toList : List String
  deriving DecidableEq, Repr, Inhabited

namespace Names

def empty : Names := ⟨[]⟩

def size (ns : Names) : Nat := ns.toList.length

/-- As many names as there are identities. -/
def capacity : Nat := UInt32.size

def name? (ns : Names) (id : PathId) : Option String := ns.toList[id.toNat]?

def id? (ns : Names) (s : String) : Option PathId :=
  (ns.toList.idxOf? s).map UInt32.ofNat

/-- The identity of `s`, which is the next one if `s` is new. -/
def intern (ns : Names) (s : String) : Except EncodeFault PathId × Names :=
  match ns.id? s with
  | some id => (.ok id, ns)
  | none =>
    if ns.size < capacity then (.ok (UInt32.ofNat ns.size), ⟨ns.toList ++ [s]⟩)
    else (.error (.idsExhausted s), ns)

/-- Every name with its identity, in order. -/
def mappings (ns : Names) : List (PathId × String) :=
  ns.toList.mapIdx fun i s => (UInt32.ofNat i, s)

/-- The mappings from the identity `start` on. -/
def mappingsFrom (ns : Names) (start : Nat) : List (PathId × String) :=
  (ns.toList.drop start).mapIdx fun i s => (UInt32.ofNat (start + i), s)

def text (ns : Names) : String :=
  s!"String indexer ({ns.size} entries):\n" ++
    String.join (ns.mappings.map fun e => s!"  {e.1.toNat} <==> {e.2}\n")

/-- One more record of an index: a repetition changes nothing, a second name is a fault. -/
def learn (known : Table PathId String) :
    Record PathId String → Except FileFault (Table PathId String)
  | .remove id => .error (.removedId id)
  | .put id s =>
    match known.get? id with
    | none => .ok (known.insert id s)
    | some s' => if s' = s then .ok known else .error (.twoNames id s' s)

/-- Adds pairs in the order of their identities, which must be the next ones, with new names. -/
def extend (ns : Names) : List (PathId × String) → Except FileFault Names
  | [] => .ok ns
  | (id, s) :: rest =>
    if id.toNat ≠ ns.size then .error (.gapBefore id)
    else match ns.id? s with
      | some first => .error (.twoIds s first id)
      | none => extend ⟨ns.toList ++ [s]⟩ rest

/-- Puts a pair before the first one whose identity is not smaller. -/
def insertById (e : PathId × String) : List (PathId × String) → List (PathId × String)
  | [] => [e]
  | a :: as => if e.1 ≤ a.1 then e :: a :: as else a :: insertById e as

/-- The pairs in the order of their identities. -/
def sortById : List (PathId × String) → List (PathId × String)
  | [] => []
  | e :: es => insertById e (sortById es)

/-- The names that a sequence of index records defines. -/
def ofRecords (rs : List (Record PathId String)) : Except FileFault Names := do
  let known ← rs.foldlM learn []
  empty.extend (sortById known)

end Names
end BuildCache
