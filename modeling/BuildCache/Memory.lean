import BuildCache.Entry.Codec

/-!
What a cache holds in memory: the names of its index and the records of its map. Each operation of
the cache is a list of changes of memory, which depends on nothing else; what a change costs on the
disk, and whether it gets there, is another matter.
-/
namespace BuildCache

/-- What the map has records under. -/
inductive Slot
  | validation
  | entry (id : PathId)
  deriving DecidableEq, Repr

instance : Stored Slot where
  put
    | .validation => Integer.put 0
    | .entry id => Integer.put 1 ++ Stored.put id
  take := do
    match ← Decoder.variant 2 with
    | 0 => return .validation
    | _ => return .entry (← Stored.take)

/-- The size that a validation record states, in its first four bytes. -/
def recordedSize (record : Bytes) : Option Nat :=
  let front := record.take 4
  if front.length < 4 then none else some (Bytes.toNatBE front)

/-- The record of an index of this size. -/
def validationRecord (size : Nat) : Bytes := Bytes.ofNatBE 4 (min size (UInt32.size - 1))

structure Memory where
  names : Names
  records : Table Slot Bytes
  deriving DecidableEq, Repr

inductive Change
  /-- The index takes over names that extend the known ones. -/
  | learn (names : Names)
  | put (slot : Slot) (bytes : Bytes)
  | remove (slot : Slot)
  deriving DecidableEq, Repr

namespace Memory

/-- What is under a key, if anything. -/
def get? (m : Memory) (key : String) : Option Cached := do
  let id ← m.names.id? key
  let bytes ← m.records.get? (.entry id)
  return .decode m.names bytes

/-- Storing an entry gives names their identities, notes the size of the index and then puts the
entry. One that has no stored form is dropped; the names met before that stay. -/
def putting (m : Memory) (key : String) (e : Entry) : List Change :=
  match m.names.intern key with
  | (.error _, names) => [.learn names]
  | (.ok id, names) =>
    match e.encode names with
    | (.error _, names) => [.learn names]
    | (.ok bytes, names) =>
      [.learn names, .put .validation (validationRecord names.size), .put (.entry id) bytes]

/-- Removing an entry leaves its key its identity. -/
def removing (m : Memory) (key : String) : List Change :=
  match m.names.id? key with
  | none => []
  | some id => [.remove (.entry id)]

/-- Whether a record is an entry that `p` holds of. -/
def matching (m : Memory) (p : Cached → Bool) : Slot × Bytes → Bool
  | (.validation, _) => false
  | (.entry _, bytes) => p (.decode m.names bytes)

/-- The slots of the entries that `p` holds of. -/
def doomed (m : Memory) (p : Cached → Bool) : List Slot :=
  (m.records.filter (m.matching p)).map Prod.fst

end Memory
end BuildCache
