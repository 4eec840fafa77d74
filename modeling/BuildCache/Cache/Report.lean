import BuildCache.Cache
import BuildCache.Entry.Printer

/-!
What the cache shows of itself: the full dump with every name and entry, and the list of keys, of
which only the first few are shown where there are very many.
-/
namespace BuildCache
namespace Slot

/-- The validation record first, then the entries by identity. -/
def rank : Slot → Nat
  | validation => 0
  | entry id => id.toNat + 1

end Slot

namespace Cache

/-- More keys than this are not all listed. -/
def listLimit : Nat := 1000

/-- So many are listed instead. -/
def listSample : Nat := 10

/-- The name of an identity, or a stand-in for one that the index does not know. -/
def nameOf (c : Cache) (id : PathId) : String :=
  (c.index.names.name? id).getD s!"<unknown id {id.toNat}>"

def recordText (c : Cache) : Slot × Bytes → String
  | (.validation, bytes) =>
    match recordedSize bytes with
    | some n => s!"{bytes.length}, validation record = {n}\n"
    | none => s!"{bytes.length}, validation record (incomplete)\n"
  | (.entry id, bytes) =>
    s!"{bytes.length}, {c.nameOf id}:\n" ++ (Cached.decode c.index.names bytes).text

def dump (c : Cache) : String :=
  let records := c.map.entries.mergeSort fun a b => a.1.rank ≤ b.1.rank
  "String indexer content:\n\n" ++ c.index.names.text ++
    s!"\nAction cache ({records.length} records):\n\n" ++ String.join (records.map c.recordText)

def entryIds (c : Cache) : List PathId :=
  (c.map.entries.keys.filterMap fun
    | .validation => none
    | .entry id => some id).mergeSort fun a b => a ≤ b

def listing (c : Cache) : String :=
  let ids := c.entryIds
  let shown := if listLimit < ids.length then ids.take listSample else ids
  s!"Action cache ({ids.length} entries):\n" ++
    String.join (shown.map fun id => s!"  {c.nameOf id}\n") ++
    if shown.length < ids.length then "  ...\n" else ""

/-- Hands out the load and save times, once. -/
def takeTimes (c : Cache) : (Option Nat × Option Nat) × Cache :=
  ((c.loadMillis, c.saveMillis), { c with loadMillis := none, saveMillis := none })

end Cache
end BuildCache
