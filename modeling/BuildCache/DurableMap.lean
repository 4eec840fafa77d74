import BuildCache.Log

/-!
A table whose mutations reach disk through a log. Reads and writes touch the table in memory; the
log follows it.
-/
namespace BuildCache

structure DurableMap (K V : Type) where
  entries : Table K V
  log : Log K V
  deriving Repr

namespace DurableMap
variable {K V : Type} [DecidableEq K] [Stored K] [Stored V]

omit [Stored K] [Stored V] in
/-- The table after one more mutation. -/
def apply (t : Table K V) : Record K V → Table K V
  | .put k v => t.insert k v
  | .remove k => t.erase k

omit [Stored K] [Stored V] in
/-- The table that a list of mutations leaves, oldest first. -/
def replay (rs : List (Record K V)) : Table K V := rs.foldl apply []

/-- The table that the files hold. -/
def «open» (files : LogFiles) (format : StoreFormat) :
    Program (Except StoreError (DurableMap K V)) := do
  match ← Log.open files format with
  | .error e => return .error e
  | .ok (log, records) => return .ok ⟨replay records, log⟩

omit [Stored K] [Stored V] in
def get? (m : DurableMap K V) (k : K) : Option V := m.entries.get? k

def put (m : DurableMap K V) (k : K) (v : V) (journalNow : Bool) : Program (DurableMap K V) := do
  return ⟨m.entries.insert k v, ← m.log.record k (some v) journalNow⟩

/-- Removes a key that is there. A key that is not there leaves no trace in the log. -/
def remove (m : DurableMap K V) (k : K) (journalNow : Bool) : Program (DurableMap K V) := do
  if (m.get? k).isNone then return m
  return ⟨m.entries.erase k, ← m.log.record k none journalNow⟩

def save (m : DurableMap K V) (keep : Nat → Nat → Bool) :
    Program (Except StoreError Nat × DurableMap K V) := do
  let (result, log) ← m.log.save m.entries keep
  return (result, { m with log })

omit [DecidableEq K] [Stored K] [Stored V] in
def clear (m : DurableMap K V) : DurableMap K V := ⟨[], m.log.clear⟩

end DurableMap
end BuildCache
