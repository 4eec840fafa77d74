import BuildCache.Log
import BuildCache.Names

/-!
The index of names with its files: every new name is noted in a log, so that an identity that was
once written beside an entry means the same name later on. Its journal is written at most once an
interval, and a save always folds it into a snapshot.
-/
namespace BuildCache

structure Index where
  names : Names
  log : Log PathId String
  gate : Gate
  deriving Repr

namespace Index

def format : StoreFormat := { magic := [65, 67, 73, 88], version := 1 }

/-- The index that the files hold, with a gate of the given interval from now on. -/
def «open» (files : LogFiles) (interval : Nat) : Program (Except StoreError Index) := do
  let gate := Gate.start interval (← Program.request .tick)
  match ← Log.open files format with
  | .error e => return .error e
  | .ok (log, records) =>
    match Names.ofRecords records with
    | .error fault => return .error (.corrupted files.snapshot fault)
    | .ok names => return .ok { names, log, gate }

/-- Notes new names one after the other; each may find the gate due. -/
def noteAll (index : Index) : List (PathId × String) → Program Index
  | [] => return index
  | (id, name) :: rest => do
    let (due, gate) := index.gate.tryFire (← Program.request .tick)
    let log ← index.log.record id (some name) due
    noteAll { index with log, gate } rest

/-- Takes over names that extend the known ones. -/
def adopt (index : Index) (names : Names) : Program Index :=
  { index with names }.noteAll (names.mappingsFrom index.names.size)

/-- The identity of a name, new or not. -/
def intern (index : Index) (s : String) : Program (Except EncodeFault PathId × Index) := do
  let (id, names) := index.names.intern s
  return (id, ← index.adopt names)

/-- Brings new names to disk without waiting for the gate. -/
def flush (index : Index) : Program (Except StoreError Unit × Index) := do
  let (result, log) ← index.log.flush
  return (result, { index with log })

/-- An index never keeps its journal on a save. -/
def keepJournal (_journal _snapshot : Nat) : Bool := false

def save (index : Index) : Program (Except StoreError Nat × Index) := do
  let (result, log) ← index.log.save index.names.mappings keepJournal
  return (result, { index with log })

def clear (index : Index) : Index :=
  { index with names := .empty, log := index.log.clear }

end Index
end BuildCache
