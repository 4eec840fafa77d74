import BuildCache.Diagnostic
import BuildCache.DurableMap
import BuildCache.Index
import BuildCache.Memory
import BuildCache.Statistics

/-!
The cache of action results: an index of names and a durable map from the identity of an action
key to the stored form of its entry. Beside the entries the map holds one validation record, the
size of the index at the latest put. A record above the size of the index says that the map speaks
of names that the index has lost, and the cache is given up as a whole.

The index always reaches disk first: the map's journal is written only after the index was
flushed, and a save brings the index to disk before the map.
-/
namespace BuildCache

/-- Where the cache lives, and where one that cannot be read is moved. -/
structure Layout where
  root : Path
  corruptedRoot : Path
  deriving DecidableEq, Repr

namespace Layout

def cacheFile (l : Layout) : Path := l.root.join ⟨"action_cache.bin"⟩
def journalFile (l : Layout) : Path := l.root.join ⟨"action_journal.bin"⟩
def indexFile (l : Layout) : Path := l.root.join ⟨"filename_index.bin"⟩
def indexJournalFile (l : Layout) : Path := l.root.join ⟨"filename_index_journal.bin"⟩

def mapFiles (l : Layout) : LogFiles := ⟨l.cacheFile, l.journalFile⟩
def indexFiles (l : Layout) : LogFiles := ⟨l.indexFile, l.indexJournalFile⟩

end Layout

structure Options where
  /-- The least time between two journal writes that mutations cause, in nanoseconds. -/
  journalInterval : Nat := 3000000000
  /-- A save keeps the journal below this share of the snapshot. -/
  compactionPercent : Nat := 1
  deriving DecidableEq, Repr

structure Cache where
  layout : Layout
  options : Options
  index : Index
  map : DurableMap Slot Bytes
  /-- Says when the map's journal is due. -/
  gate : Gate
  counters : Counters
  /-- How long the load and the latest save took, until somebody asks. -/
  loadMillis : Option Nat
  saveMillis : Option Nat

namespace Cache

def format : StoreFormat := { magic := [65, 67, 77, 80], version := 1 }

def largestWord : Nat := UInt64.size - 1

/-- Whether a journal is small enough, against its snapshot, to be kept; both products stop at
the largest word of 64 bits. -/
def keepJournal (percent journal snapshot : Nat) : Bool :=
  min (journal * 100) largestWord < min (snapshot * percent) largestWord

/-- Whether the map speaks only of names that the index knows. -/
def validate (map : Table Slot Bytes) (indexSize : Nat) : Except IntegrityFault Unit :=
  if indexSize = 0 then .error .emptyIndex
  else match map.get? .validation with
    | none => .error .noValidation
    | some record =>
      match recordedSize record with
      | none => .error .shortValidation
      | some recorded =>
        if indexSize < recorded then .error (.indexTooSmall recorded indexSize) else .ok ()

/-- Loads what is under the root, or says which stage failed and how. -/
def load (layout : Layout) (options : Options) : Program (Except StoreError Cache) := do
  match ← Index.open layout.indexFiles options.journalInterval with
  | .error e => return .error (.loading "failed to load action cache index data" e)
  | .ok index =>
    let gate := Gate.start options.journalInterval (← Program.request .tick)
    match ← DurableMap.open layout.mapFiles format with
    | .error e => return .error (.loading "failed to load action cache data" e)
    | .ok map =>
      let cache : Cache :=
        { layout, options, index, map, gate, counters := .zero,
          loadMillis := none, saveMillis := none }
      if map.entries.isEmpty then return .ok cache
      match validate map.entries index.names.size with
      | .ok () => return .ok cache
      | .error fault =>
        return .error
          (.loading "failed action cache referential integrity check" (.integrity fault))

/-- Removes a directory, if there is one. -/
def removeTreeIfExists (p : Path) : Program (Except StoreError Unit) := do
  return Log.atPath p (Log.orMissing () (← Program.request (.removeTree p)))

def makeDirs (p : Path) : Program (Except StoreError Unit) := do
  return Log.atPath p (← Program.makeDirs p)

/-- The message about a cache that was moved away because of `cause`. -/
def movedAway (cause : StoreError) : Diagnostic :=
  { severity := .warning
    code := ⟨.warning, 301⟩
    message := s!"error during action cache initialization: {cause.message}"
    notes := ["data may be incomplete, potentially causing rebuilds"] }

/-- Puts the cache directory in the place of the last one that was moved away. -/
def moveAway (layout : Layout) : Program (Except StoreError Unit) := do
  match ← removeTreeIfExists layout.corruptedRoot with
  | .error e => return .error e
  | .ok () =>
    let parentMade ← match layout.corruptedRoot.parent? with
      | none => pure (.ok ())
      | some parent => makeDirs parent
    match parentMade with
    | .error e => return .error e
    | .ok () =>
      return Log.atPath layout.root
        (← Program.request (.rename layout.root layout.corruptedRoot))

/-- Clears the way for a second load: a cache of another version is removed, any other that
cannot be loaded is moved away with a message. -/
def recover (layout : Layout) (cause : StoreError) :
    Program (Except StoreError (List Diagnostic)) := do
  if cause.isIncompatible then
    return (← removeTreeIfExists layout.root).map fun _ => []
  else
    return (← moveAway layout).map fun _ => [movedAway cause]

/-- Makes the root and loads; after a first failure, recovers and tries once more. Answers the
messages also where it fails. -/
def loadOrReset (layout : Layout) (options : Options) :
    Program (Except StoreError Cache × List Diagnostic) := do
  match ← makeDirs layout.root with
  | .error e => return (.error e, [])
  | .ok () =>
    match ← load layout options with
    | .ok cache => return (.ok cache, [])
    | .error cause =>
      match ← recover layout cause with
      | .error e => return (.error e, [])
      | .ok messages =>
        match ← makeDirs layout.root with
        | .error e => return (.error e, messages)
        | .ok () =>
          match ← load layout options with
          | .ok cache => return (.ok cache, messages)
          | .error cause => return (.error (.retryLoop cause), messages)

/-- Opens the cache under the root of the layout. -/
def «open» (layout : Layout) (options : Options) :
    Program (Except StoreError Cache × List Diagnostic) := do
  let before ← Program.request .wallTime
  match ← loadOrReset layout options with
  | (.error e, messages) => return (.error e, messages)
  | (.ok cache, messages) =>
    let after ← Program.request .wallTime
    return (.ok { cache with loadMillis := some (elapsedMillis before after) }, messages)

/-- What the cache holds in memory. -/
def memory (c : Cache) : Memory := ⟨c.index.names, c.map.entries⟩

/-- What the cache has under a key, if anything. -/
def get? (c : Cache) (key : String) : Option Cached := c.memory.get? key

/-- Asks whether the map's journal is due, and flushes the index before it says so. -/
def journalDue (c : Cache) : Program (Bool × Cache) := do
  let (due, gate) := c.gate.tryFire (← Program.request .tick)
  if due then
    let (flushed, index) ← c.index.flush
    return (flushed.isOk, { c with gate, index })
  else return (false, { c with gate })

def putRecord (c : Cache) (slot : Slot) (bytes : Bytes) : Program Cache := do
  let (due, c) ← c.journalDue
  return { c with map := ← c.map.put slot bytes due }

def removeRecord (c : Cache) (slot : Slot) : Program Cache := do
  if (c.map.get? slot).isNone then return c
  let (due, c) ← c.journalDue
  return { c with map := ← c.map.remove slot due }

/-- One change of memory, and what it comes to on the disk. -/
def change (c : Cache) : Change → Program Cache
  | .learn names => do return { c with index := ← c.index.adopt names }
  | .put slot bytes => c.putRecord slot bytes
  | .remove slot => c.removeRecord slot

def changeAll (c : Cache) : List Change → Program Cache
  | [] => return c
  | change :: changes => do (← c.change change).changeAll changes

/-- Stores an entry, or drops it if it has no stored form. -/
def put (c : Cache) (key : String) (e : Entry) : Program Cache :=
  c.changeAll (c.memory.putting key e)

/-- Removes the entry of a key. -/
def remove (c : Cache) (key : String) : Program Cache := c.changeAll (c.memory.removing key)

/-- Removes every entry for which `p` holds, and answers how many those were. -/
def removeIf (c : Cache) (p : Cached → Bool) : Program (Nat × Cache) := do
  let doomed ← Program.walk (c.memory.doomed p)
  return (doomed.length, ← c.changeAll (doomed.map .remove))

/-- Brings the index and then the map to disk, and answers how many bytes were written. -/
def save (c : Cache) : Program (Except StoreError Nat × Cache) := do
  let before ← Program.request .wallTime
  match ← c.index.save with
  | (.error e, index) => return (.error e, { c with index })
  | (.ok indexBytes, index) =>
    match ← c.map.save (keepJournal c.options.compactionPercent) with
    | (.error e, map) => return (.error e, { c with index, map })
    | (.ok mapBytes, map) =>
      let after ← Program.request .wallTime
      return (.ok (indexBytes + mapBytes),
        { c with index, map, saveMillis := some (elapsedMillis before after) })

/-- Drops every entry and every name. -/
def clear (c : Cache) : Cache := { c with map := c.map.clear, index := c.index.clear }

/-- The number of records, the validation record included. -/
def size (c : Cache) : Nat := c.map.entries.length

def entryCount (c : Cache) : Nat := c.size - if (c.map.get? .validation).isSome then 1 else 0

/-- The sum of the sizes of files, as far as they exist. -/
def totalSize : List Path → Program (Except StoreError Nat)
  | [] => return .ok 0
  | p :: ps => do
    match ← Log.fileSize p with
    | .error e => return .error e
    | .ok n => return (← totalSize ps).map (n + ·)

def sizeOnDisk (c : Cache) : Program (Except StoreError Nat) :=
  totalSize [c.layout.cacheFile, c.layout.journalFile, c.layout.indexFile,
    c.layout.indexJournalFile]

end Cache
end BuildCache
