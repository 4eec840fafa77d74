import BuildCache.Program
import BuildCache.StoreFile

/-!
The durable log under a structure in memory. It remembers the mutations that no file holds yet,
appends them to the journal when its owner says so, and folds everything into a new snapshot on a
save, unless the owner prefers to keep the journal. The owner keeps the state itself and hands it
over for a snapshot.

When to journal and when to keep a journal are decisions of the owner and come in as arguments, so
what is said of a log holds for every such policy.
-/
namespace BuildCache

structure LogFiles where
  snapshot : Path
  journal : Path
  deriving DecidableEq, Repr

structure Log (K V : Type) where
  files : LogFiles
  format : StoreFormat
  /-- The latest mutation of each key that is in no file; `none` is a removal. -/
  pending : Table K (Option V) := []
  /-- The open journal. -/
  journal : Option Handle := none
  /-- Something changed since the last save. -/
  dirty : Bool := false
  /-- The files no longer tell the whole story, so that the next save must write a snapshot. -/
  needsSnapshot : Bool := false
  deriving Repr

namespace Log

/-- What a missing file counts as. -/
def orMissing {α : Type} (default : α) : Except OsError α → Except OsError α
  | .error .notFound => .ok default
  | r => r

def atPath {α : Type} (p : Path) : Except OsError α → Except StoreError α
  | .ok a => .ok a
  | .error e => .error (.io p e)

/-- A file's content, empty if there is none. -/
def content (p : Path) : Program (Except StoreError Bytes) := do
  return atPath p (orMissing [] (← Program.request (.read p)))

def fileSize (p : Path) : Program (Except StoreError Nat) := do
  return atPath p (orMissing 0 (← Program.request (.size p)))

def removeIfExists (p : Path) : Program (Except StoreError Unit) := do
  return atPath p (orMissing () (← Program.request (.removeFile p)))

/-- The sibling in which a file is written before it takes its name. -/
def temporary (p : Path) : Path := p.withFileName (p.fileName?.getD "" ++ ".tmp")

/-- Makes the file, writes the pieces one after the other and syncs it. -/
def writeNew (p : Path) (pieces : List Bytes) : Program (Except OsError Unit) := do
  match ← Program.request (.create p) with
  | .error e => return .error e
  | .ok h => writeTo h pieces
where
  writeTo (h : Handle) : List Bytes → Program (Except OsError Unit)
    | [] => Program.request (.sync h)
    | piece :: pieces => do
      match ← Program.request (.append h piece) with
      | .error e => return .error e
      | .ok () => writeTo h pieces

/-- Writes a whole file under a temporary name and then moves it over the old one. -/
def replaceFile (p : Path) (pieces : List Bytes) : Program (Except StoreError Unit) := do
  let tmp := temporary p
  match ← writeNew tmp pieces with
  | .error e =>
    let _ ← Program.request (.removeFile tmp)
    return .error (.io tmp e)
  | .ok () => return atPath p (← Program.request (.rename tmp p))

/-- Opens the journal for appending; a new or empty one gets its header first. -/
def openJournal (p : Path) (format : StoreFormat) : Program (Except StoreError Handle) := do
  match ← Program.request (.openJournal p) with
  | .error e => return .error (.io p e)
  | .ok (h, length) =>
    if length = 0 then
      let written ← Program.request (.append h (StoreFile.journalFront format))
      return (atPath p written).map fun _ => h
    else return .ok h

variable {K V : Type} [Stored K] [Stored V]

/-- An unchanged log over the files, and the mutations that they hold: the snapshot's pairs,
then the journal's records. -/
def «open» (files : LogFiles) (format : StoreFormat) :
    Program (Except StoreError (Log K V × List (Record K V))) := do
  match ← content files.snapshot with
  | .error e => return .error e
  | .ok raw =>
    match StoreFile.readSnapshot (K := K) (V := V) files.snapshot format raw with
    | .error e => return .error e
    | .ok pairs =>
      match ← content files.journal with
      | .error e => return .error e
      | .ok raw =>
        match StoreFile.readJournal (K := K) (V := V) files.journal format raw with
        | .error e => return .error e
        | .ok records =>
          let puts := pairs.map fun (e : K × V) => Record.put e.1 e.2
          return .ok ({ files, format }, puts ++ records)

omit [Stored K] [Stored V] in
/-- The journal, opened if it is not yet. -/
def ensureJournal (log : Log K V) : Program (Except StoreError Handle) :=
  match log.journal with
  | some h => return .ok h
  | none => openJournal log.files.journal log.format

/-- Appends the pending mutations to the journal and answers how many bytes that took. A failed
append closes the journal and has emptied `pending` already. -/
def writeJournal (log : Log K V) : Program (Except StoreError Nat × Log K V) := do
  if log.pending.isEmpty then return (.ok 0, log)
  match ← log.ensureJournal with
  | .error e => return (.error e, log)
  | .ok h =>
    let pending ← Program.walk log.pending
    let batch := StoreFile.journalBatch (pending.map fun e => Record.of e.1 e.2)
    match ← Program.request (.append h batch) with
    | .error e =>
      return (.error (.io log.files.journal e), { log with pending := [], journal := none })
    | .ok () => return (.ok batch.length, { log with pending := [], journal := some h })

def syncJournal (log : Log K V) : Program (Except StoreError Unit) := do
  match log.journal with
  | none => return .ok ()
  | some h => return atPath log.files.journal (← Program.request (.sync h))

/-- Brings the pending mutations to disk now. -/
def flush (log : Log K V) : Program (Except StoreError Unit × Log K V) := do
  match ← log.writeJournal with
  | (.error e, log) => return (.error e, log)
  | (.ok _, log) => return (← log.syncJournal, log)

omit [Stored K] [Stored V] in
/-- What a write of the journal has added. After one that failed only a snapshot will do. -/
def settle : Except StoreError Nat × Log K V → Nat × Log K V
  | (.ok n, log) => (n, log)
  | (.error _, log) => (0, { log with needsSnapshot := true })

omit [Stored K] [Stored V] in
/-- The log with one more mutation in mind. -/
def noted [DecidableEq K] (log : Log K V) (key : K) (value : Option V) : Log K V :=
  { log with pending := log.pending.insert key value, dirty := true }

/-- Notes a mutation, and journals what is pending if `journalNow`. -/
def record [DecidableEq K] (log : Log K V) (key : K) (value : Option V) (journalNow : Bool) :
    Program (Log K V) := do
  let log := log.noted key value
  if journalNow then return (settle (← log.writeJournal)).2 else return log

/-- Puts all of `entries` into a new snapshot and drops the journal. -/
def compact (log : Log K V) (entries : Table K V) (appended : Nat) :
    Program (Except StoreError Nat × Log K V) := do
  let payload := StoreFile.snapshotPayload (← Program.walk entries)
  let front := StoreFile.snapshotFront log.format payload
  match ← replaceFile log.files.snapshot [front, payload] with
  | .error e => return (.error e, log)
  | .ok () =>
    let log := { log with journal := none }
    match ← removeIfExists log.files.journal with
    | .error e => return (.error e, log)
    | .ok () =>
      return (.ok (appended + (front.length + payload.length)), { log with needsSnapshot := false })

/-- Whether the journal may stay as it is, by `keep` of its size and the snapshot's. -/
def mayKeep (log : Log K V) (keep : Nat → Nat → Bool) : Program (Except StoreError Bool) := do
  if log.needsSnapshot then return .ok false
  match ← fileSize log.files.journal with
  | .error e => return .error e
  | .ok journal =>
    match ← fileSize log.files.snapshot with
    | .error e => return .error e
    | .ok snapshot => return .ok (keep journal snapshot)

/-- The save of a log that has changed. -/
def saveChanged (log : Log K V) (entries : Table K V) (keep : Nat → Nat → Bool) :
    Program (Except StoreError Nat × Log K V) := do
  let (appended, log) := settle (← log.writeJournal)
  match ← log.mayKeep keep with
  | .error e => return (.error e, log)
  | .ok true =>
    match ← log.syncJournal with
    | .error e => return (.error e, log)
    | .ok () => return (.ok appended, log)
  | .ok false => log.compact entries appended

/-- Brings everything to disk and answers how many bytes were written. -/
def save (log : Log K V) (entries : Table K V) (keep : Nat → Nat → Bool) :
    Program (Except StoreError Nat × Log K V) := do
  if !log.dirty then return (.ok 0, log)
  match ← { log with dirty := false }.saveChanged entries keep with
  | (.error e, log) => return (.error e, { log with dirty := true })
  | (.ok n, log) => return (.ok n, log)

omit [Stored K] [Stored V] in
/-- Forgets the pending mutations: what follows starts from an empty structure. -/
def clear (log : Log K V) : Log K V :=
  { log with pending := [], dirty := true, needsSnapshot := true }

end Log
end BuildCache
