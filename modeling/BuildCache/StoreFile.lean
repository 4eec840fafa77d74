import BuildCache.Error
import BuildCache.Record

/-!
Snapshot and journal files. Both begin with the length of a header in four bytes and the header
itself; then a snapshot holds key and value pairs under a checksum, and a journal holds records as
they were appended, without one. A missing or zero-length file is an empty one.
-/
namespace BuildCache

/-- What tells the files of one structure, and one version of their encoding, from all others. -/
structure StoreFormat where
  magic : Bytes
  version : UInt32
  four : magic.length = 4 := by decide
  deriving DecidableEq, Repr

structure Header where
  magic : Bytes
  version : UInt32
  kind : FileKind
  checksum : Option Checksum
  deriving DecidableEq, Repr

instance : Stored FileKind where
  put
    | .snapshot => Integer.put 0
    | .journal => Integer.put 1
  take := do
    match ← Decoder.variant 2 with
    | 0 => return .snapshot
    | _ => return .journal

instance : Stored Header where
  put h := h.magic ++ Stored.put h.version ++ Stored.put h.kind ++
    match h.checksum with
    | none => [0]
    | some c => 1 :: c.bytes
  take := do
    let magic ← Decoder.charged 4
    let version ← Stored.take
    let kind ← Stored.take
    if ← Decoder.optionTag then
      return ⟨magic, version, kind, some (Checksum.ofBytes (← Decoder.charged 16))⟩
    else
      return ⟨magic, version, kind, none⟩

namespace StoreFile

/-- The start of a file: the length of the header, and the header. -/
def front (h : Header) : Bytes :=
  let bs := Stored.put h
  Bytes.ofNatLE 4 bs.length ++ bs

def journalFront (format : StoreFormat) : Bytes :=
  front ⟨format.magic, format.version, .journal, none⟩

def snapshotFront (format : StoreFormat) (payload : Bytes) : Bytes :=
  front ⟨format.magic, format.version, .snapshot, some payload.checksum⟩

variable {K V : Type} [Stored K] [Stored V]

def snapshotPayload (es : Table K V) : Bytes := es.flatMap Stored.put

def journalBatch (rs : List (Record K V)) : Bytes := rs.flatMap Stored.put

/-- A whole snapshot. -/
def snapshot (format : StoreFormat) (es : Table K V) : Bytes :=
  snapshotFront format (snapshotPayload es) ++ snapshotPayload es

/-- A whole journal. -/
def journal (format : StoreFormat) (rs : List (Record K V)) : Bytes :=
  journalFront format ++ journalBatch rs

/-- What follows a header that fits the format and the kind of file. -/
def payload (path : Path) (format : StoreFormat) (kind : FileKind) (raw : Bytes) :
    Except StoreError Bytes := do
  let refuse {α : Type} (fault : FileFault) : Except StoreError α := throw (.corrupted path fault)
  let lengthBytes := raw.take 4
  if lengthBytes.length < 4 then refuse .noHeaderLength
  let length := Bytes.toNatLE lengthBytes
  let headerBytes := (raw.drop 4).take length
  if headerBytes.length < length then refuse .headerCut
  match (Stored.take (α := Header)).run ⟨headerBytes, none⟩ with
  | .error cause => refuse (.header cause)
  | .ok (header, s) =>
    if s.rest ≠ [] then refuse .headerLength
    if header.magic ≠ format.magic then refuse (.magic header.magic)
    if header.version ≠ format.version then
      throw (.incompatible path format.version header.version)
    if header.kind ≠ kind then refuse (.kind kind header.kind)
    let payload := raw.drop (4 + length)
    match kind, header.checksum with
    | .snapshot, some checksum =>
      if Bytes.checksum payload ≠ checksum then refuse .checksum else return payload
    | .snapshot, none => refuse .noChecksum
    | .journal, _ => return payload

def decodeAll {α : Type} [Stored α] (path : Path) (bs : Bytes) : Except StoreError (List α) :=
  match Record.decodeAll bs with
  | .ok items => .ok items
  | .error (index, cause) => .error (.corrupted path (.record index cause))

/-- The pairs of a snapshot, in file order. -/
def readSnapshot (path : Path) (format : StoreFormat) (raw : Bytes) :
    Except StoreError (List (K × V)) :=
  if raw = [] then .ok [] else do decodeAll path (← payload path format .snapshot raw)

/-- The records of a journal, in file order. -/
def readJournal (path : Path) (format : StoreFormat) (raw : Bytes) :
    Except StoreError (List (Record K V)) :=
  if raw = [] then .ok [] else do decodeAll path (← payload path format .journal raw)

end StoreFile
end BuildCache
