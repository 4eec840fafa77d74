import BuildCache.Entry
import BuildCache.Field
import BuildCache.Names

/-!
The stored form of an entry. Every path is replaced by its identity in the index, and encoding an
entry gives new paths their identities; the action key alone is written out, a byte a character.

The fields, in order: action key, file digest, count of inputs (-1 for none looked for) and the
inputs, properties digest, output files, output trees. A file is its path, digest, size, location,
expiration in milliseconds (-1 for never) and perhaps a resolved path; a tree is its path, its
files, perhaps an archive and perhaps a resolved path.
-/
namespace BuildCache

/-- Encoding gives identities to new names, also where it fails in the end. -/
abbrev Interning (α : Type) := ExceptT EncodeFault (StateM Names) α

namespace Entry

/-- Stands in the place of the count of inputs when none were looked for. -/
def noInputs : Int32 := -1

/-- Stands in the place of the expiration of what never expires. -/
def noExpiration : Int64 := -1

/-- The key as bytes, one for each character. -/
def latin1 : List Char → Except EncodeFault Bytes
  | [] => .ok []
  | c :: cs =>
    if c.toNat < 256 then (latin1 cs).map (UInt8.ofNat c.toNat :: ·) else .error (.notLatin1 c)

def ofLatin1 (bs : Bytes) : String := String.ofList (bs.map fun b => Char.ofNat b.toNat)

def putName (s : String) : Interning Bytes := do
  return Field.putU32 (← ExceptT.mk fun ns => ns.intern s)

/-- The pieces of a list of parts, in order. -/
def putEach {α : Type} (put : α → Interning Bytes) : List α → Interning Bytes
  | [] => return []
  | a :: as => do
    let first ← put a
    return first ++ (← putEach put as)

def putOptional {α : Type} (put : α → Interning Bytes) : Option α → Interning Bytes
  | none => return Field.putFlag false
  | some a => do return Field.putFlag true ++ (← put a)

/-- The first millisecond that has no place in the format: 2 to the 63rd. -/
def expirationBound : Nat := 9223372036854775808

def putExpiration : Option Instant → Except EncodeFault Bytes
  | none => .ok (Field.putI64 noExpiration)
  | some t =>
    if t < 0 then .error .beforeEpoch
    else if expirationBound ≤ t.millis then .error .tooFarAhead
    else .ok (Field.putI64 (Int64.ofNat t.millis))

def putMetadata (m : FileMetadata) : Interning Bytes := do
  let digest ← Field.putBytes "file digest" m.digest
  let expiration ← putExpiration m.expiration
  let resolved ← putOptional putName m.resolved
  return digest ++ Field.putU64 m.size ++ Field.putU32 m.location ++ expiration ++ resolved

def putFile (f : String × FileMetadata) : Interning Bytes := do
  let path ← putName f.1
  return path ++ (← putMetadata f.2)

def putTree (t : String × TreeMetadata) : Interning Bytes := do
  let path ← putName t.1
  let count ← Field.putLength "tree child count" t.2.children.length
  let children ← putEach putFile t.2.children.toList
  let archived ← putOptional putMetadata t.2.archived
  let resolved ← putOptional putName t.2.resolved
  return path ++ count ++ children ++ archived ++ resolved

def putInputs : Option (List String) → Interning Bytes
  | none => return Field.putI32 noInputs
  | some inputs => do
    let count ← Field.putLength "discovered input count" inputs.length
    return count ++ (← putEach putName inputs)

def put (e : Entry) : Interning Bytes := do
  let key ← Field.putBytes "action key" (← latin1 e.key.toList)
  let fileDigest ← Field.putBytes "file digest" e.fileDigest
  let inputs ← putInputs e.inputs
  let propertiesDigest ← Field.putBytes "properties digest" e.propertiesDigest
  let fileCount ← Field.putLength "output file count" e.files.length
  let files ← putEach putFile e.files.toList
  let treeCount ← Field.putLength "output tree count" e.trees.length
  let trees ← putEach putTree e.trees.toList
  return key ++ fileDigest ++ inputs ++ propertiesDigest ++ fileCount ++ files ++ treeCount ++ trees

/-- The stored form of an entry, and the names known after it. -/
def encode (e : Entry) (ns : Names) : Except EncodeFault Bytes × Names := (put e).run ns

def takeName (ns : Names) : Reader String := do
  let id ← Field.takeU32
  match ns.name? id with
  | some s => return s
  | none => throw (.danglingId id)

def takeOptional {α : Type} (what : String) (take : Reader α) : Reader (Option α) := do
  if ← Field.takeFlag what then return some (← take) else return none

def takeExpiration : Reader (Option Instant) := do
  let millis ← Field.takeI64
  if millis = noExpiration then return none
  else if millis.toInt < 0 then throw (.negative "expiration" millis.toInt)
  else return some (.ofMillis millis.toInt.toNat)

def takeMetadata (ns : Names) : Reader FileMetadata := do
  let digest ← Field.takeBytes "file digest"
  let size ← Field.takeU64
  let location ← Field.takeU32
  let expiration ← takeExpiration
  let resolved ← takeOptional "resolved path" (takeName ns)
  return { digest, size, location, expiration, resolved }

def takeMany {α : Type} (take : Reader α) : Nat → Reader (List α)
  | 0 => return []
  | n + 1 => do
    let a ← take
    return a :: (← takeMany take n)

/-- Adds `n` named values to a listing, each name once. -/
def takeListing {V : Type} (what : String) (ns : Names) (take : Reader V) :
    Nat → Listing V → Reader (Listing V)
  | 0, l => return l
  | n + 1, l => do
    let name ← takeName ns
    let value ← take
    if l.contains name then throw (.duplicate what name)
    takeListing what ns take n (l.insert name value)

def takeTree (ns : Names) : Reader TreeMetadata := do
  let count ← Field.takeLength "tree child count"
  let children ← takeListing "tree child" ns (takeMetadata ns) count .empty
  let archived ← takeOptional "archived tree" (takeMetadata ns)
  let resolved ← takeOptional "tree resolved path" (takeName ns)
  return { children, archived, resolved }

def takeInputs (ns : Names) : Reader (Option (List String)) := do
  let count ← Field.takeI32
  if count = noInputs then return none
  else if count.toInt < 0 then throw (.negative "discovered input count" count.toInt)
  else return some (← takeMany (takeName ns) count.toInt.toNat)

def take (ns : Names) : Reader Entry := do
  let key := ofLatin1 (← Field.takeBytes "action key")
  let fileDigest ← Field.takeBytes "file digest"
  let inputs ← takeInputs ns
  let propertiesDigest ← Field.takeBytes "properties digest"
  let fileCount ← Field.takeLength "output file count"
  let files ← takeListing "output file" ns (takeMetadata ns) fileCount .empty
  let treeCount ← Field.takeLength "output tree count"
  let trees ← takeListing "output tree" ns (takeTree ns) treeCount .empty
  Field.finish
  return { key, fileDigest, inputs, propertiesDigest, files, trees }

/-- The entry that `bs` is the stored form of. -/
def decode? (ns : Names) (bs : Bytes) : Except DecodeFault Entry := ((take ns).run bs).1

end Entry

/-- An entry, if the bytes are one. -/
def Cached.decode (ns : Names) (bs : Bytes) : Cached :=
  match Entry.decode? ns bs with
  | .ok e => .entry e
  | .error _ => .corrupted

end BuildCache
