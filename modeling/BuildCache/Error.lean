import BuildCache.Disk
import BuildCache.Integer
import BuildCache.Text.Quoted

/-!
What can go wrong in the store, cause by cause, and the one place where each cause is worded. Few
of these leave the cache: an entry that cannot be read counts as corrupted, one that cannot be
written is dropped, and a failed load starts the recovery.
-/
namespace BuildCache

/-- The number that stands for an interned text. -/
abbrev PathId := UInt32

/-- The two kinds of file that a persistent structure has. -/
inductive FileKind
  | snapshot
  | journal
  deriving DecidableEq, Repr

/-- Why a stored file is not what the store would have written. -/
inductive FileFault
  | noHeaderLength
  | headerCut
  | header (cause : Malformed)
  | headerLength
  | magic (found : Bytes)
  | kind (expected found : FileKind)
  | checksum
  | noChecksum
  | record (index : Nat) (cause : Malformed)
  | twoNames (id : PathId) (first second : String)
  | removedId (id : PathId)
  | gapBefore (id : PathId)
  | twoIds (name : String) (first second : PathId)
  | described (text : String)
  deriving DecidableEq, Repr

/-- How the entries and the index disagree. -/
inductive IntegrityFault
  | emptyIndex
  | noValidation
  | shortValidation
  | indexTooSmall (recorded size : Nat)
  | described (text : String)
  deriving DecidableEq, Repr

/-- Why an entry has no stored form. -/
inductive EncodeFault
  | tooLong (what : String) (length : Nat)
  | notLatin1 (c : Char)
  | beforeEpoch
  | tooFarAhead
  | idsExhausted (name : String)
  | described (text : String)
  deriving DecidableEq, Repr

/-- Why bytes are not the stored form of an entry. -/
inductive DecodeFault
  | malformed (cause : Malformed)
  | negative (what : String) (value : Int)
  | noFlag
  | badFlag (what : String) (found : Nat)
  | overrun (what : String) (length remaining : Nat)
  | trailing (count : Nat)
  | danglingId (id : PathId)
  | duplicate (what name : String)
  | described (text : String)
  deriving DecidableEq, Repr

inductive StoreError
  | io (path : Path) (cause : OsError)
  | incompatible (path : Path) (expected actual : UInt32)
  | corrupted (path : Path) (fault : FileFault)
  | integrity (fault : IntegrityFault)
  | encode (fault : EncodeFault)
  | decode (fault : DecodeFault)
  /-- One stage of loading failed. -/
  | loading (stage : String) (cause : StoreError)
  /-- Loading failed again after the cache had been reset. -/
  | retryLoop (cause : StoreError)
  deriving DecidableEq, Repr

namespace IntType

def name : IntType → String
  | u32 => "U32"
  | i32 => "I32"
  | u64 => "U64"
  | i64 => "I64"
  | size => "Usize"

end IntType

namespace IntFound

def name : IntFound → String
  | u64 => "U64"
  | i64 => "I64"
  | u128 => "U128"
  | i128 => "I128"
  | reserved => "Reserved"

end IntFound

namespace Malformed

def message : Malformed → String
  | endOfInput missing => s!"UnexpectedEnd \x7b additional: {missing} \x7d"
  | integerType expected found =>
    s!"InvalidIntegerType \x7b expected: {expected.name}, found: {found.name} \x7d"
  | overLimit => "LimitExceeded"
  | text fault =>
    let badLength := match fault.badLength with
      | some n => s!"Some({n})"
      | none => "None"
    s!"Utf8 \x7b inner: Utf8Error \x7b valid_up_to: {fault.validUpTo}, " ++
      s!"error_len: {badLength} \x7d \x7d"
  | optionTag found =>
    "UnexpectedVariant \x7b type_name: \"Option<T>\", allowed: Range \x7b min: 0, max: 1 \x7d, " ++
      s!"found: {found} \x7d"
  | variant found count =>
    "OtherString(\"invalid value: integer \x60" ++ s!"{found}" ++
      "\x60, expected variant index 0 <= i < " ++ s!"{count}" ++ "\")"

end Malformed

namespace FileKind

def name : FileKind → String
  | snapshot => "Snapshot"
  | journal => "Journal"

end FileKind

namespace FileFault

def message : FileFault → String
  | noHeaderLength => "file is shorter than its header length"
  | headerCut => "file header is truncated"
  | header cause => s!"unreadable file header: {cause.message}"
  | headerLength => "file header length mismatch"
  | magic found =>
    "bad magic bytes [" ++ ", ".intercalate (found.map fun b => toString b.toNat) ++ "]"
  | kind expected found => s!"expected a {expected.name} file, found {found.name}"
  | checksum => "checksum mismatch"
  | noChecksum => "snapshot has no checksum"
  | record index cause => s!"undecodable record {index}: {cause.message}"
  | twoNames id first second =>
    s!"id {id.toNat} maps to both {Text.quote first} and {Text.quote second}"
  | removedId id => s!"index removal of id {id.toNat}"
  | gapBefore id => s!"index has a gap before id {id.toNat}"
  | twoIds name first second =>
    s!"{Text.quote name} appears as both id {first.toNat} and id {second.toNat}"
  | described text => text

end FileFault

namespace IntegrityFault

def message : IntegrityFault → String
  | emptyIndex => "empty index"
  | noValidation => "missing validation record"
  | shortValidation => "validation record is incomplete"
  | indexTooSmall recorded size =>
    s!"validation record {recorded} is too large compared to index size {size}"
  | described text => text

end IntegrityFault

namespace EncodeFault

def message : EncodeFault → String
  | tooLong what length => s!"{what} {length} does not fit in the format"
  | notLatin1 c => s!"action key contains non-latin-1 character {Text.quoteChar c}"
  | beforeEpoch => "expiration is before the Unix epoch"
  | tooFarAhead => "expiration is too far in the future"
  | idsExhausted name => s!"cannot intern {Text.quote name}: key space exhausted"
  | described text => text

end EncodeFault

namespace DecodeFault

def message : DecodeFault → String
  | malformed cause => cause.message
  | negative what value => s!"negative {what}: {value}"
  | noFlag => "encoded entry data is incomplete"
  | badFlag what found => s!"invalid presence marker for {what}: {found}"
  | overrun what length remaining =>
    s!"{what} of {length} bytes overruns the {remaining} remaining"
  | trailing count => s!"serialized entry data has not been fully decoded ({count} bytes left)"
  | danglingId id => s!"dangling path id {id.toNat}"
  | duplicate what name => s!"duplicate {what} {name}"
  | described text => text

end DecodeFault

namespace StoreError

def message : StoreError → String
  | io path cause => s!"cache I/O error at {path.text}: {cause.message}"
  | incompatible path expected actual =>
    s!"incompatible format in {path.text}: expected version {expected.toNat}, got {actual.toNat}"
  | corrupted path fault => s!"corrupted cache file {path.text}: {fault.message}"
  | integrity fault => fault.message
  | encode fault => s!"failed to encode cache entry: {fault.message}"
  | decode fault => s!"failed to decode cache entry: {fault.message}"
  | loading stage cause => s!"{stage}: {cause.message}"
  | retryLoop cause =>
    s!"action cache initialization is stuck in a retry loop: {cause.message}"

/-- Whether the cause, whatever stage met it, is a file of another version. -/
def isIncompatible : StoreError → Bool
  | incompatible .. => true
  | loading _ cause => cause.isIncompatible
  | _ => false

end StoreError
end BuildCache
