import BuildCache.Field

/-!
Fields of every kind, one after the other. A field that has no place in the format is left out and
adds nothing, so what is written is the fields that were accepted; a reader that asks for the same
kinds in the same order gets them back.
-/
namespace BuildCache

inductive FieldKind
  | i32 | u32 | i64 | u64 | length | bytes | flag
  deriving DecidableEq, Repr

inductive FieldValue
  | i32 (i : Int32)
  | u32 (n : UInt32)
  | i64 (i : Int64)
  | u64 (n : UInt64)
  | length (n : Nat)
  | bytes (bs : Bytes)
  | flag (b : Bool)
  deriving DecidableEq

namespace FieldValue

def kind : FieldValue → FieldKind
  | i32 _ => .i32
  | u32 _ => .u32
  | i64 _ => .i64
  | u64 _ => .u64
  | length _ => .length
  | bytes _ => .bytes
  | flag _ => .flag

/-- The written field; `what` names it where it is refused. -/
def put (what : String) : FieldValue → Except EncodeFault Bytes
  | i32 i => .ok (Field.putI32 i)
  | u32 n => .ok (Field.putU32 n)
  | i64 i => .ok (Field.putI64 i)
  | u64 n => .ok (Field.putU64 n)
  | length n => Field.putLength what n
  | bytes bs => Field.putBytes what bs
  | flag b => .ok (Field.putFlag b)

end FieldValue

def FieldKind.take (what : String) : FieldKind → Reader FieldValue
  | .i32 => .i32 <$> Field.takeI32
  | .u32 => .u32 <$> Field.takeU32
  | .i64 => .i64 <$> Field.takeI64
  | .u64 => .u64 <$> Field.takeU64
  | .length => .length <$> Field.takeLength what
  | .bytes => .bytes <$> Field.takeBytes what
  | .flag => .flag <$> Field.takeFlag what

namespace Field

/-- What a sequence of named fields comes to, and each one's outcome. -/
def putAll : List (String × FieldValue) → Bytes × List (Except EncodeFault Unit)
  | [] => ([], [])
  | (what, value) :: rest =>
    let (bs, outcomes) := putAll rest
    match value.put what with
    | .ok front => (front ++ bs, .ok () :: outcomes)
    | .error fault => (bs, .error fault :: outcomes)

/-- Reads fields one after the other, also after one that failed; each outcome comes with what
was left behind it. -/
def takeAll : List (String × FieldKind) → Bytes → List (Except DecodeFault FieldValue × Bytes)
  | [], _ => []
  | (what, kind) :: rest, bs =>
    let outcome := (kind.take what).run bs
    outcome :: takeAll rest outcome.2

end Field
end BuildCache
