import BuildCache.Bytes
import BuildCache.Text.Utf8

/-!
Integers of variable width. Values up to 250 are one byte; larger ones are a tag (251, 252, 253)
and two, four or eight bytes, least significant first. Signed values are folded into the naturals
first, so that small negative ones are short too. Any tag that the asked type can hold is
accepted, a shorter form or not.
-/
namespace BuildCache

/-- The types an integer can be asked as. A `size` is a count, held as a 64-bit word. -/
inductive IntType
  | u32 | i32 | u64 | i64 | size
  deriving DecidableEq, Repr

/-- What a tag can announce that the asked type has no room for. -/
inductive IntFound
  | u64 | i64 | u128 | i128 | reserved
  deriving DecidableEq, Repr

/-- Why bytes are not the encoding of a value. -/
inductive Malformed
  /-- The input ends that many bytes early. -/
  | endOfInput (missing : Nat)
  | integerType (expected : IntType) (found : IntFound)
  /-- The record claims more bytes than a record may. -/
  | overLimit
  | text (fault : Text.Utf8Fault)
  | optionTag (found : Nat)
  | variant (found count : Nat)
  deriving DecidableEq, Repr

namespace IntType

def isWide : IntType → Bool
  | u32 | i32 => false
  | u64 | i64 | size => true

def isSigned : IntType → Bool
  | i32 | i64 => true
  | u32 | u64 | size => false

/-- The type that a bad tag is reported against. Where all nine bytes that a 64-bit word may take
are there, a word is looked at as a whole and goes by the name of the narrow type. -/
def reported (available : Nat) : IntType → IntType
  | u64 => if 9 ≤ available then u32 else u64
  | i64 => if 9 ≤ available then i32 else i64
  | type => type

end IntType

namespace Integer

/-- The number in its shortest form. -/
def put (n : Nat) : Bytes :=
  if n ≤ 250 then [UInt8.ofNat n]
  else if n < UInt16.size then 251 :: Bytes.ofNatLE 2 n
  else if n < UInt32.size then 252 :: Bytes.ofNatLE 4 n
  else 253 :: Bytes.ofNatLE 8 n

/-- Takes `count` bytes off the front. -/
def takeBytes (count : Nat) (bs : Bytes) : Except Malformed (Bytes × Bytes) :=
  let front := bs.take count
  if front.length < count then .error (.endOfInput (count - front.length))
  else .ok (front, bs.drop count)

def takeWord (width : Nat) (bs : Bytes) : Except Malformed (Nat × Bytes) :=
  (takeBytes width bs).map fun r => (Bytes.toNatLE r.1, r.2)

/-- Takes one number off the front, as wide as `type` allows. -/
def take (type : IntType) : Bytes → Except Malformed (Nat × Bytes)
  | [] => .error (.endOfInput 1)
  | tag :: bs =>
    if tag ≤ 250 then .ok (tag.toNat, bs)
    else if tag = 251 then takeWord 2 bs
    else if tag = 252 then takeWord 4 bs
    else if tag = 253 then
      if type.isWide then takeWord 8 bs
      else .error (.integerType type (if type.isSigned then .i64 else .u64))
    else
      let expected := type.reported (bs.length + 1)
      if tag = 254 then .error (.integerType expected (if type.isSigned then .i128 else .u128))
      else .error (.integerType expected .reserved)

/-- Folds the integers into the naturals: 0, -1, 1, -2, 2 become 0, 1, 2, 3, 4. -/
def zigzag (i : Int) : Nat :=
  if 0 ≤ i then 2 * i.toNat else 2 * (-i).toNat - 1

def unzigzag (n : Nat) : Int :=
  if n % 2 = 0 then Int.ofNat (n / 2) else -Int.ofNat (n / 2) - 1

theorem unzigzag_zigzag (i : Int) : unzigzag (zigzag i) = i := by
  unfold unzigzag zigzag
  split <;> split <;> simp only [Int.ofNat_eq_natCast] <;> omega

theorem zigzag_unzigzag (n : Nat) : zigzag (unzigzag n) = n := by
  unfold unzigzag zigzag
  split <;> split <;> simp only [Int.ofNat_eq_natCast] at * <;> omega

end Integer
end BuildCache
