import BuildCache.Error
import BuildCache.Integer

/-!
The fields that a stored entry is made of: integers, lengths, byte strings and presence flags. A
length is a signed 32-bit integer that must not be negative; a flag is one byte, 0 or 1. A failed
read of an integer leaves the input alone; a bad flag has taken its byte, and a byte string that
is too long its length.
-/
namespace BuildCache

/-- Reads from the front of a byte string, which it leaves behind also where it fails. -/
abbrev Reader (α : Type) := ExceptT DecodeFault (StateM Bytes) α

namespace Field

def putU32 (n : UInt32) : Bytes := Integer.put n.toNat

def putU64 (n : UInt64) : Bytes := Integer.put n.toNat

def putI32 (i : Int32) : Bytes := Integer.put (Integer.zigzag i.toInt)

def putI64 (i : Int64) : Bytes := Integer.put (Integer.zigzag i.toInt)

/-- The lengths that the format has room for are those below 2 to the 31st. -/
def lengthBound : Nat := 2147483648

def putLength (what : String) (n : Nat) : Except EncodeFault Bytes :=
  if n < lengthBound then .ok (putI32 (Int32.ofNat n)) else .error (.tooLong what n)

def putFlag (b : Bool) : Bytes := [if b then 1 else 0]

def putBytes (what : String) (bs : Bytes) : Except EncodeFault Bytes :=
  (putLength what bs.length).map (· ++ bs)

def takeInteger (type : IntType) : Reader Nat := ExceptT.mk fun bs =>
  match Integer.take type bs with
  | .ok (n, rest) => (.ok n, rest)
  | .error cause => (.error (.malformed cause), bs)

def takeU32 : Reader UInt32 := do return UInt32.ofNat (← takeInteger .u32)

def takeU64 : Reader UInt64 := do return UInt64.ofNat (← takeInteger .u64)

def takeI32 : Reader Int32 := do return Int32.ofInt (Integer.unzigzag (← takeInteger .i32))

def takeI64 : Reader Int64 := do return Int64.ofInt (Integer.unzigzag (← takeInteger .i64))

def takeLength (what : String) : Reader Nat := do
  let n ← takeI32
  if n.toInt < 0 then throw (.negative what n.toInt)
  return n.toInt.toNat

def takeFlag (what : String) : Reader Bool := do
  match ← getThe Bytes with
  | [] => throw .noFlag
  | b :: rest =>
    set rest
    if b = 0 then return false
    else if b = 1 then return true
    else throw (.badFlag what b.toNat)

def takeBytes (what : String) : Reader Bytes := do
  let n ← takeLength what
  let bs ← getThe Bytes
  let front := bs.take n
  if front.length < n then throw (.overrun what n bs.length)
  set (bs.drop n)
  return front

/-- Refuses what is left over. -/
def finish : Reader Unit := do
  let bs ← getThe Bytes
  if bs ≠ [] then throw (.trailing bs.length)

end Field
end BuildCache
