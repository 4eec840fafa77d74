import BuildCache.Checksum
import BuildCache.Integer

/-!
The encoding of stored values, one after the other without separators. A reader may be given a
budget: an identity or a variant claims four bytes of it, a length eight, a text as many as its
length says before it is looked at, and a byte string one for each byte read, however short the
encoding is. So a damaged length is refused before anything of that size is made.
-/
namespace BuildCache

/-- What is left to read, and what a reader may still claim, if that is limited. -/
structure Input where
  rest : Bytes
  budget : Option Nat
  deriving DecidableEq, Repr

abbrev Decoder (α : Type) := StateT Input (Except Malformed) α

namespace Decoder

def charge (n : Nat) : Decoder Unit := fun s =>
  match s.budget with
  | none => .ok ((), s)
  | some b => if b < n then .error .overLimit else .ok ((), { s with budget := some (b - n) })

def integer (type : IntType) : Decoder Nat := fun s =>
  (Integer.take type s.rest).map fun r => (r.1, { s with rest := r.2 })

/-- Takes `n` bytes in one piece. -/
def chunk (n : Nat) : Decoder Bytes := fun s =>
  (Integer.takeBytes n s.rest).map fun r => (r.1, { s with rest := r.2 })

/-- Takes `n` bytes one at a time, each of them charged before it is read. -/
def charged (n : Nat) : Decoder Bytes := fun s =>
  let front := s.rest.take n
  let short := decide (front.length < n)
  match s.budget with
  | none => if short then .error (.endOfInput 1) else .ok (front, { s with rest := s.rest.drop n })
  | some b =>
    if b < n ∧ b ≤ front.length then .error .overLimit
    else if short then .error (.endOfInput 1)
    else .ok (front, { rest := s.rest.drop n, budget := some (b - n) })

/-- A length, which a text has as a plain 64-bit word and a byte string as a size. -/
def length (type : IntType) : Decoder Nat := do
  charge 8
  integer type

def word : Decoder UInt32 := do
  charge 4
  return UInt32.ofNat (← integer .u32)

/-- The number of one of `count` variants. -/
def variant (count : Nat) : Decoder Nat := do
  charge 4
  let n ← integer .u32
  if n < count then return n else throw (.variant n count)

/-- One byte that says whether a value follows. -/
def optionTag : Decoder Bool := do
  match ← charged 1 with
  | [0] => return false
  | [1] => return true
  | bs => throw (.optionTag (Bytes.toNatLE bs))

def text : Decoder String := do
  let n ← length .u64
  charge n
  match Text.ofUtf8 (← chunk n) with
  | .ok s => return s
  | .error fault => throw (.text fault)

def blob : Decoder Bytes := do
  charged (← length .size)

end Decoder

/-- Values with a stored form. -/
class Stored (α : Type) where
  put : α → Bytes
  take : Decoder α

instance : Stored UInt32 where
  put n := Integer.put n.toNat
  take := Decoder.word

instance : Stored String where
  put s := let bs := Text.utf8 s; Integer.put bs.length ++ bs
  take := Decoder.text

instance : Stored Bytes where
  put bs := Integer.put bs.length ++ bs
  take := Decoder.blob

instance {α β : Type} [Stored α] [Stored β] : Stored (α × β) where
  put e := Stored.put e.1 ++ Stored.put e.2
  take := do return (← Stored.take, ← Stored.take)

/-- One mutation of a table: a value put under a key, or a key removed. -/
inductive Record (K V : Type)
  | put (key : K) (value : V)
  | remove (key : K)
  deriving DecidableEq, Repr

namespace Record
variable {K V : Type}

def key : Record K V → K
  | put k _ => k
  | remove k => k

def value? : Record K V → Option V
  | put _ v => some v
  | remove _ => none

/-- The record that puts `value?` under `key`, or removes it. -/
def of (key : K) : Option V → Record K V
  | some v => put key v
  | none => remove key

end Record

instance {K V : Type} [Stored K] [Stored V] : Stored (Record K V) where
  put
    | .put k v => Integer.put 0 ++ Stored.put k ++ Stored.put v
    | .remove k => Integer.put 1 ++ Stored.put k
  take := do
    match ← Decoder.variant 2 with
    | 0 => return .put (← Stored.take) (← Stored.take)
    | _ => return .remove (← Stored.take)

/-- The most bytes that a single record may claim: 64 times 2 to the 20th. -/
def recordLimit : Nat := 67108864

namespace Record

/-- Decodes values until nothing is left; the failure names how many came before. Each takes at
least one byte, so that `fuel` as large as the input is enough. -/
def decodeFrom {α : Type} [Stored α] (index : Nat) :
    (fuel : Nat) → Bytes → Except (Nat × Malformed) (List α)
  | _, [] => .ok []
  | 0, _ => .ok []
  | fuel + 1, bs =>
    match (Stored.take (α := α)).run ⟨bs, some recordLimit⟩ with
    | .error e => .error (index, e)
    | .ok (a, s) => (decodeFrom (index + 1) fuel s.rest).map (a :: ·)

def decodeAll {α : Type} [Stored α] (bs : Bytes) : Except (Nat × Malformed) (List α) :=
  decodeFrom 0 bs.length bs

end Record
end BuildCache
