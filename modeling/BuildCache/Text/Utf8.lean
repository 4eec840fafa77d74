import BuildCache.Bytes

/-!
UTF-8 as a code on byte strings. Decoding takes one character at a time; where it fails it says
how many bytes were well formed before, and how many bytes belong to the malformed part, or that
the text ends inside a character.
-/
namespace BuildCache.Text

/-- Where and how a byte string stops being UTF-8; `badLength` is absent at an early end. -/
structure Utf8Fault where
  validUpTo : Nat
  badLength : Option Nat
  deriving DecidableEq, Repr

def utf8 (s : String) : Bytes := s.toList.flatMap String.utf8EncodeChar

/-- The second byte that may follow the first byte of a longer character, as a closed range. -/
def secondRange (first : Nat) : Option (Nat × Nat) :=
  if 0xC2 ≤ first ∧ first ≤ 0xDF then some (0x80, 0xBF)
  else if first = 0xE0 then some (0xA0, 0xBF)
  else if first = 0xED then some (0x80, 0x9F)
  else if 0xE1 ≤ first ∧ first ≤ 0xEF then some (0x80, 0xBF)
  else if first = 0xF0 then some (0x90, 0xBF)
  else if 0xF1 ≤ first ∧ first ≤ 0xF3 then some (0x80, 0xBF)
  else if first = 0xF4 then some (0x80, 0x8F)
  else none

def isTail (b : UInt8) : Bool := 0x80 ≤ b && b ≤ 0xBF

/-- The low six bits of a following byte. -/
def tailBits (b : UInt8) : Nat := b.toNat % 64

/-- The characters of `bs`, which starts `pos` bytes into the text. -/
def decodeFrom (pos : Nat) : Bytes → Except Utf8Fault (List Char)
  | [] => .ok []
  | a :: bs =>
    if a.toNat < 0x80 then
      (decodeFrom (pos + 1) bs).map (Char.ofNat a.toNat :: ·)
    else match secondRange a.toNat with
    | none => .error ⟨pos, some 1⟩
    | some (lo, hi) => match bs with
      | [] => .error ⟨pos, none⟩
      | b :: bs =>
        if b.toNat < lo ∨ hi < b.toNat then .error ⟨pos, some 1⟩
        else if a.toNat < 0xE0 then
          (decodeFrom (pos + 2) bs).map
            (Char.ofNat (a.toNat % 32 * 64 + tailBits b) :: ·)
        else match bs with
        | [] => .error ⟨pos, none⟩
        | c :: bs =>
          if !isTail c then .error ⟨pos, some 2⟩
          else if a.toNat < 0xF0 then
            (decodeFrom (pos + 3) bs).map
              (Char.ofNat (a.toNat % 16 * 4096 + tailBits b * 64 + tailBits c) :: ·)
          else match bs with
          | [] => .error ⟨pos, none⟩
          | d :: bs =>
            if !isTail d then .error ⟨pos, some 3⟩
            else (decodeFrom (pos + 4) bs).map (Char.ofNat
              (a.toNat % 8 * 262144 + tailBits b * 4096 + tailBits c * 64 + tailBits d) :: ·)

/-- The text whose UTF-8 form is `bs`. -/
def ofUtf8 (bs : Bytes) : Except Utf8Fault String :=
  (decodeFrom 0 bs).map String.ofList

end BuildCache.Text
