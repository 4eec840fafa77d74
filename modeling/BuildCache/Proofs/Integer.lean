import BuildCache.Integer

/-!
What an integer was written as is read as that integer, whatever follows it, as long as the asked
type has room for it.
-/
namespace BuildCache

namespace Bytes

theorem toNat_ofNat {n : Nat} (h : n < 256) : (UInt8.ofNat n).toNat = n := by
  rw [UInt8.toNat_ofNat']
  omega

theorem toNatLE_ofNatLE (width n : Nat) (h : n < Nat.pow 256 width) :
    toNatLE (ofNatLE width n) = n := by
  induction width generalizing n with
  | zero =>
    have : n = 0 := Nat.lt_one_iff.mp h
    simp [ofNatLE, toNatLE, this]
  | succ width ih =>
    have rest : n / 256 < Nat.pow 256 width :=
      (Nat.div_lt_iff_lt_mul (by decide)).mpr h
    simp only [ofNatLE, toNatLE, ih (n / 256) rest, UInt8.toNat_ofNat']
    omega

theorem toNatBE_ofNatBE (width n : Nat) (h : n < Nat.pow 256 width) :
    toNatBE (ofNatBE width n) = n := by
  rw [toNatBE, ofNatBE, List.reverse_reverse, toNatLE_ofNatLE width n h]

@[simp] theorem length_ofNatBE (width n : Nat) : (ofNatBE width n).length = width := by
  simp [ofNatBE]

end Bytes

namespace IntType

/-- The first number that an integer of the type has no room for. -/
def bound (type : IntType) : Nat := if type.isWide then UInt64.size else UInt32.size

end IntType

namespace Integer

theorem takeBytes_append (bs rest : Bytes) : takeBytes bs.length (bs ++ rest) = .ok (bs, rest) := by
  simp [takeBytes]

theorem takeWord_ofNatLE (width n : Nat) (rest : Bytes) (h : n < Nat.pow 256 width) :
    takeWord width (Bytes.ofNatLE width n ++ rest) = .ok (n, rest) := by
  have front := takeBytes_append (Bytes.ofNatLE width n) rest
  rw [Bytes.length_ofNatLE] at front
  rw [takeWord, front]
  simp only [Except.map, Bytes.toNatLE_ofNatLE width n h]

theorem put_ne_nil (n : Nat) : put n ≠ [] := by
  unfold put
  repeat' split
  all_goals simp

theorem take_put (type : IntType) (n : Nat) (rest : Bytes) (h : n < type.bound) :
    take type (put n ++ rest) = .ok (n, rest) := by
  unfold put
  split
  · have byte := Bytes.toNat_ofNat (n := n) (by omega)
    have small : UInt8.ofNat n ≤ 250 := by
      rw [UInt8.le_iff_toNat_le, byte]
      assumption
    simp only [List.cons_append, List.nil_append, take, if_pos small, byte]
  split
  · have word := takeWord_ofNatLE 2 n rest (by assumption)
    simpa [take] using word
  split
  · have word := takeWord_ofNatLE 4 n rest (by assumption)
    simpa [take] using word
  · rename_i large
    have wide : type.isWide = true := by
      by_cases wide : type.isWide = true
      · exact wide
      · exact absurd (by simpa [IntType.bound, wide] using h) large
    have fits : n < Nat.pow 256 8 := by simpa [IntType.bound, wide] using h
    have word := takeWord_ofNatLE 8 n rest fits
    simpa [take, wide] using word

end Integer
end BuildCache
