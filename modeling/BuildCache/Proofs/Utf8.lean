import BuildCache.Proofs.Integer

/-!
A text is what its UTF-8 form decodes to. The work is one character: for each length of its form,
the ranges that the decoder allows the second byte hold exactly the characters that have no shorter
form and are no surrogates.
-/
namespace BuildCache

namespace Text

theorem isTail_ofNat {n : Nat} (low : 128 ≤ n) (high : n < 192) : isTail (UInt8.ofNat n) = true := by
  have value := Bytes.toNat_ofNat (n := n) (by omega)
  simp only [isTail, Bool.and_eq_true, decide_eq_true_eq, UInt8.le_iff_toNat_le, value]
  exact ⟨low, by simpa using Nat.le_of_lt_succ high⟩

theorem tailBits_ofNat (n : Nat) : tailBits (UInt8.ofNat (n % 64 + 128)) = n % 64 := by
  rw [tailBits, Bytes.toNat_ofNat (by omega)]
  omega

theorem secondRange_two {n : Nat} (low : 194 ≤ n) (high : n < 224) :
    secondRange n = some (128, 191) := by
  grind [secondRange]

/-- After the first byte of three, some second bytes would belong to a shorter form or to a
surrogate. -/
theorem secondRange_three {n : Nat} (low : 224 ≤ n) (high : n < 240) :
    secondRange n =
      some (if n = 224 then (160, 191) else if n = 237 then (128, 159) else (128, 191)) := by
  grind [secondRange]

theorem secondRange_four {n : Nat} (low : 240 ≤ n) (high : n < 245) :
    secondRange n =
      some (if n = 240 then (144, 191) else if n = 244 then (128, 143) else (128, 191)) := by
  grind [secondRange]

theorem decodeFrom_encodeChar (pos : Nat) (c : Char) (rest : Bytes) :
    decodeFrom pos (String.utf8EncodeChar c ++ rest) =
      (decodeFrom (pos + (String.utf8EncodeChar c).length) rest).map (c :: ·) := by
  have valid : c.toNat < 0xd800 ∨ 0xdfff < c.toNat ∧ c.toNat < 0x110000 := c.valid
  have whole : Char.ofNat c.toNat = c := by simp
  have value : c.val.toNat = c.toNat := rfl
  unfold String.utf8EncodeChar
  rw [value]
  generalize c.toNat = v at *
  subst whole
  dsimp only
  split
  · have first := Bytes.toNat_ofNat (n := v) (by omega)
    simp only [List.cons_append, List.nil_append, List.length_cons, List.length_nil, decodeFrom,
      first, if_pos (show v < 128 by omega), Nat.zero_add]
  split
  · have first := Bytes.toNat_ofNat (n := v / 64 % 32 + 192) (by omega)
    have second := Bytes.toNat_ofNat (n := v % 64 + 128) (by omega)
    have range := secondRange_two (n := v / 64 % 32 + 192) (by omega) (by omega)
    have bits : (v / 64 % 32 + 192) % 32 * 64 + v % 64 = v := by omega
    have inside : ¬(v % 64 + 128 < 128 ∨ 191 < v % 64 + 128) := by omega
    simp only [List.cons_append, List.nil_append, List.length_cons, List.length_nil, decodeFrom,
      first, second, range, tailBits_ofNat, bits, if_neg inside,
      if_neg (show ¬v / 64 % 32 + 192 < 128 by omega),
      if_pos (show v / 64 % 32 + 192 < 224 by omega), Nat.zero_add]
  split
  · have first := Bytes.toNat_ofNat (n := v / 4096 % 16 + 224) (by omega)
    have second := Bytes.toNat_ofNat (n := v / 64 % 64 + 128) (by omega)
    have range := secondRange_three (n := v / 4096 % 16 + 224) (by omega) (by omega)
    have tail := isTail_ofNat (n := v % 64 + 128) (by omega) (by omega)
    have bits : (v / 4096 % 16 + 224) % 16 * 4096 + v / 64 % 64 * 64 + v % 64 = v := by omega
    simp only [List.cons_append, List.nil_append, List.length_cons, List.length_nil, decodeFrom,
      first, second, range, tailBits_ofNat, bits, tail,
      if_neg (show ¬v / 4096 % 16 + 224 < 128 by omega),
      if_neg (show ¬v / 4096 % 16 + 224 < 224 by omega),
      if_pos (show v / 4096 % 16 + 224 < 240 by omega), Nat.zero_add, Bool.not_true,
      Bool.false_eq_true, if_false]
    grind
  · have first := Bytes.toNat_ofNat (n := v / 262144 % 8 + 240) (by omega)
    have second := Bytes.toNat_ofNat (n := v / 4096 % 64 + 128) (by omega)
    have range := secondRange_four (n := v / 262144 % 8 + 240) (by omega) (by omega)
    have third := isTail_ofNat (n := v / 64 % 64 + 128) (by omega) (by omega)
    have fourth := isTail_ofNat (n := v % 64 + 128) (by omega) (by omega)
    have bits : (v / 262144 % 8 + 240) % 8 * 262144 + v / 4096 % 64 * 4096 + v / 64 % 64 * 64 +
        v % 64 = v := by omega
    simp only [List.cons_append, List.nil_append, List.length_cons, List.length_nil, decodeFrom,
      first, second, range, tailBits_ofNat, bits, third, fourth,
      if_neg (show ¬v / 262144 % 8 + 240 < 128 by omega),
      if_neg (show ¬v / 262144 % 8 + 240 < 224 by omega),
      if_neg (show ¬v / 262144 % 8 + 240 < 240 by omega), Nat.zero_add, Bool.not_true,
      Bool.false_eq_true, if_false]
    grind

theorem decodeFrom_flatMap (pos : Nat) (cs : List Char) :
    decodeFrom pos (cs.flatMap String.utf8EncodeChar) = .ok cs := by
  induction cs generalizing pos with
  | nil => rfl
  | cons c cs ih => rw [List.flatMap_cons, decodeFrom_encodeChar, ih]; rfl

theorem ofUtf8_utf8 (s : String) : ofUtf8 (utf8 s) = .ok s := by
  rw [ofUtf8, utf8, decodeFrom_flatMap]
  simp [Except.map]

end Text
end BuildCache
