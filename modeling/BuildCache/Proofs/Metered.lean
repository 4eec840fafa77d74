import BuildCache.Memory
import BuildCache.Proofs.Utf8

/-!
What stored values claim of a reader's budget. A reader which can afford it gets back what was
written and stops right behind it, and one which cannot refuses it. The laws are put together the
way the decoders are: the bytes of two steps follow each other, and what they claim adds up.
-/
namespace BuildCache

namespace Decoder

/-- The decoder reads `bs` as `a` in front of anything and claims `cost` for it, if the budget
allows that. -/
structure Takes {α : Type} (d : Decoder α) (bs : Bytes) (a : α) (cost : Nat) : Prop where
  ok : ∀ (rest : Bytes) (budget : Option Nat), (∀ b ∈ budget, cost ≤ b) →
    d.run ⟨bs ++ rest, budget⟩ = .ok (a, ⟨rest, budget.map (· - cost)⟩)
  refused : ∀ (rest : Bytes) (b : Nat), b < cost →
    d.run ⟨bs ++ rest, some b⟩ = .error .overLimit

variable {α β : Type}

theorem takes_pure (a : α) : Takes (pure a) [] a 0 where
  ok rest budget _ := by cases budget <;> rfl
  refused rest b short := absurd short (Nat.not_lt_zero b)

theorem takes_bind {d : Decoder α} {f : α → Decoder β} {bs cs ds : Bytes} {a : α} {b : β}
    {m n k : Nat} (first : Takes d bs a m) (second : Takes (f a) cs b n)
    (bytes : ds = bs ++ cs) (cost : k = m + n) : Takes (d >>= f) ds b k := by
  subst bytes cost
  constructor
  · intro rest budget afford
    have step := first.ok (cs ++ rest) budget fun x hx => by have := afford x hx; omega
    have left : ∀ x ∈ budget.map (· - m), n ≤ x := by
      intro x hx
      rw [Option.mem_def, Option.map_eq_some_iff] at hx
      obtain ⟨y, hy, rfl⟩ := hx
      have := afford y hy
      omega
    rw [List.append_assoc, StateT.run_bind, step]
    change (f a).run _ = _
    rw [second.ok rest _ left]
    cases budget <;> simp [Nat.sub_sub]
  · intro rest x short
    rw [List.append_assoc, StateT.run_bind]
    by_cases early : x < m
    · rw [first.refused _ x early]
      rfl
    · have enough : ∀ b ∈ some x, m ≤ b := by
        rintro b ⟨⟩
        omega
      rw [first.ok (cs ++ rest) (some x) enough]
      exact second.refused rest (x - m) (by omega)

theorem takes_map {d : Decoder α} {bs : Bytes} {a : α} {n : Nat} (g : α → β)
    (h : Takes d bs a n) : Takes (do return g (← d)) bs (g a) n :=
  takes_bind h (takes_pure (g a)) (List.append_nil bs).symm rfl

theorem takes_charge (n : Nat) : Takes (charge n) [] () n where
  ok rest budget afford := by
    cases budget with
    | none => rfl
    | some b =>
      have := afford b rfl
      change (if b < n then _ else _) = _
      rw [if_neg (by omega)]
      rfl
  refused rest b short := by
    change (if b < n then _ else _) = _
    rw [if_pos short]

theorem takes_integer (type : IntType) (n : Nat) (h : n < type.bound) :
    Takes (integer type) (Integer.put n) n 0 where
  ok rest budget _ := by
    change Except.map _ (Integer.take type (Integer.put n ++ rest)) = _
    rw [Integer.take_put type n rest h]
    cases budget <;> rfl
  refused rest b short := absurd short (Nat.not_lt_zero b)

theorem takes_chunk (bs : Bytes) : Takes (chunk bs.length) bs bs 0 where
  ok rest budget _ := by
    change Except.map _ (Integer.takeBytes bs.length (bs ++ rest)) = _
    rw [Integer.takeBytes_append]
    cases budget <;> rfl
  refused rest b short := absurd short (Nat.not_lt_zero b)

theorem takes_charged (bs : Bytes) : Takes (charged bs.length) bs bs bs.length where
  ok rest budget afford := by
    unfold charged StateT.run
    cases budget with
    | none => simp
    | some b =>
      have := afford b rfl
      simp only [List.take_left', List.drop_left', Nat.lt_irrefl, decide_false, Option.map_some]
      rw [if_neg (by omega)]
      simp
  refused rest b short := by
    unfold charged StateT.run
    simp only [List.take_left']
    rw [if_pos ⟨short, Nat.le_of_lt short⟩]

theorem takes_length (type : IntType) (n : Nat) (h : n < type.bound) :
    Takes (length type) (Integer.put n) n 8 :=
  takes_bind (takes_charge 8) (takes_integer type n h) rfl rfl

theorem takes_word (n : UInt32) : Takes word (Integer.put n.toNat) n 4 := by
  have number := takes_map UInt32.ofNat (takes_integer .u32 n.toNat n.toNat_lt)
  rw [UInt32.ofNat_toNat] at number
  exact takes_bind (takes_charge 4) number rfl rfl

theorem takes_variant {n count : Nat} (h : n < count) (small : count ≤ UInt32.size) :
    Takes (variant count) (Integer.put n) n 4 := by
  have bound : n < IntType.u32.bound := Nat.lt_of_lt_of_le h small
  have last : Takes (if n < count then pure n else throw (.variant n count)) [] n 0 := by
    rw [if_pos h]
    exact takes_pure n
  have number := takes_bind (f := fun n => if n < count then pure n else throw (.variant n count))
    (takes_integer .u32 n bound) last (List.append_nil _).symm rfl
  exact takes_bind (takes_charge 4) number rfl rfl

/-- A text of these bytes. -/
def decoded (bs : Bytes) : Decoder String :=
  match Text.ofUtf8 bs with
  | .ok s => return s
  | .error fault => throw (.text fault)

theorem takes_text (s : String) (h : (Text.utf8 s).length < UInt64.size) :
    Takes text (Integer.put (Text.utf8 s).length ++ Text.utf8 s) s
      (8 + (Text.utf8 s).length) := by
  have last : Takes (decoded (Text.utf8 s)) [] s 0 := by
    simp only [decoded, Text.ofUtf8_utf8]
    exact takes_pure s
  have characters := takes_bind (takes_chunk (Text.utf8 s)) last (List.append_nil _).symm rfl
  have body := takes_bind (f := fun _ => chunk (Text.utf8 s).length >>= decoded)
    (takes_charge (Text.utf8 s).length) characters rfl rfl
  exact takes_bind (f := fun n => charge n >>= fun _ => chunk n >>= decoded)
    (takes_length .u64 _ h) body rfl rfl

theorem takes_blob (bs : Bytes) (h : bs.length < UInt64.size) :
    Takes blob (Integer.put bs.length ++ bs) bs (8 + bs.length) :=
  takes_bind (takes_length .size _ h) (takes_charged bs) rfl rfl

theorem takes_optionTag (present : Bool) :
    Takes optionTag [if present then 1 else 0] present 1 := by
  cases present
  · exact takes_bind (takes_charged [0]) (takes_pure false) rfl rfl
  · exact takes_bind (takes_charged [1]) (takes_pure true) rfl rfl

end Decoder

open Decoder

/-- Stored values that a reader with a large enough budget gets back. -/
class Metered (α : Type) [Stored α] where
  charge : α → Nat
  /-- No length in the value is above what a machine word can say. -/
  Sized : α → Prop
  sized_of_charge (a : α) : charge a ≤ recordLimit → Sized a
  takes (a : α) : Sized a → Takes Stored.take (Stored.put a) a (charge a)

instance : Metered UInt32 where
  charge _ := 4
  Sized _ := True
  sized_of_charge _ _ := trivial
  takes n _ := takes_word n

theorem recordLimit_lt : recordLimit < UInt64.size := by decide

instance : Metered String where
  charge s := 8 + (Text.utf8 s).length
  Sized s := (Text.utf8 s).length < UInt64.size
  sized_of_charge s h := by have := recordLimit_lt; omega
  takes s h := takes_text s h

instance : Metered Bytes where
  charge bs := 8 + bs.length
  Sized bs := bs.length < UInt64.size
  sized_of_charge bs h := by have := recordLimit_lt; omega
  takes bs h := takes_blob bs h

instance : Metered Slot where
  charge
    | .validation => 4
    | .entry _ => 8
  Sized _ := True
  sized_of_charge _ _ := trivial
  takes
    | .validation, _ =>
      takes_bind (takes_variant (show 0 < 2 by decide) (by decide)) (takes_pure Slot.validation)
        (List.append_nil _).symm rfl
    | .entry id, _ =>
      takes_bind (takes_variant (show 1 < 2 by decide) (by decide))
        (takes_map Slot.entry (takes_word id)) rfl rfl

variable {α β K V : Type}

instance [Stored α] [Stored β] [Metered α] [Metered β] : Metered (α × β) where
  charge e := Metered.charge e.1 + Metered.charge e.2
  Sized e := Metered.Sized e.1 ∧ Metered.Sized e.2
  sized_of_charge e h :=
    ⟨Metered.sized_of_charge e.1 (Nat.le_trans (Nat.le_add_right ..) h),
      Metered.sized_of_charge e.2 (Nat.le_trans (Nat.le_add_left ..) h)⟩
  takes e h := takes_bind (Metered.takes e.1 h.1) (takes_map (Prod.mk e.1) (Metered.takes e.2 h.2))
    rfl rfl

namespace Record
variable [Stored K] [Stored V] [Metered K] [Metered V]

def charge : Record K V → Nat
  | .put k v => 4 + (Metered.charge k + Metered.charge v)
  | .remove k => 4 + Metered.charge k

def Sized : Record K V → Prop
  | .put k v => Metered.Sized k ∧ Metered.Sized v
  | .remove k => Metered.Sized k

theorem sized_of_charge (r : Record K V) (h : r.charge ≤ recordLimit) : r.Sized := by
  cases r with
  | put k v =>
    simp only [charge] at h
    exact ⟨Metered.sized_of_charge k (by omega), Metered.sized_of_charge v (by omega)⟩
  | remove k =>
    simp only [charge] at h
    exact Metered.sized_of_charge k (by omega)

theorem takes (r : Record K V) (h : r.Sized) : Takes Stored.take (Stored.put r) r r.charge := by
  cases r with
  | put k v =>
    have value := takes_map (put k) (Metered.takes v h.2)
    have body := takes_bind (f := fun k => do return put k (← Stored.take)) (Metered.takes k h.1)
      value rfl rfl
    exact takes_bind (takes_variant (show 0 < 2 by decide) (by decide)) body
      (List.append_assoc ..) rfl
  | remove k =>
    exact takes_bind (takes_variant (show 1 < 2 by decide) (by decide))
      (takes_map remove (Metered.takes k h)) rfl rfl

end Record

instance [Stored K] [Stored V] [Metered K] [Metered V] : Metered (Record K V) where
  charge := Record.charge
  Sized := Record.Sized
  sized_of_charge := Record.sized_of_charge
  takes := Record.takes

/-- The value is within what a single record may claim. -/
def Fits [Stored α] [Metered α] (a : α) : Prop := Metered.charge a ≤ recordLimit

theorem Fits.sized [Stored α] [Metered α] {a : α} (fits : Fits a) : Metered.Sized a :=
  Metered.sized_of_charge a fits

/-- A record charges its variant besides the pair in it. -/
theorem Fits.pair [Stored K] [Stored V] [Metered K] [Metered V] {e : K × V}
    (fits : Fits (Record.put e.1 e.2)) : Fits e :=
  Nat.le_trans (Nat.le_add_left _ 4) fits

/-- Values whose stored form is never empty, so that a reader of many of them moves on. -/
class Tangible (α : Type) [Stored α] : Prop where
  put_ne_nil (a : α) : Stored.put a ≠ []

instance : Tangible UInt32 where
  put_ne_nil n := Integer.put_ne_nil n.toNat

instance : Tangible Slot where
  put_ne_nil
    | .validation => Integer.put_ne_nil 0
    | .entry id => by simp [Stored.put, Integer.put_ne_nil]

instance [Stored α] [Stored β] [Tangible α] : Tangible (α × β) where
  put_ne_nil e := by simp [Stored.put, Tangible.put_ne_nil e.1]

instance [Stored K] [Stored V] : Tangible (Record K V) where
  put_ne_nil
    | .put k v => by simp [Stored.put, Integer.put_ne_nil]
    | .remove k => by simp [Stored.put, Integer.put_ne_nil]

namespace Record
variable [Stored α] [Metered α] [Tangible α]

/-- One value behind the other: the first is taken and the rest is left, or it is refused. -/
theorem decodeFrom_cons (index fuel : Nat) {a : α} (sized : Metered.Sized a) (bs : Bytes) :
    decodeFrom index (fuel + 1) (Stored.put a ++ bs) =
      if Metered.charge a ≤ recordLimit then (decodeFrom (index + 1) fuel bs).map (a :: ·)
      else .error (index, .overLimit) := by
  have takes := Metered.takes a sized
  obtain ⟨b, cs, head⟩ := List.exists_cons_of_ne_nil (Tangible.put_ne_nil a)
  rw [head] at takes ⊢
  rw [List.cons_append, decodeFrom, ← List.cons_append]
  · by_cases fits : Metered.charge a ≤ recordLimit
    · have enough : ∀ x ∈ some recordLimit, Metered.charge a ≤ x := by
        rintro x ⟨⟩
        exact fits
      rw [if_pos fits, takes.ok bs (some recordLimit) enough]
    · rw [if_neg fits, takes.refused bs recordLimit (Nat.lt_of_not_le fits)]
  · simp

theorem decodeFrom_flatMap_put (index fuel : Nat) (as : List α) (fit : ∀ a ∈ as, Fits a)
    (enough : (as.flatMap Stored.put).length ≤ fuel) :
    decodeFrom index fuel (as.flatMap Stored.put) = .ok as := by
  induction as generalizing index fuel with
  | nil => cases fuel <;> rfl
  | cons a as ih =>
    have fits : Metered.charge a ≤ recordLimit := fit a List.mem_cons_self
    have some_ := List.length_pos_iff.mpr (Tangible.put_ne_nil a)
    rw [List.flatMap_cons, List.length_append] at enough
    obtain ⟨fuel, rfl⟩ := Nat.exists_eq_succ_of_ne_zero (show fuel ≠ 0 by omega)
    rw [List.flatMap_cons, decodeFrom_cons index fuel (Fits.sized fits),
      if_pos fits,
      ih _ _ (fun x mem => fit x (List.mem_cons_of_mem a mem)) (by omega)]
    rfl

theorem decodeAll_flatMap_put (as : List α) (fit : ∀ a ∈ as, Fits a) :
    decodeAll (as.flatMap Stored.put) = .ok as :=
  decodeFrom_flatMap_put 0 _ as fit (Nat.le_refl _)

/-- What a reader gets from values of any size is what was written, or nothing at all. -/
theorem eq_of_decodeFrom (index fuel : Nat) (as : List α) (sized : ∀ a ∈ as, Metered.Sized a)
    (enough : (as.flatMap Stored.put).length ≤ fuel) {bs : List α}
    (h : decodeFrom index fuel (as.flatMap Stored.put) = .ok bs) : bs = as := by
  induction as generalizing index fuel bs with
  | nil =>
    rw [List.flatMap_nil] at h
    cases fuel <;> exact (Except.ok.inj h).symm
  | cons a as ih =>
    have some_ := List.length_pos_iff.mpr (Tangible.put_ne_nil a)
    rw [List.flatMap_cons, List.length_append] at enough
    obtain ⟨fuel, rfl⟩ := Nat.exists_eq_succ_of_ne_zero (show fuel ≠ 0 by omega)
    rw [List.flatMap_cons, decodeFrom_cons index fuel (sized a List.mem_cons_self)] at h
    split at h
    · cases rest : decodeFrom (α := α) (index + 1) fuel (as.flatMap Stored.put) with
      | error e =>
        rw [rest] at h
        cases h
      | ok cs =>
        rw [rest] at h
        cases h
        rw [ih _ _ (fun x mem => sized x (List.mem_cons_of_mem a mem)) (by omega) rest]
    · cases h

theorem eq_of_decodeAll {as bs : List α} (sized : ∀ a ∈ as, Metered.Sized a)
    (h : decodeAll (as.flatMap Stored.put) = .ok bs) : bs = as :=
  eq_of_decodeFrom 0 _ as sized (Nat.le_refl _) h

end Record
end BuildCache
