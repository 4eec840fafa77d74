import BuildCache.Field
import BuildCache.Proofs.Integer

/-!
Readers of fields get back what was written and stop right behind it. A reader of several fields is
put together from readers of one, and so is the law about it.
-/
namespace BuildCache

namespace Reader
variable {α β : Type}

/-- The reader reads `bs` as `a` in front of anything. -/
def Reads (r : Reader α) (bs : Bytes) (a : α) : Prop :=
  ∀ rest : Bytes, r.run (bs ++ rest) = (.ok a, rest)

theorem reads_pure (a : α) : Reads (pure a) [] a := fun _ => rfl

theorem Reads.run_bind {r : Reader α} {bs : Bytes} {a : α} (h : Reads r bs a) (f : α → Reader β)
    (rest : Bytes) : (r >>= f).run (bs ++ rest) = (f a).run rest := by
  change (ExceptT.bindCont f (r.run (bs ++ rest)).1) (r.run (bs ++ rest)).2 = _
  rw [h rest]
  rfl

theorem reads_bind {r : Reader α} {f : α → Reader β} {x y z : Bytes} {a : α} {b : β}
    (first : Reads r x a) (second : Reads (f a) y b) (bytes : z = x ++ y) :
    Reads (r >>= f) z b := by
  subst bytes
  intro rest
  rw [List.append_assoc, first.run_bind]
  exact second rest

theorem reads_map {r : Reader α} {bs : Bytes} {a : α} (g : α → β) (h : Reads r bs a) :
    Reads (do return g (← r)) bs (g a) :=
  reads_bind h (reads_pure (g a)) (List.append_nil bs).symm

theorem run_bind (r : Reader α) (f : α → Reader β) (bs : Bytes) :
    (r >>= f).run bs = match r.run bs with
      | (.ok a, rest) => (f a).run rest
      | (.error e, rest) => (.error e, rest) := by
  change ExceptT.bindCont f (r.run bs).1 (r.run bs).2 = _
  cases step : r.run bs with
  | mk result rest => cases result <;> rfl

theorem run_bind_eq_ok {r : Reader α} {f : α → Reader β} {bs rest : Bytes} {b : β}
    (h : (r >>= f).run bs = (.ok b, rest)) :
    ∃ a middle, r.run bs = (.ok a, middle) ∧ (f a).run middle = (.ok b, rest) := by
  rw [run_bind] at h
  cases step : r.run bs with
  | mk result middle =>
    rw [step] at h
    cases result with
    | error e => cases h
    | ok a => exact ⟨a, middle, rfl, h⟩

end Reader

namespace Field
open Reader

theorem run_takeInteger (type : IntType) (bs : Bytes) :
    (takeInteger type).run bs = match Integer.take type bs with
      | .ok (n, rest) => (.ok n, rest)
      | .error cause => (.error (.malformed cause), bs) :=
  rfl

theorem reads_integer (type : IntType) (n : Nat) (h : n < type.bound) :
    Reads (takeInteger type) (Integer.put n) n := by
  intro rest
  rw [run_takeInteger, Integer.take_put type n rest h]

theorem reads_u32 (n : UInt32) : Reads takeU32 (putU32 n) n := by
  have number := reads_map UInt32.ofNat (reads_integer .u32 n.toNat n.toNat_lt)
  rw [UInt32.ofNat_toNat] at number
  exact number

theorem reads_u64 (n : UInt64) : Reads takeU64 (putU64 n) n := by
  have number := reads_map UInt64.ofNat (reads_integer .u64 n.toNat n.toNat_lt)
  rw [UInt64.ofNat_toNat] at number
  exact number

theorem zigzag_lt {i : Int} {n : Nat} (low : -(n : Int) ≤ i) (high : i < n) :
    Integer.zigzag i < 2 * n := by
  unfold Integer.zigzag
  split <;> omega

theorem reads_i32 (i : Int32) : Reads takeI32 (putI32 i) i := by
  have low := i.le_toInt
  have high := i.toInt_lt
  have bound : Integer.zigzag i.toInt < IntType.i32.bound :=
    zigzag_lt (n := 2147483648) (by simpa using low) (by simpa using high)
  have number := reads_map (fun n => Int32.ofInt (Integer.unzigzag n))
    (reads_integer .i32 _ bound)
  rw [Integer.unzigzag_zigzag, Int32.ofInt_toInt] at number
  exact number

theorem reads_i64 (i : Int64) : Reads takeI64 (putI64 i) i := by
  have low := i.le_toInt
  have high := i.toInt_lt
  have bound : Integer.zigzag i.toInt < IntType.i64.bound :=
    zigzag_lt (n := 9223372036854775808) (by simpa using low) (by simpa using high)
  have number := reads_map (fun n => Int64.ofInt (Integer.unzigzag n))
    (reads_integer .i64 _ bound)
  rw [Integer.unzigzag_zigzag, Int64.ofInt_toInt] at number
  exact number

theorem toInt_ofNat {n : Nat} (h : n < lengthBound) : (Int32.ofNat n).toInt = n :=
  Int32.toInt_ofNat_of_lt h

theorem putLength_eq_ok {what : String} {n : Nat} {bs : Bytes} (h : putLength what n = .ok bs) :
    n < lengthBound ∧ bs = putI32 (Int32.ofNat n) := by
  unfold putLength at h
  split at h
  · cases h
    exact ⟨by assumption, rfl⟩
  · cases h

theorem reads_length {what : String} {n : Nat} {bs : Bytes} (h : putLength what n = .ok bs)
    (what' : String) : Reads (takeLength what') bs n := by
  obtain ⟨small, rfl⟩ := putLength_eq_ok h
  have value := toInt_ofNat small
  refine reads_bind (reads_i32 (Int32.ofNat n)) (y := []) ?_ (List.append_nil _).symm
  rw [value, if_neg (by omega)]
  exact reads_pure n

theorem reads_flag (what : String) (b : Bool) : Reads (takeFlag what) (putFlag b) b := by
  intro rest
  cases b <;> rfl

theorem reads_bytes {what : String} {bs ds : Bytes} (h : putBytes what bs = .ok ds)
    (what' : String) : Reads (takeBytes what') ds bs := by
  unfold putBytes at h
  cases length : putLength what bs.length with
  | error e =>
    rw [length] at h
    cases h
  | ok front =>
    rw [length] at h
    cases h
    refine reads_bind (reads_length length what') (fun rest => ?_) rfl
    have whole : ¬((bs ++ rest).take bs.length).length < bs.length := by simp
    change (if ((bs ++ rest).take bs.length).length < bs.length then _ else _ : Reader Bytes).run
      (bs ++ rest) = _
    rw [if_neg whole]
    change (Except.ok ((bs ++ rest).take bs.length), (bs ++ rest).drop bs.length) = _
    simp

end Field
end BuildCache
