import BuildCache.Proofs.StoredFiles

/-!
What a reader takes from bytes that anyone may have written. It takes a front of them, for what the
value claims and whatever follows: so bytes that are added behind leave alone what was read, and
what was read could be written again.
-/
namespace BuildCache

namespace Text

theorem length_encodeChar {v : Nat} (valid : v.isValidChar) :
    (String.utf8EncodeChar (Char.ofNat v)).length =
      if v < 128 then 1 else if v < 2048 then 2 else if v < 65536 then 3 else 4 := by
  have same : (Char.ofNat v).val.toNat = v := by
    rw [Char.ofNat, dif_pos valid]
    rfl
  unfold String.utf8EncodeChar
  rw [same]
  dsimp only
  grind

theorem length_of_decodeFrom {pos : Nat} {bs : Bytes} {cs : List Char}
    (h : decodeFrom pos bs = .ok cs) : (cs.flatMap String.utf8EncodeChar).length = bs.length := by
  have step {v n pos : Nat} {rest : Bytes} {cs : List Char}
      (ih : ∀ cs, decodeFrom pos rest = .ok cs →
        (cs.flatMap String.utf8EncodeChar).length = rest.length)
      (size : (String.utf8EncodeChar (Char.ofNat v)).length = n)
      (h : (decodeFrom pos rest).map (Char.ofNat v :: ·) = .ok cs) :
      (cs.flatMap String.utf8EncodeChar).length = rest.length + n := by
    cases tail : decodeFrom pos rest with
    | error e =>
      rw [tail] at h
      cases h
    | ok ds =>
      rw [tail] at h
      cases h
      rw [List.flatMap_cons, List.length_append, size, ih ds tail, Nat.add_comm]
  -- Only four cases read a character; its first byte says how many more there are.
  fun_induction decodeFrom pos bs generalizing cs with
  | case1 =>
    cases h
    rfl
  | case2 pos a bs small ih =>
    refine step (fun cs => ih) ?_ h
    rw [length_encodeChar (by grind), if_pos small]
  | case6 pos a large lo hi range b bs inside two ih =>
    refine step (n := 2) (fun cs => ih) ?_ h
    have second : tailBits b = b.toNat % 64 := rfl
    rw [length_encodeChar] <;> grind [secondRange]
  | case9 pos a large lo hi range b inside two c bs tail three ih =>
    refine step (n := 3) (fun cs => ih) ?_ h
    have second : tailBits b = b.toNat % 64 := rfl
    have third : tailBits c = c.toNat % 64 := rfl
    rw [length_encodeChar] <;> grind [secondRange]
  | case12 pos a large lo hi range b inside two c tail three d bs tail' ih =>
    refine step (n := 4) (fun cs => ih) ?_ h
    have second : tailBits b = b.toNat % 64 := rfl
    have third : tailBits c = c.toNat % 64 := rfl
    have fourth : tailBits d = d.toNat % 64 := rfl
    rw [length_encodeChar] <;> grind [secondRange]
  | _ => cases h

/-- A text has as many bytes as it was read from. -/
theorem length_of_ofUtf8 {bs : Bytes} {s : String} (h : ofUtf8 bs = .ok s) :
    (utf8 s).length = bs.length := by
  unfold ofUtf8 at h
  cases read : decodeFrom 0 bs with
  | error e =>
    rw [read] at h
    cases h
  | ok cs =>
    rw [read] at h
    cases h
    rw [utf8, String.toList_ofList, length_of_decodeFrom read]

end Text

namespace Integer

theorem takeBytes_eq_ok {n : Nat} {bs front rest : Bytes} (h : takeBytes n bs = .ok (front, rest)) :
    bs = front ++ rest ∧ front.length = n := by
  unfold takeBytes at h
  dsimp only at h
  split at h
  · cases h
  · rename_i enough
    cases h
    refine ⟨(List.take_append_drop n bs).symm, ?_⟩
    have short := List.length_take_le n bs
    omega

theorem takeWord_eq_ok {width n : Nat} {bs rest : Bytes} (h : takeWord width bs = .ok (n, rest)) :
    ∃ front, bs = front ++ rest ∧ ∀ more, takeWord width (front ++ more) = .ok (n, more) := by
  unfold takeWord at h
  cases read : takeBytes width bs with
  | error e =>
    rw [read] at h
    cases h
  | ok r =>
    obtain ⟨front, rest⟩ := r
    rw [read] at h
    cases h
    obtain ⟨bytes, rfl⟩ := takeBytes_eq_ok read
    refine ⟨front, bytes, fun more => ?_⟩
    rw [takeWord, takeBytes_append]
    rfl

/-- A number is read off a front of the bytes. -/
theorem take_eq_ok {type : IntType} {n : Nat} {bs rest : Bytes} (h : take type bs = .ok (n, rest)) :
    ∃ front, bs = front ++ rest ∧ ∀ more, take type (front ++ more) = .ok (n, more) := by
  cases bs with
  | nil => cases h
  | cons tag bs =>
    have word {w : Nat} (other : ∀ cs, take type (tag :: cs) = takeWord w cs) :
        ∃ front, tag :: bs = front ++ rest ∧ ∀ more, take type (front ++ more) = .ok (n, more) := by
      rw [other] at h
      obtain ⟨front, bytes, again⟩ := takeWord_eq_ok h
      exact ⟨tag :: front, by rw [bytes, List.cons_append], fun more =>
        (other (front ++ more)).trans (again more)⟩
    by_cases small : tag ≤ 250
    · simp only [take, if_pos small] at h
      cases h
      exact ⟨[tag], rfl, fun more => by simp only [List.cons_append, take, if_pos small]; rfl⟩
    by_cases two : tag = 251
    · exact word (w := 2) fun cs => by simp only [take, if_neg small, if_pos two]
    by_cases four : tag = 252
    · exact word (w := 4) fun cs => by simp only [take, if_neg small, if_neg two, if_pos four]
    by_cases eight : tag = 253 ∧ type.isWide
    · exact word (w := 8) fun cs => by
        simp only [take, if_neg small, if_neg two, if_neg four, if_pos eight.1, if_pos eight.2]
    · simp only [take, if_neg small, if_neg two, if_neg four] at h
      split at h
      · rename_i tagged
        rw [if_neg fun wide => eight ⟨tagged, wide⟩] at h
        cases h
      · split at h <;> cases h

end Integer

namespace Decoder
variable {α β : Type}

/-- Whatever bytes the decoder reads, it takes a front of them, and `Q` says how what it reads and
what that claims belong together. -/
def Frames (d : Decoder α) (Q : α → Nat → Prop) : Prop :=
  ∀ bs budget a s, d.run ⟨bs, some budget⟩ = .ok (a, s) → ∃ front cost,
    bs = front ++ s.rest ∧ cost ≤ budget ∧ s.budget = some (budget - cost) ∧
      Takes d front a cost ∧ Q a cost

theorem Frames.mono {d : Decoder α} {P Q : α → Nat → Prop} (frames : Frames d P)
    (imp : ∀ a cost, P a cost → Q a cost) : Frames d Q := by
  intro bs budget a s read
  obtain ⟨front, cost, bytes, afford, left, takes, known⟩ := frames bs budget a s read
  exact ⟨front, cost, bytes, afford, left, takes, imp a cost known⟩

theorem frames_pure {a : α} {Q : α → Nat → Prop} (h : Q a 0) : Frames (pure a) Q := by
  rintro bs budget _ _ ⟨⟩
  exact ⟨[], 0, rfl, Nat.zero_le _, rfl, takes_pure a, h⟩

theorem frames_throw {e : Malformed} {Q : α → Nat → Prop} : Frames (throw e) Q := by
  rintro bs budget a s ⟨⟩

theorem frames_bind {d : Decoder α} {f : α → Decoder β} {P : α → Nat → Prop} {Q : β → Nat → Prop}
    (first : Frames d P)
    (second : ∀ a m, P a m → Frames (f a) fun b n => Q b (m + n)) : Frames (d >>= f) Q := by
  intro bs budget b s read
  rw [StateT.run_bind] at read
  cases step : d.run ⟨bs, some budget⟩ with
  | error e =>
    rw [step] at read
    cases read
  | ok r =>
    obtain ⟨a, rest, budget'⟩ := r
    rw [step] at read
    obtain ⟨front, m, rfl, afford, rfl, takes, known⟩ := first _ _ _ _ step
    obtain ⟨front', n, bytes, afford', left, takes', known'⟩ := second a m known _ _ _ _ read
    refine ⟨front ++ front', m + n, ?_, by omega, ?_, takes_bind takes takes' rfl rfl, known'⟩
    · rw [List.append_assoc, ← bytes]
    · rw [left, Nat.sub_sub]

theorem frames_map {d : Decoder α} {P : α → Nat → Prop} {Q : β → Nat → Prop} (g : α → β)
    (frames : Frames d P) (imp : ∀ a cost, P a cost → Q (g a) cost) :
    Frames (do return g (← d)) Q :=
  frames_bind frames fun a m known => frames_pure (imp a m known)

theorem frames_charge (n : Nat) : Frames (charge n) fun _ cost => cost = n := by
  rintro bs budget ⟨⟩ s read
  change (if budget < n then _ else _) = _ at read
  split at read
  · cases read
  · rename_i afford
    cases read
    exact ⟨[], n, rfl, Nat.le_of_not_lt afford, rfl, takes_charge n, rfl⟩

theorem frames_integer (type : IntType) : Frames (integer type) fun _ cost => cost = 0 := by
  intro bs budget n s read
  change Except.map _ (Integer.take type bs) = _ at read
  cases step : Integer.take type bs with
  | error e =>
    rw [step] at read
    cases read
  | ok r =>
    obtain ⟨m, rest⟩ := r
    rw [step] at read
    cases read
    obtain ⟨front, bytes, again⟩ := Integer.take_eq_ok step
    refine ⟨front, 0, bytes, Nat.zero_le _, rfl, ⟨fun more left _ => ?_, ?_⟩, rfl⟩
    · change Except.map _ (Integer.take type (front ++ more)) = _
      rw [again]
      cases left <;> rfl
    · exact fun more left short => absurd short (Nat.not_lt_zero left)

theorem frames_chunk (n : Nat) :
    Frames (chunk n) fun bs cost => bs.length = n ∧ cost = 0 := by
  intro bs budget a s read
  change Except.map _ (Integer.takeBytes n bs) = _ at read
  cases step : Integer.takeBytes n bs with
  | error e =>
    rw [step] at read
    cases read
  | ok r =>
    rw [step] at read
    cases read
    obtain ⟨bytes, rfl⟩ := Integer.takeBytes_eq_ok step
    exact ⟨r.1, 0, bytes, Nat.zero_le _, rfl, takes_chunk r.1, rfl, rfl⟩

theorem frames_charged (n : Nat) :
    Frames (charged n) fun bs cost => bs.length = n ∧ cost = n := by
  intro bs budget a s read
  unfold charged StateT.run at read
  dsimp only at read
  split at read
  · cases read
  rename_i afford
  split at read
  · cases read
  rename_i whole
  cases read
  have length : (bs.take n).length = n := by
    have short := List.length_take_le n bs
    simp only [decide_eq_true_eq] at whole
    omega
  have takes := takes_charged (bs.take n)
  rw [length] at takes
  refine ⟨bs.take n, n, (List.take_append_drop n bs).symm, ?_, rfl, takes, length, rfl⟩
  omega

theorem frames_length (type : IntType) : Frames (length type) fun _ cost => cost = 8 :=
  frames_bind (frames_charge 8) fun _ m claim => (frames_integer type).mono fun _ n none_ => by
    omega

theorem frames_word : Frames word fun _ cost => cost = 4 :=
  frames_bind (frames_charge 4) fun _ m claim =>
    frames_map UInt32.ofNat (frames_integer .u32) fun _ n none_ => by omega

theorem frames_variant (count : Nat) : Frames (variant count) fun _ cost => cost = 4 := by
  refine frames_bind (frames_charge 4) fun _ m claim => ?_
  refine frames_bind (frames_integer .u32) fun n k none_ => ?_
  split
  · exact frames_pure (by omega)
  · exact frames_throw

theorem frames_text : Frames text fun s cost => cost = 8 + (Text.utf8 s).length := by
  refine frames_bind (frames_length .u64) fun n m eight => ?_
  refine frames_bind (frames_charge n) fun _ k claim => ?_
  refine frames_bind (frames_chunk n) fun bs l read => ?_
  obtain ⟨rfl, none_⟩ := read
  cases decoded : Text.ofUtf8 bs with
  | error e => exact frames_throw
  | ok s =>
    have size := Text.length_of_ofUtf8 decoded
    exact frames_pure (by omega)

theorem frames_blob : Frames blob fun bs cost => cost = 8 + bs.length :=
  frames_bind (frames_length .size) fun n m eight =>
    (frames_charged n).mono fun bs k read => by omega

end Decoder

open Decoder

/-- Stored values that are read off a front of any bytes, for what they claim. -/
class Framed (α : Type) [Stored α] [Metered α] : Prop where
  frames : Frames Stored.take fun (a : α) cost => cost = Metered.charge a

instance : Framed UInt32 := ⟨frames_word⟩

instance : Framed String := ⟨frames_text⟩

instance : Framed Bytes := ⟨frames_blob⟩

instance : Framed Slot where
  frames := by
    refine frames_bind (frames_variant 2) fun n m four => ?_
    split
    · exact frames_pure four
    · refine frames_map Slot.entry frames_word fun id k four' => ?_
      rw [four, four']
      rfl

variable {α β K V : Type}

instance [Stored α] [Stored β] [Metered α] [Metered β] [Framed α] [Framed β] :
    Framed (α × β) where
  frames := by
    refine frames_bind Framed.frames fun a m first => ?_
    refine frames_map (Prod.mk a) Framed.frames fun b n second => ?_
    rw [first, second]
    rfl

instance [Stored K] [Stored V] [Metered K] [Metered V] [Framed K] [Framed V] :
    Framed (Record K V) where
  frames := by
    refine frames_bind (frames_variant 2) fun n m four => ?_
    split
    · refine frames_bind Framed.frames fun k l first => ?_
      refine frames_map (Record.put k) Framed.frames fun v n second => ?_
      rw [four, first, second]
      rfl
    · refine frames_map Record.remove Framed.frames fun k l first => ?_
      rw [four, first]
      rfl

/-- What is read is within the limit, and takes some of the bytes. -/
theorem exists_front_of_take [Stored α] [Metered α] [Framed α] [Tangible α] {bs : Bytes} {a : α}
    {s : Input} (read : (Stored.take (α := α)).run ⟨bs, some recordLimit⟩ = .ok (a, s)) :
    Fits a ∧ ∃ front, front ≠ [] ∧ bs = front ++ s.rest ∧
      Takes Stored.take front a (Metered.charge a) := by
  obtain ⟨front, cost, bytes, fits, _, takes, rfl⟩ := Framed.frames _ _ _ _ read
  refine ⟨fits, front, ?_, bytes, takes⟩
  rintro rfl
  have written := (Metered.takes a (Metered.sized_of_charge a fits)).ok [] none nofun
  have taken := takes.ok (Stored.put a) none nofun
  rw [List.append_nil] at written
  rw [List.nil_append, written] at taken
  simp only [Except.ok.injEq, Prod.mk.injEq, Input.mk.injEq, true_and] at taken
  exact Tangible.put_ne_nil a taken.1.symm

namespace Record
variable [Stored α]

theorem decodeFrom_nil (index fuel : Nat) : decodeFrom (α := α) index fuel [] = .ok [] := by
  cases fuel <;> rfl

theorem decodeFrom_succ (index fuel : Nat) {bs : Bytes} (some_ : bs ≠ []) :
    decodeFrom (α := α) index (fuel + 1) bs =
      match (Stored.take (α := α)).run ⟨bs, some recordLimit⟩ with
      | .error e => .error (index, e)
      | .ok (a, s) => (decodeFrom (index + 1) fuel s.rest).map (a :: ·) := by
  cases bs with
  | nil => exact absurd rfl some_
  | cons b bs => rfl

variable [Metered α] [Framed α] [Tangible α]

/-- Values that are read one after the other are read again in front of more bytes. -/
theorem decodeFrom_append {index fuel : Nat} {bs : Bytes} {as : List α}
    (enough : bs.length ≤ fuel) (read : decodeFrom index fuel bs = .ok as) :
    (∀ a ∈ as, Fits a) ∧ ∀ (more : Bytes) (fuel' : Nat), bs.length + more.length ≤ fuel' →
      ∃ left, more.length ≤ left ∧ decodeFrom index fuel' (bs ++ more) =
        (decodeFrom (index + as.length) left more).map (as ++ ·) := by
  have ends {index fuel : Nat} {as : List α} (read : decodeFrom index fuel [] = .ok as) :
      (∀ a ∈ as, Fits a) ∧ ∀ (more : Bytes) (fuel' : Nat), 0 + more.length ≤ fuel' →
        ∃ left, more.length ≤ left ∧ decodeFrom index fuel' more =
          (decodeFrom (index + as.length) left more).map (as ++ ·) := by
    rw [decodeFrom_nil] at read
    cases read
    refine ⟨nofun, fun more fuel' enough => ⟨fuel', by omega, ?_⟩⟩
    rw [List.length_nil, Nat.add_zero]
    cases decodeFrom (α := α) index fuel' more <;> rfl
  induction fuel generalizing index bs as with
  | zero =>
    obtain rfl : bs = [] := List.length_eq_zero_iff.mp (Nat.le_zero.mp enough)
    exact ends read
  | succ fuel ih =>
    by_cases nothing : bs = []
    · subst nothing
      exact ends read
    rw [decodeFrom_succ index fuel nothing] at read
    cases step : (Stored.take (α := α)).run ⟨bs, some recordLimit⟩ with
    | error e =>
      rw [step] at read
      cases read
    | ok r =>
      obtain ⟨a, s⟩ := r
      rw [step] at read
      obtain ⟨fits, front, some_, bytes, takes⟩ := exists_front_of_take step
      have positive := List.length_pos_iff.mpr some_
      cases tail : decodeFrom (α := α) (index + 1) fuel s.rest with
      | error e =>
        simp only [tail] at read
        cases read
      | ok rest =>
        simp only [tail] at read
        cases read
        rw [bytes, List.length_append] at enough
        obtain ⟨fit, again⟩ := ih (by omega) tail
        refine ⟨List.forall_mem_cons.mpr ⟨fits, fit⟩, fun more fuel' enough' => ?_⟩
        rw [bytes, List.length_append] at enough'
        obtain ⟨fuel', rfl⟩ := Nat.exists_eq_succ_of_ne_zero (show fuel' ≠ 0 by omega)
        obtain ⟨left, many, same⟩ := again more fuel' (by omega)
        refine ⟨left, many, ?_⟩
        have afford : ∀ b ∈ some recordLimit, Metered.charge a ≤ b := by
          rintro b ⟨⟩
          exact fits
        rw [bytes, List.append_assoc, decodeFrom_succ _ _ (by simp [some_]),
          takes.ok (s.rest ++ more) (some recordLimit) afford]
        simp only [same, List.length_cons]
        rw [show index + 1 + rest.length = index + (rest.length + 1) by omega]
        cases decodeFrom (α := α) (index + (rest.length + 1)) left more <;> rfl

theorem fits_of_decodeAll {bs : Bytes} {as : List α} (read : decodeAll bs = .ok as) :
    ∀ a ∈ as, Fits a :=
  (decodeFrom_append (Nat.le_refl _) read).1

theorem decodeAll_append {bs : Bytes} {as : List α} (read : decodeAll bs = .ok as) (more : Bytes) :
    ∃ left, more.length ≤ left ∧
      decodeAll (bs ++ more) = (decodeFrom as.length left more).map (as ++ ·) := by
  have again := (decodeFrom_append (Nat.le_refl _) read).2 more (bs ++ more).length
    (Nat.le_of_eq List.length_append.symm)
  rw [Nat.zero_add] at again
  exact again

theorem decodeAll_append_flatMap {bs : Bytes} {as more : List α} (read : decodeAll bs = .ok as)
    (fit : ∀ a ∈ more, Fits a) : decodeAll (bs ++ more.flatMap Stored.put) = .ok (as ++ more) := by
  obtain ⟨left, enough, same⟩ := decodeAll_append read (more.flatMap Stored.put)
  rw [same, decodeFrom_flatMap_put _ _ more fit enough]
  rfl

theorem eq_of_decodeAll_append {bs : Bytes} {as more all : List α} (read : decodeAll bs = .ok as)
    (sized : ∀ a ∈ more, Metered.Sized a)
    (done : decodeAll (bs ++ more.flatMap Stored.put) = .ok all) : all = as ++ more := by
  obtain ⟨left, enough, same⟩ := decodeAll_append read (more.flatMap Stored.put)
  rw [same] at done
  cases rest : decodeFrom (α := α) as.length left (more.flatMap Stored.put) with
  | error e =>
    rw [rest] at done
    cases done
  | ok cs =>
    rw [rest] at done
    cases done
    rw [eq_of_decodeFrom _ _ more sized enough rest]

end Record

namespace StoreFile

theorem take_drop_append {raw : Bytes} {n : Nat} (size : 4 + n ≤ raw.length) (more : Bytes) :
    (raw.take (4 + n) ++ more).take 4 = raw.take 4 ∧
      ((raw.take (4 + n) ++ more).drop 4).take n = (raw.drop 4).take n ∧
      (raw.take (4 + n) ++ more).drop (4 + n) = more := by
  have length : (raw.take (4 + n)).length = 4 + n := List.length_take_of_le size
  refine ⟨?_, ?_, ?_⟩
  · rw [List.take_append_of_le_length (by omega), List.take_take, Nat.min_eq_left (by omega)]
  · rw [List.drop_append_of_le_length (by omega), List.take_append_of_le_length
      (by rw [List.length_drop]; omega), List.drop_take, List.take_take, Nat.min_eq_left (by omega)]
  · rw [List.drop_append_of_le_length (by omega), List.drop_eq_nil_of_le (by omega),
      List.nil_append]

/-- The body of a journal is all that follows its header. -/
theorem payload_eq_ok {path : Path} {format : StoreFormat} {raw body : Bytes}
    (h : payload path format .journal raw = .ok body) : ∃ head, raw = head ++ body ∧
      ∀ more, payload path format .journal (head ++ more) = .ok more := by
  simp only [payload, throw, throwThe, MonadExceptOf.throw, bind, Except.bind, pure,
    Except.pure] at h ⊢
  split at h
  · cases h
  split at h
  · cases h
  rename_i four header
  have size : 4 + Bytes.toNatLE (raw.take 4) ≤ raw.length := by
    simp only [List.length_take, List.length_drop] at four header
    omega
  split at h
  · cases h
  rename_i fields s read
  -- The header is fine: none of the four refusals that look at its fields was taken.
  iterate 4
    split at h
    · cases h
  cases h
  refine ⟨_, (List.take_append_drop (4 + Bytes.toNatLE (raw.take 4)) raw).symm, fun more => ?_⟩
  obtain ⟨first, second, third⟩ := take_drop_append size more
  simp only [first, second, third, read, if_neg four, if_neg header]
  simp only [*, if_false]

variable [Stored K] [Stored V]

theorem readJournal_eq_ok {path : Path} {format : StoreFormat} {raw : Bytes} (some_ : raw ≠ [])
    {rs : List (Record K V)} : readJournal path format raw = .ok rs ↔
      ∃ body, payload path format .journal raw = .ok body ∧ Record.decodeAll body = .ok rs := by
  unfold readJournal
  rw [if_neg some_]
  cases first : payload path format .journal raw with
  | error e => exact ⟨nofun, fun ⟨_, found, _⟩ => nomatch found⟩
  | ok body =>
    change decodeAll path body = .ok rs ↔ _
    unfold decodeAll
    cases second : Record.decodeAll (α := Record K V) body with
    | error e =>
      refine ⟨nofun, ?_⟩
      rintro ⟨_, ⟨⟩, read⟩
      rw [second] at read
      cases read
    | ok items =>
      constructor
      · exact fun read => ⟨body, rfl, second.trans (congrArg Except.ok (Except.ok.inj read))⟩
      · rintro ⟨_, ⟨⟩, read⟩
        exact congrArg Except.ok (Except.ok.inj (second.symm.trans read))

variable [Metered K] [Metered V] [Framed K] [Framed V]

theorem fits_of_readJournal {path : Path} {format : StoreFormat} {raw : Bytes}
    {rs : List (Record K V)} (read : readJournal path format raw = .ok rs) : ∀ r ∈ rs, Fits r := by
  by_cases nothing : raw = []
  · rw [readJournal, if_pos nothing] at read
    cases read
    exact nofun
  · obtain ⟨body, _, decoded⟩ := (readJournal_eq_ok nothing).mp read
    exact Record.fits_of_decodeAll decoded

theorem fits_of_readSnapshot [Tangible K] {path : Path} {format : StoreFormat} {raw : Bytes}
    {pairs : List (K × V)} (read : readSnapshot path format raw = .ok pairs) :
    ∀ e ∈ pairs, Fits e := by
  unfold readSnapshot at read
  split at read
  · cases read
    exact nofun
  · cases first : payload path format .snapshot raw with
    | error e =>
      rw [first] at read
      cases read
    | ok body =>
      rw [first] at read
      change decodeAll path body = .ok pairs at read
      unfold decodeAll at read
      split at read
      · rename_i items decoded
        cases read
        exact Record.fits_of_decodeAll decoded
      · cases read

/-- What is appended to a journal that can be read is read behind what it held. -/
theorem readJournal_append {path : Path} {format : StoreFormat} {raw : Bytes}
    {before added : List (Record K V)} (some_ : raw ≠ [])
    (read : readJournal path format raw = .ok before) (fit : ∀ r ∈ added, Fits r) :
    readJournal path format (raw ++ journalBatch added) = .ok (before ++ added) := by
  obtain ⟨body, found, decoded⟩ := (readJournal_eq_ok some_).mp read
  obtain ⟨head, rfl, again⟩ := payload_eq_ok found
  refine (readJournal_eq_ok (List.append_ne_nil_of_left_ne_nil some_ _)).mpr ?_
  rw [List.append_assoc]
  exact ⟨_, again _, Record.decodeAll_append_flatMap decoded fit⟩

theorem eq_of_readJournal_append {path : Path} {format : StoreFormat} {raw : Bytes}
    {before added all : List (Record K V)} (some_ : raw ≠ [])
    (read : readJournal path format raw = .ok before) (sized : ∀ r ∈ added, Metered.Sized r)
    (done : readJournal path format (raw ++ journalBatch added) = .ok all) :
    all = before ++ added := by
  obtain ⟨body, found, decoded⟩ := (readJournal_eq_ok some_).mp read
  obtain ⟨head, rfl, again⟩ := payload_eq_ok found
  obtain ⟨body', found', decoded'⟩ :=
    (readJournal_eq_ok (List.append_ne_nil_of_left_ne_nil some_ _)).mp done
  rw [List.append_assoc, again] at found'
  cases found'
  exact Record.eq_of_decodeAll_append decoded sized decoded'

end StoreFile
end BuildCache
