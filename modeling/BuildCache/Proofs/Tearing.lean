import BuildCache.Proofs.Rereading

/-!
A journal that was cut off somewhere. The encodings of single records are self-delimiting: none of
them can be read off a part of its bytes. So a cut shows, unless it falls where one write could
have ended, and what is read then is what was written up to there.
-/
namespace BuildCache

open Decoder

variable {α K V : Type} [Stored K] [Stored V]

/-- What is left of a value that lost its end is not read as any value. -/
theorem exists_error_of_cut [Stored α] [Metered α] [Framed α] [Tangible α] {a : α}
    {bs lost : Bytes} (fits : Fits a) (whole : bs ++ lost = Stored.put a) (some_ : lost ≠ []) :
    ∃ cause, (Stored.take (α := α)).run ⟨bs, some recordLimit⟩ = .error cause := by
  cases read : (Stored.take (α := α)).run ⟨bs, some recordLimit⟩ with
  | error cause => exact ⟨cause, rfl⟩
  | ok r =>
    obtain ⟨b, s⟩ := r
    obtain ⟨-, front, -, rfl, takes⟩ := exists_front_of_take read
    -- Whatever was read would be read with the lost bytes behind it, which belong to the value.
    have shorter := takes.ok (s.rest ++ lost) none nofun
    have full := (Metered.takes a fits.sized).ok [] none nofun
    rw [List.append_nil, ← whole, List.append_assoc, shorter] at full
    simp only [Except.ok.injEq, Prod.mk.injEq, Input.mk.injEq, List.append_eq_nil_iff] at full
    exact absurd full.2.1.2 some_

namespace Record
variable [Stored α] [Metered α] [Framed α] [Tangible α]

/-- A cut inside of a value is found there, and the values before it are read. -/
theorem decodeFrom_take (index fuel : Nat) {as : List α} (fit : ∀ a ∈ as, Fits a) {n : Nat}
    (enough : n ≤ fuel) (inside : n ≤ (as.flatMap Stored.put).length)
    (apart : ∀ k, n ≠ ((as.take k).flatMap Stored.put).length) :
    ∃ k cause, ((as.take k).flatMap Stored.put).length < n ∧
      n < ((as.take (k + 1)).flatMap Stored.put).length ∧
      decodeFrom (α := α) index fuel ((as.flatMap Stored.put).take n) =
        .error (index + k, cause) := by
  induction as generalizing index fuel n with
  | nil => exact absurd (Nat.le_zero.mp inside) (apart 0)
  | cons a as ih =>
    have positive : 0 < n := Nat.pos_of_ne_zero (apart 0)
    have fits := fit a List.mem_cons_self
    obtain ⟨fuel, rfl⟩ := Nat.exists_eq_succ_of_ne_zero (show fuel ≠ 0 by omega)
    rw [List.flatMap_cons] at inside ⊢
    by_cases first : n < (Stored.put a).length
    · refine ⟨0, ?_⟩
      rw [List.take_append_of_le_length (Nat.le_of_lt first)]
      have lost : (Stored.put a).drop n ≠ [] := by simpa using first
      obtain ⟨cause, refused⟩ :=
        exists_error_of_cut fits (List.take_append_drop n (Stored.put a)) lost
      have some_ : (Stored.put a).take n ≠ [] := by
        simp [Tangible.put_ne_nil a, Nat.pos_iff_ne_zero.mp positive]
      refine ⟨cause, positive, by simpa using first, ?_⟩
      rw [decodeFrom_succ index fuel some_, refused]
      rfl
    · obtain ⟨m, rfl⟩ := Nat.exists_eq_add_of_le (Nat.le_of_not_lt first)
      have later : ∀ k, m ≠ ((as.take k).flatMap Stored.put).length := by
        intro k same
        have := apart (k + 1)
        simp only [List.take_succ_cons, List.flatMap_cons, List.length_append] at this
        omega
      have some_ := List.length_pos_iff.mpr (Tangible.put_ne_nil a)
      rw [List.length_append] at inside
      obtain ⟨k, cause, low, high, refused⟩ := ih (index + 1) fuel
        (fun b mem => fit b (List.mem_cons_of_mem a mem)) (by omega) (by omega) later
      refine ⟨k + 1, cause, ?_, ?_, ?_⟩
      · simp only [List.take_succ_cons, List.flatMap_cons, List.length_append]
        omega
      · simp only [List.take_succ_cons, List.flatMap_cons, List.length_append] at high ⊢
        omega
      · have afford : Metered.charge a ≤ recordLimit := fits
        rw [List.take_length_add_append, decodeFrom_cons index fuel fits.sized, if_pos afford,
          refused]
        simp [Except.map, Nat.add_assoc, Nat.add_comm 1]

end Record

namespace StoreFile
variable [Metered K] [Metered V]

/-- A file that ends inside of its header is refused for that. -/
theorem payload_front_take (path : Path) (format : StoreFormat) (kind : FileKind) {h : Header}
    (four : h.magic.length = 4) {n : Nat} (part : n < (front h).length) :
    payload path format kind ((front h).take n) =
      .error (.corrupted path (if n < 4 then .noHeaderLength else .headerCut)) := by
  have small := length_put_header h four
  have length := Bytes.toNatLE_ofNatLE 4 _ small
  unfold payload
  by_cases early : n < 4
  · have short : (((front h).take n).take 4).length < 4 := by
      rw [List.length_take, List.length_take]
      omega
    rw [if_pos short, if_pos early]
    rfl
  · have first : ((front h).take n).take 4 = Bytes.ofNatLE 4 (Stored.put h).length := by
      rw [List.take_take, Nat.min_eq_left (by omega)]
      simp [front]
    have body : ((((front h).take n).drop 4).take (Stored.put h).length).length <
        (Stored.put h).length := by
      simp only [front, List.length_append, Bytes.length_ofNatLE] at part
      simp only [List.length_take, List.length_drop]
      omega
    simp only [first, length, Bytes.length_ofNatLE, Nat.lt_irrefl, if_false, if_pos body,
      if_neg early]
    rfl

/-- The records of a journal that is cut where nothing is half written. -/
theorem readJournal_take_whole (path : Path) (format : StoreFormat) {records : List (Record K V)}
    (fit : ∀ r ∈ records, Fits r) (k : Nat) :
    readJournal path format ((journal format records).take
      (journal format (records.take k)).length) = .ok (records.take k) := by
  have split : journal format records =
      journal format (records.take k) ++ journalBatch (records.drop k) := by
    rw [journal_append, List.take_append_drop]
  rw [split, List.take_left]
  have sooner : ∀ r ∈ records.take k, Fits r := fun r mem => fit r (List.mem_of_mem_take mem)
  rw [readJournal_journal path format _ fun r mem => (sooner r mem).sized, affordable_eq_ok sooner]

variable [Framed K] [Framed V]

/-- Any other cut is found, and where it is. -/
theorem readJournal_take_part (path : Path) (format : StoreFormat) {records : List (Record K V)}
    (fit : ∀ r ∈ records, Fits r) {n : Nat} (some_ : n ≠ 0)
    (inside : n ≤ (journal format records).length)
    (apart : ∀ k, n ≠ (journal format (records.take k)).length) :
    ∃ fault, readJournal (K := K) (V := V) path format ((journal format records).take n) =
        .error (.corrupted path fault) ∧
      (n < (journalFront format).length ∧ fault = (if n < 4 then .noHeaderLength else .headerCut) ∨
        ∃ k cause, (journal format (records.take k)).length < n ∧
          n < (journal format (records.take (k + 1))).length ∧ fault = .record k cause) := by
  have cut : (journal format records).take n ≠ [] := by
    simp [journal_ne_nil, some_]
  rw [readJournal, if_neg cut]
  by_cases header : n < (journalFront format).length
  · rw [journal, List.take_append_of_le_length (Nat.le_of_lt header), journalFront,
      payload_front_take path format .journal format.four header]
    exact ⟨_, rfl, .inl ⟨header, rfl⟩⟩
  · obtain ⟨m, rfl⟩ := Nat.exists_eq_add_of_le (Nat.le_of_not_lt header)
    rw [journal, List.take_length_add_append]
    simp only [journal, journalBatch, List.length_append, Nat.add_le_add_iff_left, ne_eq,
      Nat.add_left_cancel_iff, Nat.add_lt_add_iff_left] at inside apart ⊢
    obtain ⟨k, cause, low, high, refused⟩ :=
      Record.decodeFrom_take 0 ((records.flatMap Stored.put).take m).length fit
        (by rw [List.length_take]; omega) inside apart
    refine ⟨.record k cause, ?_, .inr ⟨k, cause, low, high, rfl⟩⟩
    rw [journalFront, payload_front]
    change decodeAll path _ = _
    rw [decodeAll, Record.decodeAll, refused, Nat.zero_add]

/-- A cut that no reader sees leaves what had been written first; every other one is seen. -/
theorem readJournal_take (path : Path) (format : StoreFormat) {records : List (Record K V)}
    (fit : ∀ r ∈ records, Fits r) {n : Nat} (inside : n ≤ (journal format records).length) :
    (n = 0 → readJournal (K := K) (V := V) path format ((journal format records).take n) =
      .ok []) ∧
    (∀ k, n = (journal format (records.take k)).length →
      readJournal path format ((journal format records).take n) = .ok (records.take k)) ∧
    (n ≠ 0 → (∀ k, n ≠ (journal format (records.take k)).length) → ∃ fault,
      readJournal (K := K) (V := V) path format ((journal format records).take n) =
        .error (.corrupted path fault)) ∧
    ∀ read, readJournal path format ((journal format records).take n) = .ok read →
      read <+: records := by
  have nothing (zero : n = 0) :
      readJournal (K := K) (V := V) path format ((journal format records).take n) = .ok [] := by
    rw [zero, List.take_zero]
    rfl
  have whole (k : Nat) (same : n = (journal format (records.take k)).length) :
      readJournal path format ((journal format records).take n) = .ok (records.take k) :=
    same ▸ readJournal_take_whole path format fit k
  have part (some_ : n ≠ 0) (apart : ∀ k, n ≠ (journal format (records.take k)).length) :
      ∃ fault, readJournal (K := K) (V := V) path format ((journal format records).take n) =
        .error (.corrupted path fault) :=
    (readJournal_take_part path format fit some_ inside apart).imp fun _ found => found.1
  refine ⟨nothing, whole, part, fun read done => ?_⟩
  by_cases zero : n = 0
  · rw [nothing zero] at done
    cases done
    exact List.nil_prefix
  by_cases between : ∃ k, n = (journal format (records.take k)).length
  · obtain ⟨k, same⟩ := between
    rw [whole k same] at done
    cases done
    exact List.take_prefix k records
  · obtain ⟨fault, refused⟩ := part zero (not_exists.mp between)
    rw [refused] at done
    cases done

/-- The journal of two names, cut between them, inside of the second and inside of its header. -/
theorem readJournal_take_sample :
    let names : List (Record PathId String) := [.put 0 "a", .put 1 "b"]
    let read (n : Nat) := readJournal (K := PathId) (V := String) ⟨"f"⟩ Index.format
      ((journal Index.format names).take n)
    read 0 = .ok [] ∧ read 15 = .ok [.put 0 "a"] ∧
      (∃ fault, read 17 = .error (.corrupted ⟨"f"⟩ fault)) ∧
      (∃ fault, read 7 = .error (.corrupted ⟨"f"⟩ fault)) ∧
      ∀ n ≤ 19, ∀ rs, read n = .ok rs → rs <+: names := by
  intro names read
  have fit : ∀ r ∈ names, Fits r :=
    List.forall_mem_cons.mpr ⟨(by decide : 17 ≤ recordLimit),
      List.forall_mem_singleton.mpr (by decide : 17 ≤ recordLimit)⟩
  have length (k : Nat) : (journal Index.format (names.take k)).length = 11 + 4 * min k 2 := by
    rcases k with _ | _ | k
    · decide
    · decide
    · have all : names.take (k + 2) = names := by simp [names]
      rw [all, Nat.min_eq_right (by omega)]
      decide
  have cut {n : Nat} (inside : n ≤ 19) :=
    readJournal_take ⟨"f"⟩ Index.format fit (Nat.le_trans inside (Nat.le_of_eq (length 2).symm))
  exact ⟨(cut (Nat.zero_le _)).1 rfl,
    (cut (by decide)).2.1 1 (length 1).symm,
    (cut (by decide)).2.2.1 (by decide) fun k => by rw [length]; omega,
    (cut (by decide)).2.2.1 (by decide) fun k => by rw [length]; omega,
    fun n inside => (cut inside).2.2.2⟩

end StoreFile
end BuildCache
