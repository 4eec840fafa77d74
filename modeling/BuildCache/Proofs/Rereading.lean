import BuildCache.Cache
import BuildCache.Proofs.Framing

/-!
What becomes of a file that the store wrote. Its own reader gets back every value in order, or is
stopped by the first value that claims more than a record may; a journal grows by what is appended
to it, whoever wrote its beginning; and a reader of another structure, version or kind is told by
the header.
-/
namespace BuildCache

variable {α K V L W : Type} [Stored K] [Stored V] [Stored L] [Stored W]

/-- The value claims more than a single record may. -/
def outsized [Stored α] [Metered α] (a : α) : Bool := recordLimit < Metered.charge a

theorem outsized_eq_false [Stored α] [Metered α] {a : α} : outsized a = false ↔ Fits a := by
  simp [outsized, Fits]

/-- All values, or the number of those before the first that claims too much. -/
def affordable [Stored α] [Metered α] (path : Path) (as : List α) : Except StoreError (List α) :=
  match as.findIdx? outsized with
  | none => .ok as
  | some before => .error (.corrupted path (.record before .overLimit))

theorem affordable_eq_ok [Stored α] [Metered α] {path : Path} {as : List α}
    (fit : ∀ a ∈ as, Fits a) : affordable path as = .ok as := by
  have none_ : as.findIdx? outsized = none :=
    List.findIdx?_eq_none_iff.mpr fun a mem => outsized_eq_false.mpr (fit a mem)
  rw [affordable, none_]

theorem affordable_eq_error [Stored α] [Metered α] {path : Path} {before after : List α} {a : α}
    (fit : ∀ b ∈ before, Fits b) (large : ¬Fits a) : affordable path (before ++ a :: after) =
      .error (.corrupted path (.record before.length .overLimit)) := by
  have first : (before ++ a :: after).findIdx? outsized = some before.length := by
    have none_ : before.findIdx? outsized = none :=
      List.findIdx?_eq_none_iff.mpr fun b mem => outsized_eq_false.mpr (fit b mem)
    have here : outsized a = true := by simpa [← outsized_eq_false] using large
    simp [List.findIdx?_append, none_, List.findIdx?_cons, here]
  rw [affordable, first]

namespace Record
variable [Stored α] [Metered α] [Tangible α]

theorem decodeFrom_flatMap (index fuel : Nat) (as : List α) (sized : ∀ a ∈ as, Metered.Sized a)
    (enough : (as.flatMap Stored.put).length ≤ fuel) :
    decodeFrom index fuel (as.flatMap Stored.put) = match as.findIdx? outsized with
      | none => .ok as
      | some before => .error (index + before, .overLimit) := by
  induction as generalizing index fuel with
  | nil => cases fuel <;> rfl
  | cons a as ih =>
    have some_ := List.length_pos_iff.mpr (Tangible.put_ne_nil a)
    rw [List.flatMap_cons, List.length_append] at enough
    obtain ⟨fuel, rfl⟩ := Nat.exists_eq_succ_of_ne_zero (show fuel ≠ 0 by omega)
    rw [List.flatMap_cons, decodeFrom_cons index fuel (sized a List.mem_cons_self),
      List.findIdx?_cons]
    by_cases fits : Fits a
    · have afford : Metered.charge a ≤ recordLimit := fits
      have here : outsized a = false := outsized_eq_false.mpr fits
      rw [if_pos afford, here, ih (index + 1) fuel
        (fun b mem => sized b (List.mem_cons_of_mem a mem)) (by omega)]
      cases as.findIdx? outsized with
      | none => rfl
      | some before => simp [Except.map, Nat.add_assoc, Nat.add_comm 1]
    · have short : ¬Metered.charge a ≤ recordLimit := fits
      have here : outsized a = true := by simpa [← outsized_eq_false] using fits
      rw [if_neg short, here]
      rfl

end Record

namespace StoreFile

theorem decodeAll_flatMap [Stored α] [Metered α] [Tangible α] (path : Path) (as : List α)
    (sized : ∀ a ∈ as, Metered.Sized a) :
    decodeAll path (as.flatMap Stored.put) = affordable path as := by
  unfold decodeAll affordable Record.decodeAll
  rw [Record.decodeFrom_flatMap 0 _ as sized (Nat.le_refl _)]
  cases as.findIdx? outsized with
  | none => rfl
  | some before => simp

/-- A whole file that the store wrote, or what an empty one grew to. -/
inductive Written (K V : Type) [Stored K] [Stored V] (format : StoreFormat) :
    FileKind → Bytes → Prop
  | snapshot (pairs : List (K × V)) : Written K V format .snapshot (snapshot format pairs)
  | journal (records : List (Record K V)) : Written K V format .journal (journal format records)

theorem Written.exists_front {format : StoreFormat} {kind : FileKind} {raw : Bytes}
    (written : Written K V format kind raw) :
    ∃ sum body, raw = front ⟨format.magic, format.version, kind, sum⟩ ++ body := by
  cases written with
  | snapshot pairs => exact ⟨_, _, rfl⟩
  | journal records => exact ⟨_, _, rfl⟩

/-- How a reader of one format and kind names a file of another. -/
def mismatch (path : Path) (asked : StoreFormat) (askedKind : FileKind) (found : StoreFormat)
    (foundKind : FileKind) : StoreError :=
  if found.magic ≠ asked.magic then .corrupted path (.magic found.magic)
  else if found.version ≠ asked.version then .incompatible path asked.version found.version
  else .corrupted path (.kind askedKind foundKind)

theorem Written.payload_other {format asked : StoreFormat} {kind askedKind : FileKind} {raw : Bytes}
    (written : Written K V format kind raw) (path : Path) (other : asked ≠ format ∨ askedKind ≠ kind) :
    raw ≠ [] ∧
      payload path asked askedKind raw = .error (mismatch path asked askedKind format kind) := by
  obtain ⟨sum, body, rfl⟩ := written.exists_front
  refine ⟨List.append_ne_nil_of_left_ne_nil (front_ne_nil _) _, ?_⟩
  rw [payload_header path asked askedKind _ format.four, mismatch]
  by_cases magic : format.magic = asked.magic
  · by_cases version : format.version = asked.version
    · have different : kind ≠ askedKind := by
        rintro rfl
        obtain other | other := other
        · obtain ⟨_, _, _⟩ := format
          obtain ⟨_, _, _⟩ := asked
          cases magic
          cases version
          exact other rfl
        · exact other rfl
      simp only [magic, version, different, ne_eq, not_true_eq_false, not_false_eq_true, if_true,
        if_false]
    · simp only [magic, version, ne_eq, not_true_eq_false, not_false_eq_true, if_true, if_false]
  · simp only [magic, ne_eq, not_false_eq_true, if_true]

variable [Metered K] [Metered V]

theorem readSnapshot_snapshot [Tangible K] (path : Path) (format : StoreFormat)
    (pairs : List (K × V)) (sized : ∀ e ∈ pairs, Metered.Sized e) :
    readSnapshot path format (snapshot format pairs) = affordable path pairs := by
  have some_ : snapshot format pairs ≠ [] := by simp [snapshot, snapshotFront, front_ne_nil]
  rw [readSnapshot, if_neg some_, snapshot, snapshotFront, payload_front]
  simp only [ne_eq, not_true_eq_false, if_false]
  exact decodeAll_flatMap path pairs sized

theorem readJournal_journal (path : Path) (format : StoreFormat) (records : List (Record K V))
    (sized : ∀ r ∈ records, Metered.Sized r) :
    readJournal path format (journal format records) = affordable path records := by
  rw [readJournal, if_neg (journal_ne_nil format records), journal, journalFront, payload_front]
  exact decodeAll_flatMap path records sized

/-- Files are read back by their own reader up to the limit, journals grow by appending, and no
other reader takes them. -/
theorem read_written [Framed K] [Framed V] [Tangible K] (path : Path) (format : StoreFormat) :
    (∀ pairs : List (K × V), (∀ e ∈ pairs, Metered.Sized e) →
      readSnapshot path format (snapshot format pairs) = affordable path pairs) ∧
    (∀ records : List (Record K V), (∀ r ∈ records, Metered.Sized r) →
      readJournal path format (journal format records) = affordable path records) ∧
    (∀ (raw : Bytes) (before added : List (Record K V)), raw ≠ [] →
      readJournal path format raw = .ok before → (∀ r ∈ added, Fits r) →
        readJournal path format (raw ++ journalBatch added) = .ok (before ++ added)) ∧
    ∀ (asked : StoreFormat) (kind : FileKind) (raw : Bytes), Written K V format kind raw →
      (asked ≠ format ∨ kind ≠ .snapshot → readSnapshot (K := L) (V := W) path asked raw =
        .error (mismatch path asked .snapshot format kind)) ∧
      (asked ≠ format ∨ kind ≠ .journal → readJournal (K := L) (V := W) path asked raw =
        .error (mismatch path asked .journal format kind)) := by
  refine ⟨readSnapshot_snapshot path format, readJournal_journal path format,
    fun raw before added some_ read fit => readJournal_append some_ read fit,
    fun asked kind raw written => ⟨fun other => ?_, fun other => ?_⟩⟩
  · obtain ⟨some_, refused⟩ := written.payload_other path (other.imp_right Ne.symm)
    rw [readSnapshot, if_neg some_, refused]
    rfl
  · obtain ⟨some_, refused⟩ := written.payload_other path (other.imp_right Ne.symm)
    rw [readJournal, if_neg some_, refused]
    rfl

/-- A snapshot whose second pair is too large for any reader, a journal of names that grows by one
more, and one of entries that neither of two other readers takes. -/
theorem read_written_sample :
    (∃ large : Bytes, readSnapshot (K := Slot) (V := Bytes) ⟨"f"⟩ Cache.format
      (snapshot Cache.format ([(.validation, [7]), (.entry 0, large)] : List (Slot × Bytes))) =
        .error (.corrupted ⟨"f"⟩ (.record 1 .overLimit))) ∧
    readJournal (K := PathId) (V := String) ⟨"f"⟩ Index.format
      (journal Index.format ([.put 0 "a"] : List (Record PathId String)) ++
        journalBatch ([.put 1 "b"] : List (Record PathId String))) =
          .ok [.put 0 "a", .put 1 "b"] ∧
    readJournal (K := PathId) (V := String) ⟨"f"⟩ Index.format
      (journal Cache.format [Record.put Slot.validation ([7] : Bytes)]) =
        .error (.corrupted ⟨"f"⟩ (.magic [65, 67, 77, 80])) ∧
    readSnapshot (K := PathId) (V := String) ⟨"f"⟩ Cache.format
      (journal Cache.format [Record.put Slot.validation ([7] : Bytes)]) =
        .error (.corrupted ⟨"f"⟩ (.kind .snapshot .journal)) := by
  obtain ⟨snapshots, -, -, others⟩ :=
    read_written (K := Slot) (V := Bytes) (L := PathId) (W := String) ⟨"f"⟩ Cache.format
  obtain ⟨-, journals, grows, -⟩ :=
    read_written (K := PathId) (V := String) (L := PathId) (W := String) ⟨"f"⟩ Index.format
  have fits (id : PathId) (name : String) (short : (Text.utf8 name).length = 1) :
      Fits (Record.put id name) := by
    change 4 + (4 + (8 + (Text.utf8 name).length)) ≤ 67108864
    omega
  have first := fits 0 "a" rfl
  have second := fits 1 "b" rfl
  have written : Written Slot Bytes Cache.format .journal
      (journal Cache.format [Record.put Slot.validation ([7] : Bytes)]) := .journal _
  refine ⟨?_, ?_, ?_, ?_⟩
  · obtain ⟨large, length⟩ : ∃ large : Bytes, large.length = recordLimit :=
      ⟨List.replicate recordLimit 0, List.length_replicate⟩
    have small : Fits (Slot.validation, ([7] : Bytes)) := by
      change 4 + (8 + 1) ≤ 67108864
      decide
    have refused : ¬Fits (Slot.entry 0, large) := by
      change ¬8 + (8 + large.length) ≤ recordLimit
      omega
    have sized : large.length < UInt64.size := length ▸ recordLimit_lt
    refine ⟨large, ?_⟩
    rw [snapshots _ (List.forall_mem_cons.mpr ⟨small.sized, List.forall_mem_singleton.mpr
      ⟨trivial, sized⟩⟩)]
    exact affordable_eq_error (List.forall_mem_singleton.mpr small) refused
  · have read : readJournal (K := PathId) (V := String) ⟨"f"⟩ Index.format
        (journal Index.format ([.put 0 "a"] : List (Record PathId String))) =
          .ok [.put 0 "a"] := by
      rw [journals _ (List.forall_mem_singleton.mpr first.sized)]
      exact affordable_eq_ok (List.forall_mem_singleton.mpr first)
    exact grows _ _ _ (journal_ne_nil _ _) read (List.forall_mem_singleton.mpr second)
  · exact ((others Index.format .journal _ written).2 (.inl (by decide))).trans
      (congrArg Except.error (by decide))
  · exact ((others Cache.format .journal _ written).1 (.inr nofun)).trans
      (congrArg Except.error (by decide))

end StoreFile
end BuildCache
