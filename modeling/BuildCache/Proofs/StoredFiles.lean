import BuildCache.Log
import BuildCache.Proofs.Metered

/-!
Files that the store wrote are read as what was written. A file that was opened but got nothing is
as good as none, so a structure's content is told by what its two files were written for.
-/
namespace BuildCache

namespace Checksum

theorem ofBytes_bytes (c : Checksum) : ofBytes c.bytes = c := by
  have low := Bytes.toNatLE_ofNatLE 8 c.low.toNat c.low.toNat_lt
  have high := Bytes.toNatLE_ofNatLE 8 c.high.toNat c.high.toNat_lt
  simp [ofBytes, bytes, low, high]

@[simp] theorem length_bytes (c : Checksum) : c.bytes.length = 16 := by
  simp [bytes]

end Checksum

theorem Integer.length_put_le (n : Nat) : (Integer.put n).length ≤ 9 := by
  unfold Integer.put
  repeat' split
  all_goals simp

open Decoder

theorem takes_fileKind (kind : FileKind) : Takes Stored.take (Stored.put kind) kind 4 := by
  cases kind
  · exact takes_bind (takes_variant (show 0 < 2 by decide) (by decide)) (takes_pure _)
      (List.append_nil _).symm rfl
  · exact takes_bind (takes_variant (show 1 < 2 by decide) (by decide)) (takes_pure _)
      (List.append_nil _).symm rfl

/-- The last field of a header as it is stored. -/
def checksumField : Option Checksum → Bytes
  | none => [0]
  | some c => 1 :: c.bytes

theorem put_header (h : Header) : Stored.put h =
    h.magic ++ Stored.put h.version ++ Stored.put h.kind ++ checksumField h.checksum := by
  obtain ⟨_, _, _, checksum⟩ := h
  cases checksum <;> rfl

/-- The reader of a header's last field, behind the others. -/
def takeChecksum (magic : Bytes) (version : UInt32) (kind : FileKind) : Decoder Header := do
  if ← optionTag then
    return ⟨magic, version, kind, some (Checksum.ofBytes (← charged 16))⟩
  else
    return ⟨magic, version, kind, none⟩

theorem takes_checksum (magic : Bytes) (version : UInt32) (kind : FileKind)
    (checksum : Option Checksum) : ∃ cost, Takes (takeChecksum magic version kind)
      (checksumField checksum) ⟨magic, version, kind, checksum⟩ cost := by
  cases checksum with
  | none => exact ⟨_, takes_bind (takes_optionTag false) (takes_pure _) rfl rfl⟩
  | some c =>
    have bytes := takes_charged c.bytes
    rw [Checksum.length_bytes] at bytes
    have value := takes_map
      (fun bs => Header.mk magic version kind (some (Checksum.ofBytes bs))) bytes
    rw [Checksum.ofBytes_bytes] at value
    exact ⟨_, takes_bind (takes_optionTag true) value rfl rfl⟩

theorem takes_header (h : Header) (four : h.magic.length = 4) :
    ∃ cost, Takes Stored.take (Stored.put h) h cost := by
  have magic := takes_charged h.magic
  rw [four] at magic
  obtain ⟨cost, sum⟩ := takes_checksum h.magic h.version h.kind h.checksum
  have kind := takes_bind (f := takeChecksum h.magic h.version)
    (takes_fileKind h.kind) sum rfl rfl
  have version := takes_bind (f := fun v => Stored.take >>= takeChecksum h.magic v)
    (takes_word h.version) kind rfl rfl
  refine ⟨_, takes_bind (f := fun m => Decoder.word >>= fun v => Stored.take >>= takeChecksum m v)
    magic version ?_ rfl⟩
  rw [put_header, List.append_assoc, List.append_assoc]
  rfl

theorem length_put_header (h : Header) (four : h.magic.length = 4) :
    (Stored.put h).length < Nat.pow 256 4 := by
  have version : (Stored.put h.version).length ≤ 9 := Integer.length_put_le _
  have kind : (Stored.put h.kind).length ≤ 9 := by
    cases h.kind <;> exact Integer.length_put_le _
  have sum : (checksumField h.checksum).length ≤ 17 := by
    cases h.checksum <;> simp [checksumField]
  have bound : Nat.pow 256 4 = 4294967296 := rfl
  simp only [put_header, List.length_append]
  omega

namespace StoreFile

/-- A file that begins with a header is judged by the fields of that header, one after the other. -/
theorem payload_header (path : Path) (format : StoreFormat) (kind : FileKind) (h : Header)
    (four : h.magic.length = 4) (rest : Bytes) :
    payload path format kind (front h ++ rest) =
      if h.magic ≠ format.magic then .error (.corrupted path (.magic h.magic))
      else if h.version ≠ format.version then
        .error (.incompatible path format.version h.version)
      else if h.kind ≠ kind then .error (.corrupted path (.kind kind h.kind))
      else match kind, h.checksum with
        | .snapshot, some c =>
          if rest.checksum ≠ c then .error (.corrupted path .checksum) else .ok rest
        | .snapshot, none => .error (.corrupted path .noChecksum)
        | .journal, _ => .ok rest := by
  have small := length_put_header h four
  have length := Bytes.toNatLE_ofNatLE 4 _ small
  obtain ⟨cost, takes⟩ := takes_header h four
  have header : (Stored.take (α := Header)).run ⟨Stored.put h, none⟩ = .ok (h, ⟨[], none⟩) := by
    simpa using takes.ok [] none nofun
  have first : (front h ++ rest).take 4 = Bytes.ofNatLE 4 (Stored.put h).length := by
    simp [front]
  have second : ((front h ++ rest).drop 4).take (Stored.put h).length = Stored.put h := by
    simp [front]
  have third : (front h ++ rest).drop (4 + (Stored.put h).length) = rest := by
    rw [← List.drop_drop]
    simp [front]
  unfold payload
  simp only [first, second, third, length, header, Bytes.length_ofNatLE, Nat.lt_irrefl, if_false]
  exact if_neg fun trailing => trailing rfl

/-- The kind and the checksum say whether a file that fits the format is accepted. -/
theorem payload_front (path : Path) (format : StoreFormat) (kind : FileKind)
    (checksum : Option Checksum) (rest : Bytes) :
    payload path format kind (front ⟨format.magic, format.version, kind, checksum⟩ ++ rest) =
      match kind, checksum with
      | .snapshot, some c =>
        if rest.checksum ≠ c then .error (.corrupted path .checksum) else .ok rest
      | .snapshot, none => .error (.corrupted path .noChecksum)
      | .journal, _ => .ok rest := by
  rw [payload_header path format kind _ format.four]
  simp only [ne_eq, not_true_eq_false, if_false]

theorem front_ne_nil (h : Header) : front h ≠ [] := by
  simp [front, Bytes.ofNatLE]

variable {K V : Type} [Stored K] [Stored V]

/-- The content of a snapshot file that was written for these pairs, if any were. -/
def IsSnapshot (format : StoreFormat) (pairs : List (K × V)) (raw : Bytes) : Prop :=
  raw = [] ∧ pairs = [] ∨ raw = snapshot format pairs

/-- The content of a journal file that these records were appended to, if any were. -/
def IsJournal (format : StoreFormat) (records : List (Record K V)) (raw : Bytes) : Prop :=
  raw = [] ∧ records = [] ∨ raw = journal format records

theorem journal_ne_nil (format : StoreFormat) (records : List (Record K V)) :
    journal format records ≠ [] := by
  simp [journal, journalFront, front_ne_nil]

/-- A journal as it is once it was opened for appending. -/
def opened (format : StoreFormat) (raw : Bytes) : Bytes :=
  if raw = [] then journalFront format else raw

theorem IsJournal.opened {format : StoreFormat} {records : List (Record K V)} {raw : Bytes}
    (h : IsJournal format records raw) : StoreFile.opened format raw = journal format records := by
  unfold StoreFile.opened
  rcases h with ⟨rfl, rfl⟩ | rfl
  · simp [journal, journalBatch]
  · rw [if_neg (journal_ne_nil format records)]

theorem journal_append (format : StoreFormat) (records batch : List (Record K V)) :
    journal format records ++ journalBatch batch = journal format (records ++ batch) := by
  simp [journal, journalBatch]

theorem eq_nil_of_isSnapshot {format : StoreFormat} {pairs : List (K × V)}
    (isSnapshot : IsSnapshot format pairs []) : pairs = [] := by
  rcases isSnapshot with ⟨_, rfl⟩ | same
  · rfl
  · exact absurd (List.append_eq_nil_iff.mp same.symm).1 (front_ne_nil _)

/-- A journal with nothing behind its header was written for no records. -/
theorem eq_nil_of_isJournal {format : StoreFormat} {records : List (Record K V)}
    (isJournal : IsJournal format records (journalFront format)) : records = [] := by
  rcases isJournal with ⟨_, rfl⟩ | same
  · rfl
  · have nothing := List.append_right_eq_self.mp same.symm
    cases records with
    | nil => rfl
    | cons rec rest =>
      exact absurd (List.append_eq_nil_iff.mp nothing).1 (Tangible.put_ne_nil rec)

theorem decodeAll_other {α : Type} [Stored α] {path : Path} {bs : Bytes} {e : StoreError}
    (h : decodeAll (α := α) path bs = .error e) : ¬e.isIncompatible := by
  unfold decodeAll at h
  split at h
  · cases h
  · cases h
    exact nofun

/-- A snapshot that the store wrote is never taken for one of another version. -/
theorem readSnapshot_other {path : Path} {format : StoreFormat} {pairs : List (K × V)} {raw : Bytes}
    {e : StoreError} (h : IsSnapshot format pairs raw)
    (refused : readSnapshot (K := K) (V := V) path format raw = .error e) : ¬e.isIncompatible := by
  unfold readSnapshot at refused
  rcases h with ⟨rfl, rfl⟩ | rfl
  · cases refused
  · have nonempty : snapshot format pairs ≠ [] := by
      simp [snapshot, snapshotFront, front_ne_nil]
    have body := payload_front path format .snapshot (some (snapshotPayload pairs).checksum)
      (snapshotPayload pairs)
    rw [if_neg nonempty, snapshot, snapshotFront, body] at refused
    simp only [ne_eq, not_true_eq_false, if_false, bind, Except.bind] at refused
    exact decodeAll_other refused

theorem readJournal_other {path : Path} {format : StoreFormat} {records : List (Record K V)}
    {raw : Bytes} {e : StoreError} (h : IsJournal format records raw)
    (refused : readJournal (K := K) (V := V) path format raw = .error e) : ¬e.isIncompatible := by
  unfold readJournal at refused
  rcases h with ⟨rfl, rfl⟩ | rfl
  · cases refused
  · rw [if_neg (journal_ne_nil format records), journal, journalFront, payload_front] at refused
    exact decodeAll_other refused

variable [Metered K] [Metered V] [Tangible K]

theorem readSnapshot_eq (path : Path) {format : StoreFormat} {pairs : List (K × V)} {raw : Bytes}
    (h : IsSnapshot format pairs raw) (fit : ∀ e ∈ pairs, Fits e) :
    readSnapshot path format raw = .ok pairs := by
  unfold readSnapshot
  rcases h with ⟨rfl, rfl⟩ | rfl
  · rfl
  · have nonempty : snapshot format pairs ≠ [] := by
      simp [snapshot, snapshotFront, front_ne_nil]
    have body := payload_front path format .snapshot (some (snapshotPayload pairs).checksum)
      (snapshotPayload pairs)
    rw [if_neg nonempty, snapshot, snapshotFront, body]
    simp [bind, Except.bind, decodeAll, snapshotPayload, Record.decodeAll_flatMap_put pairs fit]

omit [Tangible K] in
theorem readJournal_eq (path : Path) {format : StoreFormat} {records : List (Record K V)}
    {raw : Bytes} (h : IsJournal format records raw) (fit : ∀ r ∈ records, Fits r) :
    readJournal path format raw = .ok records := by
  unfold readJournal
  rcases h with ⟨rfl, rfl⟩ | rfl
  · rfl
  · rw [if_neg (journal_ne_nil format records), journal, journalFront, payload_front]
    simp [bind, Except.bind, decodeAll, journalBatch, Record.decodeAll_flatMap_put records fit]

/-- What a reader gets from a file of the store is what it was written for, or nothing at all. -/
theorem eq_of_readSnapshot {path : Path} {format : StoreFormat} {pairs read : List (K × V)}
    {raw : Bytes} (h : IsSnapshot format pairs raw) (sized : ∀ e ∈ pairs, Metered.Sized e)
    (done : readSnapshot path format raw = .ok read) : read = pairs := by
  unfold readSnapshot at done
  rcases h with ⟨rfl, rfl⟩ | rfl
  · exact (Except.ok.inj done).symm
  · have nonempty : snapshot format pairs ≠ [] := by
      simp [snapshot, snapshotFront, front_ne_nil]
    have body := payload_front path format .snapshot (some (snapshotPayload pairs).checksum)
      (snapshotPayload pairs)
    rw [if_neg nonempty, snapshot, snapshotFront, body] at done
    simp only [ne_eq, not_true_eq_false, if_false, bind, Except.bind, decodeAll] at done
    cases all : Record.decodeAll (α := K × V) (snapshotPayload pairs) with
    | error e =>
      rw [all] at done
      cases done
    | ok es =>
      rw [all] at done
      cases done
      exact Record.eq_of_decodeAll sized all

omit [Tangible K] in
theorem eq_of_readJournal {path : Path} {format : StoreFormat} {records read : List (Record K V)}
    {raw : Bytes} (h : IsJournal format records raw) (sized : ∀ r ∈ records, Metered.Sized r)
    (done : readJournal path format raw = .ok read) : read = records := by
  unfold readJournal at done
  rcases h with ⟨rfl, rfl⟩ | rfl
  · exact (Except.ok.inj done).symm
  · rw [if_neg (journal_ne_nil format records), journal, journalFront, payload_front] at done
    simp only [bind, Except.bind, decodeAll] at done
    cases all : Record.decodeAll (α := Record K V) (journalBatch records) with
    | error e =>
      rw [all] at done
      cases done
    | ok rs =>
      rw [all] at done
      cases done
      exact Record.eq_of_decodeAll sized all

/-- Nothing in a file is longer than the file. -/
theorem sized_of_isJournal {format : StoreFormat} {records : List (Record Slot Bytes)} {raw : Bytes}
    (isJournal : IsJournal format records raw) (short : raw.length < UInt64.size) :
    ∀ rec ∈ records, Metered.Sized rec := by
  rcases isJournal with ⟨rfl, rfl⟩ | rfl
  · exact fun rec mem => absurd mem List.not_mem_nil
  intro rec mem
  have part : (Stored.put rec).length ≤ (journalBatch records).length :=
    (List.sublist_flatten_of_mem (List.mem_map_of_mem mem)).length_le
  rw [journal, List.length_append] at short
  cases rec with
  | remove slot => exact trivial
  | put slot bytes =>
    refine ⟨trivial, ?_⟩
    simp only [Stored.put, List.length_append] at part
    change bytes.length < UInt64.size
    omega

end StoreFile
end BuildCache
