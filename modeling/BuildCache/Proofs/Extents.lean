import BuildCache.Proofs.Framing
import BuildCache.Proofs.Mentions

/-!
A stored form says where it ends. No reader looks behind the bytes that it takes, although a byte
string is first held against all that is left; so bytes that decode have no proper front that does,
and nothing may follow them. Nothing is assumed about the names or about who wrote the bytes.
-/
namespace BuildCache

namespace Reader
variable {α β : Type} {r : Reader α} {f : α → Reader β}

/-- Where the reader succeeds, the bytes that it took are all that it went by. -/
def Contained (r : Reader α) : Prop :=
  ∀ bs a rest, r.run bs = (.ok a, rest) → ∃ front, bs = front ++ rest ∧ Reads r front a

theorem contained_pure (a : α) : Contained (pure a : Reader α) := by
  intro bs b rest h
  cases h
  exact ⟨[], rfl, reads_pure a⟩

theorem contained_throw (fault : DecodeFault) : Contained (throw fault : Reader α) := by
  intro bs a rest h
  cases h

theorem contained_bind (first : Contained r) (second : ∀ a, Contained (f a)) :
    Contained (r >>= f) := by
  intro bs b rest h
  obtain ⟨a, middle, taken, behind⟩ := run_bind_eq_ok h
  obtain ⟨front, rfl, reads⟩ := first bs a middle taken
  obtain ⟨more, rfl, reads'⟩ := second a middle b rest behind
  exact ⟨front ++ more, (List.append_assoc ..).symm, reads_bind reads reads' rfl⟩

theorem contained_map (g : α → β) (first : Contained r) : Contained (do return g (← r)) :=
  contained_bind first fun a => contained_pure (g a)

theorem contained_ite {c : Prop} [Decidable c] {s : Reader α} (yes : Contained r)
    (no : Contained s) : Contained (if c then r else s) := by
  split
  · exact yes
  · exact no

/-- Of two byte strings that a reader takes whole, neither goes on behind the other. -/
theorem Reads.eq_of_append {bs cs more rest : Bytes} {a b : α} (h : Reads r bs a)
    (h' : Reads r cs b) (same : bs ++ more = cs ++ rest) : a = b ∧ bs = cs := by
  have run := h more
  rw [same, h' rest] at run
  cases run
  exact ⟨rfl, List.append_cancel_right same⟩

end Reader

namespace Field
open Reader

theorem contained_integer (type : IntType) : Contained (takeInteger type) := by
  intro bs n rest h
  rw [run_takeInteger] at h
  cases taken : Integer.take type bs with
  | error cause =>
    rw [taken] at h
    cases h
  | ok r =>
    rw [taken] at h
    cases h
    obtain ⟨front, bytes, again⟩ := Integer.take_eq_ok taken
    refine ⟨front, bytes, fun more => ?_⟩
    rw [run_takeInteger, again more]

theorem contained_u32 : Contained takeU32 := contained_map _ (contained_integer .u32)

theorem contained_u64 : Contained takeU64 := contained_map _ (contained_integer .u64)

theorem contained_i32 : Contained takeI32 := contained_map _ (contained_integer .i32)

theorem contained_i64 : Contained takeI64 := contained_map _ (contained_integer .i64)

theorem contained_length (what : String) : Contained (takeLength what) :=
  contained_bind contained_i32 fun _ => contained_ite (contained_throw _) (contained_pure _)

theorem contained_flag (what : String) : Contained (takeFlag what) := by
  intro bs b rest h
  cases bs with
  | nil => cases h
  | cons tag bs =>
    change (if tag = 0 then _ else _ : Reader Bool).run bs = _ at h
    by_cases zero : tag = 0
    · subst zero
      cases h
      exact ⟨[0], rfl, reads_flag what false⟩
    rw [if_neg zero] at h
    by_cases one : tag = 1
    · subst one
      cases h
      exact ⟨[1], rfl, reads_flag what true⟩
    · rw [if_neg one] at h
      cases h

theorem run_takeBytes (what : String) (n : Nat) {bs middle : Bytes}
    (counted : (takeLength what).run bs = (.ok n, middle)) :
    (takeBytes what).run bs =
      if middle.length < n then (.error (.overrun what n middle.length), middle)
      else (.ok (middle.take n), middle.drop n) := by
  rw [takeBytes, Reader.run_bind, counted]
  change (if (middle.take n).length < n then _ else _ : Reader Bytes).run middle = _
  rw [List.length_take]
  by_cases short : middle.length < n
  · rw [if_pos short, if_pos (by omega)]
    rfl
  · rw [if_neg short, if_neg (by omega)]
    rfl

/-- More bytes behind a byte string are more to hold its length against, and no more is asked. -/
theorem contained_bytes (what : String) : Contained (takeBytes what) := by
  intro bs ds rest h
  obtain ⟨n, middle, counted, _⟩ := run_bind_eq_ok h
  rw [run_takeBytes what n counted] at h
  split at h
  · cases h
  rename_i long
  cases h
  obtain ⟨front, rfl, reads⟩ := contained_length what bs n middle counted
  refine ⟨front ++ middle.take n, ?_, fun more => ?_⟩
  · rw [List.append_assoc, List.take_append_drop]
  · have whole : (middle.take n).length = n := by
      rw [List.length_take]
      omega
    have enough : ¬(middle.take n ++ more).length < n := by
      rw [List.length_append]
      omega
    rw [List.append_assoc, run_takeBytes what n (reads _), if_neg enough, List.take_left' whole,
      List.drop_left' whole]

theorem run_finish (bs : Bytes) :
    finish.run bs = if bs = [] then (.ok (), bs) else (.error (.trailing bs.length), bs) := by
  cases bs <;> rfl

end Field

namespace Entry
open Reader BuildCache.Field

variable {α : Type} {ns : Names} {r : Reader α}

theorem contained_name (ns : Names) : Contained (takeName ns) := by
  refine contained_bind contained_u32 fun id => ?_
  cases ns.name? id with
  | none => exact contained_throw _
  | some s => exact contained_pure s

theorem contained_optional (what : String) (each : Contained r) : Contained (takeOptional what r) :=
  contained_bind (contained_flag what) fun _ =>
    contained_ite (contained_map some each) (contained_pure none)

theorem contained_expiration : Contained takeExpiration :=
  contained_bind contained_i64 fun _ =>
    contained_ite (contained_pure none) (contained_ite (contained_throw _) (contained_pure _))

theorem contained_metadata (ns : Names) : Contained (takeMetadata ns) :=
  contained_bind (contained_bytes _) fun _ => contained_bind contained_u64 fun _ =>
    contained_bind contained_u32 fun _ => contained_bind contained_expiration fun _ =>
      contained_bind (contained_optional _ (contained_name ns)) fun _ => contained_pure _

theorem contained_many (each : Contained r) (n : Nat) : Contained (takeMany r n) := by
  induction n with
  | zero => exact contained_pure []
  | succ n ih => exact contained_bind each fun a => contained_map (a :: ·) ih

theorem contained_listing (what : String) (ns : Names) (each : Contained r) (n : Nat)
    (l : Listing α) : Contained (takeListing what ns r n l) := by
  induction n generalizing l with
  | zero => exact contained_pure l
  | succ n ih =>
    refine contained_bind (contained_name ns) fun name => contained_bind each fun value => ?_
    exact contained_ite (contained_throw _) (ih (l.insert name value))

theorem contained_tree (ns : Names) : Contained (takeTree ns) :=
  contained_bind (contained_length _) fun count =>
    contained_bind (contained_listing _ ns (contained_metadata ns) count _) fun _ =>
      contained_bind (contained_optional _ (contained_metadata ns)) fun _ =>
        contained_bind (contained_optional _ (contained_name ns)) fun _ => contained_pure _

theorem contained_inputs (ns : Names) : Contained (takeInputs ns) :=
  contained_bind contained_i32 fun _ =>
    contained_ite (contained_pure none) (contained_ite (contained_throw _)
      (contained_map some (contained_many (contained_name ns) _)))

/-- The fields of an entry, with whatever may follow them. -/
def takeFields (ns : Names) : Reader Entry := do
  let key := ofLatin1 (← takeBytes "action key")
  let fileDigest ← takeBytes "file digest"
  let inputs ← takeInputs ns
  let propertiesDigest ← takeBytes "properties digest"
  let fileCount ← takeLength "output file count"
  let files ← takeListing "output file" ns (takeMetadata ns) fileCount .empty
  let treeCount ← takeLength "output tree count"
  let trees ← takeListing "output tree" ns (takeTree ns) treeCount .empty
  return { key, fileDigest, inputs, propertiesDigest, files, trees }

theorem take_eq (ns : Names) : take ns = do
    let e ← takeFields ns
    finish
    return e := by
  simp only [take, takeFields, bind_assoc, pure_bind]

theorem contained_fields (ns : Names) : Contained (takeFields ns) :=
  contained_bind (contained_bytes _) fun _ => contained_bind (contained_bytes _) fun _ =>
    contained_bind (contained_inputs ns) fun _ => contained_bind (contained_bytes _) fun _ =>
      contained_bind (contained_length _) fun files =>
        contained_bind (contained_listing _ ns (contained_metadata ns) files _) fun _ =>
          contained_bind (contained_length _) fun trees =>
            contained_bind (contained_listing _ ns (contained_tree ns) trees _) fun _ =>
              contained_pure _

/-- What is left behind the fields of an entry decides about the whole. -/
theorem decode?_of_reads {bs : Bytes} {e : Entry} (reads : Reads (takeFields ns) bs e)
    (more : Bytes) :
    decode? ns (bs ++ more) = if more = [] then .ok e else .error (.trailing more.length) := by
  rw [decode?, take_eq, reads.run_bind, Reader.run_bind, run_finish]
  by_cases none_ : more = []
  · rw [if_pos none_, if_pos none_]
    rfl
  · rw [if_neg none_, if_neg none_]

/-- Bytes decode exactly if the fields of an entry are all of them. -/
theorem decode?_eq_ok_iff {bs : Bytes} {e : Entry} :
    decode? ns bs = .ok e ↔ Reads (takeFields ns) bs e := by
  constructor
  · intro decoded
    obtain ⟨rest, taken⟩ := run_of_decode? decoded
    rw [take_eq] at taken
    obtain ⟨e', middle, taken, behind⟩ := run_bind_eq_ok taken
    obtain ⟨front, rfl, reads⟩ := contained_fields ns bs e' middle taken
    rw [decode?_of_reads reads] at decoded
    split at decoded
    · rename_i nothing
      cases decoded
      rwa [nothing, List.append_nil]
    · cases decoded
  · intro reads
    have whole := decode?_of_reads reads []
    rwa [List.append_nil, if_pos rfl] at whole

theorem decode_of_error {bs : Bytes} {fault : DecodeFault} (h : decode? ns bs = .error fault) :
    Cached.decode ns bs = .corrupted := by
  rw [Cached.decode, h]

/-- Bytes that decode do so whole: cut short anywhere they come back as corrupted, and so they do
with anything behind them. -/
theorem corrupted_of_cut_or_extended {bs : Bytes} {e : Entry} (decoded : decode? ns bs = .ok e) :
    (∀ front, front <+: bs → front ≠ bs →
      (∃ fault, decode? ns front = .error fault) ∧ Cached.decode ns front = .corrupted) ∧
    ∀ more, more ≠ [] → decode? ns (bs ++ more) = .error (.trailing more.length) ∧
      Cached.decode ns (bs ++ more) = .corrupted := by
  have reads := decode?_eq_ok_iff.mp decoded
  constructor
  · rintro front ⟨back, rfl⟩ proper
    cases cut : decode? ns front with
    | error fault => exact ⟨⟨fault, rfl⟩, decode_of_error cut⟩
    | ok e' =>
      -- the fields would end both here and later
      have whole : front ++ back = (front ++ back) ++ [] := (List.append_nil _).symm
      have same := (decode?_eq_ok_iff.mp cut).eq_of_append reads whole
      exact absurd same.2 proper
  · intro more some_
    have extended := decode?_of_reads reads more
    rw [if_neg some_] at extended
    exact ⟨extended, decode_of_error extended⟩

/-- Bytes that no encoder writes, one byte short and one byte long. -/
theorem corrupted_of_cut_or_extended_overlong :
    let bs : Bytes := [251, 0, 0, 0, 1, 0, 4, 1, 0, 5, 0, 1, 0, 251, 0, 0, 0, 7, 0, 1, 0, 0]
    (∃ e, decode? ⟨["a", "b"]⟩ bs = .ok e) ∧
      Cached.decode ⟨["a", "b"]⟩ bs.dropLast = .corrupted ∧
        Cached.decode ⟨["a", "b"]⟩ (bs ++ [0]) = .corrupted := by
  intro bs
  have read : (decode? ⟨["a", "b"]⟩ bs).isOk := by decide +kernel
  cases decoded : decode? ⟨["a", "b"]⟩ bs with
  | error fault =>
    rw [decoded] at read
    cases read
  | ok e =>
    obtain ⟨cut, extended⟩ := corrupted_of_cut_or_extended decoded
    have shorter := cut bs.dropLast (List.dropLast_prefix bs) (by decide)
    exact ⟨⟨e, rfl⟩, shorter.2, (extended [0] (by decide)).2⟩

end Entry
end BuildCache
