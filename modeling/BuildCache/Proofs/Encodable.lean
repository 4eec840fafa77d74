import BuildCache.Proofs.Interning

/-!
Which entries have a stored form, told without the encoder: the characters of the key are bytes, no
list or byte string is too long, no expiration lies outside the format, and there is an identity
left for each name that is new. The names are those that the encoder asks for, in its order.
-/
namespace BuildCache

namespace Names

/-- The names with every new one of `ss` behind them, as if there were always an identity left. -/
def taking (ns : Names) (ss : List String) : Names :=
  ⟨ss.foldl (fun known s => if s ∈ known then known else known ++ [s]) ns.toList⟩

variable {ns : Names} {s : String} {ss ts : List String}

theorem taking_append (ns : Names) (ss ts : List String) :
    ns.taking (ss ++ ts) = (ns.taking ss).taking ts := by
  rw [taking, taking, taking, List.foldl_append]

theorem size_le_taking (ns : Names) (ss : List String) : ns.size ≤ (ns.taking ss).size := by
  induction ss generalizing ns with
  | nil => exact Nat.le_refl _
  | cons s ss ih =>
    refine Nat.le_trans ?_ (ih (ns.taking [s]))
    change ns.toList.length ≤ (if s ∈ ns.toList then ns.toList else ns.toList ++ [s]).length
    split
    · exact Nat.le_refl _
    · simp

/-- A name gets its identity exactly if it is known or there is an identity left. -/
theorem intern_taking (sound : ns.Sound) (s : String) :
    ((ns.intern s).1.isOk ↔ (ns.taking [s]).size ≤ capacity) ∧
      ((ns.intern s).1.isOk → (ns.intern s).2 = ns.taking [s]) := by
  have room := sound.room
  rcases intern_cases ns s with ⟨id, known, eq⟩ | ⟨new, left, eq⟩ | ⟨full, eq⟩
  · have mem : s ∈ ns.toList := by
      apply Classical.byContradiction
      intro new
      rw [id?_eq_none.mpr new] at known
      cases known
    have same : ns.taking [s] = ns := congrArg Names.mk (if_pos mem)
    rw [eq, same]
    exact ⟨iff_of_true rfl room, fun _ => rfl⟩
  · have same : ns.taking [s] = ⟨ns.toList ++ [s]⟩ := congrArg Names.mk (if_neg new)
    rw [eq, same]
    refine ⟨iff_of_true rfl ?_, fun _ => rfl⟩
    rw [size, List.length_append]
    exact left
  · obtain ⟨new, full⟩ : s ∉ ns.toList ∧ ns.size = capacity := by
      rcases full with full | excess
      · exact full
      · exact absurd room (Nat.not_le.mpr excess)
    have same : ns.taking [s] = ⟨ns.toList ++ [s]⟩ := congrArg Names.mk (if_neg new)
    have excess : ¬(ns.taking [s]).size ≤ capacity := by
      rw [same, size, List.length_append, ← full]
      exact Nat.not_succ_le_self _
    rw [eq]
    exact ⟨iff_of_false Bool.false_ne_true excess, fun ok => by cases ok⟩

end Names

def FileMetadata.names (m : FileMetadata) : List String := m.resolved.toList

def TreeMetadata.names (t : TreeMetadata) : List String :=
  (t.children.toList.flatMap fun f => f.1 :: f.2.names) ++
    (t.archived.toList.flatMap FileMetadata.names ++ t.resolved.toList)

/-- The names that an entry speaks of, its key apart. -/
def Entry.names (e : Entry) : List String :=
  e.inputs.getD [] ++ ((e.files.toList.flatMap fun f => f.1 :: f.2.names) ++
    e.trees.toList.flatMap fun t => t.1 :: t.2.names)

structure FileMetadata.Encodable (m : FileMetadata) : Prop where
  digest : m.digest.length < Field.lengthBound
  expiration : ∀ t ∈ m.expiration, 0 ≤ t ∧ t.millis < Entry.expirationBound

structure TreeMetadata.Encodable (t : TreeMetadata) : Prop where
  count : t.children.length < Field.lengthBound
  children : ∀ f ∈ t.children.toList, f.2.Encodable
  archived : ∀ a ∈ t.archived, a.Encodable

structure Entry.Encodable (e : Entry) : Prop where
  key : ∀ c ∈ e.key.toList, c.toNat < 256
  keyLength : e.key.toList.length < Field.lengthBound
  fileDigest : e.fileDigest.length < Field.lengthBound
  inputs : ∀ inputs ∈ e.inputs, inputs.length < Field.lengthBound
  propertiesDigest : e.propertiesDigest.length < Field.lengthBound
  fileCount : e.files.length < Field.lengthBound
  files : ∀ f ∈ e.files.toList, f.2.Encodable
  treeCount : e.trees.length < Field.lengthBound
  trees : ∀ t ∈ e.trees.toList, t.2.Encodable

namespace Interning
variable {α β : Type} {p : Interning α} {f : α → Interning β} {ss ts : List String} {ok ok' : Prop}

/-- The encoder asks for these names, and besides that it takes nothing but `ok` to succeed. -/
structure Asks (p : Interning α) (ss : List String) (ok : Prop) : Prop where
  isOk : ∀ ns : Names, ns.Sound →
    ((p.run ns).1.isOk ↔ ok ∧ (ns.taking ss).size ≤ Names.capacity)
  leaves : ∀ ns : Names, ns.Sound → (p.run ns).1.isOk → (p.run ns).2 = ns.taking ss

theorem asks_pure (a : α) : Asks (pure a) [] True where
  isOk _ sound := iff_of_true rfl ⟨trivial, sound.room⟩
  leaves _ _ _ := rfl

theorem Asks.congr (asks : Asks p ss ok) (names : ss = ts) (same : ok ↔ ok') : Asks p ts ok' where
  isOk ns sound := by rw [← names, ← same, asks.isOk ns sound]
  leaves ns sound done := names ▸ asks.leaves ns sound done

/-- A step that asks for no name, and then the rest. -/
theorem asks_lift_bind {x : Except EncodeFault α}
    (next : ∀ a, x = .ok a → Asks (f a) ss ok) : Asks (liftM x >>= f) ss (x.isOk ∧ ok) := by
  cases x with
  | error e =>
    refine ⟨fun ns _ => iff_of_false nofun ?_, nofun⟩
    rintro ⟨⟨done, _⟩, _⟩
    cases done
  | ok a =>
    have done : (Except.ok a : Except EncodeFault α).isOk := rfl
    exact (next a rfl).congr rfl (and_iff_right done).symm

theorem asks_bind (grows : Grows p) (first : Asks p ss ok) (next : ∀ a, Asks (f a) ts ok') :
    Asks (p >>= f) (ss ++ ts) (ok ∧ ok') := by
  have both (ns : Names) (sound : ns.Sound) :
      (((p >>= f).run ns).1.isOk ↔ (ok ∧ ok') ∧ (ns.taking (ss ++ ts)).size ≤ Names.capacity) ∧
        (((p >>= f).run ns).1.isOk → ((p >>= f).run ns).2 = ns.taking (ss ++ ts)) := by
    obtain ⟨_, sound'⟩ := grows.adds ns sound
    have can := first.isOk ns sound
    have left := first.leaves ns sound
    rw [Names.taking_append, run_bind]
    cases step : p.run ns with
    | mk result ns' =>
      rw [step] at sound' can left
      cases result with
      | error e =>
        refine ⟨iff_of_false nofun ?_, nofun⟩
        rintro ⟨⟨first_, _⟩, room⟩
        have room := Nat.le_trans (Names.size_le_taking _ ts) room
        cases can.mpr ⟨first_, room⟩
      | ok a =>
        obtain ⟨first_, room⟩ := can.mp rfl
        obtain rfl : ns' = ns.taking ss := left rfl
        refine ⟨?_, (next a).leaves _ sound'⟩
        rw [(next a).isOk _ sound', and_iff_right first_]
  exact ⟨fun ns sound => (both ns sound).1, fun ns sound => (both ns sound).2⟩

end Interning

namespace Entry
open Interning BuildCache.Field

theorem putLength_isOk (what : String) (n : Nat) : (putLength what n).isOk ↔ n < lengthBound := by
  unfold putLength
  split <;> simp [*, Except.isOk, Except.toBool]

theorem putBytes_isOk (what : String) (bs : Bytes) :
    (putBytes what bs).isOk ↔ bs.length < lengthBound := by
  rw [← putLength_isOk what, putBytes]
  cases putLength what bs.length <;> rfl

theorem putExpiration_isOk (t? : Option Instant) :
    (putExpiration t?).isOk ↔ ∀ t ∈ t?, 0 ≤ t ∧ t.millis < expirationBound := by
  cases t? with
  | none => exact iff_of_true rfl nofun
  | some t =>
    simp only [putExpiration, Option.mem_some_iff, forall_eq']
    split
    · rename_i before
      exact iff_of_false nofun fun h => absurd before (Int.not_lt.mpr h.1)
    split
    · rename_i far
      exact iff_of_false nofun fun h => absurd far (Nat.not_le.mpr h.2)
    · rename_i notBefore near
      exact iff_of_true rfl ⟨Int.not_lt.mp notBefore, Nat.lt_of_not_le near⟩

theorem latin1_isOk (cs : List Char) : (latin1 cs).isOk ↔ ∀ c ∈ cs, c.toNat < 256 := by
  induction cs with
  | nil => exact iff_of_true rfl nofun
  | cons c cs ih =>
    rw [latin1, List.forall_mem_cons, ← ih]
    split
    · rename_i byte
      cases latin1 cs <;> simp [byte, Except.map, Except.isOk, Except.toBool]
    · rename_i other
      exact iff_of_false nofun fun h => other h.1

theorem length_latin1 {cs : List Char} {bs : Bytes} (h : latin1 cs = .ok bs) :
    bs.length = cs.length := by
  induction cs generalizing bs with
  | nil =>
    cases h
    rfl
  | cons c cs ih =>
    rw [latin1] at h
    split at h
    · cases rest : latin1 cs with
      | error e =>
        rw [rest] at h
        cases h
      | ok bs =>
        rw [rest] at h
        cases h
        simp [ih rest]
    · cases h

variable {α : Type}

theorem asks_putName (s : String) : Asks (putName s) [s] True := by
  have interns : Asks (ExceptT.mk fun ns => ns.intern s : Interning PathId) [s] True :=
    ⟨fun ns sound => by
      rw [true_and]
      exact (Names.intern_taking sound s).1, fun ns sound => (Names.intern_taking sound s).2⟩
  exact (asks_bind (grows_intern s) interns fun _ => asks_pure _).congr rfl (iff_of_eq (and_true _))

theorem asks_putEach {put : α → Interning Bytes} {names : α → List String} {ok : α → Prop}
    (grows : ∀ a, Grows (put a)) (each : ∀ a, Asks (put a) (names a) (ok a)) (as : List α) :
    Asks (putEach put as) (as.flatMap names) (∀ a ∈ as, ok a) := by
  induction as with
  | nil => exact (asks_pure _).congr rfl (iff_of_true trivial nofun)
  | cons a as ih =>
    have rest (first : Bytes) := asks_bind (f := fun pieces => pure (first ++ pieces))
      (grows_putEach grows as) ih fun _ => asks_pure _
    refine (asks_bind (grows a) (each a) rest).congr ?_ ?_
    · rw [List.append_nil, List.flatMap_cons]
    · rw [and_true, List.forall_mem_cons]

theorem asks_putOptional {put : α → Interning Bytes} {names : α → List String} {ok : α → Prop}
    (grows : ∀ a, Grows (put a)) (each : ∀ a, Asks (put a) (names a) (ok a)) (a? : Option α) :
    Asks (putOptional put a?) (a?.toList.flatMap names) (∀ a ∈ a?, ok a) := by
  cases a? with
  | none => exact (asks_pure _).congr rfl (iff_of_true trivial nofun)
  | some a =>
    refine (asks_bind (grows a) (each a) fun _ => asks_pure _).congr ?_ ?_
    · simp
    · simp

theorem asks_putPath (s? : Option String) : Asks (putOptional putName s?) s?.toList True :=
  (asks_putOptional grows_putName asks_putName s?).congr (by simp)
    (iff_of_true (fun _ _ => trivial) trivial)

theorem asks_putMetadata (m : FileMetadata) : Asks (putMetadata m) m.names m.Encodable := by
  refine (asks_lift_bind fun _ _ => asks_lift_bind fun _ _ =>
    asks_bind (grows_putOptional grows_putName m.resolved) (asks_putPath m.resolved)
      fun _ => asks_pure _).congr (List.append_nil _) ?_
  rw [putBytes_isOk, putExpiration_isOk, and_true, and_true]
  exact ⟨fun h => ⟨h.1, h.2⟩, fun h => ⟨h.digest, h.expiration⟩⟩

theorem asks_putFile (f : String × FileMetadata) :
    Asks (putFile f) (f.1 :: f.2.names) f.2.Encodable := by
  refine (asks_bind (grows_putName f.1) (asks_putName f.1) fun _ =>
    asks_bind (grows_putMetadata f.2) (asks_putMetadata f.2) fun _ => asks_pure _).congr ?_ ?_
  · rw [List.append_nil, List.singleton_append]
  · rw [true_and, and_true]

theorem asks_putTree (t : String × TreeMetadata) :
    Asks (putTree t) (t.1 :: t.2.names) t.2.Encodable := by
  refine (asks_bind (grows_putName t.1) (asks_putName t.1) fun _ => asks_lift_bind fun _ _ =>
    asks_bind (grows_putEach grows_putFile _) (asks_putEach grows_putFile asks_putFile _)
      fun _ => asks_bind (grows_putOptional grows_putMetadata _)
        (asks_putOptional grows_putMetadata asks_putMetadata t.2.archived) fun _ =>
          asks_bind (grows_putOptional grows_putName _) (asks_putPath t.2.resolved) fun _ =>
            asks_pure _).congr ?_ ?_
  · simp [TreeMetadata.names]
  · rw [putLength_isOk]
    constructor
    · rintro ⟨_, count, children, archived, _⟩
      exact ⟨count, children, archived⟩
    · rintro ⟨count, children, archived⟩
      exact ⟨trivial, count, children, archived, trivial, trivial⟩

theorem asks_putInputs (inputs : Option (List String)) :
    Asks (putInputs inputs) (inputs.getD []) (∀ names ∈ inputs, names.length < lengthBound) := by
  cases inputs with
  | none => exact (asks_pure _).congr rfl (iff_of_true trivial nofun)
  | some names =>
    refine (asks_lift_bind fun _ _ => asks_bind (grows_putEach grows_putName names)
      (asks_putEach grows_putName asks_putName names) fun _ => asks_pure _).congr ?_ ?_
    · simp
    · rw [putLength_isOk]
      simp

theorem asks_put (e : Entry) : Asks (put e) e.names e.Encodable := by
  have keyed {latin : Bytes} (known : latin1 e.key.toList = .ok latin) :
      (putBytes "action key" latin).isOk ↔ e.key.toList.length < lengthBound := by
    rw [putBytes_isOk, length_latin1 known]
  refine (asks_lift_bind fun latin known => (asks_lift_bind fun _ _ => asks_lift_bind fun _ _ =>
    asks_bind (grows_putInputs e.inputs) (asks_putInputs e.inputs) fun _ =>
      asks_lift_bind fun _ _ => asks_lift_bind fun _ _ =>
        asks_bind (grows_putEach grows_putFile _) (asks_putEach grows_putFile asks_putFile _)
          fun _ => asks_lift_bind fun _ _ => asks_bind (grows_putEach grows_putTree _)
            (asks_putEach grows_putTree asks_putTree _) fun _ => asks_pure _).congr rfl
              (and_congr_left' (keyed known))).congr ?_ ?_
  · rw [List.append_nil]
    rfl
  · rw [latin1_isOk, putBytes_isOk, putBytes_isOk, putLength_isOk, putLength_isOk, and_true]
    constructor
    · rintro ⟨key, keyLength, fileDigest, inputs, propertiesDigest, fileCount, files, rest⟩
      exact ⟨key, keyLength, fileDigest, inputs, propertiesDigest, fileCount, files, rest.1, rest.2⟩
    · rintro ⟨key, keyLength, fileDigest, inputs, propertiesDigest, fileCount, files, treeCount, trees⟩
      exact ⟨key, keyLength, fileDigest, inputs, propertiesDigest, fileCount, files, treeCount, trees⟩

/-- An entry has a stored form exactly if it is encodable and there are identities for its names. -/
theorem encode_isOk {ns : Names} (sound : ns.Sound) (e : Entry) :
    (e.encode ns).1.isOk ↔ e.Encodable ∧ (ns.taking e.names).size ≤ Names.capacity :=
  (asks_put e).isOk ns sound

end Entry
end BuildCache
