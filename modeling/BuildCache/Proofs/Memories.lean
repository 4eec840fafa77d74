import BuildCache.Memory
import BuildCache.Proofs.Encodable
import BuildCache.Proofs.Entries

/-!
What the cache holds in memory hangs together: every record of an entry belongs to a name and
decodes, under the names as they are, to an entry that was stored under that name, and beside the
entries stands a validation record that the names satisfy. Each single change of memory keeps this,
so that memory may be looked at between any two of them.
-/
namespace BuildCache

/-- The entries that were handed to the cache so far, with their keys. -/
abbrev Stores := List (String × Entry)

/-- The bytes under an identity are an entry that was stored under the name of that identity. -/
def Genuine (stored : Stores) (ns : Names) (id : PathId) (bytes : Bytes) : Prop :=
  ∃ key e, (key, e) ∈ stored ∧ ns.name? id = some key ∧ Entry.decode? ns bytes = .ok e.truncate

theorem Genuine.prefix_ {stored : Stores} {ns ms : Names} {id : PathId} {bytes : Bytes}
    (genuine : Genuine stored ns id bytes) (extends_ : ns.Prefix ms) :
    Genuine stored ms id bytes := by
  obtain ⟨key, e, mem, known, decoded⟩ := genuine
  exact ⟨key, e, mem, extends_.name? known, Entry.decode?_prefix extends_ decoded⟩

theorem Genuine.mono {stored more : Stores} {ns : Names} {id : PathId} {bytes : Bytes}
    (genuine : Genuine stored ns id bytes) (sub : stored ⊆ more) : Genuine more ns id bytes := by
  obtain ⟨key, e, mem, rest⟩ := genuine
  exact ⟨key, e, sub mem, rest⟩

theorem recordedSize_validationRecord (size : Nat) :
    recordedSize (validationRecord size) = some (min size (UInt32.size - 1)) := by
  have small : min size (UInt32.size - 1) < Nat.pow 256 4 :=
    Nat.lt_of_le_of_lt (Nat.min_le_right ..) (by decide)
  have length : (validationRecord size).length = 4 := Bytes.length_ofNatBE 4 _
  have front : (validationRecord size).take 4 = validationRecord size := by
    rw [List.take_of_length_le (by omega)]
  rw [recordedSize, front, length, if_neg (by decide), validationRecord,
    Bytes.toNatBE_ofNatBE 4 _ small]

namespace Memory

def empty : Memory := ⟨.empty, []⟩

/-- Memory after one more change. -/
def after (m : Memory) : Change → Memory
  | .learn names => { m with names }
  | .put slot bytes => { m with records := m.records.insert slot bytes }
  | .remove slot => { m with records := m.records.erase slot }

variable {stored : Stores} {m : Memory}

/-- The validation record, where there must be one, states a size that the names have. -/
def Validated (m : Memory) : Prop :=
  m.records ≠ [] → 0 < m.names.size ∧ ∃ record size, m.records.get? .validation = some record ∧
    recordedSize record = some size ∧ size ≤ m.names.size

structure Coherent (stored : Stores) (m : Memory) : Prop where
  sound : m.names.Sound
  distinct : m.records.keys.Nodup
  genuine : ∀ id bytes, m.records.get? (.entry id) = some bytes → Genuine stored m.names id bytes
  validated : m.Validated

theorem coherent_empty (stored : Stores) : empty.Coherent stored where
  sound := Names.sound_empty
  distinct := List.nodup_nil
  genuine := nofun
  validated nonempty := absurd rfl nonempty

/-- A change that storing or removing an entry may come to. -/
def Allows (stored : Stores) (m : Memory) : Change → Prop
  | .learn names => m.names.Prefix names ∧ names.Sound
  | .put .validation bytes => 0 < m.names.size ∧ bytes = validationRecord m.names.size
  | .put (.entry id) bytes => Genuine stored m.names id bytes ∧
    m.records.get? .validation = some (validationRecord m.names.size)
  | .remove slot => slot ≠ .validation

theorem Coherent.mono {more : Stores} (coherent : m.Coherent stored) (sub : stored ⊆ more) :
    m.Coherent more where
  sound := coherent.sound
  distinct := coherent.distinct
  genuine id bytes found := (coherent.genuine id bytes found).mono sub
  validated := coherent.validated

theorem ne_nil_of_get? {t : Table Slot Bytes} {slot : Slot} {bytes : Bytes}
    (h : t.get? slot = some bytes) : t ≠ [] := by
  rintro rfl
  cases h

/-- No change that is allowed makes the validation record state more names than there are. -/
theorem Validated.after (validated : m.Validated) {change : Change}
    (allowed : m.Allows stored change) : (m.after change).Validated := by
  cases change with
  | learn names =>
    intro nonempty
    obtain ⟨some_, record, size, found, recorded, below⟩ := validated nonempty
    have more := allowed.1.size_le
    exact ⟨Nat.lt_of_lt_of_le some_ more, record, size, found, recorded, Nat.le_trans below more⟩
  | put slot bytes =>
    cases slot with
    | validation =>
      obtain ⟨some_, rfl⟩ := allowed
      refine fun _ => ⟨some_, _, _, ?_, recordedSize_validationRecord _, Nat.min_le_left ..⟩
      rw [Memory.after, Table.get?_insert, if_pos rfl]
    | entry id =>
      obtain ⟨some_, record, size, found, rest⟩ := validated (ne_nil_of_get? allowed.2)
      refine fun _ => ⟨some_, record, size, ?_, rest⟩
      rw [Memory.after, Table.get?_insert, if_neg (by simp)]
      exact found
  | remove slot =>
    intro nonempty
    have before : m.records ≠ [] := by
      intro nothing
      apply nonempty
      rw [Memory.after, nothing]
      rfl
    obtain ⟨some_, record, size, found, rest⟩ := validated before
    refine ⟨some_, record, size, ?_, rest⟩
    rw [Memory.after, Table.get?_erase, if_neg allowed]
    exact found

theorem Coherent.learn {names : Names} (coherent : m.Coherent stored)
    (more : m.names.Prefix names) (sound : names.Sound) :
    (m.after (.learn names)).Coherent stored where
  sound := sound
  distinct := coherent.distinct
  genuine id bytes found := (coherent.genuine id bytes found).prefix_ more
  validated :=
    have allowed : m.Allows stored (.learn names) := ⟨more, sound⟩
    coherent.validated.after allowed

theorem Coherent.validate (coherent : m.Coherent stored) (some_ : 0 < m.names.size) :
    (m.after (.put .validation (validationRecord m.names.size))).Coherent stored where
  sound := coherent.sound
  distinct := Table.nodup_keys_insert coherent.distinct _ _
  genuine id bytes found := by
    refine coherent.genuine id bytes ?_
    rwa [after, Table.get?_insert, if_neg (by simp)] at found
  validated :=
    have allowed : m.Allows stored (.put .validation (validationRecord m.names.size)) := ⟨some_, rfl⟩
    coherent.validated.after allowed

theorem Coherent.putEntry {id : PathId} {bytes : Bytes} (coherent : m.Coherent stored)
    (genuine : Genuine stored m.names id bytes)
    (valid : m.records.get? .validation = some (validationRecord m.names.size)) :
    (m.after (.put (.entry id) bytes)).Coherent stored where
  sound := coherent.sound
  distinct := Table.nodup_keys_insert coherent.distinct _ _
  genuine id' bytes' found := by
    rw [after, Table.get?_insert] at found
    split at found
    · rename_i same
      cases same
      cases found
      exact genuine
    · exact coherent.genuine id' bytes' found
  validated :=
    have allowed : m.Allows stored (.put (.entry id) bytes) := ⟨genuine, valid⟩
    coherent.validated.after allowed

theorem Coherent.remove {slot : Slot} (coherent : m.Coherent stored) (entry : slot ≠ .validation) :
    (m.after (.remove slot)).Coherent stored where
  sound := coherent.sound
  distinct := Table.nodup_keys_erase coherent.distinct _
  genuine id bytes found := by
    rw [after, Table.get?_erase] at found
    split at found
    · cases found
    · exact coherent.genuine id bytes found
  validated :=
    have allowed : m.Allows stored (.remove slot) := entry
    coherent.validated.after allowed

/-- Every change that is allowed keeps memory coherent. -/
theorem Coherent.after (coherent : m.Coherent stored) {change : Change}
    (allowed : m.Allows stored change) : (m.after change).Coherent stored := by
  cases change with
  | learn names => exact coherent.learn allowed.1 allowed.2
  | remove slot => exact coherent.remove allowed
  | put slot bytes =>
    cases slot with
    | validation =>
      obtain ⟨some_, rfl⟩ := allowed
      exact coherent.validate some_
    | entry id => exact coherent.putEntry allowed.1 allowed.2

/-- Each change is allowed where the ones before it lead, and an entry is put only right behind the
validation record of the names as they are. -/
def AllowsAll (stored : Stores) (before : Option Change) (m : Memory) : List Change → Prop
  | [] => True
  | change :: changes => m.Allows stored change ∧
    (∀ id bytes, change = .put (.entry id) bytes →
      before = some (.put .validation (validationRecord m.names.size))) ∧
    (m.after change).AllowsAll stored (some change) changes

theorem allowsAll_removes (before : Option Change) (slots : List Slot)
    (entries : ∀ slot ∈ slots, slot ≠ .validation) :
    m.AllowsAll stored before (slots.map .remove) := by
  induction slots generalizing m before with
  | nil => trivial
  | cons slot slots ih =>
    exact ⟨entries slot List.mem_cons_self, nofun,
      ih _ fun s mem => entries s (List.mem_cons_of_mem slot mem)⟩

theorem allowsAll_removing (m : Memory) (key : String) :
    m.AllowsAll stored none (m.removing key) := by
  unfold removing
  cases m.names.id? key with
  | none => trivial
  | some id => exact ⟨nofun, nofun, trivial⟩

/-- Only entries are ever removed because they match. -/
theorem entry_of_mem_doomed {p : Cached → Bool} {slot : Slot} (h : slot ∈ m.doomed p) :
    slot ≠ .validation := by
  obtain ⟨⟨s, bytes⟩, mem, rfl⟩ := List.mem_map.mp h
  rintro rfl
  cases (List.mem_filter.mp mem).2

/-- The entry has a stored form, and there are identities for its key and its names. -/
def Accepts (m : Memory) (key : String) (e : Entry) : Prop :=
  e.Encodable ∧ (m.names.taking (key :: e.names)).size ≤ Names.capacity

/-- What storing an entry that is accepted comes to. -/
structure Storing (m : Memory) (key : String) (e : Entry) (names : Names) (id : PathId)
    (bytes : Bytes) : Prop where
  changes : m.putting key e =
    [.learn names, .put .validation (validationRecord names.size), .put (.entry id) bytes]
  more : m.names.Prefix names
  sound : names.Sound
  known : names.name? id = some key
  decoded : Entry.decode? names bytes = .ok e.truncate

/-- An entry is stored if it is accepted, and otherwise nothing but names is new. -/
theorem putting_cases (sound : m.names.Sound) (key : String) (e : Entry) :
    (m.Accepts key e ∧ ∃ names id bytes, m.Storing key e names id bytes) ∨
    (¬m.Accepts key e ∧ ∃ names, m.putting key e = [.learn names] ∧ m.names.Prefix names ∧
      names.Sound) := by
  have more := Names.prefix_intern m.names key
  have sound' := sound.intern key
  obtain ⟨can, left⟩ := Names.intern_taking sound key
  have whole : m.names.taking (key :: e.names) = (m.names.taking [key]).taking e.names :=
    Names.taking_append m.names [key] e.names
  unfold putting Accepts
  rw [whole]
  cases interned : m.names.intern key with
  | mk result ns =>
    rw [interned] at more sound' can left
    cases result with
    | error fault =>
      refine .inr ⟨?_, ns, rfl, more, sound'⟩
      rintro ⟨_, room⟩
      cases can.mpr (Nat.le_trans (Names.size_le_taking _ _) room)
    | ok id =>
      have known := Names.name?_intern sound (congrArg Prod.fst interned)
      rw [interned] at known
      obtain rfl : ns = m.names.taking [key] := left rfl
      obtain ⟨more', sound''⟩ := Entry.prefix_encode e sound'
      have stored := Entry.encode_isOk sound' e
      dsimp only
      cases encoded : e.encode (m.names.taking [key]) with
      | mk result names =>
        rw [encoded] at more' sound'' stored
        cases result with
        | error fault =>
          refine .inr ⟨fun accepts => ?_, names, rfl, more.trans more', sound''⟩
          cases stored.mpr accepts
        | ok bytes =>
          refine .inl ⟨stored.mp rfl, names, id, bytes, ?_⟩
          refine ⟨?_, more.trans more', sound'', more'.name? known, ?_⟩
          · simp only [putting, interned, encoded]
          · exact Entry.decode?_encode sound' encoded (.refl names)

theorem allowsAll_putting {key : String} {e : Entry} (sound : m.names.Sound)
    (handed : (key, e) ∈ stored) : m.AllowsAll stored none (m.putting key e) := by
  rcases putting_cases sound key e with ⟨_, names, id, bytes, storing⟩ |
    ⟨_, names, changes, more, sound⟩
  · rw [storing.changes]
    refine ⟨⟨storing.more, storing.sound⟩, nofun, ⟨?_, rfl⟩, nofun, ⟨?_, ?_⟩, ?_, trivial⟩
    · exact Nat.lt_of_le_of_lt (Nat.zero_le _) (Names.lt_size_of_name? storing.known)
    · exact ⟨key, e, handed, storing.known, storing.decoded⟩
    · simp [after, Table.get?_insert]
    · exact fun _ _ _ => rfl
  · rw [changes]
    exact ⟨⟨more, sound⟩, nofun, trivial⟩

/-- Whatever is found under a key was stored under it. -/
theorem Coherent.stored_of_get? (coherent : m.Coherent stored) {key : String} {cached : Cached}
    (found : m.get? key = some cached) : ∃ e, (key, e) ∈ stored ∧ cached = .entry e.truncate := by
  unfold get? at found
  cases known : m.names.id? key with
  | none => simp [known] at found
  | some id =>
    cases record : m.records.get? (.entry id) with
    | none => simp [known, record] at found
    | some bytes =>
      obtain ⟨key', e, mem, name, decoded⟩ := coherent.genuine id bytes record
      rw [(Names.id?_eq_some coherent.sound).mp known] at name
      cases name
      have served : Cached.decode m.names bytes = cached := by simpa [known, record] using found
      rw [Cached.decode, decoded] at served
      exact ⟨e, mem, served.symm⟩

/-- Names that extend the ones of a coherent memory, with the same records, serve the same. -/
theorem Coherent.get?_eq {ns : Names} {t : Table Slot Bytes} (coherent : m.Coherent stored)
    (more : m.names.Prefix ns) (sound : ns.Sound) (same : ∀ slot, t.get? slot = m.records.get? slot)
    (key : String) : get? ⟨ns, t⟩ key = m.get? key := by
  have known {id : PathId} (h : m.names.id? key = some id) : ns.id? key = some id :=
    (Names.id?_eq_some sound).mpr (more.name? ((Names.id?_eq_some coherent.sound).mp h))
  have decoded {id : PathId} {bytes : Bytes} (h : m.records.get? (.entry id) = some bytes) :
      Cached.decode ns bytes = Cached.decode m.names bytes := by
    obtain ⟨_, e, _, _, entry⟩ := coherent.genuine id bytes h
    rw [Cached.decode, Cached.decode, entry, Entry.decode?_prefix more entry]
  unfold get?
  simp only [same]
  cases here : m.names.id? key with
  | some id =>
    rw [known here]
    cases found : m.records.get? (.entry id) with
    | none => simp [found]
    | some bytes => simp [found, decoded found]
  | none =>
    cases there : ns.id? key with
    | none => simp
    | some id =>
      cases found : m.records.get? (.entry id) with
      | none => simp [found]
      | some bytes =>
        obtain ⟨key', _, _, name, _⟩ := coherent.genuine id bytes found
        have same := more.name? name
        rw [(Names.id?_eq_some sound).mp there] at same
        cases same
        rw [(Names.id?_eq_some coherent.sound).mpr name] at here
        cases here

theorem Validated.of_same {ns : Names} {t : Table Slot Bytes} (validated : m.Validated)
    (more : m.names.size ≤ ns.size) (same : ∀ slot, t.get? slot = m.records.get? slot) :
    Validated ⟨ns, t⟩ := by
  intro nonempty
  have before : m.records ≠ [] := by
    intro nothing
    obtain ⟨e, rest, rfl⟩ := List.exists_cons_of_ne_nil nonempty
    have found := same e.1
    rw [nothing, Table.get?_cons, if_pos rfl] at found
    cases found
  obtain ⟨some_, record, size, found, recorded, below⟩ := validated before
  exact ⟨Nat.lt_of_lt_of_le some_ more, record, size, (same _).trans found, recorded,
    Nat.le_trans below more⟩

end Memory
end BuildCache
