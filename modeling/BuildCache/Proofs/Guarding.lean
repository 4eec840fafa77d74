import BuildCache.Proofs.Dropping
import BuildCache.Proofs.Mentions
import BuildCache.Proofs.Openings
import BuildCache.Proofs.Serving

/-!
What the validation record is good for. At every moment it states a number above each identity that
an entry has or speaks of, and no more names than the index knows. So an index that has lost its last
names, but not below that number, still decodes every entry; one that has lost more is found out.
-/
namespace BuildCache

open Disk Program Situation

variable {stored : Stores} {layout : Layout} {cwd r : Place} {start d d' : Disk} {s : Situation}
  {c : Cache} {ns front : Names}

namespace Memory
variable {m : Memory} {n : Nat}

/-- The validation record states `n`, and `n` is above every identity of an entry and every identity
in its bytes. -/
structure Guards (m : Memory) (n : Nat) : Prop where
  recorded : ∃ record, m.records.get? .validation = some record ∧ recordedSize record = some n
  some_ : 0 < n
  le : n ≤ m.names.size
  own : ∀ id bytes, m.records.get? (.entry id) = some bytes → id.toNat < n
  mentioned : ∀ id bytes, m.records.get? (.entry id) = some bytes →
    ∃ ids, Entry.mentioned? bytes = .ok ids ∧ ∀ other ∈ ids, other.toNat < n

def Guarded (m : Memory) : Prop := m.records ≠ [] → ∃ n, m.Guards n

theorem guarded_empty : Memory.empty.Guarded := fun nonempty => absurd rfl nonempty

/-- An entry speaks only of names that are known. -/
theorem mentioned_of_genuine {id : PathId} {bytes : Bytes} (genuine : Genuine stored ns id bytes) :
    id.toNat < ns.size ∧
      ∃ ids, Entry.mentioned? bytes = .ok ids ∧ ∀ other ∈ ids, other.toNat < ns.size := by
  obtain ⟨key, e, _, known, decoded⟩ := genuine
  obtain ⟨ids, scanned, enough⟩ := Entry.mentioned_of_decode? decoded
  exact ⟨Names.lt_size_of_name? known, ids, scanned, (enough ns (.refl ns)).mp decoded⟩

theorem Guards.of_same {t : Table Slot Bytes} (guards : m.Guards n) (more : n ≤ ns.size)
    (same : ∀ slot, t.get? slot = m.records.get? slot) : Guards ⟨ns, t⟩ n where
  recorded := by
    obtain ⟨record, found, states⟩ := guards.recorded
    exact ⟨record, (same _).trans found, states⟩
  some_ := guards.some_
  le := more
  own id bytes found := guards.own id bytes ((same _).symm.trans found)
  mentioned id bytes found := guards.mentioned id bytes ((same _).symm.trans found)

/-- The record guards every entry all the same where names are new that no entry speaks of. -/
theorem Guards.learn (guards : m.Guards n) (more : m.names.Prefix ns) :
    (m.after (.learn ns)).Guards n :=
  guards.of_same (Nat.le_trans guards.le more.size_le) fun _ => rfl

/-- The number is the one in the record. -/
theorem Guarded.guards_of_stated {k : Nat} (guarded : m.Guarded)
    (stated : (m.records.get? .validation).bind recordedSize = some k) : m.Guards k := by
  obtain ⟨record, found, states⟩ := Option.bind_eq_some_iff.mp stated
  obtain ⟨n, guards⟩ := guarded (ne_nil_of_get? found)
  obtain ⟨record', found', states'⟩ := guards.recorded
  cases found.symm.trans found'
  cases states.symm.trans states'
  exact guards

theorem Guarded.of_same {t : Table Slot Bytes} (guarded : m.Guarded)
    (more : m.names.size ≤ ns.size) (same : ∀ slot, t.get? slot = m.records.get? slot) :
    Guarded ⟨ns, t⟩ := by
  intro nonempty
  obtain ⟨e, rest, rfl⟩ := List.exists_cons_of_ne_nil nonempty
  have found := same e.1
  rw [Table.get?_cons, if_pos rfl] at found
  obtain ⟨n, guards⟩ := guarded (ne_nil_of_get? found.symm)
  exact ⟨n, guards.of_same (Nat.le_trans guards.le more) same⟩

/-- The record of an index that has an identity to spare states its size. -/
theorem recordedSize_of_few {size : Nat} (few : size < UInt32.size) :
    recordedSize (validationRecord size) = some size := by
  rw [recordedSize_validationRecord, Nat.min_eq_left (Nat.le_sub_one_of_lt few)]

/-- A record of the index as it is guards all that is coherent. -/
theorem Coherent.guards (coherent : m.Coherent stored) (some_ : 0 < m.names.size)
    (few : m.names.size < UInt32.size)
    (valid : m.records.get? .validation = some (validationRecord m.names.size)) :
    m.Guards m.names.size where
  recorded := ⟨_, valid, recordedSize_of_few few⟩
  some_ := some_
  le := Nat.le_refl _
  own id bytes found := (mentioned_of_genuine (coherent.genuine id bytes found)).1
  mentioned id bytes found := (mentioned_of_genuine (coherent.genuine id bytes found)).2

/-- Every change that is allowed keeps the guard. -/
theorem Guarded.after {change : Change} (guarded : m.Guarded) (coherent : m.Coherent stored)
    (allowed : m.Allows stored change) (few : (m.after change).names.size < UInt32.size) :
    (m.after change).Guarded := by
  have coherent' := coherent.after allowed
  cases change with
  | learn names => exact guarded.of_same allowed.1.size_le fun _ => rfl
  | remove slot =>
    intro nonempty
    have before : m.records ≠ [] := by
      intro nothing
      apply nonempty
      rw [Memory.after, nothing]
      rfl
    obtain ⟨n, guards⟩ := guarded before
    have kept {key : Slot} {bytes : Bytes} (found : (m.records.erase slot).get? key = some bytes) :
        m.records.get? key = some bytes := by
      rw [Table.get?_erase] at found
      split at found
      · cases found
      · exact found
    obtain ⟨record, found, states⟩ := guards.recorded
    refine ⟨n, ⟨record, ?_, states⟩, guards.some_, guards.le, fun id bytes found => ?_,
      fun id bytes found => ?_⟩
    · rw [Memory.after, Table.get?_erase, if_neg allowed]
      exact found
    · exact guards.own id bytes (kept found)
    · exact guards.mentioned id bytes (kept found)
  | put slot bytes =>
    cases slot with
    | validation =>
      obtain ⟨some_, rfl⟩ := allowed
      refine fun _ => ⟨_, coherent'.guards some_ few ?_⟩
      rw [Memory.after, Table.get?_insert, if_pos rfl]
    | entry id =>
      -- the record was put right before, and the names are as they were then
      obtain ⟨genuine, valid⟩ := allowed
      have some_ := Nat.lt_of_le_of_lt (Nat.zero_le _) (mentioned_of_genuine genuine).1
      refine fun _ => ⟨_, coherent'.guards some_ few ?_⟩
      rw [Memory.after, Table.get?_insert, if_neg (by simp)]
      exact valid

/-- Names that reach up to the record are enough for every entry. -/
theorem Guards.coherent_front (guards : m.Guards n) (coherent : m.Coherent stored)
    (front_ : front.Prefix m.names) (enough : n ≤ front.size) :
    Coherent stored ⟨front, m.records⟩ where
  sound := front_.sound coherent.sound
  distinct := coherent.distinct
  genuine id bytes found := by
    obtain ⟨key, e, mem, known, decoded⟩ := coherent.genuine id bytes found
    obtain ⟨ids, scanned, below⟩ := guards.mentioned id bytes found
    obtain ⟨ids', scanned', reaches⟩ := Entry.mentioned_of_decode? decoded
    rw [scanned] at scanned'
    cases scanned'
    have small := Nat.lt_of_lt_of_le (guards.own id bytes found) enough
    have here : front.name? id = some front.toList[id.toNat] := List.getElem?_eq_getElem small
    have same := front_.name? here
    rw [known] at same
    cases same
    refine ⟨_, e, mem, here, (reaches front front_).mpr fun other inside => ?_⟩
    exact Nat.lt_of_lt_of_le (below other inside) enough
  validated _ := by
    obtain ⟨record, found, states⟩ := guards.recorded
    exact ⟨Nat.lt_of_lt_of_le guards.some_ enough, record, n, found, states, enough⟩

end Memory

/-! ### Over a run -/

theorem Kept.readable {home : Home} {m : Memory} (kept : Kept .sized stored home d m ns) :
    Readable stored home d := by
  obtain ⟨told, index, spells⟩ := kept.index
  obtain ⟨told', map, _⟩ := kept.map
  refine ⟨told, told', index, map.mono fun _ said => said.1, fun ns' spells' _ _ rec mem => ?_⟩
  have more := kept.above.trans (spells.toldBy.prefix_ kept.sound spells')
  exact (map.each rec mem).2.prefix_ more

theorem reopens_sized (straight : layout.Straight cwd r) (apart : layout.Apart cwd r) :
    Measure.sized.Reopens layout cwd r := by
  intro stored past m ns d options c messages d' kept lives opening
  obtain ⟨regular, settled⟩ := kept.readable.regular past straight apart lives opening
  exact ⟨regular, settled.pending regular.consistent regular.stands.indexFormat⟩

/-- A cache that opens over files which hold a guarded memory is guarded. -/
theorem Kept.guarded_of_open {m : Memory} {options : Options} {messages : List Diagnostic}
    (kept : Kept .sized stored (Layout.home r) d m ns) (guarded : m.Guarded)
    (straight : layout.Straight cwd r) (apart : layout.Apart cwd r) (lives : layout.Lives cwd r d)
    (opening : Runs .none cwd (Cache.open layout options) d (.ok c, messages) d') :
    c.memory.Guarded := by
  obtain ⟨told, index, spells⟩ := kept.index
  obtain ⟨told', map, covers⟩ := kept.map
  cases Cache.always_open_any straight apart lives index (map.mono fun _ said => said.1) options
    _ _ opening c messages rfl with
  | loaded spells' sound validated opened =>
    have more := kept.above.trans (spells.toldBy.prefix_ kept.sound spells')
    rw [opened.memory]
    exact guarded.of_same more.size_le covers.get?_replay
  | reset empty opened =>
    rw [opened.memory]
    exact Memory.guarded_empty

/-- Nothing is refused, and a session in which the cache was cleared ends only after a save. -/
def Rules.settling : Rules := .calm True fun s => ¬s.cleared

namespace Situation

/-- The files are intact, and memory was guarded at every moment. -/
structure Watched (home : Home) (s : Situation) : Prop where
  intact : s.Intact .sized True home
  guarded : ∀ m ∈ s.past, m.Guarded

theorem Watched.changed :
    KeptByChanges .sized .none layout cwd r (Watched (Layout.home r)) := by
  intro s change c d regular allowed led changed within regular' watched
  refine ⟨?_, ?_⟩
  · refine Intact.changed s change c d regular allowed (fun id bytes entry => ?_) changed within
      regular' watched.intact
    obtain ⟨s₀, led⟩ := led id bytes entry
    exact ⟨s₀, led.regular, led.holds.intact, led.allowed, led.changed, led.within, led.same⟩
  · have few := within.count
    rw [changed.memory] at few
    refine List.forall_mem_cons.mpr ⟨?_, watched.guarded⟩
    rw [changed.memory]
    exact (watched.guarded _ regular.recent).after regular.consistent.coherent allowed few

theorem invariant_settling (empty : layout.Empty cwd r start) (apart : layout.Apart cwd r) :
    Invariant .sized .settling layout cwd r start (Watched (Layout.home r)) := by
  have dry (s : Situation) (ends : ¬s.cleared) (cleared : s.spilled → s.cleared ∧ True) :
      ¬s.spilled := fun spilled => ends (cleared spilled).1
  have inv : Invariant .sized (.calm True fun s => ¬s.cleared) layout cwd r start _ :=
    invariant_calm empty (reopens_sized empty.straight apart) dry
  exact {
    opened := fun options c messages d opening => by
      obtain ⟨regular, intact⟩ := inv.opened options c messages d opening
      obtain ⟨_, _, opened, _⟩ := regular_of_empty (μ := .sized) empty opening
      refine ⟨regular, intact, List.forall_mem_singleton.mpr ?_⟩
      rw [opened.memory]
      exact Memory.guarded_empty
    handed := fun s more sub watched => ⟨inv.handed s more sub watched.intact, watched.guarded⟩
    changed := Watched.changed
    cleared := fun s may regular watched =>
      ⟨inv.cleared s may regular watched.intact,
        List.forall_mem_cons.mpr ⟨Memory.guarded_empty, watched.guarded⟩⟩
    saved := fun s n c d regular saved regular' settled watched =>
      ⟨intact_saved regular' settled, watched.guarded⟩
    unsaved := fun s e c d _ _ saved => by cases saved.isOk Faults.not_possible_none
    reopened := fun s options c messages d regular may watched opening => by
      obtain ⟨regular', intact⟩ :=
        inv.reopened s options c messages d regular may watched.intact opening
      obtain ⟨ns, kept⟩ := watched.intact.kept (dry s may fun spilled =>
        ⟨watched.intact.spilled spilled, trivial⟩)
      have guarded := kept.guarded_of_open (watched.guarded _ watched.intact.past) empty.straight
        apart regular.lives opening
      exact ⟨regular', intact, List.forall_mem_cons.mpr ⟨guarded, watched.guarded⟩⟩
    stopped := fun s options c messages d d' _ _ may => may.elim }

end Situation

/-! ### What the record finds out -/

namespace Memory
variable {m : Memory} {n : Nat}

theorem judged_of_validated (validated : m.Validated) : m.judged = .ok m := by
  unfold judged
  split
  · rfl
  · rename_i nonempty
    rw [Cache.validate_eq_ok.mpr (validated (by simpa using nonempty))]

theorem judged_of_not_validated (spoilt : ¬m.Validated) :
    ∃ e, m.judged = .error e ∧ ¬e.isIncompatible := by
  have nonempty : m.records ≠ [] := fun nothing => spoilt fun some_ => absurd nothing some_
  unfold judged
  rw [if_neg (by simpa using nonempty)]
  cases judged : Cache.validate m.records m.names.size with
  | ok u => exact absurd (fun _ => Cache.validate_eq_ok.mp judged) spoilt
  | error fault => exact ⟨_, rfl, nofun⟩

/-- Names that do not reach up to the record are found out. -/
theorem Guards.not_validated {t : Table Slot Bytes} (guards : m.Guards n) (below : front.size < n)
    (same : ∀ slot, t.get? slot = m.records.get? slot) : ¬Validated ⟨front, t⟩ := by
  intro validated
  obtain ⟨record, found, states⟩ := guards.recorded
  have here := (same .validation).trans found
  obtain ⟨_, record', size, there, states', le⟩ := validated (ne_nil_of_get? here)
  cases here.symm.trans there
  cases states.symm.trans states'
  exact absurd le (Nat.not_le.mpr below)

end Memory

theorem Layout.Direct.isApart {l : Layout} (direct : l.Direct cwd) :
    l.Apart cwd (goal cwd l.root) where
  outside := direct.outside
  inside := direct.inside
  start := direct.start
  start' := direct.origin

theorem Layout.Lives.there (lives : layout.Lives cwd r d) : layout.There cwd d :=
  ⟨lives.sound, lives.start, lives.isDir⟩

end BuildCache
