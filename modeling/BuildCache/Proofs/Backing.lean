import BuildCache.Proofs.Regularity
import BuildCache.Proofs.Rehearsals
import BuildCache.Proofs.Resets

/-!
What the files of a cache are good for when they are read again, whichever operations of a save
were refused before. A record of the map speaks of names; either the files of the index tell all of
them, or the validation record in the files of the map states as many, so that an index with fewer
is found too small.
-/
namespace BuildCache

open Disk Program

/-- Texts and byte strings of a length that a machine word can say, and identities to spare. -/
def Measure.sized : Measure :=
  ⟨Metered.Sized, Metered.Sized, (· < UInt32.size), fun _ => trivial⟩

theorem Memory.Within.sized {m : Memory} (within : m.Within .fits)
    (few : m.names.size < UInt32.size) : m.Within .sized where
  names id s known := Fits.sized (within.names id s known)
  records slot bytes found := Fits.sized (within.records slot bytes found)
  count := few

theorem Memory.within_sized_of_modest {m : Memory} (modest : m.modest) : m.Within .sized := by
  have limit : UInt32.size = 4294967296 := rfl
  have few := size_le_of_modest modest
  exact (within_fits_of_modest modest).sized (by omega)

variable {stored more : Stores} {home : Home} {d d' : Disk} {ns ms : Names}
  {told told₁ : List (Record PathId String)} {told' : List (Record Slot Bytes)}
  {pending : Table Slot (Option Bytes)} {rec : Record Slot Bytes} {n m : Nat}

/-- The size that the latest validation record states. -/
def stamp (rs : List (Record Slot Bytes)) : Nat :=
  ((Record.latest rs .validation).join.bind recordedSize).getD 0

theorem stamp_records (distinct : pending.keys.Nodup) :
    stamp (told' ++ Log.records pending) =
      (((pending.get? .validation).or (Record.latest told' .validation)).join.bind
        recordedSize).getD 0 := by
  rw [stamp, Record.latest_append, Log.records, Record.latest_map_of distinct]

theorem stamp_perm {batch : Table Slot (Option Bytes)} (distinct : pending.keys.Nodup)
    (perm : batch.Perm pending) :
    stamp (told' ++ Log.records batch) = stamp (told' ++ Log.records pending) := by
  have distinct' : batch.keys.Nodup := (perm.map Prod.fst).symm.nodup distinct
  rw [stamp_records distinct, stamp_records distinct', Table.get?_perm distinct' perm]

/-- Names up to which a reader of the index will have come, if it comes to `n` names at all. -/
def Backed (stored : Stores) (told : List (Record PathId String)) (ns : Names) (n : Nat)
    (rec : Record Slot Bytes) : Prop :=
  ∃ ms : Names, ms.Prefix ns ∧ Authentic stored ms rec ∧ (ms.ToldBy told ∨ ms.size ≤ n)

theorem Backed.authentic (backed : Backed stored told ns n rec) : Authentic stored ns rec := by
  obtain ⟨ms, front, authentic, _⟩ := backed
  exact authentic.prefix_ front

theorem backed_of_toldBy (authentic : Authentic stored ns rec) (toldBy : ns.ToldBy told) :
    Backed stored told ns n rec :=
  ⟨ns, .refl ns, authentic, .inl toldBy⟩

theorem backed_of_le (authentic : Authentic stored ns rec) (le : ns.size ≤ n) :
    Backed stored told ns n rec :=
  ⟨ns, .refl ns, authentic, .inr le⟩

theorem backed_remove (slot : Slot) : Backed stored told ns n (.remove slot) :=
  ⟨.empty, Names.empty_prefix ns, trivial, .inr (Nat.zero_le n)⟩

theorem Backed.handed (backed : Backed stored told ns n rec) (sub : stored ⊆ more) :
    Backed more told ns n rec := by
  obtain ⟨ms, front, authentic, rest⟩ := backed
  exact ⟨ms, front, authentic.mono sub, rest⟩

theorem Backed.mono (backed : Backed stored told ns n rec) (front : ns.Prefix ms)
    (sub : told ⊆ told₁ ∨ ns.ToldBy told₁) (le : ∀ k, k ≤ ns.size → k ≤ n → k ≤ m) :
    Backed stored told₁ ms m rec := by
  obtain ⟨ls, front', authentic, known⟩ := backed
  refine ⟨ls, front'.trans front, authentic, ?_⟩
  rcases known with toldBy | small
  · rcases sub with sub | all
    · exact .inl (toldBy.mono sub)
    · exact .inl (all.of_front front')
  · exact .inr (le _ front'.size_le small)

/-- Whoever reads the files gets true records out of them, if names at all and as many as the
validation record states. -/
def Readable (stored : Stores) (home : Home) (d : Disk) : Prop :=
  ∃ told told', Log.Tells Metered.Sized home.index Index.format d told ∧
    Log.Tells Metered.Sized home.map Cache.format d told' ∧
    ∀ ns, Names.Spells told ns → ns.Sound → stamp told' ≤ ns.size →
      ∀ rec ∈ told', Authentic stored ns rec

theorem Readable.handed (readable : Readable stored home d) (sub : stored ⊆ more) :
    Readable more home d := by
  obtain ⟨told, told', index, map, good⟩ := readable
  exact ⟨told, told', index, map, fun ns spells sound enough rec mem =>
    (good ns spells sound enough rec mem).mono sub⟩

theorem Readable.sameAt (readable : Readable stored home d) (same : SameAt home.files d d') :
    Readable stored home d' := by
  obtain ⟨told, told', index, map, good⟩ := readable
  refine ⟨told, told', ?_, ?_, good⟩
  · exact index.same_content (same _ (by simp [Home.files])) (same _ (by simp [Home.files]))
  · exact map.same_content (same _ (by simp [Home.files])) (same _ (by simp [Home.files]))

/-- While no save has failed, every name that a record speaks of is told before it is. -/
structure Anchored (stored : Stores) (home : Home) (ns : Names) (ilog : Log PathId String)
    (d : Disk) (told : List (Record PathId String)) (told' : List (Record Slot Bytes)) : Prop where
  index : Log.Tells Metered.Sized home.index Index.format d told
  noted : Index.Noted ns ilog told
  map : Log.Tells Metered.Sized home.map Cache.format d told'
  each : ∀ rec ∈ told', ∃ ms : Names, ms.Sound ∧ ms.ToldBy told ∧ Authentic stored ms rec

theorem Anchored.readable {ilog : Log PathId String}
    (anchored : Anchored stored home ns ilog d told told') : Readable stored home d := by
  refine ⟨told, told', anchored.index, anchored.map, fun ns spells sound _ rec mem => ?_⟩
  obtain ⟨ms, sound', toldBy, authentic⟩ := anchored.each rec mem
  exact authentic.prefix_ (toldBy.prefix_ sound' spells)

/-- While nothing was cleared, all records speak of one line of names. -/
structure Grounded (stored : Stores) (home : Home) (ns : Names)
    (pending : Table Slot (Option Bytes))
    (d : Disk) (told : List (Record PathId String)) (told' : List (Record Slot Bytes)) : Prop where
  index : Log.Tells (fun rec => ns.Tells rec ∧ Metered.Sized rec) home.index Index.format d told
  map : Log.Tells Metered.Sized home.map Cache.format d told'
  each : ∀ rec ∈ told',
    Backed stored told ns (min (stamp told') (stamp (told' ++ Log.records pending))) rec
  pending : ∀ rec ∈ Log.records pending,
    Backed stored told ns (stamp (told' ++ Log.records pending)) rec

theorem Grounded.readable (grounded : Grounded stored home ns pending d told told')
    (sound : ns.Sound) : Readable stored home d := by
  refine ⟨told, told', grounded.index.mono fun _ h => h.2, grounded.map,
    fun ms spells sound' enough rec mem => ?_⟩
  have front : ms.Prefix ns := Names.prefix_of_name? sound'.room fun id s known =>
    (grounded.index.each _ (spells.toldBy id s known)).1
  obtain ⟨ls, front', authentic, known⟩ := grounded.each rec mem
  rcases known with toldBy | small
  · exact authentic.prefix_ (toldBy.prefix_ (front'.sound sound) spells)
  · -- both are first ones of the same names, and there are enough of those that were read
    have le : ls.size ≤ ms.size := by omega
    exact authentic.prefix_ (List.prefix_of_prefix_length_le front' front le)

namespace Grounded
variable {slot : Slot} {bytes? : Option Bytes}

/-- One more mutation is noted, of names that are backed, and the stamp does not fall. -/
theorem noted (grounded : Grounded stored home ns pending d told told')
    (new : Backed stored told ns (stamp (told' ++ Log.records (pending.insert slot bytes?)))
      (.of slot bytes?))
    (rises : ∀ k, k ≤ ns.size → k ≤ stamp (told' ++ Log.records pending) →
      k ≤ stamp (told' ++ Log.records (pending.insert slot bytes?))) :
    Grounded stored home ns (pending.insert slot bytes?) d told told' where
  index := grounded.index
  map := grounded.map
  each rec mem := by
    refine (grounded.each rec mem).mono (.refl ns) (.inl fun _ => id) fun k below le => ?_
    have := rises k below
    omega
  pending rec mem := by
    obtain ⟨e, inside, rfl⟩ := List.mem_map.mp mem
    rcases Table.mem_insert inside with rfl | inside
    · exact new
    · have old := grounded.pending _ (List.mem_map_of_mem inside)
      exact old.mono (.refl ns) (.inl fun _ => id) rises

/-- More names are known, or the index tells more of them; the map is left alone. -/
theorem indexed {ns' : Names} {told₁ : List (Record PathId String)}
    (grounded : Grounded stored home ns pending d told told') (front : ns.Prefix ns')
    (sub : told ⊆ told₁)
    (index : Log.Tells (fun rec => ns'.Tells rec ∧ Metered.Sized rec) home.index Index.format d'
      told₁)
    (map : SameAt home.map.places d d') : Grounded stored home ns' pending d' told₁ told' where
  index := index
  map := grounded.map.sameAt map
  each rec mem := (grounded.each rec mem).mono front (.inl sub) fun _ _ le => le
  pending rec mem := (grounded.pending rec mem).mono front (.inl sub) fun _ _ le => le

/-- What is pending is appended to the files. -/
theorem appended {batch : Table Slot (Option Bytes)}
    (grounded : Grounded stored home ns pending d told told') (distinct : pending.keys.Nodup)
    (perm : batch.Perm pending) (index : SameAt home.index.places d d')
    (map : Log.Tells Metered.Sized home.map Cache.format d' (told' ++ Log.records batch)) :
    Grounded stored home ns [] d' told (told' ++ Log.records batch) := by
  have same : stamp (told' ++ Log.records batch ++ Log.records []) =
      stamp (told' ++ Log.records batch) := by
    rw [Log.records_nil, List.append_nil]
  have stamped : stamp (told' ++ Log.records batch) = stamp (told' ++ Log.records pending) :=
    stamp_perm distinct perm
  refine ⟨grounded.index.sameAt index, map, fun rec mem => ?_, nofun⟩
  rw [same, Nat.min_self, stamped]
  rcases List.mem_append.mp mem with old | new
  · refine (grounded.each rec old).mono (.refl ns) (.inl fun _ => id) fun k _ le => ?_
    omega
  · exact grounded.pending rec (List.map_subset _ perm.subset new)

end Grounded

section Steps
variable {c c' : Cache} {change : Change} {faults : Faults} {cwd : Place}

/-- Files that hold what is in memory. -/
theorem Cache.Settled.anchored (settled : c.Settled .sized stored home d)
    (consistent : c.Consistent .sized stored home d) :
    ∃ told told', Anchored stored home c.index.names c.index.log d told told' ∧
      Grounded stored home c.index.names c.map.log.pending d told told' := by
  obtain ⟨⟨told, index, spells⟩, told', map, _⟩ := settled
  have sound := consistent.coherent.sound
  have toldBy := spells.toldBy
  refine ⟨told, told', ⟨?_, .of_toldBy toldBy, ?_, ?_⟩, index, ?_, ?_, ?_⟩
  · exact index.mono fun _ h => h.2
  · exact map.mono fun _ said => said.1
  · exact fun rec mem => ⟨_, sound, toldBy, (map.each rec mem).2⟩
  · exact map.mono fun _ said => said.1
  · exact fun rec mem => backed_of_toldBy (map.each rec mem).2 toldBy
  · exact fun rec mem => backed_of_toldBy (consistent.map.pendingEach rec mem).2 toldBy

/-- Each change keeps to names that are told before they are spoken of. -/
theorem Anchored.changed (anchored : Anchored stored home c.index.names c.index.log d told told')
    (stands : c.Stands home cwd d) (stands' : c'.Stands home cwd d')
    (consistent : c.Consistent .sized stored home d) (allowed : c.memory.Allows stored change)
    (within : c'.memory.Within .sized) (changed : c.Changed .none home d change c' d') :
    ∃ told told', Anchored stored home c'.index.names c'.index.log d' told told' := by
  have calm := Faults.not_possible_none
  have memory := changed.memory
  have index := anchored.index
  rw [← stands.indexFormat] at index
  have indexFormat := stands'.indexFormat
  cases changed with
  | absent => exact ⟨told, told', anchored⟩
  | quiet => exact ⟨told, told', anchored⟩
  | unflushed _ _ _ _ _ _ may => exact absurd may calm
  | learned names log gate d' learned same =>
    obtain ⟨told₁, sub, tells, noted⟩ := Index.tells_learned (P := fun _ => Metered.Sized)
      (fun _ h => h) (fun _ h => h) index consistent.index learned within.names
    rw [indexFormat] at tells
    refine ⟨told₁, told', tells, noted anchored.noted, anchored.map.sameAt same, ?_⟩
    intro rec mem
    obtain ⟨ms, sound, toldBy, authentic⟩ := anchored.each rec mem
    exact ⟨ms, sound, toldBy.mono sub, authentic⟩
  | journaled slot bytes? gate n log r d₁ d' flushed same wrote kept =>
    rw [memory] at within
    have recorded : Log.Recorded .none c.map.log home.map d₁ slot bytes?
        (c.map.log.noted slot bytes?) d₁ := .noted
    have pending := (consistent.recorded allowed within same recorded).pendingEach
    obtain ⟨told₁, sub, tells, toldBy⟩ := Index.tells_wrote (P := fun _ => Metered.Sized) index
      (fun rec mem => (consistent.index.pending rec mem).2) flushed rfl
    have toldBy := toldBy anchored.noted
    rw [indexFormat] at tells
    have map : Log.Tells Metered.Sized home.map (c.map.log.noted slot bytes?).format d₁ told' := by
      rw [Log.noted, stands.mapFormat]
      exact anchored.map.sameAt same
    obtain ⟨batch, perm, _, tells'⟩ := wrote.tells_of_isOk (wrote.isOk calm)
      (fun rec mem => (pending rec mem).1) map
    rw [Log.noted, stands.mapFormat] at tells'
    refine ⟨told₁, _, tells.sameAt kept, .of_toldBy toldBy, tells', ?_⟩
    intro rec mem
    rcases List.mem_append.mp mem with old | new
    · obtain ⟨ms, sound, toldBy, authentic⟩ := anchored.each rec old
      exact ⟨ms, sound, toldBy.mono sub, authentic⟩
    · have authentic := (pending rec (List.map_subset _ perm.subset new)).2
      exact ⟨_, consistent.coherent.sound, toldBy, authentic⟩

/-- The stamp after a change of the map: only a validation record changes it. -/
theorem stamp_insert {slot : Slot} {bytes? : Option Bytes} (distinct : pending.keys.Nodup) :
    stamp (told' ++ Log.records (pending.insert slot bytes?)) =
      if slot = .validation then (bytes?.bind recordedSize).getD 0
      else stamp (told' ++ Log.records pending) := by
  rw [stamp_records (Table.nodup_keys_insert distinct slot bytes?), Table.get?_insert]
  split
  · rfl
  · rw [stamp_records distinct]

/-- A mutation that storing or removing an entry may come to is backed, and a stamp that changes
states all names. An entry is backed only where the stamp states them already. -/
theorem Grounded.mutated {slot : Slot} {bytes? : Option Bytes}
    (grounded : Grounded stored home c.index.names c.map.log.pending d told told')
    (distinct : c.map.log.pending.keys.Nodup)
    (allowed : c.memory.Allows stored (.of slot bytes?)) (few : c.index.names.size < UInt32.size)
    (stamped : ∀ id bytes, Change.of slot bytes? = .put (.entry id) bytes →
      c.index.names.size ≤ stamp (told' ++ Log.records c.map.log.pending)) :
    Grounded stored home c.index.names (c.map.log.pending.insert slot bytes?) d told told' ∧
      (slot = .validation → c.index.names.size ≤
        stamp (told' ++ Log.records (c.map.log.pending.insert slot bytes?))) := by
  have authentic := Memory.authentic_of_allows allowed
  have inserted : stamp (told' ++ Log.records (c.map.log.pending.insert slot bytes?)) =
      if slot = .validation then (bytes?.bind recordedSize).getD 0
      else stamp (told' ++ Log.records c.map.log.pending) := stamp_insert distinct
  cases slot with
  | entry id =>
    rw [if_neg nofun] at inserted
    refine ⟨grounded.noted ?_ fun k _ le => inserted ▸ le, nofun⟩
    rw [inserted]
    cases bytes? with
    | none => exact backed_remove _
    | some bytes => exact backed_of_le authentic (stamped id bytes rfl)
  | validation =>
    rw [if_pos rfl] at inserted
    cases bytes? with
    | none => exact absurd rfl allowed
    | some bytes =>
      obtain ⟨_, rfl⟩ := allowed
      have all : (Option.bind (some (validationRecord c.memory.names.size)) recordedSize).getD 0 =
          c.index.names.size := by
        rw [Option.bind_some, recordedSize_validationRecord]
        exact Nat.min_eq_left (Nat.le_sub_one_of_lt few)
      have reached := Nat.le_of_eq (inserted.trans all).symm
      refine ⟨grounded.noted ?_ fun k le _ => Nat.le_trans le reached, fun _ => reached⟩
      exact backed_of_le authentic reached

/-- Each change keeps to one line of names. -/
theorem Grounded.changed
    (grounded : Grounded stored home c.index.names c.map.log.pending d told told')
    (stands : c.Stands home cwd d) (stands' : c'.Stands home cwd d')
    (consistent : c.Consistent .sized stored home d) (allowed : c.memory.Allows stored change)
    (within : c'.memory.Within .sized) (changed : c.Changed .none home d change c' d')
    (stamped : ∀ id bytes, change = .put (.entry id) bytes →
      c.index.names.size ≤ stamp (told' ++ Log.records c.map.log.pending)) :
    ∃ told told', Grounded stored home c'.index.names c'.map.log.pending d' told told' ∧
      (∀ bytes, change = .put .validation bytes →
        c'.index.names.size ≤ stamp (told' ++ Log.records c'.map.log.pending)) := by
  have calm := Faults.not_possible_none
  have memory := changed.memory
  have index := grounded.index
  rw [← stands.indexFormat] at index
  have indexFormat := stands'.indexFormat
  have distinct := consistent.map.pendingDistinct
  cases changed with
  | absent => exact ⟨told, told', grounded, nofun⟩
  | unflushed _ _ _ _ _ _ may => exact absurd may calm
  | learned names log gate d' learned same =>
    obtain ⟨told₁, sub, tells, _⟩ :=
      Index.tells_learned (P := fun ns rec => ns.Tells rec ∧ Metered.Sized rec)
        (fun front h => ⟨h.1.of_front front, h.2⟩) (fun tells sized => ⟨tells, sized⟩) index
        consistent.index learned within.names
    rw [indexFormat] at tells
    exact ⟨told₁, told', grounded.indexed learned.prefix_ sub tells same, nofun⟩
  | quiet slot bytes? gate =>
    rw [memory] at within
    have few := within.count
    rw [Memory.after_of] at few
    obtain ⟨grounded', reached⟩ := grounded.mutated distinct allowed few stamped
    exact ⟨told, told', grounded', fun bytes same => reached (Change.slot_eq_of_put same)⟩
  | journaled slot bytes? gate n log r d₁ d' flushed same wrote kept =>
    rw [memory] at within
    have few := within.count
    rw [Memory.after_of] at few
    have recorded : Log.Recorded .none c.map.log home.map d₁ slot bytes?
        (c.map.log.noted slot bytes?) d₁ := .noted
    have noted := consistent.recorded allowed within same recorded
    have ok := wrote.isOk calm
    obtain ⟨told₁, sub, tells, _⟩ :=
      Index.tells_wrote (P := fun ns rec => ns.Tells rec ∧ Metered.Sized rec) index
        consistent.index.pending flushed rfl
    rw [indexFormat] at tells
    have flushed := grounded.indexed (.refl _) sub tells same
    obtain ⟨grounded', reached⟩ := flushed.mutated distinct allowed few stamped
    have map : Log.Tells Metered.Sized home.map (c.map.log.noted slot bytes?).format d₁ told' := by
      rw [Log.noted, stands.mapFormat]
      exact grounded'.map
    obtain ⟨batch, perm, nothing, tells'⟩ := wrote.tells_of_isOk ok
      (fun rec mem => (noted.pendingEach rec mem).1) map
    rw [Log.noted, stands.mapFormat] at tells'
    have appended := grounded'.appended noted.pendingDistinct perm kept tells'
    rw [Log.settle_of_isOk ok, nothing]
    refine ⟨told₁, _, appended, fun bytes same => ?_⟩
    have stamped : stamp (told' ++ Log.records batch) = _ := stamp_perm noted.pendingDistinct perm
    have reached := reached (Change.slot_eq_of_put same)
    rw [Log.records_nil, List.append_nil, stamped]
    exact reached

end Steps
end BuildCache
