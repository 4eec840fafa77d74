import BuildCache.Cache
import BuildCache.Proofs.Indexing
import BuildCache.Proofs.Memories

/-!
What a change of memory and a save of a cache come to on the disk, told by cases. Two logs move on
side by side: the map's journal is written only right after the index has brought everything to
disk, and a save reaches the map's files only once the index's are done.
-/
namespace BuildCache

open Disk Program

/-- Where the files of a cache are. -/
structure Home where
  index : Shelf
  map : Shelf

def Home.places (home : Home) : List Place := home.index.places ++ home.map.places

/-- The change that puts `bytes?` into a slot, or empties it. -/
def Change.of (slot : Slot) : Option Bytes → Change
  | some bytes => .put slot bytes
  | none => .remove slot

theorem Change.slot_eq_of_put {slot key : Slot} {bytes? : Option Bytes} {bytes : Bytes}
    (h : Change.of slot bytes? = .put key bytes) : slot = key := by
  cases bytes? <;> cases h
  rfl

namespace Memory

theorem after_of (m : Memory) (slot : Slot) (bytes? : Option Bytes) :
    m.after (.of slot bytes?) = ⟨m.names, DurableMap.apply m.records (.of slot bytes?)⟩ := by
  cases bytes? <;> rfl

end Memory

namespace DurableMap
variable {K V : Type} [DecidableEq K] [Stored K] [Stored V] {faults : Faults} {cwd : Place}
  {shelf : Shelf} {d : Disk} {m : DurableMap K V}

/-- The map after one more mutation, which was noted, or noted and journaled. -/
def Mutated (faults : Faults) (m : DurableMap K V) (shelf : Shelf) (d : Disk) (k : K)
    (v? : Option V) (now : Bool) (m' : DurableMap K V) (d' : Disk) : Prop :=
  m'.entries = apply m.entries (.of k v?) ∧
    (now = false ∧ m'.log = m.log.noted k v? ∧ d' = d ∨
      now = true ∧ ∃ wrote, Log.Wrote faults (m.log.noted k v?) shelf d wrote d' ∧
        m'.log = (Log.settle wrote).2)

theorem always_put (stands : m.log.Stands shelf cwd d) (k : K) (v : V) (now : Bool) :
    Always faults cwd (m.put k v now) d fun m' d' => Touches [shelf.journal] d d' ∧
      m'.log.Stands shelf cwd d' ∧ Mutated faults m shelf d k (some v) now m' d' := by
  refine Always.bind (Log.always_record stands k (some v) now) ?_
  rintro log d' ⟨touches, stands', recorded⟩
  exact always_pure.mpr ⟨touches, stands', rfl, recorded⟩

theorem remove_of_absent {k : K} (absent : m.get? k = none) (now : Bool) :
    m.remove k now = pure m := by
  unfold remove
  rw [if_pos (by simp [absent])]

theorem always_remove (stands : m.log.Stands shelf cwd d) {k : K} (present : m.get? k ≠ none)
    (now : Bool) :
    Always faults cwd (m.remove k now) d fun m' d' => Touches [shelf.journal] d d' ∧
      m'.log.Stands shelf cwd d' ∧ Mutated faults m shelf d k none now m' d' := by
  unfold remove
  rw [if_neg (by simpa using present)]
  refine Always.bind (Log.always_record stands k none now) ?_
  rintro log d' ⟨touches, stands', recorded⟩
  exact always_pure.mpr ⟨touches, stands', rfl, recorded⟩

omit [DecidableEq K] in
theorem always_save (stands : m.log.Stands shelf cwd d) (keep : Nat → Nat → Bool) :
    Always faults cwd (m.save keep) d fun r d' => Touches shelf.places d d' ∧
      r.2.log.Stands shelf cwd d' ∧ ∃ log, r.2 = { m with log } ∧
      Log.Saved faults m.log m.entries keep shelf d (r.1, log) d' := by
  refine Always.bind (Log.always_save stands m.entries keep) ?_
  rintro ⟨r, log⟩ d' ⟨touches, stands', saved⟩
  exact always_pure.mpr ⟨touches, stands', log, rfl, saved⟩

end DurableMap

namespace Cache
variable {faults : Faults} {cwd : Place} {home : Home} {c c' : Cache} {d d' : Disk}
  {change : Change}

/-- Both logs are at home, each with its own format. -/
structure Stands (c : Cache) (home : Home) (cwd : Place) (d : Disk) : Prop where
  index : c.index.log.Stands home.index cwd d
  map : c.map.log.Stands home.map cwd d
  apart : ∀ p ∈ home.index.places, p ∉ home.map.places
  indexFormat : c.index.log.format = Index.format
  mapFormat : c.map.log.format = format

theorem Stands.index_journal (stands : c.Stands home cwd d) :
    ∀ p ∈ home.map.places, p ∉ [home.index.journal] := by
  intro p mem eq
  rw [List.mem_singleton.mp eq] at mem
  exact stands.apart _ (by simp [Shelf.places]) mem

theorem Stands.map_journal (stands : c.Stands home cwd d) :
    ∀ p ∈ home.index.places, p ∉ [home.map.journal] := by
  intro p mem eq
  rw [List.mem_singleton.mp eq] at mem
  exact stands.apart _ mem (by simp [Shelf.places])

/-- Asking for the journal has flushed the index, or found that nothing is due. -/
inductive Asked (faults : Faults) (home : Home) (c : Cache) (d : Disk) : Bool × Cache → Disk → Prop
  | early (gate : Gate) : Asked faults home c d (false, { c with gate }) d
  | flushed (gate : Gate) (n : Nat) (log : Log PathId String) (d' : Disk)
      (wrote : Log.Wrote faults c.index.log home.index d (.ok n, log) d') :
    Asked faults home c d (true, { c with gate, index := { c.index with log } }) d'
  | failed (gate : Gate) (n : Except StoreError Nat) (log : Log PathId String) (d' : Disk)
      (may : faults.possible) (wrote : Log.Wrote faults c.index.log home.index d (n, log) d') :
    Asked faults home c d (false, { c with gate, index := { c.index with log } }) d'

theorem Stands.index_touched {log : Log PathId String} (stands : c.Stands home cwd d)
    (gate : Gate) (names : Names) (gate' : Gate) (touches : Touches [home.index.journal] d d')
    (log_ : log.Stands home.index cwd d') (format : log.format = c.index.log.format) :
    Stands { c with gate, index := ⟨names, log, gate'⟩ } home cwd d' where
  index := log_
  map := stands.map.of_touches touches (stands.index_journal _ (by simp [Shelf.places]))
  apart := stands.apart
  indexFormat := format.trans stands.indexFormat
  mapFormat := stands.mapFormat

theorem always_journalDue (stands : c.Stands home cwd d) :
    Always faults cwd c.journalDue d fun r d' =>
      Touches [home.index.journal] d d' ∧ r.2.Stands home cwd d' ∧ Asked faults home c d r d' := by
  refine Always.bind always_tick ?_
  rintro now d' rfl
  cases fired : c.gate.tryFire now with
  | mk due gate =>
    cases due with
    | false =>
      refine always_pure.mpr ⟨.refl stands.index.holds.sound, ?_, .early gate⟩
      exact ⟨stands.index, stands.map, stands.apart, stands.indexFormat, stands.mapFormat⟩
    | true =>
      refine Always.bind (Index.always_flush stands.index) ?_
      rintro ⟨flushed, index⟩ d'' ⟨touches, log_, wrote, log, rfl, cases_, done⟩
      have stands' := stands.index_touched gate c.index.names c.index.gate touches log_
        cases_.format
      refine always_pure.mpr ⟨touches, stands', ?_⟩
      rcases done with ⟨rfl, ok⟩ | ⟨may, e, rfl⟩
      · cases wrote with
        | ok n => exact .flushed gate n log d'' cases_
        | error e => cases ok
      · exact .failed gate wrote log d'' may cases_

/-- The cases of a change. -/
inductive Changed (faults : Faults) (home : Home) (c : Cache) (d : Disk) :
    Change → Cache → Disk → Prop
  | learned (names : Names) (log : Log PathId String) (gate : Gate) (d' : Disk)
      (learned : Index.Learned faults home.index c.index.names c.index.log d names log d')
      (same : SameAt home.map.places d d') :
    Changed faults home c d (.learn names) { c with index := ⟨names, log, gate⟩ } d'
  | absent (slot : Slot) (absent : c.map.get? slot = none) :
    Changed faults home c d (.remove slot) c d
  /-- The mutation is pending. -/
  | quiet (slot : Slot) (bytes? : Option Bytes) (gate : Gate) :
    Changed faults home c d (.of slot bytes?)
      { c with
        gate,
        map := ⟨DurableMap.apply c.map.entries (.of slot bytes?), c.map.log.noted slot bytes?⟩ } d
  /-- The mutation is pending, since the index could not be flushed. -/
  | unflushed (slot : Slot) (bytes? : Option Bytes) (gate : Gate) (n : Except StoreError Nat)
      (log : Log PathId String) (d' : Disk) (may : faults.possible)
      (wrote : Log.Wrote faults c.index.log home.index d (n, log) d')
      (same : SameAt home.map.places d d') :
    Changed faults home c d (.of slot bytes?)
      { c with
        gate
        index := { c.index with log }
        map := ⟨DurableMap.apply c.map.entries (.of slot bytes?), c.map.log.noted slot bytes?⟩ } d'
  /-- The index was flushed, and then the map's journal was written. -/
  | journaled (slot : Slot) (bytes? : Option Bytes) (gate : Gate) (n : Nat)
      (log : Log PathId String) (r : Except StoreError Nat × Log Slot Bytes) (d₁ d' : Disk)
      (flushed : Log.Wrote faults c.index.log home.index d (.ok n, log) d₁)
      (same : SameAt home.map.places d d₁)
      (wrote : Log.Wrote faults (c.map.log.noted slot bytes?) home.map d₁ r d')
      (kept : SameAt home.index.places d₁ d') :
    Changed faults home c d (.of slot bytes?)
      { c with
        gate
        index := { c.index with log }
        map := ⟨DurableMap.apply c.map.entries (.of slot bytes?), (Log.settle r).2⟩ } d'

theorem Asked.changed {slot : Slot} {bytes? : Option Bytes} {due : Bool} {c₁ : Cache} {d₁ : Disk}
    {map : DurableMap Slot Bytes} (stands : c.Stands home cwd d)
    (asked : Asked faults home c d (due, c₁) d₁) (first : Touches [home.index.journal] d d₁)
    (mutated : DurableMap.Mutated faults c₁.map home.map d₁ slot bytes? due map d')
    (then_ : Touches [home.map.journal] d₁ d') :
    c.Changed faults home d (.of slot bytes?) { c₁ with map } d' := by
  obtain ⟨entries, log⟩ := map
  have same : SameAt home.map.places d d₁ := first.sameAt stands.index_journal
  have kept : SameAt home.index.places d₁ d' := then_.sameAt stands.map_journal
  obtain ⟨rfl, recorded⟩ := mutated
  cases asked with
  | early gate =>
    rcases recorded with ⟨_, rfl, rfl⟩ | ⟨due, _⟩
    · exact .quiet slot bytes? gate
    · cases due
  | failed gate n log d₁ may wrote =>
    rcases recorded with ⟨_, rfl, rfl⟩ | ⟨due, _⟩
    · exact .unflushed slot bytes? gate n log _ may wrote same
    · cases due
  | flushed gate n log d₁ wrote =>
    rcases recorded with ⟨due, _⟩ | ⟨_, r, wrote', rfl⟩
    · cases due
    · exact .journaled slot bytes? gate n log r d₁ d' wrote same wrote' kept

theorem format_of_mutated {slot : Slot} {bytes? : Option Bytes} {due : Bool}
    {map : DurableMap Slot Bytes}
    (mutated : DurableMap.Mutated faults c.map home.map d slot bytes? due map d') :
    map.log.format = c.map.log.format := by
  obtain ⟨_, ⟨_, same, _⟩ | ⟨_, wrote, cases_, same⟩⟩ := mutated
  · rw [same]
    rfl
  · rw [same, Log.format_settle, cases_.format]
    rfl

theorem Stands.map_touched {map : DurableMap Slot Bytes} (stands : c.Stands home cwd d)
    (touches : Touches [home.map.journal] d d') (log_ : map.log.Stands home.map cwd d')
    (format : map.log.format = c.map.log.format) : Stands { c with map } home cwd d' where
  index := stands.index.of_touches touches (stands.map_journal _ (by simp [Shelf.places]))
  map := log_
  apart := stands.apart
  indexFormat := stands.indexFormat
  mapFormat := format.trans stands.mapFormat

theorem sub_places : [home.index.journal] ⊆ home.places ∧ [home.map.journal] ⊆ home.places := by
  simp [Home.places, Shelf.places]

theorem always_putRecord (stands : c.Stands home cwd d) (slot : Slot) (bytes : Bytes) :
    Always faults cwd (c.putRecord slot bytes) d fun c' d' => Touches home.places d d' ∧
      c'.Stands home cwd d' ∧ c.Changed faults home d (.put slot bytes) c' d' := by
  refine Always.bind (always_journalDue stands) ?_
  rintro ⟨due, c₁⟩ d₁ ⟨first, stands₁, asked⟩
  refine Always.bind (DurableMap.always_put stands₁.map slot bytes due) ?_
  rintro map d' ⟨then_, log_, mutated⟩
  refine always_pure.mpr ⟨?_, ?_, ?_⟩
  · exact (first.mono sub_places.1).trans (then_.mono sub_places.2)
  · exact stands₁.map_touched then_ log_ (format_of_mutated mutated)
  · have changed := asked.changed stands first mutated then_
    exact changed

theorem always_removeRecord (stands : c.Stands home cwd d) (slot : Slot) :
    Always faults cwd (c.removeRecord slot) d fun c' d' => Touches home.places d d' ∧
      c'.Stands home cwd d' ∧ c.Changed faults home d (.remove slot) c' d' := by
  unfold removeRecord
  cases present : c.map.get? slot with
  | none => exact always_pure.mpr ⟨.refl stands.index.holds.sound, stands, .absent slot present⟩
  | some bytes =>
    refine Always.bind (always_journalDue stands) ?_
    rintro ⟨due, c₁⟩ d₁ ⟨first, stands₁, asked⟩
    have present₁ : c₁.map.get? slot ≠ none := by
      have same : c₁.map = c.map := by cases asked <;> rfl
      rw [same, present]
      exact nofun
    refine Always.bind (DurableMap.always_remove stands₁.map present₁ due) ?_
    rintro map d' ⟨then_, log_, mutated⟩
    refine always_pure.mpr ⟨?_, ?_, ?_⟩
    · exact (first.mono sub_places.1).trans (then_.mono sub_places.2)
    · exact stands₁.map_touched then_ log_ (format_of_mutated mutated)
    · have changed := asked.changed stands first mutated then_
      exact changed

/-- Every change comes to one of the cases. -/
theorem always_change (stands : c.Stands home cwd d) (change : Change)
    (grows : ∀ names, change = .learn names → c.index.names.Prefix names ∧ names.Sound) :
    Always faults cwd (c.change change) d fun c' d' => Touches home.places d d' ∧
      c'.Stands home cwd d' ∧ c.Changed faults home d change c' d' := by
  cases change with
  | put slot bytes => exact always_putRecord stands slot bytes
  | remove slot => exact always_removeRecord stands slot
  | learn names =>
    obtain ⟨more, sound⟩ := grows names rfl
    refine Always.bind (Index.always_adopt stands.index more sound) ?_
    rintro ⟨names', log, gate⟩ d' ⟨touches, log_, rfl, learned⟩
    have format : log.format = c.index.log.format :=
      learned.keeps (Q := fun _ l _ => l.format = c.index.log.format)
        (fun _ _ _ _ _ _ _ _ recorded same => recorded.format.trans same) rfl
    refine always_pure.mpr ⟨touches.mono sub_places.1, ?_, ?_⟩
    · exact stands.index_touched c.gate _ gate touches log_ format
    · exact .learned _ log gate d' learned (touches.sameAt stands.index_journal)

theorem Changed.memory (changed : c.Changed faults home d change c' d') :
    c'.memory = c.memory.after change := by
  cases changed with
  | learned => rfl
  | quiet slot bytes? => rw [Memory.after_of]; rfl
  | unflushed slot bytes? => rw [Memory.after_of]; rfl
  | journaled slot bytes? => rw [Memory.after_of]; rfl
  | absent slot absent =>
    have same : c.memory.records.erase slot = c.memory.records := Table.erase_of_get?_none absent
    rw [Memory.after, same]

/-- The cases of a save. -/
inductive Saved (faults : Faults) (home : Home) (c : Cache) (d : Disk) :
    Except StoreError Nat × Cache → Disk → Prop
  | early (e : StoreError) (log : Log PathId String) (d' : Disk)
      (index : Log.Saved faults c.index.log c.index.names.mappings Index.keepJournal home.index d
        (.error e, log) d')
      (same : SameAt home.map.places d d') :
    Saved faults home c d (.error e, { c with index := { c.index with log } }) d'
  /-- The index is done, but not the map. -/
  | late (n : Nat) (log : Log PathId String) (d₁ : Disk) (e : StoreError)
      (log' : Log Slot Bytes) (d' : Disk)
      (index : Log.Saved faults c.index.log c.index.names.mappings Index.keepJournal home.index d
        (.ok n, log) d₁)
      (same : SameAt home.map.places d d₁)
      (map : Log.Saved faults c.map.log c.map.entries (keepJournal c.options.compactionPercent)
        home.map d₁ (.error e, log') d')
      (kept : SameAt home.index.places d₁ d') :
    Saved faults home c d
      (.error e, { c with index := { c.index with log }, map := { c.map with log := log' } }) d'
  | done (n : Nat) (log : Log PathId String) (d₁ : Disk) (n' : Nat)
      (log' : Log Slot Bytes) (d' : Disk) (saveMillis : Option Nat)
      (index : Log.Saved faults c.index.log c.index.names.mappings Index.keepJournal home.index d
        (.ok n, log) d₁)
      (same : SameAt home.map.places d d₁)
      (map : Log.Saved faults c.map.log c.map.entries (keepJournal c.options.compactionPercent)
        home.map d₁ (.ok n', log') d')
      (kept : SameAt home.index.places d₁ d') :
    Saved faults home c d
      (.ok (n + n'),
        { c with index := { c.index with log }, map := { c.map with log := log' }, saveMillis }) d'

theorem Saved.memory {r : Except StoreError Nat × Cache} (saved : c.Saved faults home d r d') :
    r.2.memory = c.memory := by
  cases saved <;> rfl

theorem Saved.isOk {r : Except StoreError Nat × Cache} (saved : c.Saved faults home d r d')
    (calm : ¬faults.possible) : r.1.isOk := by
  cases saved with
  | early e log d' index => cases index.isOk calm
  | late n log d₁ e log' d' index same map => cases map.isOk calm
  | done => rfl

/-- A save is that of the index and then that of the map, between two looks at the clock. -/
theorem always_save_of {I : Except StoreError Nat × Index → Disk → Prop}
    {Q : Except StoreError Nat × Cache → Disk → Prop}
    (index : Always faults cwd c.index.save d I)
    (early : ∀ e index d₁, I (.error e, index) d₁ → Q (.error e, { c with index }) d₁)
    (then_ : ∀ n index d₁, I (.ok n, index) d₁ →
      Always faults cwd (c.map.save (keepJournal c.options.compactionPercent)) d₁ fun r d₂ =>
        (∀ e, r.1 = .error e → Q (.error e, { c with index, map := r.2 }) d₂) ∧
        ∀ n', r.1 = .ok n' → ∀ saveMillis,
          Q (.ok (n + n'), { c with index, map := r.2, saveMillis }) d₂) :
    Always faults cwd c.save d Q := by
  refine Always.bind always_wallTime ?_
  rintro before d rfl
  refine Always.bind index ?_
  rintro ⟨r, index⟩ d₁ saved
  cases r with
  | error e => exact always_pure.mpr (early e index d₁ saved)
  | ok n =>
    refine Always.bind (then_ n index d₁ saved) ?_
    rintro ⟨r', map⟩ d₂ ⟨late, done⟩
    cases r' with
    | error e => exact always_pure.mpr (late e rfl)
    | ok n' =>
      refine Always.bind always_wallTime ?_
      rintro after d₂ rfl
      exact always_pure.mpr (done n' rfl _)

theorem always_save (stands : c.Stands home cwd d) :
    Always faults cwd c.save d fun r d' => Touches home.places d d' ∧ r.2.Stands home cwd d' ∧
      c.Saved faults home d r d' := by
  have apart' : ∀ p ∈ home.map.places, p ∉ home.index.places :=
    fun p mem mem' => stands.apart p mem' mem
  have mem : home.map.journal ∈ home.map.places := by simp [Shelf.places]
  have mem' : home.index.journal ∈ home.index.places := by simp [Shelf.places]
  have before {d₁ : Disk} (first : Touches home.index.places d d₁) :
      Touches home.places d d₁ ∧ SameAt home.map.places d d₁ ∧
        c.map.log.Stands home.map cwd d₁ :=
    ⟨first.mono (List.subset_append_left ..), first.sameAt apart',
      stands.map.of_touches first (apart' _ mem)⟩
  refine always_save_of (Index.always_save stands.index) ?_ ?_
  · rintro e _ d₁ ⟨first, index_, log, rfl, saved⟩
    obtain ⟨touches, same, map_⟩ := before first
    have indexFormat := saved.same.2.trans stands.indexFormat
    refine ⟨touches, ?_, .early e log d₁ saved same⟩
    exact ⟨index_, map_, stands.apart, indexFormat, stands.mapFormat⟩
  · rintro n _ d₁ ⟨first, index_, log, rfl, saved⟩
    obtain ⟨touches, same, map_⟩ := before first
    have indexFormat := saved.same.2.trans stands.indexFormat
    refine (DurableMap.always_save map_ _).mono ?_
    rintro ⟨r', map⟩ d₂ ⟨then_, map_', log', rfl, saved'⟩
    have touches' := touches.trans (then_.mono (List.subset_append_right ..))
    have kept : SameAt home.index.places d₁ d₂ := then_.sameAt stands.apart
    have index_' := index_.of_touches then_ (stands.apart _ mem')
    have mapFormat := saved'.same.2.trans stands.mapFormat
    refine ⟨?_, ?_⟩
    · rintro e rfl
      refine ⟨touches', ?_, .late n log d₁ e log' d₂ saved same saved' kept⟩
      exact ⟨index_', map_', stands.apart, indexFormat, mapFormat⟩
    · rintro n' rfl millis
      refine ⟨touches', ?_, .done n log d₁ n' log' d₂ millis saved same saved' kept⟩
      exact ⟨index_', map_', stands.apart, indexFormat, mapFormat⟩

/-- Where nothing is refused, a save is done. -/
theorem exists_save (stands : c.Stands home cwd d) :
    ∃ n c' d', Runs .none cwd c.save d (.ok n, c') d' := by
  obtain ⟨⟨res, c'⟩, d', save⟩ := exists_runs .none cwd c.save d
  have ok := (always_save stands _ _ save).2.2.isOk Faults.not_possible_none
  cases res with
  | ok n => exact ⟨n, c', d', save⟩
  | error e => cases ok

end Cache
end BuildCache
