import BuildCache.Proofs.Changing

/-!
What holds between a cache and its files whatever operations were refused so far: memory hangs
together, each log is faithful to its structure, and nothing that a log still knows to be on the
disk speaks of other names than those in memory. A save that is done then leaves files from which
everything in memory can be read back.
-/
namespace BuildCache

open Disk Program

/-- What is asked of the records of a cache besides being true, and of how many names it has. -/
structure Measure where
  names : Record PathId String → Prop
  slots : Record Slot Bytes → Prop
  count : Nat → Prop
  removes : ∀ slot, slots (.remove slot)

theorem fits_remove (slot : Slot) : Fits (Record.remove slot : Record Slot Bytes) := by
  cases slot
  · exact show 4 + 4 ≤ recordLimit by decide
  · exact show 4 + 8 ≤ recordLimit by decide

/-- Every record is within what a reader takes. -/
def Measure.fits : Measure := ⟨Fits, Fits, fun _ => True, fits_remove⟩

/-- All that memory holds is within the measure. -/
structure Memory.Within (μ : Measure) (m : Memory) : Prop where
  names : ∀ id s, m.names.name? id = some s → μ.names (.put id s)
  records : ∀ slot bytes, m.records.get? slot = some bytes → μ.slots (.put slot bytes)
  count : μ.count m.names.size

/-- A record of an entry is an entry that was stored under the name of its identity, and a
validation record states no more names than there are. -/
def Authentic (stored : Stores) (ns : Names) : Record Slot Bytes → Prop
  | .put (.entry id) bytes => Genuine stored ns id bytes
  | .put .validation bytes => (recordedSize bytes).getD 0 ≤ ns.size
  | .remove _ => True

theorem Authentic.prefix_ {stored : Stores} {ns ms : Names} {r : Record Slot Bytes}
    (authentic : Authentic stored ns r) (more : ns.Prefix ms) : Authentic stored ms r := by
  cases r with
  | remove => trivial
  | put slot bytes =>
    cases slot with
    | validation => exact Nat.le_trans authentic more.size_le
    | entry id => exact Genuine.prefix_ authentic more

theorem Authentic.mono {stored more : Stores} {ns : Names} {r : Record Slot Bytes}
    (authentic : Authentic stored ns r) (sub : stored ⊆ more) : Authentic more ns r := by
  cases r with
  | remove => trivial
  | put slot bytes =>
    cases slot with
    | validation => exact authentic
    | entry id => exact Genuine.mono authentic sub

namespace Memory

theorem authentic_of_allows {stored : Stores} {m : Memory} {slot : Slot} {bytes? : Option Bytes}
    (allowed : m.Allows stored (.of slot bytes?)) :
    Authentic stored m.names (.of slot bytes?) := by
  cases bytes? with
  | none => trivial
  | some bytes =>
    cases slot with
    | validation =>
      obtain ⟨_, rfl⟩ := allowed
      rw [Record.of, Authentic, recordedSize_validationRecord]
      exact Nat.min_le_left ..
    | entry id => exact allowed.1

theorem Within.of_after {μ : Measure} {m : Memory} {slot : Slot} {bytes? : Option Bytes}
    (within : (m.after (.of slot bytes?)).Within μ) : μ.slots (.of slot bytes?) := by
  cases bytes? with
  | none => exact μ.removes slot
  | some bytes =>
    refine within.records slot bytes ?_
    rw [after_of]
    exact (DurableMap.get?_apply m.records (.put slot bytes) slot).trans (if_pos rfl)

end Memory

namespace Cache
variable {μ : Measure} {stored : Stores} {faults : Faults} {cwd : Place} {home : Home}
  {c c' : Cache} {d d' : Disk} {change : Change}

/-- What the map's log says is within the measure, and its entries are authentic. -/
def Says (μ : Measure) (stored : Stores) (ns : Names) (r : Record Slot Bytes) : Prop :=
  μ.slots r ∧ Authentic stored ns r

structure Consistent (μ : Measure) (stored : Stores) (home : Home) (c : Cache) (d : Disk) :
    Prop where
  coherent : c.memory.Coherent stored
  index : Index.Follows μ.names c.index.names c.index.log home.index d
  map : Log.Faithful (Says μ stored c.index.names) c.map.log home.map d c.map.entries

theorem Consistent.mono {more : Stores} (consistent : c.Consistent μ stored home d)
    (sub : stored ⊆ more) : c.Consistent μ more home d where
  coherent := consistent.coherent.mono sub
  index := consistent.index
  map := consistent.map.mono fun _ said => ⟨said.1, said.2.mono sub⟩

theorem consistent_clear (μ : Measure) (stored : Stores) (home : Home) (c : Cache) (d : Disk) :
    c.clear.Consistent μ stored home d where
  coherent := Memory.coherent_empty stored
  index := Index.follows_clear c.index.log home.index d
  map := Log.faithful_clear c.map.log home.map d

/-- The map follows a mutation, its files as they were or with the journal written. -/
theorem Consistent.recorded {slot : Slot} {bytes? : Option Bytes} {log : Log Slot Bytes} {d₁ : Disk}
    (consistent : c.Consistent μ stored home d)
    (allowed : c.memory.Allows stored (.of slot bytes?))
    (within : (c.memory.after (.of slot bytes?)).Within μ) (same : SameAt home.map.places d d₁)
    (recorded : Log.Recorded faults c.map.log home.map d₁ slot bytes? log d') :
    Log.Faithful (Says μ stored c.index.names) log home.map d'
      (DurableMap.apply c.map.entries (.of slot bytes?)) := by
  have distinct := DurableMap.nodup_keys_apply consistent.map.distinct (.of slot bytes?)
  have said : Says μ stored c.index.names (.of slot bytes?) :=
    ⟨within.of_after, Memory.authentic_of_allows allowed⟩
  refine (consistent.map.sameAt same).recorded distinct said ?_ recorded
  intro k
  rw [DurableMap.get?_apply, Record.key_of, Record.value?_of]

theorem Consistent.changed (consistent : c.Consistent μ stored home d) (whole : ¬faults.tears)
    (allowed : c.memory.Allows stored change) (within : c'.memory.Within μ)
    (changed : c.Changed faults home d change c' d') : c'.Consistent μ stored home d' := by
  have coherent := consistent.coherent.after allowed
  rw [← changed.memory] at coherent
  have memory := changed.memory
  cases changed with
  | learned names log gate d' learned same =>
    refine ⟨coherent, consistent.index.learned learned within.names, ?_⟩
    refine (consistent.map.sameAt same).mono fun r said => ⟨said.1, said.2.prefix_ ?_⟩
    exact learned.prefix_
  | absent => exact consistent
  | quiet slot bytes? gate =>
    rw [memory] at within
    have recorded : Log.Recorded faults c.map.log home.map d slot bytes?
        (c.map.log.noted slot bytes?) d := .noted
    have map := consistent.recorded allowed within (SameAt.refl _ d) recorded
    exact ⟨coherent, consistent.index, map⟩
  | unflushed slot bytes? gate n log d' may wrote same =>
    rw [memory] at within
    have recorded : Log.Recorded faults c.map.log home.map d' slot bytes?
        (c.map.log.noted slot bytes?) d' := .noted
    have map := consistent.recorded allowed within same recorded
    exact ⟨coherent, consistent.index.wrote whole wrote, map⟩
  | journaled slot bytes? gate n log r d₁ d' flushed same wrote kept =>
    rw [memory] at within
    have map := consistent.recorded allowed within same (.journaled wrote)
    exact ⟨coherent, (consistent.index.wrote whole flushed).sameAt kept, map⟩

/-- The files hold what is in memory: the index spells its names, and the map replays to its
records. -/
structure Settled (μ : Measure) (stored : Stores) (home : Home) (c : Cache) (d : Disk) : Prop where
  index : ∃ told, Log.Tells (fun r => c.index.names.Tells r ∧ μ.names r) home.index Index.format d
    told ∧ Names.Spells told c.index.names
  map : Log.Holds (Says μ stored c.index.names) format home.map d c.map.entries

theorem Consistent.saved {r : Except StoreError Nat × Cache}
    (consistent : c.Consistent μ stored home d) (stands : c.Stands home cwd d)
    (within : c.memory.Within μ) (saved : c.Saved faults home d r d') :
    r.2.Consistent μ stored home d' ∧ (r.1.isOk → r.2.Settled μ stored home d') := by
  have names := within.names
  have sound := consistent.coherent.sound
  cases saved with
  | early e log d' index same =>
    have ⟨follows, _⟩ := consistent.index.saved sound names index
    exact ⟨⟨consistent.coherent, follows, consistent.map.sameAt same⟩, nofun⟩
  | late n log d₁ e log' d' index same map kept =>
    have ⟨follows, _⟩ := consistent.index.saved sound names index
    have ⟨faithful, _⟩ := (consistent.map.sameAt same).saved map
    exact ⟨⟨consistent.coherent, follows.sameAt kept, faithful⟩, nofun⟩
  | done n log d₁ n' log' d' saveMillis index same map kept =>
    have ⟨follows, told⟩ := consistent.index.saved sound names index
    have ⟨faithful, holds⟩ := (consistent.map.sameAt same).saved map
    refine ⟨⟨consistent.coherent, follows.sameAt kept, faithful⟩, fun _ => ?_⟩
    obtain ⟨told, tells, spells⟩ := told rfl
    rw [stands.indexFormat] at tells
    have holds := holds rfl
    rw [map.same.2, stands.mapFormat] at holds
    exact ⟨⟨told, tells.sameAt kept, spells⟩, holds⟩

end Cache
end BuildCache
