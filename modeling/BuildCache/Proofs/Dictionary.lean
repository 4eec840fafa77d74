import BuildCache.Cache
import BuildCache.Proofs.Logs
import BuildCache.Proofs.Memories

/-!
What a cache is in memory: a finite map from keys to entries. An entry that is accepted is found
under its key, cut to whole milliseconds, until it is removed or everything is cleared. Neither the
disk nor any clock has a say in it: between two operations the disk may be changed in any way, and
each operation may find anything refused.
-/
namespace BuildCache

open Program

namespace Table
variable {K V : Type} [DecidableEq K] {t : Table K V}

theorem get?_filter (distinct : t.keys.Nodup) (keep : K × V → Bool) (k : K) :
    Table.get? (t.filter keep) k = (t.get? k).filter fun v => keep (k, v) := by
  have distinct' : (Table.keys (t.filter keep)).Nodup :=
    distinct.sublist (List.filter_sublist.map _)
  apply Option.ext
  intro v
  rw [get?_eq_some distinct', List.mem_filter, Option.filter_eq_some_iff, get?_eq_some distinct]

end Table

/-- What the cache stands for: the entries by their keys, and whether one was stored since the
latest `clear`. -/
structure Dictionary where
  entries : Table String Entry
  noted : Bool
  deriving DecidableEq, Repr

namespace Dictionary

def empty : Dictionary := ⟨[], false⟩

/-- Times are kept in whole milliseconds. -/
def put (t : Dictionary) (key : String) (e : Entry) : Dictionary :=
  ⟨t.entries.insert key e.truncate, true⟩

def remove (t : Dictionary) (key : String) : Dictionary :=
  { t with entries := t.entries.erase key }

def removeIf (t : Dictionary) (p : Cached → Bool) : Dictionary :=
  { t with entries := t.entries.filter fun x => !p (.entry x.2) }

end Dictionary

namespace Memory
variable {handed : Stores} {m : Memory} {key : String} {e : Entry} {id : PathId} {bytes : Bytes}

/-- Memory after a list of changes. -/
def afterAll (m : Memory) (changes : List Change) : Memory := changes.foldl after m

theorem Coherent.afterAll {changes : List Change} (coherent : m.Coherent handed)
    (before : Option Change) (allowed : m.AllowsAll handed before changes) :
    (m.afterAll changes).Coherent handed := by
  induction changes generalizing m before with
  | nil => exact coherent
  | cons change changes ih => exact ih (coherent.after allowed.1) _ allowed.2.2

theorem get?_eq (m : Memory) (key : String) :
    m.get? key = (m.names.id? key).bind fun id =>
      (m.records.get? (.entry id)).map (Cached.decode m.names) := by
  unfold get?
  cases m.names.id? key with
  | none => rfl
  | some id => cases found : m.records.get? (.entry id) <;> simp [found]

/-- An entry that was put is found under the name of its identity. -/
theorem get?_putEntry (sound : m.names.Sound) (known : m.names.name? id = some key)
    (decoded : Entry.decode? m.names bytes = .ok e) (k : String) :
    (m.after (.put (.entry id) bytes)).get? k = if key = k then some (.entry e) else m.get? k := by
  rw [get?_eq, get?_eq]
  by_cases same : key = k
  · have here := (Names.id?_eq_some sound).mpr known
    simp [after, Table.get?_insert, ← same, here, Cached.decode, decoded]
  · rw [if_neg same]
    cases there : m.names.id? k with
    | none => simp [after, there]
    | some id' =>
      have other : id ≠ id' := by
        rintro rfl
        rw [(Names.id?_eq_some sound).mp there] at known
        exact same (Option.some.inj known).symm
      simp [after, there, Table.get?_insert, other]

theorem get?_removes (m : Memory) (slots : List Slot) (slot : Slot) :
    (m.afterAll (slots.map .remove)).names = m.names ∧
      (m.afterAll (slots.map .remove)).records.get? slot =
        if slot ∈ slots then none else m.records.get? slot := by
  induction slots generalizing m with
  | nil => exact ⟨rfl, rfl⟩
  | cons s slots ih =>
    obtain ⟨names, records⟩ := ih (m.after (.remove s))
    refine ⟨names, ?_⟩
    change Table.get? (afterAll (m.after (.remove s)) (slots.map .remove)).records slot = _
    rw [records, after, Table.get?_erase]
    by_cases here : slot ∈ slots
    · simp [here]
    · by_cases same : s = slot
      · simp [same]
      · simp [here, same, Ne.symm same]

/-- Memory holds exactly what the dictionary says. -/
structure Refines (m : Memory) (t : Dictionary) : Prop where
  coherent : ∃ stored, m.Coherent stored
  distinct : t.entries.keys.Nodup
  serves : ∀ key, m.get? key = (t.entries.get? key).map .entry
  noted : (m.records.get? .validation).isSome = t.noted

theorem refines_empty : empty.Refines .empty where
  coherent := ⟨[], coherent_empty []⟩
  distinct := List.nodup_nil
  serves _ := rfl
  noted := rfl

variable {t : Dictionary}

theorem Refines.learn {names : Names} (refines : m.Refines t) (more : m.names.Prefix names)
    (sound : names.Sound) : (m.after (.learn names)).Refines t where
  coherent := by
    obtain ⟨stored, coherent⟩ := refines.coherent
    exact ⟨stored, coherent.learn more sound⟩
  distinct := refines.distinct
  serves key := by
    obtain ⟨stored, coherent⟩ := refines.coherent
    rw [← refines.serves key]
    exact coherent.get?_eq more sound (fun _ => rfl) key
  noted := refines.noted

theorem Refines.dropped (refines : m.Refines t) (rejects : ¬m.Accepts key e) :
    (m.afterAll (m.putting key e)).Refines t := by
  obtain ⟨stored, coherent⟩ := refines.coherent
  rcases putting_cases coherent.sound key e with ⟨accepts, _⟩ | ⟨_, names, changes, more, sound⟩
  · exact absurd accepts rejects
  · rw [changes]
    exact refines.learn more sound

theorem Refines.stored (refines : m.Refines t) (accepts : m.Accepts key e) :
    (m.afterAll (m.putting key e)).Refines (t.put key e) := by
  obtain ⟨stored, coherent⟩ := refines.coherent
  have coherent' := coherent.mono (List.subset_cons_self (key, e) stored)
  rcases putting_cases coherent.sound key e with ⟨_, names, id, bytes, storing⟩ | ⟨rejects, _⟩
  · have all := coherent'.afterAll none (allowsAll_putting coherent'.sound List.mem_cons_self)
    have learned := refines.learn storing.more storing.sound
    have validated (k : String) : get? ⟨names, m.records.insert .validation
        (validationRecord names.size)⟩ k = (t.entries.get? k).map .entry := by
      have same := learned.serves k
      rw [get?_eq] at same ⊢
      simpa [after, Table.get?_insert] using same
    have entry := get?_putEntry (m := ⟨names, m.records.insert .validation
      (validationRecord names.size)⟩) storing.sound storing.known storing.decoded
    rw [storing.changes] at all ⊢
    simp only [afterAll, after, List.foldl_cons, List.foldl_nil] at all entry ⊢
    refine ⟨⟨_, all⟩, Table.nodup_keys_insert refines.distinct _ _, fun k => ?_, ?_⟩
    · rw [entry k, validated k, Dictionary.put, Table.get?_insert]
      split <;> rfl
    · simp [Table.get?_insert, Dictionary.put]
  · exact absurd accepts rejects

/-- Removing slots of entries removes the entries that are found there. -/
theorem Refines.removes {t' : Dictionary} {slots : List Slot} (refines : m.Refines t)
    (entries : ∀ slot ∈ slots, slot ≠ .validation) (distinct : t'.entries.keys.Nodup)
    (noted : t'.noted = t.noted)
    (left : ∀ key id, m.names.id? key = some id → t'.entries.get? key =
      if .entry id ∈ slots then none else t.entries.get? key)
    (absent : ∀ key, m.names.id? key = none → t'.entries.get? key = none) :
    (m.afterAll (slots.map .remove)).Refines t' where
  coherent := by
    obtain ⟨stored, coherent⟩ := refines.coherent
    exact ⟨stored, coherent.afterAll none (allowsAll_removes none slots entries)⟩
  distinct := distinct
  serves key := by
    have before := refines.serves key
    rw [get?_eq] at before
    rw [get?_eq, (get?_removes m slots .validation).1]
    cases known : m.names.id? key with
    | none => rw [absent key known]; rfl
    | some id =>
      rw [known] at before
      change (m.records.get? (.entry id)).map _ = _ at before
      change ((m.afterAll _).records.get? (.entry id)).map _ = _
      rw [(get?_removes m slots (.entry id)).2, left key id known]
      split
      · rfl
      · exact before
  noted := by
    have other : Slot.validation ∉ slots := fun mem => entries _ mem rfl
    rw [(get?_removes m slots .validation).2, if_neg other, refines.noted, noted]

theorem Refines.absent (refines : m.Refines t) (unknown : m.names.id? key = none) :
    t.entries.get? key = none := by
  have nothing := refines.serves key
  rw [get?_eq, unknown] at nothing
  cases found : t.entries.get? key with
  | none => rfl
  | some e =>
    rw [found] at nothing
    cases nothing

theorem Refines.removed (refines : m.Refines t) (key : String) :
    (m.afterAll (m.removing key)).Refines (t.remove key) := by
  obtain ⟨stored, coherent⟩ := refines.coherent
  have distinct := Table.nodup_keys_erase refines.distinct key
  unfold removing
  cases known : m.names.id? key with
  | none =>
    have same : t.remove key = t := by
      rw [Dictionary.remove, Table.erase_of_get?_none (refines.absent known)]
    rw [same]
    exact refines
  | some id =>
    change (m.afterAll ([Slot.entry id].map .remove)).Refines _
    refine refines.removes (by simp) distinct rfl ?_ ?_
    · intro k id' known'
      have both : key = k ↔ id' = id := by
        constructor
        · rintro rfl
          exact Option.some.inj (known'.symm.trans known)
        · rintro rfl
          rw [Names.id?_eq_some coherent.sound] at known known'
          exact Option.some.inj (known.symm.trans known')
      rw [Dictionary.remove, Table.get?_erase]
      simp [both]
    · intro k unknown
      rw [Dictionary.remove, Table.get?_erase, refines.absent unknown, ite_self]

theorem mem_doomed (distinct : m.records.keys.Nodup) {p : Cached → Bool} :
    .entry id ∈ m.doomed p ↔
      ∃ bytes, m.records.get? (.entry id) = some bytes ∧ p (.decode m.names bytes) := by
  simp only [doomed, List.mem_map, List.mem_filter, Table.get?_eq_some distinct]
  constructor
  · rintro ⟨⟨slot, bytes⟩, ⟨mem, matches_⟩, rfl⟩
    exact ⟨bytes, mem, matches_⟩
  · rintro ⟨bytes, mem, matches_⟩
    exact ⟨(.entry id, bytes), ⟨mem, matches_⟩, rfl⟩

theorem Refines.removedIf {p : Cached → Bool} {slots : List Slot} (refines : m.Refines t)
    (perm : slots.Perm (m.doomed p)) :
    (m.afterAll (slots.map .remove)).Refines (t.removeIf p) := by
  obtain ⟨stored, coherent⟩ := refines.coherent
  have entries : ∀ slot ∈ slots, slot ≠ .validation :=
    fun slot mem => entry_of_mem_doomed (perm.mem_iff.mp mem)
  have distinct : (t.removeIf p).entries.keys.Nodup :=
    refines.distinct.sublist (List.filter_sublist.map _)
  refine refines.removes entries distinct rfl ?_ ?_
  · intro key id known
    have here := refines.serves key
    rw [get?_eq, known] at here
    change (m.records.get? (.entry id)).map _ = _ at here
    rw [Dictionary.removeIf, Table.get?_filter refines.distinct]
    simp only [perm.mem_iff, mem_doomed coherent.distinct]
    cases found : t.entries.get? key with
    | none => simp
    | some e =>
      rw [found, Option.map_some, Option.map_eq_some_iff] at here
      obtain ⟨bytes, record, decoded⟩ := here
      cases matches_ : p (.entry e) <;> simp [record, decoded, matches_]
  · intro key unknown
    rw [Dictionary.removeIf, Table.get?_filter refines.distinct, refines.absent unknown]
    rfl

/-- There is a record for each entry of the dictionary, and the validation record. -/
theorem Refines.length_records (refines : m.Refines t) :
    m.records.length = t.entries.length + if t.noted then 1 else 0 := by
  obtain ⟨stored, coherent⟩ := refines.coherent
  have identity {key : String} (mem : key ∈ t.entries.keys) : ∃ id bytes,
      m.names.id? key = some id ∧ m.records.get? (.entry id) = some bytes := by
    obtain ⟨e, found⟩ := Option.isSome_iff_exists.mp (Table.mem_keys.mp mem)
    have served := refines.serves key
    rw [found, get?_eq, Option.map_some, Option.bind_eq_some_iff] at served
    obtain ⟨id, known, served⟩ := served
    obtain ⟨bytes, record, _⟩ := Option.map_eq_some_iff.mp served
    exact ⟨id, bytes, known, record⟩
  let slot (key : String) : Slot := .entry ((m.names.id? key).getD 0)
  have slots : (m.records.keys).Perm
      ((if t.noted then [.validation] else []) ++ t.entries.keys.map slot) := by
    refine (List.perm_ext_iff_of_nodup coherent.distinct ?_).mpr ?_
    · refine List.nodup_append.mpr ⟨by split <;> simp, ?_, ?_⟩
      · refine List.pairwise_map.mpr
          (refines.distinct.imp_of_mem fun memA memB other same => other ?_)
        obtain ⟨id, _, knownA, _⟩ := identity memA
        obtain ⟨id', _, knownB, _⟩ := identity memB
        simp only [slot, knownA, knownB, Option.getD_some, Slot.entry.injEq] at same
        subst same
        rw [Names.id?_eq_some coherent.sound] at knownA knownB
        exact Option.some.inj (knownA.symm.trans knownB)
      · rintro a memA b memB rfl
        obtain ⟨_, _, rfl⟩ := List.mem_map.mp memB
        split at memA <;> simp [slot] at memA
    · intro s
      rw [Table.mem_keys, List.mem_append, List.mem_map]
      cases s with
      | validation =>
        rw [refines.noted]
        cases t.noted <;> simp [slot]
      | entry id =>
        rw [Option.isSome_iff_exists]
        constructor
        · rintro ⟨bytes, record⟩
          obtain ⟨key, e, _, name, decoded⟩ := coherent.genuine id bytes record
          have known := (Names.id?_eq_some coherent.sound).mpr name
          refine .inr ⟨key, ?_, by simp [slot, known]⟩
          have served := refines.serves key
          rw [get?_eq, known, Option.bind_some, record] at served
          rw [Table.mem_keys]
          cases found : t.entries.get? key with
          | none => rw [found] at served; cases served
          | some e => rfl
        · rintro (mem | ⟨key, mem, same⟩)
          · split at mem <;> simp at mem
          · obtain ⟨id', bytes, known, record⟩ := identity mem
            simp only [slot, known, Option.getD_some, Slot.entry.injEq] at same
            exact ⟨bytes, same ▸ record⟩
  have lengths := slots.length_eq
  simp only [Table.keys, List.length_map, List.length_append] at lengths
  rw [lengths, Nat.add_comm]
  cases t.noted <;> rfl

end Memory

namespace Index
variable {faults : Faults} {cwd : Place} {d : Disk}

theorem always_names_noteAll (index : Index) (new : List (PathId × String)) :
    Always faults cwd (index.noteAll new) d fun index' _ => index'.names = index.names := by
  induction new generalizing index d with
  | nil => exact always_pure.mpr rfl
  | cons e new ih =>
    refine always_bind.mpr fun now d₁ _ => always_bind.mpr fun log d₂ _ => ?_
    exact ih _

end Index

namespace Cache
variable {faults : Faults} {cwd : Place} {d : Disk}

theorem always_memory_journalDue (c : Cache) :
    Always faults cwd c.journalDue d fun r _ => r.2.memory = c.memory := by
  refine Always.bind always_tick ?_
  rintro now d' rfl
  cases fired : c.gate.tryFire now with
  | mk due gate =>
    cases due with
    | false => exact always_pure.mpr rfl
    | true =>
      refine always_bind.mpr fun r d₁ flush => ?_
      obtain ⟨_, d₂, _, last⟩ := runs_bind.mp flush
      cases last
      exact always_pure.mpr rfl

/-- A change does the same to memory whatever becomes of the files. -/
theorem always_memory_change (c : Cache) (change : Change) :
    Always faults cwd (c.change change) d fun c' _ => c'.memory = c.memory.after change := by
  cases change with
  | learn names =>
    refine Always.bind (Index.always_names_noteAll _ _) ?_
    intro index d' same
    refine always_pure.mpr ?_
    simp only [memory, Memory.after, same]
  | put slot bytes =>
    refine Always.bind (always_memory_journalDue c) ?_
    rintro ⟨due, c'⟩ d₁ same
    refine always_bind.mpr fun map d₂ put => ?_
    obtain ⟨_, _, _, last⟩ := runs_bind.mp put
    cases last
    refine always_pure.mpr ?_
    simp only [memory, Memory.mk.injEq] at same
    simp only [memory, Memory.after, same]
  | remove slot =>
    change Always faults cwd (c.removeRecord slot) d _
    unfold removeRecord
    cases present : c.map.get? slot with
    | none =>
      refine always_pure.mpr ?_
      have erased := Table.erase_of_get?_none present
      simp only [memory, Memory.after, erased]
    | some bytes =>
      refine Always.bind (always_memory_journalDue c) ?_
      rintro ⟨due, c'⟩ d₁ same
      simp only [memory, Memory.mk.injEq] at same
      have present' : (c'.map.get? slot).isNone = false := by
        rw [DurableMap.get?, same.2]
        exact congrArg Option.isNone present
      refine always_bind.mpr fun map d₂ removed => ?_
      unfold DurableMap.remove at removed
      rw [present'] at removed
      obtain ⟨_, _, _, last⟩ := runs_bind.mp removed
      cases last
      refine always_pure.mpr ?_
      simp only [memory, Memory.after, same]

theorem always_memory_changeAll (c : Cache) (changes : List Change) :
    Always faults cwd (c.changeAll changes) d fun c' _ =>
      c'.memory = c.memory.afterAll changes := by
  induction changes generalizing c d with
  | nil => exact always_pure.mpr rfl
  | cons change changes ih =>
    refine Always.bind (always_memory_change c change) ?_
    intro c' d' same
    refine (ih c').mono fun c'' _ all => ?_
    rw [all, same]
    rfl

theorem always_memory_removeIf (c : Cache) (p : Cached → Bool) :
    Always faults cwd (c.removeIf p) d fun r _ => ∃ slots : List Slot, slots.Perm (c.memory.doomed p) ∧
      r.2.memory = c.memory.afterAll (slots.map .remove) := by
  refine Always.bind (always_walk (c.memory.doomed p)) ?_
  rintro slots d' ⟨_, perm⟩
  refine Always.bind (always_memory_changeAll c _) ?_
  intro c' d'' same
  exact always_pure.mpr ⟨slots, perm, same⟩

theorem always_memory_save (c : Cache) :
    Always faults cwd c.save d fun r _ => r.2.memory = c.memory := by
  refine always_bind.mpr fun before d₁ _ => always_bind.mpr fun r d₂ index => ?_
  obtain ⟨⟨saved, log⟩, _, _, last⟩ := runs_bind.mp index
  cases last
  cases saved with
  | error e => exact always_pure.mpr rfl
  | ok n =>
    refine always_bind.mpr fun r d₃ map => ?_
    obtain ⟨⟨saved, log'⟩, _, _, last⟩ := runs_bind.mp map
    cases last
    cases saved with
    | error e => exact always_pure.mpr rfl
    | ok n' => exact always_bind.mpr fun after d₄ _ => always_pure.mpr rfl

end Cache

/-- What a cache has come to, and what it stands for, from an empty cache on. Looking something up
changes neither. -/
inductive Course (faults : Faults) (cwd : Place) : Dictionary → Cache → Prop
  | start {c : Cache} (empty : c.memory = .empty) : Course faults cwd .empty c
  | stored {t : Dictionary} {c c' : Cache} {d d' : Disk} {key : String} {e : Entry}
      (course : Course faults cwd t c) (accepts : c.memory.Accepts key e)
      (run : Runs faults cwd (c.put key e) d c' d') : Course faults cwd (t.put key e) c'
  | dropped {t : Dictionary} {c c' : Cache} {d d' : Disk} {key : String} {e : Entry}
      (course : Course faults cwd t c) (rejects : ¬c.memory.Accepts key e)
      (run : Runs faults cwd (c.put key e) d c' d') : Course faults cwd t c'
  | removed {t : Dictionary} {c c' : Cache} {d d' : Disk} {key : String}
      (course : Course faults cwd t c) (run : Runs faults cwd (c.remove key) d c' d') :
    Course faults cwd (t.remove key) c'
  | removedIf {t : Dictionary} {c c' : Cache} {d d' : Disk} {p : Cached → Bool} {n : Nat}
      (course : Course faults cwd t c) (run : Runs faults cwd (c.removeIf p) d (n, c') d') :
    Course faults cwd (t.removeIf p) c'
  | cleared {t : Dictionary} {c : Cache} (course : Course faults cwd t c) :
    Course faults cwd .empty c.clear
  | saved {t : Dictionary} {c c' : Cache} {d d' : Disk} {res : Except StoreError Nat}
      (course : Course faults cwd t c) (run : Runs faults cwd c.save d (res, c') d') :
    Course faults cwd t c'

namespace Course
variable {faults : Faults} {cwd : Place} {t : Dictionary} {c : Cache}

theorem refines (course : Course faults cwd t c) : c.memory.Refines t := by
  induction course with
  | start empty => exact empty ▸ Memory.refines_empty
  | stored _ accepts run ih =>
    rw [Cache.always_memory_changeAll _ _ _ _ run]
    exact ih.stored accepts
  | dropped _ rejects run ih =>
    rw [Cache.always_memory_changeAll _ _ _ _ run]
    exact ih.dropped rejects
  | removed _ run ih =>
    rw [Cache.always_memory_changeAll _ _ _ _ run]
    exact ih.removed _
  | removedIf _ run ih =>
    obtain ⟨slots, perm, memory⟩ := Cache.always_memory_removeIf _ _ _ _ run
    exact memory ▸ ih.removedIf perm
  | cleared _ ih => exact Memory.refines_empty
  | saved _ run ih =>
    have memory := Cache.always_memory_save _ _ _ run
    exact memory ▸ ih

/-- A cache serves what its dictionary has, and nothing else, and counts it. -/
theorem serves_dictionary (course : Course faults cwd t c) :
    (∀ key, c.get? key = (t.entries.get? key).map .entry) ∧ t.entries.keys.Nodup ∧
      c.entryCount = t.entries.length ∧ c.size = c.entryCount + if t.noted then 1 else 0 := by
  have refines := course.refines
  have size : c.size = _ := refines.length_records
  have noted : (c.map.get? .validation).isSome = t.noted := refines.noted
  have count : c.entryCount = t.entries.length := by
    rw [Cache.entryCount, size, noted, Nat.add_sub_cancel]
  exact ⟨refines.serves, refines.distinct, count, by rw [count, size]⟩

/-- An entry that is stored, and one whose key is not Latin-1, which is not. -/
theorem serves_dictionary_sample : ∃ (e e' : Entry) (t : Dictionary) (c : Cache),
    Course .any [] t c ∧ t = Dictionary.empty.put "a" e ∧ e'.key = "Ā" ∧
      c.get? "a" = some (.entry e.truncate) ∧ c.get? "b" = none ∧ c.entryCount = 1 ∧
      c.size = 2 := by
  let e : Entry := ⟨"k", [1], some ["in"], [], .empty, .empty⟩
  let e' : Entry := ⟨"Ā", [1], some ["in"], [], .empty, .empty⟩
  let layout : Layout := ⟨⟨"cache"⟩, ⟨"cache.corrupted"⟩⟩
  let c : Cache :=
    { layout, options := {}, index := ⟨.empty, { files := layout.indexFiles, format := Index.format },
        .start 0 0⟩,
      map := ⟨[], { files := layout.mapFiles, format := Cache.format }⟩, gate := .start 0 0,
      counters := .zero, loadMillis := none, saveMillis := none }
  have start : Course .any [] .empty c := .start rfl
  have encodable : e.Encodable :=
    ⟨by simp [e], by decide, by decide, by simp [e, Field.lengthBound], by decide, by decide, nofun,
      by decide, nofun⟩
  have rejected : ¬e'.Encodable := fun h => absurd (h.key 'Ā' (by decide)) (by decide)
  obtain ⟨c₁, d₁, run⟩ := exists_runs .any [] (c.put "a" e) ⟨[], 0⟩
  have first := start.stored ⟨encodable, by decide⟩ run
  obtain ⟨c₂, d₂, run⟩ := exists_runs .any [] (c₁.put "b" e') d₁
  have second := first.dropped (fun accepts => rejected accepts.1) run
  obtain ⟨serves, _, count, size⟩ := serves_dictionary second
  rw [count] at size
  exact ⟨e, e', _, c₂, second, rfl, rfl, serves "a", serves "b", count, size⟩

end Course
end BuildCache
