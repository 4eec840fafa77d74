import BuildCache.Proofs.Dictionary
import BuildCache.Proofs.Regularity
import BuildCache.Proofs.Rehearsals

/-!
Storing an entry does all of it or nothing. What the entry itself looks like decides: with a stored
form it takes two records of the map, its own and the validation record, and no other one; without
one nothing of the map is touched, however deep in the entry the encoder fails, and only names may
be new. It is not assumed that the map hangs together, and any request may fail.
-/
namespace BuildCache

open Disk Program

namespace Cache
variable {faults : Faults} {cwd : Place} {home : Home} {c c' : Cache} {d d' : Disk} {key : String}
  {e : Entry}

/-- The map is what it was: its records, what is pending, and its files. -/
structure Spared (home : Home) (c : Cache) (d : Disk) (c' : Cache) (d' : Disk) : Prop where
  map : c'.map = c.map
  files : SameAt home.map.places d d'

/-- Two records of the map are new, and the others are what they were. -/
structure Took (key : String) (e : Entry) (c c' : Cache) (id : PathId) (bytes : Bytes) : Prop where
  known : c'.index.names.name? id = some key
  decoded : Entry.decode? c'.index.names bytes = .ok e.truncate
  records : ∀ slot, c'.map.get? slot =
    if slot = .validation then some (validationRecord c'.index.names.size)
    else if slot = .entry id then some bytes else c.map.get? slot

/-- Names alone leave the map as it is. -/
theorem Changed.spared {names : Names}
    (changed : c.Changed faults home d (.learn names) c' d') : c.Spared home d c' d' := by
  generalize learn : Change.learn names = change at changed
  have other (slot : Slot) (bytes? : Option Bytes) : Change.learn names ≠ .of slot bytes? := by
    cases bytes? <;> exact nofun
  cases changed with
  | learned _ _ _ _ _ same => exact ⟨rfl, same⟩
  | absent => cases learn
  | quiet => exact absurd learn (other _ _)
  | unflushed => exact absurd learn (other _ _)
  | journaled => exact absurd learn (other _ _)

/-- Names that extend the known ones, and then mutations of the map, leave the cache at home. -/
theorem always_stands_changeAll {names : Names} (stands : c.Stands home cwd d)
    (more : c.index.names.Prefix names) (sound : names.Sound) {puts : List Change}
    (puts_ : ∀ change ∈ puts, ∀ ns, change ≠ .learn ns) :
    Always faults cwd (c.changeAll (.learn names :: puts)) d fun c' d' =>
      c'.Stands home cwd d' := by
  have rest : ∀ c d, Stands c home cwd d →
      Always faults cwd (c.changeAll puts) d fun c' d' => c'.Stands home cwd d' := by
    induction puts with
    | nil => exact fun c d stands => always_pure.mpr stands
    | cons change puts ih =>
      intro c d stands
      refine Always.bind (always_change stands change fun ns learn =>
        absurd learn (puts_ change List.mem_cons_self ns)) ?_
      rintro c₁ d₁ ⟨_, stands₁, _⟩
      exact ih (fun change mem => puts_ change (List.mem_cons_of_mem _ mem)) c₁ d₁ stands₁
  refine Always.bind (always_change stands (.learn names) ?_) ?_
  · rintro ns learn
    cases learn
    exact ⟨more, sound⟩
  · rintro c₁ d₁ ⟨_, stands₁, _⟩
    exact rest c₁ d₁ stands₁

/-- An entry that is not accepted leaves the map alone, also where there were identities left. -/
theorem spared_of_put (stands : c.Stands home cwd d) (sound : c.index.names.Sound)
    (rejects : ¬c.memory.Accepts key e) (run : Runs faults cwd (c.put key e) d c' d') :
    c.Spared home d c' d' := by
  rcases Memory.putting_cases (m := c.memory) sound key e with
    ⟨accepts, _⟩ | ⟨_, names, putting, more, sound'⟩
  · exact absurd accepts rejects
  rw [put, putting] at run
  obtain ⟨c₁, d₁, learned, last⟩ := runs_bind.mp run
  cases last
  obtain ⟨_, _, changed⟩ := always_change stands (.learn names) (by
    rintro ns learn
    cases learn
    exact ⟨more, sound'⟩) c' d' learned
  exact changed.spared

/-- An entry that is accepted takes its own record and the validation record. -/
theorem took_of_put {names : Names} {id : PathId} {bytes : Bytes}
    (storing : c.memory.Storing key e names id bytes)
    (memory : c'.memory = c.memory.afterAll (c.memory.putting key e)) :
    c.Took key e c' id bytes := by
  rw [storing.changes] at memory
  have names_ : c'.index.names = names := congrArg Memory.names memory
  have records : c'.map.entries = (c.map.entries.insert .validation
      (validationRecord names.size)).insert (.entry id) bytes := congrArg Memory.records memory
  constructor
  · rw [names_]
    exact storing.known
  · rw [names_]
    exact storing.decoded
  · intro slot
    rw [names_, DurableMap.get?, DurableMap.get?, records, Table.get?_insert, Table.get?_insert]
    cases slot with
    | validation => rfl
    | entry id' => simp [eq_comm]

theorem Took.serves {id : PathId} {bytes : Bytes} (took : c.Took key e c' id bytes)
    (sound : c'.index.names.Sound) : c'.get? key = some (.entry e.truncate) := by
  have known : c'.index.names.id? key = some id := (Names.id?_eq_some sound).mpr took.known
  have record : c'.map.get? (.entry id) = some bytes := by
    have record := took.records (.entry id)
    rwa [if_neg nofun, if_pos rfl] at record
  have served : Cached.decode c'.index.names bytes = .entry e.truncate := by
    rw [Cached.decode, took.decoded]
  rw [get?, Memory.get?_eq]
  change ((c'.index.names.id? key).bind fun id =>
    (c'.map.get? (.entry id)).map (Cached.decode c'.index.names)) = _
  rw [known, Option.bind_some, record, Option.map_some, served]

/-- A put stores the entry exactly if it is encodable, as long as there are identities left for its
names. Otherwise the map is what it was; names keep their identities in any case. -/
theorem whole_or_spared_of_put (stands : c.Stands home cwd d) (sound : c.index.names.Sound)
    (room : (c.index.names.taking (key :: e.names)).size ≤ Names.capacity)
    (run : Runs faults cwd (c.put key e) d c' d') :
    c'.Stands home cwd d' ∧ c'.index.names.Sound ∧ c.index.names.Prefix c'.index.names ∧
    ((∀ slot bytes, .put slot bytes ∉ c.memory.putting key e) ↔ ¬e.Encodable) ∧
    (¬e.Encodable → c.Spared home d c' d') ∧
    (e.Encodable → (∃ id bytes, c.Took key e c' id bytes) ∧
      c'.get? key = some (.entry e.truncate)) := by
  have memory : c'.memory = c.memory.afterAll (c.memory.putting key e) :=
    always_memory_changeAll c _ c' d' run
  have accepts : c.memory.Accepts key e ↔ e.Encodable := and_iff_left room
  rcases Memory.putting_cases (m := c.memory) sound key e with
    ⟨accepted, names, id, bytes, storing⟩ | ⟨rejected, names, putting, more, sound'⟩
  · have encodable := accepts.mp accepted
    have took := took_of_put storing memory
    rw [put, storing.changes] at run
    have stands' := always_stands_changeAll stands storing.more storing.sound (by simp) c' d' run
    rw [storing.changes] at memory ⊢
    obtain rfl : c'.index.names = names := congrArg Memory.names memory
    refine ⟨stands', storing.sound, storing.more, ?_, fun not => absurd encodable not,
      fun _ => ⟨⟨id, bytes, took⟩, took.serves storing.sound⟩⟩
    refine iff_of_false (fun nothing => ?_) (not_not_intro encodable)
    apply nothing (.entry id) bytes
    simp
  · have unencodable : ¬e.Encodable := fun encodable => rejected (accepts.mpr encodable)
    have spared := spared_of_put stands sound rejected run
    rw [put, putting] at run
    have stands' := always_stands_changeAll stands more sound' (by simp) c' d' run
    rw [putting] at memory ⊢
    obtain rfl : c'.index.names = names := congrArg Memory.names memory
    refine ⟨stands', sound', more, iff_of_true ?_ unencodable, fun _ => spared,
      fun encodable => absurd encodable unencodable⟩
    simp

/-- An entry that is stored, and behind it one under the same key that has no stored form. -/
theorem whole_or_spared_of_put_sample : ∃ (c c₁ c₂ : Cache) (d d₁ d₂ : Disk),
    Runs .none [] (c.put "a" (.sample "a" (some ["p"]))) d c₁ d₁ ∧
      Runs .none [] (c₁.put "a" (.sample "Ā" (some ["q"]))) d₁ c₂ d₂ ∧
      c₁.get? "a" = some (.entry (.sample "a" (some ["p"]))) ∧
      c₁.index.names.Prefix c₂.index.names ∧ c₁.Spared (Layout.home ["cache"]) d₁ c₂ d₂ := by
  have opening := runs_run .none (Cache.open .sample {}) (Situation.host [] .sample)
  have ok : ((Cache.open .sample {}).run (Situation.host [] .sample)).1.1.isOk := by
    decide +kernel
  obtain ⟨⟨res, messages⟩, opens⟩ : ∃ r,
      ((Cache.open .sample {}).run (Situation.host [] .sample)).1 = r := ⟨_, rfl⟩
  rw [opens] at opening ok
  cases res with
  | error fault => cases ok
  | ok c =>
    obtain ⟨_, _, opened, _⟩ := regular_of_empty (μ := .fits) Layout.empty_sample opening
    have stands := opened.stands Layout.empty_sample.lives
    have names : c.index.names = .empty := congrArg Memory.names opened.memory
    obtain ⟨c₁, d₁, first⟩ := exists_runs .none [] (c.put "a" (.sample "a" (some ["p"]))) _
    obtain ⟨stands₁, sound₁, _, _, _, stored⟩ := whole_or_spared_of_put stands
      (names ▸ Names.sound_empty) (by rw [names]; decide) first
    have encodable : (Entry.sample "a" (some ["p"])).Encodable :=
      ⟨List.forall_mem_singleton.mpr (by decide), by decide, by decide, by decide, by decide,
        by decide, nofun, by decide, nofun⟩
    have names₁ : c₁.index.names = ⟨["a", "p"]⟩ := by
      have memory := always_memory_changeAll c _ _ _ first
      rw [opened.memory] at memory
      exact congrArg Memory.names memory
    obtain ⟨c₂, d₂, second⟩ := exists_runs .none [] (c₁.put "a" (.sample "Ā" (some ["q"]))) d₁
    obtain ⟨_, _, more, _, spared, _⟩ := whole_or_spared_of_put stands₁ sound₁
      (by rw [names₁]; decide) second
    have unencodable : ¬(Entry.sample "Ā" (some ["q"])).Encodable := by
      intro encodable
      exact absurd (List.forall_mem_singleton.mp encodable.key) (by decide)
    exact ⟨c, c₁, c₂, _, d₁, d₂, first, second, (stored encodable).2, more, spared unencodable⟩

end Cache
end BuildCache
