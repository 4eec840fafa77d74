import BuildCache.Proofs.Situations

/-!
The induction over a run, once for all that is proved about runs: each operation is a list of
single changes of memory or a save, and what is kept by each of them, and found again when the
cache is opened, holds in every situation that the run comes to.
-/
namespace BuildCache

open Disk Program

variable {μ : Measure} {rules : Rules} {layout : Layout} {cwd r : Place} {start : Disk}
  {faults : Faults} {s s' : Situation} {c : Cache} {d : Disk}

/-- The cache is at home and consistent with its files. -/
structure Situation.Regular (μ : Measure) (layout : Layout) (cwd r : Place) (s : Situation) :
    Prop where
  lives : layout.Lives cwd r s.disk
  stands : s.cache.Stands (Layout.home r) cwd s.disk
  consistent : s.cache.Consistent μ s.stored (Layout.home r) s.disk
  recent : s.cache.memory ∈ s.past

namespace Situation.Regular

theorem handed {more : Stores} (regular : s.Regular μ layout cwd r) (sub : s.stored ⊆ more) :
    Regular μ layout cwd r { s with stored := more } :=
  ⟨regular.lives, regular.stands, regular.consistent.mono sub, regular.recent⟩

theorem cleared (regular : s.Regular μ layout cwd r) : s.cleared_.Regular μ layout cwd r where
  lives := regular.lives
  stands :=
    ⟨⟨regular.stands.index.holds, regular.stands.index.attached⟩,
      ⟨regular.stands.map.holds, regular.stands.map.attached⟩, regular.stands.apart,
      regular.stands.indexFormat, regular.stands.mapFormat⟩
  consistent := Cache.consistent_clear μ s.stored _ s.cache s.disk
  recent := List.mem_cons_self

/-- A single change of memory that storing or removing an entry may come to. -/
theorem changed {change : Change} (regular : s.Regular μ layout cwd r) (whole : ¬faults.tears)
    (allowed : s.cache.memory.Allows s.stored change)
    (run : Runs faults cwd (s.cache.change change) s.disk c d) :
    s.cache.Changed faults (Layout.home r) s.disk change c d ∧
      (c.memory.Within μ → (s.changed (Layout.home r) c d).Regular μ layout cwd r) := by
  have grows : ∀ names, change = .learn names →
      s.cache.index.names.Prefix names ∧ names.Sound := by
    rintro names rfl
    exact allowed
  obtain ⟨touches, stands, changed⟩ := Cache.always_change regular.stands change grows c d run
  refine ⟨changed, fun within => ⟨regular.lives.touches touches, stands, ?_, List.mem_cons_self⟩⟩
  exact regular.consistent.changed whole allowed within changed

theorem saved {res : Except StoreError Nat} (regular : s.Regular μ layout cwd r)
    (within : ∀ m ∈ s.past, m.Within μ) (run : Runs faults cwd s.cache.save s.disk (res, c) d) :
    s.cache.Saved faults (Layout.home r) s.disk (res, c) d ∧
      (s.saved c d).Regular μ layout cwd r ∧
      (s.unsaved (Layout.home r) c d).Regular μ layout cwd r ∧
      (res.isOk → c.Settled μ s.stored (Layout.home r) d) := by
  obtain ⟨touches, stands, saved⟩ := Cache.always_save regular.stands (res, c) d run
  obtain ⟨consistent, settled⟩ :=
    regular.consistent.saved regular.stands (within _ regular.recent) saved
  have lives := regular.lives.touches touches
  have recent : c.memory ∈ s.past := by
    have memory : c.memory = _ := saved.memory
    rw [memory]
    exact regular.recent
  exact ⟨saved, ⟨lives, stands, consistent, recent⟩, ⟨lives, stands, consistent, recent⟩, settled⟩

end Situation.Regular

open Situation

theorem Changes.past {home : Home} {changes : List Change}
    (run : Changes faults cwd home changes s s') : s.past ⊆ s'.past := by
  induction run with
  | done => exact fun _ mem => mem
  | next _ _ ih => exact fun _ mem => ih (List.mem_cons_of_mem _ mem)

/-- A change has led from one situation, in which `J` holds, to the other. -/
structure Led (μ : Measure) (faults : Faults) (layout : Layout) (cwd r : Place)
    (J : Situation → Prop) (change : Change) (s₀ s : Situation) : Prop where
  regular : s₀.Regular μ layout cwd r
  holds : J s₀
  allowed : s₀.cache.memory.Allows s₀.stored change
  changed : s₀.cache.Changed faults (Layout.home r) s₀.disk change s.cache s.disk
  within : s.cache.memory.Within μ
  same : s = s₀.changed (Layout.home r) s.cache s.disk

/-- What every single change keeps. An entry is put only right behind the validation record, so
that what this one has left behind is known there. -/
def KeptByChanges (μ : Measure) (faults : Faults) (layout : Layout) (cwd r : Place)
    (J : Situation → Prop) : Prop :=
  ∀ s change c d, s.Regular μ layout cwd r → s.cache.memory.Allows s.stored change →
    (∀ id bytes, change = .put (.entry id) bytes → ∃ s₀, Led μ faults layout cwd r J
      (.put .validation (validationRecord s.cache.memory.names.size)) s₀ s) →
    s.cache.Changed faults (Layout.home r) s.disk change c d → c.memory.Within μ →
    (s.changed (Layout.home r) c d).Regular μ layout cwd r →
    J s → J (s.changed (Layout.home r) c d)

theorem Changes.keeps {J : Situation → Prop} {changes : List Change}
    (kept : KeptByChanges μ faults layout cwd r J) (whole : ¬faults.tears)
    (run : Changes faults cwd (Layout.home r) changes s s') (regular : s.Regular μ layout cwd r)
    (within : ∀ m ∈ s'.past, m.Within μ) (before : Option Change)
    (allowed : s.cache.memory.AllowsAll s.stored before changes)
    (led : ∀ change, before = some change → ∃ s₀, Led μ faults layout cwd r J change s₀ s)
    (holds : J s) : s'.Regular μ layout cwd r ∧ J s' := by
  induction run generalizing before with
  | done s => exact ⟨regular, holds⟩
  | @next change changes s s' c d step rest ih =>
    obtain ⟨first, behind, later⟩ := allowed
    obtain ⟨changed, keeps⟩ := regular.changed whole first step
    have within' := within c.memory (rest.past List.mem_cons_self)
    have regular' := keeps within'
    have holds' := kept s change c d regular first
      (fun id bytes entry => led _ (behind id bytes entry)) changed within' regular' holds
    refine ih regular' within (some change) ?_ ?_ holds'
    · have memory : (s.changed (Layout.home r) c d).cache.memory = _ := changed.memory
      rw [memory]
      exact later
    · intro change' same
      cases same
      exact ⟨s, regular, holds, first, changed, within', rfl⟩

/-- A cache that was just opened has nothing in memory that its files do not hold. -/
theorem Cache.Opened.settled {stored : Stores} {options : Options} {m : Memory}
    (opened : c.Opened layout options m)
    (consistent : c.Consistent μ stored (Layout.home r) d) :
    c.Settled μ stored (Layout.home r) d where
  index := by
    have told := consistent.index.clean (by rw [opened.index])
    rwa [opened.index] at told
  map := by
    have holds := consistent.map.clean (by rw [opened.map])
    rwa [opened.map] at holds

/-- A cache that was opened from files that belong together is regular. -/
theorem regular_opened {told : List (Record PathId String)} {told' : List (Record Slot Bytes)}
    {ns : Names} {options : Options} {stored : Stores} (past : List Memory)
    (lives : layout.Lives cwd r d)
    (index : Log.Tells (fun rec => ns.Tells rec ∧ μ.names rec) (Layout.home r).index Index.format d
      told)
    (map : Log.Tells (Cache.Says μ stored ns) (Layout.home r).map Cache.format d told')
    (spells : Names.Spells told ns) (sound : ns.Sound)
    (validated : Memory.Validated ⟨ns, DurableMap.replay told'⟩)
    (opened : c.Opened layout options ⟨ns, DurableMap.replay told'⟩) :
    (Situation.opened stored past c d).Regular μ layout cwd r := by
  have names : c.index.names = ns := congrArg Memory.names opened.memory
  have entries : c.map.entries = DurableMap.replay told' := congrArg Memory.records opened.memory
  have holds : Log.Holds (Cache.Says μ stored ns) Cache.format (Layout.home r).map d
      (DurableMap.replay told') := ⟨told', map, Log.covers_replay told'⟩
  have coherent : c.memory.Coherent stored := by
    rw [opened.memory]
    refine ⟨sound, DurableMap.nodup_keys_replay told', fun id bytes found => ?_, validated⟩
    exact (map.each _ (DurableMap.mem_of_get?_replay found)).2
  refine ⟨lives, opened.stands lives, ⟨coherent, ?_, ?_⟩, List.mem_cons_self⟩
  · change Index.Follows μ.names c.index.names c.index.log _ d
    rw [names, opened.index]
    exact ⟨nofun, fun _ => ⟨told, index, spells⟩⟩
  · change Log.Faithful (Cache.Says μ stored c.index.names) c.map.log _ d c.map.entries
    rw [names, entries, opened.map]
    refine ⟨⟨DurableMap.nodup_keys_replay told', List.nodup_nil, nofun, ?_, nofun,
      fun _ => holds⟩, fun _ => holds⟩
    intro e mem
    refine map.each _ (DurableMap.mem_of_get?_replay ?_)
    exact Table.get?_of_mem (DurableMap.nodup_keys_replay told') mem

/-- A cache that was opened empty in an empty directory is regular. -/
theorem regular_opened_empty {options : Options} (stored : Stores) (past : List Memory)
    (empty : layout.Empty cwd r d) (opened : c.Opened layout options .empty) :
    (Situation.opened stored past c d).Regular μ layout cwd r := by
  have validated : Memory.Validated ⟨.empty, DurableMap.replay []⟩ :=
    fun nonempty => absurd rfl nonempty
  exact regular_opened past empty.lives (Log.tells_of_absent (empty.content _) (empty.content _))
    (Log.tells_of_absent (empty.content _) (empty.content _)) Names.spells_nil Names.sound_empty
    validated opened

/-- In an empty directory the cache opens empty. -/
theorem regular_of_empty {options : Options} {messages : List Diagnostic}
    (empty : layout.Empty cwd r start)
    (opening : Runs .none cwd (Cache.open layout options) start (.ok c, messages) d) :
    d = start ∧ messages = [] ∧ c.Opened layout options .empty ∧
      (Situation.opened [] [] c d).Regular μ layout cwd r := by
  have validated : Memory.Validated ⟨.empty, DurableMap.replay []⟩ :=
    fun nonempty => absurd rfl nonempty
  obtain ⟨rfl, c', same, opened⟩ := Cache.always_open empty.lives
    (Log.tells_of_absent (empty.content _) (empty.content _))
    (Log.tells_of_absent (empty.content _) (empty.content _)) Names.spells_nil Names.sound_empty
    validated options _ _ opening
  cases same
  exact ⟨rfl, rfl, opened, regular_opened_empty [] [] empty opened⟩

/-- What is true when the cache is opened, and is kept by whatever the rules let happen. -/
structure Invariant (μ : Measure) (rules : Rules) (layout : Layout) (cwd r : Place) (start : Disk)
    (J : Situation → Prop) : Prop where
  opened : ∀ options c messages d,
    Runs .none cwd (Cache.open layout options) start (.ok c, messages) d →
    Regular μ layout cwd r (.opened [] [] c d) ∧ J (.opened [] [] c d)
  handed : ∀ s more, s.stored ⊆ more → J s → J { s with stored := more }
  changed : KeptByChanges μ rules.changes layout cwd r J
  cleared : ∀ s, rules.clears → s.Regular μ layout cwd r → J s → J s.cleared_
  saved : ∀ s n c d, s.Regular μ layout cwd r →
    s.cache.Saved rules.saves (Layout.home r) s.disk (.ok n, c) d →
    (s.saved c d).Regular μ layout cwd r → c.Settled μ s.stored (Layout.home r) d →
    J s → J (s.saved c d)
  unsaved : ∀ s e c d, s.Regular μ layout cwd r → (∀ m ∈ s.past, m.Within μ) →
    s.cache.Saved rules.saves (Layout.home r) s.disk (.error e, c) d →
    (s.unsaved (Layout.home r) c d).Regular μ layout cwd r →
    J s → J (s.unsaved (Layout.home r) c d)
  reopened : ∀ s options c messages d, s.Regular μ layout cwd r → rules.ends s → J s →
    Runs .none cwd (Cache.open layout options) s.disk (.ok c, messages) d →
    Regular μ layout cwd r (.opened s.stored s.past c d) ∧ J (.opened s.stored s.past c d)
  stopped : ∀ s options c messages d d', s.Regular μ layout cwd r →
    (∀ m ∈ s.past, m.Within μ) → rules.stops →
    Stops rules.saves cwd s.cache.save s.disk d →
    rules.ends (s.unsaved (Layout.home r) s.cache d) → J s →
    Runs .none cwd (Cache.open layout options) d (.ok c, messages) d' →
    Regular μ layout cwd r (.opened s.stored s.past c d') ∧ J (.opened s.stored s.past c d')

/-- An invariant holds in every situation of a run. -/
theorem Run.invariant {J : Situation → Prop} (inv : Invariant μ rules layout cwd r start J)
    (whole : ¬rules.changes.tears) (run : Run rules layout cwd (Layout.home r) start s)
    (within : ∀ m ∈ s.past, m.Within μ) : s.Regular μ layout cwd r ∧ J s := by
  induction run with
  | opened opening => exact inv.opened _ _ _ _ opening
  | @put s s' key e run changes ih =>
    obtain ⟨regular, holds⟩ := ih fun m mem => within m (changes.past mem)
    have sub : s.stored ⊆ (key, e) :: s.stored := List.subset_cons_self _ _
    have regular' := regular.handed sub
    exact changes.keeps inv.changed whole regular' within none
      (Memory.allowsAll_putting regular'.consistent.coherent.sound List.mem_cons_self) nofun
      (inv.handed s _ sub holds)
  | @remove s s' key run changes ih =>
    obtain ⟨regular, holds⟩ := ih fun m mem => within m (changes.past mem)
    exact changes.keeps inv.changed whole regular within none
      (Memory.allowsAll_removing s.cache.memory key) nofun holds
  | @removeIf s s' p slots run perm changes ih =>
    obtain ⟨regular, holds⟩ := ih fun m mem => within m (changes.past mem)
    have entries : ∀ slot ∈ slots, slot ≠ .validation :=
      fun slot mem => Memory.entry_of_mem_doomed (perm.mem_iff.mp mem)
    exact changes.keeps inv.changed whole regular within none
      (Memory.allowsAll_removes none slots entries) nofun holds
  | @clear s run may ih =>
    obtain ⟨regular, holds⟩ := ih fun m mem => within m (List.mem_cons_of_mem _ mem)
    exact ⟨regular.cleared, inv.cleared s may regular holds⟩
  | @saved s n c d run save ih =>
    obtain ⟨regular, holds⟩ := ih within
    obtain ⟨saved, regular', _, settled⟩ := regular.saved within save
    exact ⟨regular', inv.saved s n c d regular saved regular' (settled rfl) holds⟩
  | @unsaved s e c d run save ih =>
    obtain ⟨regular, holds⟩ := ih within
    obtain ⟨saved, _, regular', _⟩ := regular.saved within save
    exact ⟨regular', inv.unsaved s e c d regular within saved regular' holds⟩
  | @reopened s options c messages d run may opening ih =>
    obtain ⟨regular, holds⟩ := ih fun m mem => within m (List.mem_cons_of_mem _ mem)
    exact inv.reopened s options c messages d regular may holds opening
  | @stopped s options c messages d d' run may stop ends opening ih =>
    have within' : ∀ m ∈ s.past, m.Within μ := fun m mem => within m (List.mem_cons_of_mem _ mem)
    obtain ⟨regular, holds⟩ := ih within'
    exact inv.stopped s options c messages d d' regular within' may stop ends holds opening

end BuildCache
