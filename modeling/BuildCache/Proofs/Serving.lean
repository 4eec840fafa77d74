import BuildCache.Proofs.Backing

/-!
Runs whose saves may fail, or stop, between any two operations. As long as no session ends when a
file has changed behind a `clear` and a save has failed since, every session finds files that it
reads truly or resets, and whatever it serves was stored under that key.
-/
namespace BuildCache

open Disk Program Situation

variable {stored more : Stores} {home : Home} {layout : Layout} {options : Options}
  {cwd r : Place} {start d d' : Disk} {s : Situation} {c c' : Cache} {ns : Names}
  {ilog : Log PathId String} {told : List (Record PathId String)}
  {told' : List (Record Slot Bytes)} {pending : Table Slot (Option Bytes)} {past : List Memory}

theorem Anchored.handed (anchored : Anchored stored home ns ilog d told told')
    (sub : stored ⊆ more) : Anchored more home ns ilog d told told' where
  index := anchored.index
  noted := anchored.noted
  map := anchored.map
  each rec mem := by
    obtain ⟨ms, sound, toldBy, authentic⟩ := anchored.each rec mem
    exact ⟨ms, sound, toldBy, authentic.mono sub⟩

theorem Anchored.cleared (anchored : Anchored stored home ns ilog d told told') :
    Anchored stored home .empty ilog.clear d told told' where
  index := anchored.index
  noted := .of_toldBy (Names.toldBy_empty told)
  map := anchored.map
  each := anchored.each

namespace Grounded

theorem handed (grounded : Grounded stored home ns pending d told told') (sub : stored ⊆ more) :
    Grounded more home ns pending d told told' where
  index := grounded.index
  map := grounded.map
  each rec mem := (grounded.each rec mem).handed sub
  pending rec mem := (grounded.pending rec mem).handed sub

/-- A save that is not done keeps to the one line of names: it leaves the map alone until the index
tells all of them. -/
theorem unsaved {faults : Faults} {e : StoreError}
    (grounded : Grounded stored home c.index.names c.map.log.pending d told told')
    (stands : c.Stands home cwd d) (consistent : c.Consistent .sized stored home d)
    (within : c.memory.Within .sized) (whole : ¬faults.tears)
    (saved : c.Saved faults home d (.error e, c') d') :
    ∃ told told', Grounded stored home c'.index.names c'.map.log.pending d' told told' := by
  have sound := consistent.coherent.sound
  have indexFormat := stands.indexFormat
  have mappings : ∀ e ∈ c.index.names.mappings,
      c.index.names.Tells (.put e.1 e.2) ∧ Metered.Sized (Record.put e.1 e.2) :=
    Index.each_mapping sound within.names
  cases saved with
  | early e log d' index same =>
    have format := index.same.2
    have before := grounded.index
    rw [← indexFormat] at before
    obtain ⟨told₁, tells, sub⟩ := index.tells whole mappings consistent.index.pending before
    rw [format, indexFormat] at tells
    have known : told ⊆ told₁ ∨ c.index.names.ToldBy told₁ := by
      refine sub.imp_right fun sub id s name => sub ?_
      exact List.mem_map_of_mem ((Index.mem_mappings sound).mpr name)
    refine ⟨told₁, told', tells, grounded.map.sameAt same, fun rec mem => ?_, fun rec mem => ?_⟩
    · exact (grounded.each rec mem).mono (.refl _) known fun _ _ le => le
    · exact (grounded.pending rec mem).mono (.refl _) known fun _ _ le => le
  | late n log d₁ e log' d' index same map kept =>
    obtain ⟨told₁, tells, spells⟩ := (consistent.index.saved sound within.names index).2 rfl
    rw [indexFormat] at tells
    have toldBy := spells.toldBy
    have before : Log.Tells (Cache.Says .sized stored c.index.names) home.map c.map.log.format d₁
        told' := by
      rw [stands.mapFormat]
      have authentic : Log.Tells (Cache.Says .sized stored c.index.names) home.map Cache.format d
          told' := ⟨grounded.map.written,
        fun rec mem => ⟨grounded.map.each rec mem, (grounded.each rec mem).authentic⟩⟩
      exact authentic.sameAt same
    obtain ⟨told₂, tells', _⟩ := map.tells whole consistent.map.each consistent.map.pendingEach
      before
    rw [map.same.2, stands.mapFormat] at tells'
    refine ⟨told₁, told₂, tells.sameAt kept, tells'.mono fun _ said => said.1, ?_, ?_⟩
    · exact fun rec mem => backed_of_toldBy (tells'.each rec mem).2 toldBy
    · intro rec mem
      have inside := List.map_subset _ map.same.1 mem
      exact backed_of_toldBy (consistent.map.pendingEach rec inside).2 toldBy

end Grounded

theorem stamp_le_of_validated (validated : Memory.Validated ⟨ns, DurableMap.replay told'⟩) :
    stamp told' ≤ ns.size := by
  have replayed := DurableMap.get?_replay told' .validation
  rw [stamp, ← replayed]
  by_cases nothing : DurableMap.replay told' = []
  · rw [nothing]
    exact Nat.zero_le _
  · obtain ⟨_, record, size, found, recorded, le⟩ := validated nothing
    rw [show (DurableMap.replay told').get? .validation = some record from found, Option.bind_some,
      recorded]
    exact le

/-- A cache that opens on readable files is regular, and its files hold what is in memory. -/
theorem Readable.regular {messages : List Diagnostic} (past : List Memory)
    (readable : Readable stored (Layout.home r) d) (straight : layout.Straight cwd r)
    (apart : layout.Apart cwd r) (lives : layout.Lives cwd r d)
    (opening : Runs .none cwd (Cache.open layout options) d (.ok c, messages) d') :
    (opened stored past c d').Regular .sized layout cwd r ∧
      c.Settled .sized stored (Layout.home r) d' := by
  obtain ⟨told, told', index, map, good⟩ := readable
  cases Cache.always_open_any straight apart lives index map options _ _ opening c messages rfl with
  | loaded spells sound validated loaded =>
    have authentic := good _ spells sound (stamp_le_of_validated validated)
    have regular : (opened stored past c d).Regular .sized layout cwd r :=
      regular_opened past lives
        ⟨index.written, fun rec mem => ⟨spells.tells rec mem, index.each rec mem⟩⟩
        ⟨map.written, fun rec mem => ⟨map.each rec mem, authentic rec mem⟩⟩ spells sound validated
        loaded
    exact ⟨regular, loaded.settled regular.consistent⟩
  | reset empty reset =>
    have regular := regular_opened_empty (μ := .sized) stored past empty reset
    exact ⟨regular, reset.settled regular.consistent⟩

/-- Operations may be refused while the cache is saved, and only then, and none breaks off: an append
is refused as a whole. Saves may be stopped, and sessions may end, unless a file has changed behind a
`clear` and a save has failed since. -/
def Rules.wary : Rules where
  changes := .none
  saves := .refusalsOnly
  clears := True
  stops := True
  ends s := ¬(s.spilled ∧ s.failed)

namespace Situation

/-- What the files are still good for, by what has happened to them since they were last up to
date. -/
structure Traced (home : Home) (s : Situation) : Prop where
  cleared : s.spilled → s.cleared
  readable : ¬(s.spilled ∧ s.failed) → Readable s.stored home s.disk
  anchored : ¬s.failed → ∃ told told',
    Anchored s.stored home s.cache.index.names s.cache.index.log s.disk told told'
  grounded : ¬s.cleared → ∃ told told',
    Grounded s.stored home s.cache.index.names s.cache.map.log.pending s.disk told told'

theorem traced_of_settled (settled : s.cache.Settled .sized s.stored (Layout.home r) s.disk)
    (regular : s.Regular .sized layout cwd r) (cleared : s.spilled → s.cleared) :
    s.Traced (Layout.home r) := by
  obtain ⟨told, told', anchored, grounded⟩ := settled.anchored regular.consistent
  exact ⟨cleared, fun _ => anchored.readable, fun _ => ⟨told, told', anchored⟩,
    fun _ => ⟨told, told', grounded⟩⟩

theorem Traced.handed (traced : s.Traced home) (sub : s.stored ⊆ more) :
    Traced home { s with stored := more } where
  cleared := traced.cleared
  readable calm := (traced.readable calm).handed sub
  anchored calm := by
    obtain ⟨told, told', anchored⟩ := traced.anchored calm
    exact ⟨told, told', anchored.handed sub⟩
  grounded whole := by
    obtain ⟨told, told', grounded⟩ := traced.grounded whole
    exact ⟨told, told', grounded.handed sub⟩

theorem Traced.cleared_onDisk (traced : s.Traced home) :
    (s.onDisk home d).spilled → s.cleared := by
  intro spilled
  rcases spilled_onDisk.mp spilled with spilled | ⟨cleared, _⟩
  · exact traced.cleared spilled
  · exact cleared

/-- Behind a `clear`, files that have not changed can still be read as before. -/
theorem Traced.readable_onDisk (traced : s.Traced home) (dry : ¬(s.onDisk home d).spilled)
    (whole : ¬s.cleared → Readable s.stored home d) : Readable s.stored home d := by
  obtain ⟨before, now⟩ := not_or.mp (mt spilled_onDisk.mpr dry)
  by_cases cleared : s.cleared
  · have same : SameAt home.files s.disk d :=
      Classical.byContradiction fun other => now ⟨cleared, other⟩
    exact (traced.readable fun both => before both.1).sameAt same
  · exact whole cleared

theorem Traced.changed : KeptByChanges .sized .none layout cwd r (Traced (Layout.home r)) := by
  intro s change c d regular allowed led changed within regular' traced
  have stands := regular.stands
  have anchored : ¬s.failed → ∃ told told',
      Anchored s.stored (Layout.home r) c.index.names c.index.log d told told' := by
    intro calm
    obtain ⟨told, told', anchored⟩ := traced.anchored calm
    exact anchored.changed stands regular'.stands regular.consistent allowed within changed
  have grounded : ¬s.cleared → ∃ told told',
      Grounded s.stored (Layout.home r) c.index.names c.map.log.pending d told told' := by
    intro whole
    by_cases entry : ∃ id bytes, change = .put (.entry id) bytes
    · -- the validation record that went ahead of the entry states all names
      obtain ⟨id, bytes, rfl⟩ := entry
      obtain ⟨s₀, led⟩ := led id bytes rfl
      have stored : s.stored = s₀.stored := by rw [led.same]; rfl
      have cleared : s.cleared = s₀.cleared := by rw [led.same]; rfl
      rw [cleared] at whole
      obtain ⟨told, told', before⟩ := led.holds.grounded whole
      obtain ⟨told, told', before, stamped⟩ := before.changed led.regular.stands stands
        led.regular.consistent led.allowed led.within led.changed nofun
      rw [← stored] at before
      obtain ⟨told, told', grounded, _⟩ := before.changed stands regular'.stands
        regular.consistent allowed within changed fun _ _ _ => stamped _ rfl
      exact ⟨told, told', grounded⟩
    · obtain ⟨told, told', before⟩ := traced.grounded whole
      obtain ⟨told, told', grounded, _⟩ := before.changed stands regular'.stands
        regular.consistent allowed within changed
        fun id bytes same => absurd ⟨id, bytes, same⟩ entry
      exact ⟨told, told', grounded⟩
  refine ⟨traced.cleared_onDisk, fun calm => ?_, anchored, grounded⟩
  by_cases failed : s.failed
  · refine traced.readable_onDisk (fun spilled => calm ⟨spilled, failed⟩) fun whole => ?_
    obtain ⟨told, told', grounded⟩ := grounded whole
    exact grounded.readable regular'.consistent.coherent.sound
  · obtain ⟨told, told', anchored⟩ := anchored failed
    exact anchored.readable

theorem Traced.cleared_ (traced : s.Traced home) : s.cleared_.Traced home where
  cleared _ := rfl
  readable := traced.readable
  anchored calm := by
    obtain ⟨told, told', anchored⟩ := traced.anchored calm
    exact ⟨told, told', anchored.cleared⟩
  grounded whole := absurd rfl whole

theorem Traced.unsaved {e : StoreError} (traced : s.Traced (Layout.home r))
    (regular : s.Regular .sized layout cwd r) (within : s.cache.memory.Within .sized)
    (saved : s.cache.Saved .refusalsOnly (Layout.home r) s.disk (.error e, c) d)
    (regular' : (s.unsaved (Layout.home r) c d).Regular .sized layout cwd r) :
    (s.unsaved (Layout.home r) c d).Traced (Layout.home r) := by
  have grounded : ¬s.cleared → ∃ told told',
      Grounded s.stored (Layout.home r) c.index.names c.map.log.pending d told told' := by
    intro whole
    obtain ⟨told, told', before⟩ := traced.grounded whole
    exact before.unsaved regular.stands regular.consistent within id saved
  refine ⟨traced.cleared_onDisk, fun calm => ?_, fun calm => absurd rfl calm, grounded⟩
  refine traced.readable_onDisk (fun spilled => calm ⟨spilled, rfl⟩) fun whole => ?_
  obtain ⟨told, told', grounded⟩ := grounded whole
  exact grounded.readable regular'.consistent.coherent.sound

/-- What is left of a save that was stopped can be read, too. -/
theorem Traced.stopped (traced : s.Traced (Layout.home r)) (regular : s.Regular .sized layout cwd r)
    (within : ∀ m ∈ s.past, m.Within .sized)
    (stop : Stops .refusalsOnly cwd s.cache.save s.disk d)
    (dry : ¬(s.onDisk (Layout.home r) d).spilled) :
    layout.Lives cwd r d ∧ Readable s.stored (Layout.home r) d := by
  -- the operations that were still to come might as well have been refused
  obtain ⟨⟨res, c⟩, run⟩ := stop.exists_runs trivial
  obtain ⟨saved, regular', regular'', settled⟩ := regular.saved within run
  refine ⟨regular'.lives, ?_⟩
  cases res with
  | error e =>
    have traced' := traced.unsaved regular (within _ regular.recent) saved regular''
    exact traced'.readable fun both => dry both.1
  | ok n =>
    obtain ⟨_, _, anchored, _⟩ := (settled rfl).anchored regular'.consistent
    exact anchored.readable

/-- Every session finds files that it reads truly, or resets. -/
theorem invariant_wary (empty : layout.Empty cwd r start) (apart : layout.Apart cwd r) :
    Invariant .sized .wary layout cwd r start (Traced (Layout.home r)) where
  opened options c messages d opening := by
    obtain ⟨_, _, opened, regular⟩ := regular_of_empty (μ := .sized) empty opening
    have settled := opened.settled regular.consistent
    exact ⟨regular, traced_of_settled settled regular nofun⟩
  handed s more sub traced := traced.handed sub
  changed := Traced.changed
  cleared s _ _ traced := traced.cleared_
  saved s n c d _ _ regular settled _ := traced_of_settled settled regular nofun
  unsaved s e c d regular within saved regular' traced :=
    traced.unsaved regular (within _ regular.recent) saved regular'
  reopened s options c messages d regular may traced opening := by
    have readable := traced.readable may
    obtain ⟨regular', settled⟩ :=
      readable.regular s.past empty.straight apart regular.lives opening
    exact ⟨regular', traced_of_settled settled regular' nofun⟩
  stopped s options c messages d d' regular within _ stop ends traced opening := by
    obtain ⟨lives, readable⟩ :=
      traced.stopped regular within stop fun spilled => ends ⟨spilled, rfl⟩
    obtain ⟨regular', settled⟩ := readable.regular s.past empty.straight apart lives opening
    exact ⟨regular', traced_of_settled settled regular' nofun⟩

end Situation

/-- What is served was stored under that key, in this session or in an earlier one. -/
theorem stored_of_served (empty : layout.Empty cwd r start) (apart : layout.Apart cwd r)
    (run : Run .wary layout cwd (Layout.home r) start s) (fit : ∀ m ∈ s.past, m.Within .sized)
    (key : String) (cached : Cached) (served : s.cache.get? key = some cached) :
    ∃ e, (key, e) ∈ s.stored ∧ cached = .entry e.truncate := by
  obtain ⟨regular, _⟩ := run.invariant (invariant_wary empty apart) id fit
  exact regular.consistent.coherent.stored_of_get? served

/-- A save that is stopped when the index is on the disk and the map is not. -/
theorem stored_of_served_sample : ∃ s c d d',
    Run .wary .sample [] (Layout.home ["cache"]) .sample s ∧
      Stops .refusalsOnly [] s.cache.save s.disk d ∧
      Runs .none [] (Cache.open .sample {}) d (.ok c, []) d' ∧
      c.index.names = ⟨["a", "b"]⟩ ∧ c.get? "a" = some (.entry (.sample "a" none)) ∧
      ∃ e, ("a", e) ∈ s.stored ∧ Cached.entry (.sample "a" none) = .entry e.truncate := by
  have found : (rehearsal .sample {} [] (Layout.home ["cache"]) .sample
      [.put "a" (.sample "a" none), .save, .put "b" (.sample "b" none)]).map (fun s =>
        let r := (Cache.open .sample {}).run (host [] (s.cache.save.halt 11 (host [] s.disk)).disk)
        (s.past.all Memory.modest && !s.spilled && !s.cleared && r.1.2.isEmpty,
          r.1.1.toOption.map fun c => (c.memory.modest, c.index.names, c.get? "a"))) =
      some (true, some (true, ⟨["a", "b"]⟩, some (.entry (.sample "a" none)))) := by
    decide +kernel
  obtain ⟨s, run, found⟩ := exists_run_of_rehearsal .wary
    (by simp [Rules.Permits, Rules.wary]) found
  have stop := stops_halt .refusalsOnly 11 s.cache.save (host [] s.disk)
  generalize (s.cache.save.halt 11 (host [] s.disk)).disk = d at stop found
  have opening := runs_run .none (Cache.open .sample {}) (host [] d)
  generalize (Cache.open .sample {}).run (host [] d) = r at opening found
  obtain ⟨⟨res, messages⟩, h⟩ := r
  cases res with
  | error e => simp [Except.toOption] at found
  | ok c =>
    simp only [Except.toOption, Option.map_some, Option.some.injEq, Prod.mk.injEq,
      Bool.and_eq_true, Bool.not_eq_true', List.all_eq_true, List.isEmpty_iff] at found
    obtain ⟨⟨⟨⟨modest, dry⟩, whole⟩, rfl⟩, modest', names, served⟩ := found
    have ends : ¬((s.unsaved (Layout.home ["cache"]) s.cache d).spilled ∧ true) := by
      rintro ⟨spilled, _⟩
      rcases spilled_onDisk.mp spilled with spilled | ⟨cleared, _⟩
      · simp [dry] at spilled
      · simp [whole] at cleared
    have run' := run.stopped trivial stop ends opening
    have apart : Layout.sample.Apart [] ["cache"] :=
      ⟨by decide, by decide, by decide, by decide⟩
    refine ⟨s, c, d, h.disk, run, stop, opening, names, served, ?_⟩
    refine stored_of_served Layout.empty_sample apart run' (fun m mem => ?_) "a" _ served
    rcases List.mem_cons.mp mem with rfl | mem
    · exact Memory.within_sized_of_modest modest'
    · exact Memory.within_sized_of_modest (modest m mem)

/-- Sessions may end at any time. -/
def Rules.unwary : Rules := { Rules.wary with ends := fun _ => True }

/-- A save behind a `clear` is stopped between the index and the map. The next session reads the
entry of the first name under the name that has its identity now. -/
theorem misserved_of_stop : ∃ s,
    Run .unwary .sample [] (Layout.home ["cache"]) .sample s ∧
      s.cache.get? "b" = some (.entry (.sample "a" none)) ∧
      ∀ e, ("b", e) ∈ s.stored → Cached.entry (.sample "a" none) ≠ .entry e.truncate := by
  obtain ⟨s, _, _, run, _, found⟩ := exists_runs_sample .unwary .none {}
    [.put "a" (.sample "a" none), .save, .clear, .put "b" (.sample "b" none), .stop 11]
    (fun _ => .done ()) (fun s _ _ => (s.cache.get? "b", s.stored))
    (some (.entry (.sample "a" none)), [("b", .sample "b" none), ("a", .sample "a" none)])
    (by simp [Rules.Permits, Rules.unwary, Rules.wary]) (by decide +kernel)
  simp only [Prod.mk.injEq] at found
  obtain ⟨served, stored⟩ := found
  refine ⟨s, run, served, fun e mem same => ?_⟩
  rw [stored] at mem
  simp only [List.mem_cons, Prod.mk.injEq, List.not_mem_nil, or_false] at mem
  rcases mem with ⟨_, rfl⟩ | ⟨other, _⟩
  · revert same
    decide
  · revert other
    decide

end BuildCache
