import BuildCache.Proofs.Keeping
import BuildCache.Proofs.Rehearsals

/-!
Sessions that end without a save, where nothing is refused. Unless a file has changed behind a
`clear`, the files hold a moment of memory as a whole, and the next session starts from it.
-/
namespace BuildCache

open Disk Program Situation

variable {μ : Measure} {layout : Layout} {cwd r : Place} {start : Disk} {s : Situation}
  {c : Cache} {d : Disk} {stored : Stores} {past : List Memory} {m : Memory} {ns : Names}
  {clears : Prop} {ends : Situation → Prop}

/-- Nothing is refused. -/
def Rules.calm (clears : Prop) (ends : Situation → Prop) : Rules where
  changes := .none
  saves := .none
  clears
  stops := False
  ends

/-- What the files hold is what a cache opens with. -/
theorem Kept.always_open (kept : Kept .fits stored (Layout.home r) d m ns)
    (lives : layout.Lives cwd r d) (past : List Memory) (options : Options) :
    Always .none cwd (Cache.open layout options) d fun res d' => d' = d ∧ ∃ c, res = (.ok c, []) ∧
      c.index.names = ns ∧ (∀ slot, c.map.entries.get? slot = m.records.get? slot) ∧
      (opened stored past c d).Regular .fits layout cwd r ∧
      Pending .fits stored (Layout.home r) c d c.memory := by
  obtain ⟨told, index, spells⟩ := kept.index
  obtain ⟨told', map, covers⟩ := kept.map
  have validated := kept.coherent.validated.of_same kept.above.size_le covers.get?_replay
  refine (Cache.always_open lives index (map.mono fun _ said => said.1) spells kept.sound
    validated options).mono ?_
  rintro res d' ⟨rfl, c, rfl, opened⟩
  have regular := regular_opened (μ := .fits) past lives
    ⟨index.written, fun rec mem => ⟨spells.tells rec mem, index.each rec mem⟩⟩
    (map.mono fun _ said => ⟨said.1, said.2.prefix_ kept.above⟩) spells kept.sound validated opened
  refine ⟨rfl, c, rfl, congrArg Memory.names opened.memory, fun slot => ?_, regular, ?_⟩
  · have entries : c.map.entries = DurableMap.replay told' := congrArg Memory.records opened.memory
    rw [entries]
    exact covers.get?_replay slot
  · have settled := opened.settled regular.consistent
    exact settled.pending regular.consistent regular.stands.indexFormat

/-- A cache that opens over files which hold a memory has nothing that they do not hold. -/
def Measure.Reopens (μ : Measure) (layout : Layout) (cwd r : Place) : Prop :=
  ∀ stored past m ns d options c messages d', Kept μ stored (Layout.home r) d m ns →
    layout.Lives cwd r d → Runs .none cwd (Cache.open layout options) d (.ok c, messages) d' →
    (Situation.opened stored past c d').Regular μ layout cwd r ∧
      Pending μ stored (Layout.home r) c d' c.memory

theorem reopens_fits (layout : Layout) (cwd r : Place) : Measure.fits.Reopens layout cwd r := by
  intro stored past m ns d options c messages d' kept lives opening
  obtain ⟨rfl, c', same, _, _, regular, pending⟩ :=
    kept.always_open lives past options _ _ opening
  cases same
  exact ⟨regular, pending⟩

namespace Situation

/-- The files hold what memory was when the map's journal was last written, and what the cache has
besides is pending, unless it was cleared since. -/
structure Intact (μ : Measure) (clears : Prop) (home : Home) (s : Situation) : Prop where
  cleared : s.cleared → clears
  spilled : s.spilled → s.cleared
  past : s.durable ∈ s.past
  kept : ¬s.spilled → ∃ ns, Kept μ s.stored home s.disk s.durable ns
  pending : ¬s.cleared → Pending μ s.stored home s.cache s.disk s.durable

theorem intact_opened (pending : Pending μ stored (Layout.home r) c d c.memory)
    (regular : (opened stored past c d).Regular μ layout cwd r) :
    (opened stored past c d).Intact μ clears (Layout.home r) where
  cleared := nofun
  spilled := nofun
  past := List.mem_cons_self
  kept _ := by
    have sound := regular.consistent.coherent.sound
    obtain ⟨ns, kept, _⟩ := pending.kept regular.stands.indexFormat sound
    exact ⟨ns, kept⟩
  pending _ := pending

theorem Intact.changed :
    KeptByChanges μ .none layout cwd r (Intact μ clears (Layout.home r)) := by
  intro s change c d regular allowed _ step within regular' intact
  have journal : (Layout.home r).map.journal ∈ (Layout.home r).files := by simp [Home.files]
  have pending : ¬s.cleared → Pending μ s.stored (Layout.home r) c d
      (s.changed (Layout.home r) c d).durable := by
    intro whole
    change Pending μ _ _ c d (if _ then _ else _)
    rcases (intact.pending whole).changed regular.stands regular.consistent allowed within step with
      ⟨same, pending⟩ | ⟨other, pending⟩
    · rw [if_pos same]
      exact pending
    · rw [if_neg other]
      exact pending
  refine ⟨intact.cleared, ?_, ?_, ?_, pending⟩
  · intro spilled
    rcases spilled_onDisk.mp spilled with spilled | ⟨cleared, _⟩
    · exact intact.spilled spilled
    · exact cleared
  · change (if _ then _ else _) ∈ c.memory :: s.past
    split
    · exact List.mem_cons_of_mem _ intact.past
    · exact List.mem_cons_self
  · intro dry
    obtain ⟨before, now⟩ := not_or.mp (mt spilled_onDisk.mpr dry)
    by_cases cleared : s.cleared
    · -- the files are as they were, and so is what they hold
      have same : SameAt (Layout.home r).files s.disk d :=
        Classical.byContradiction fun other => now ⟨cleared, other⟩
      obtain ⟨ns, kept⟩ := intact.kept before
      have durable : (s.changed (Layout.home r) c d).durable = s.durable := if_pos (same _ journal)
      exact ⟨ns, durable ▸ kept.sameAt same⟩
    · obtain ⟨ns, kept, _⟩ := (pending cleared).kept regular'.stands.indexFormat
        regular'.consistent.coherent.sound
      exact ⟨ns, kept⟩

theorem intact_saved (regular : (s.saved c d).Regular μ layout cwd r)
    (settled : c.Settled μ s.stored (Layout.home r) d) :
    (s.saved c d).Intact μ clears (Layout.home r) := by
  have format := regular.stands.indexFormat
  have pending := settled.pending regular.consistent format
  obtain ⟨ns, kept, _⟩ := pending.kept format regular.consistent.coherent.sound
  exact ⟨nofun, nofun, regular.recent, fun _ => ⟨ns, kept⟩, fun _ => pending⟩

/-- Where nothing is refused, and no session ends when a file has changed behind a `clear`, the
files stay intact. -/
theorem invariant_calm (empty : layout.Empty cwd r start) (reopens : μ.Reopens layout cwd r)
    (dry : ∀ s, ends s → (s.spilled → s.cleared ∧ clears) → ¬s.spilled) :
    Invariant μ (.calm clears ends) layout cwd r start (Intact μ clears (Layout.home r)) where
  opened options c messages d opening := by
    obtain ⟨_, _, opened, regular⟩ := regular_of_empty (μ := μ) empty opening
    have settled := opened.settled regular.consistent
    have pending := settled.pending regular.consistent regular.stands.indexFormat
    exact ⟨regular, intact_opened pending regular⟩
  handed s more sub intact :=
    ⟨intact.cleared, intact.spilled, intact.past,
      fun dry => (intact.kept dry).imp fun _ kept => kept.mono sub,
      fun whole => (intact.pending whole).mono sub⟩
  changed := Intact.changed
  cleared s may regular intact :=
    ⟨fun _ => may, fun _ => rfl, List.mem_cons_of_mem _ intact.past, intact.kept,
      fun whole => absurd rfl whole⟩
  saved s n c d _ _ regular settled _ := intact_saved regular settled
  unsaved s e c d _ _ saved := by cases saved.isOk Faults.not_possible_none
  reopened s options c messages d regular may intact opening := by
    have dry := dry s may fun spilled =>
      ⟨intact.spilled spilled, intact.cleared (intact.spilled spilled)⟩
    obtain ⟨ns, kept⟩ := intact.kept dry
    obtain ⟨regular', pending⟩ :=
      reopens s.stored s.past _ _ _ _ _ _ _ kept regular.lives opening
    exact ⟨regular', intact_opened pending regular'⟩
  stopped s options c messages d d' _ _ may := may.elim

end Situation

/-- A drop without a save loses what was not journaled, and nothing else. -/
theorem reopen_of_drop (empty : layout.Empty cwd r start)
    (run : Run (.calm False fun _ => True) layout cwd (Layout.home r) start s)
    (fit : ∀ m ∈ s.past, m.Within .fits) (options : Options) :
    (∃ res d, Runs .none cwd (Cache.open layout options) s.disk res d) ∧
    ∀ res d, Runs .none cwd (Cache.open layout options) s.disk res d →
      d = s.disk ∧ ∃ c, res = (.ok c, []) ∧ c.map.entries.Perm s.durable.records ∧
        c.index.names.Prefix s.cache.index.names ∧
        ∀ id bytes, (.entry id, bytes) ∈ c.map.entries → ∃ e,
          c.index.names.name? id = s.durable.names.name? id ∧
          Entry.decode? c.index.names bytes = .ok e ∧
          Entry.decode? s.durable.names bytes = .ok e := by
  have inv : Invariant .fits (.calm False fun _ => True) layout cwd r start _ :=
    invariant_calm empty (reopens_fits layout cwd r) fun _ _ cleared spilled => (cleared spilled).2
  obtain ⟨regular, intact⟩ := run.invariant inv id fit
  have coherent := regular.consistent.coherent
  refine ⟨exists_runs .none cwd _ s.disk, fun res d reopening => ?_⟩
  obtain ⟨ns, kept, front⟩ :=
    (intact.pending intact.cleared).kept regular.stands.indexFormat coherent.sound
  obtain ⟨rfl, c, rfl, rfl, same, regular', _⟩ :=
    kept.always_open regular.lives s.past options res d reopening
  have distinct := regular'.consistent.coherent.distinct
  have perm := Table.perm_of_get? distinct kept.coherent.distinct same
  refine ⟨rfl, c, rfl, perm, front, fun id bytes mem => ?_⟩
  have found := Table.get?_of_mem kept.coherent.distinct (perm.mem_iff.mp mem)
  obtain ⟨key, e, _, known, decoded⟩ := kept.coherent.genuine id bytes found
  refine ⟨e.truncate, ?_, Entry.decode?_prefix kept.above decoded, decoded⟩
  rw [known, kept.above.name? known]

/-- An entry that is stored and saved, and one that is only stored. -/
theorem reopen_of_drop_sample : ∃ s,
    Run (.calm False fun _ => True) .sample [] (Layout.home ["cache"]) .sample s ∧
      s.cache.entryCount = 2 ∧ (∃ res d, Runs .none [] (Cache.open .sample {}) s.disk res d) ∧
      ∀ res d, Runs .none [] (Cache.open .sample {}) s.disk res d → ∃ c, res = (.ok c, []) ∧
        c.index.names.Prefix ⟨["a", "b"]⟩ ∧ c.map.entries.Perm s.durable.records ∧
        s.durable.records.keys = [.validation, .entry 0] := by
  obtain ⟨s, _, _, run, _, found⟩ := exists_runs_sample (.calm False fun _ => True) .none {}
    [.put "a" (.sample "a" none), .save, .put "b" (.sample "b" none)] (fun _ => .done ())
    (fun s _ _ => (s.past.all Memory.modest, s.cache.entryCount, s.cache.index.names,
      s.durable.records.keys))
    (true, 2, ⟨["a", "b"]⟩, [.validation, .entry 0])
    (by simp [Rules.Permits]) (by decide +kernel)
  simp only [Prod.mk.injEq, List.all_eq_true] at found
  obtain ⟨modest, count, names, keys⟩ := found
  obtain ⟨opens, drop⟩ := reopen_of_drop Layout.empty_sample run
    (fun m mem => Memory.within_fits_of_modest (modest m mem)) {}
  refine ⟨s, run, count, opens, fun res d reopening => ?_⟩
  obtain ⟨_, c, rfl, perm, front, _⟩ := drop res d reopening
  exact ⟨c, rfl, names ▸ front, perm, keys⟩

/-- Unless a file has changed behind a `clear`, the next session serves what memory held as a whole
at one moment of the run. -/
theorem moment_of_drop (empty : layout.Empty cwd r start)
    (run : Run (.calm True fun s => ¬s.spilled) layout cwd (Layout.home r) start s)
    (fit : ∀ m ∈ s.past, m.Within .fits) (dry : ¬s.spilled) (options : Options) :
    (∃ res d, Runs .none cwd (Cache.open layout options) s.disk res d) ∧
    ∀ res d, Runs .none cwd (Cache.open layout options) s.disk res d →
      d = s.disk ∧ ∃ c, res = (.ok c, []) ∧ ∃ m ∈ s.past, ∀ key, c.get? key = m.get? key := by
  have inv : Invariant .fits (.calm True fun s => ¬s.spilled) layout cwd r start _ :=
    invariant_calm empty (reopens_fits layout cwd r) fun _ dry _ => dry
  obtain ⟨regular, intact⟩ := run.invariant inv id fit
  refine ⟨exists_runs .none cwd _ s.disk, fun res d reopening => ?_⟩
  obtain ⟨ns, kept⟩ := intact.kept dry
  obtain ⟨rfl, c, rfl, rfl, same, _⟩ :=
    kept.always_open regular.lives s.past options res d reopening
  refine ⟨rfl, c, rfl, s.durable, intact.past, fun key => ?_⟩
  exact kept.coherent.get?_eq kept.above kept.sound same key

/-- What is cleared and not written down stays. -/
theorem moment_of_drop_sample : ∃ s,
    Run (.calm True fun s => ¬s.spilled) .sample [] (Layout.home ["cache"]) .sample s ∧
      s.cache.entryCount = 0 ∧ (∃ res d, Runs .none [] (Cache.open .sample {}) s.disk res d) ∧
      ∀ res d, Runs .none [] (Cache.open .sample {}) s.disk res d → ∃ c, res = (.ok c, []) ∧
        ∃ m ∈ s.past, ∀ key, c.get? key = m.get? key := by
  obtain ⟨s, _, _, run, _, found⟩ := exists_runs_sample (.calm True fun s => ¬s.spilled) .none {}
    [.put "a" (.sample "a" none), .save, .clear] (fun _ => .done ())
    (fun s _ _ => (s.past.all Memory.modest, s.spilled, s.cache.entryCount)) (true, false, 0)
    (by simp [Rules.Permits, Rules.calm]) (by decide +kernel)
  simp only [Prod.mk.injEq, List.all_eq_true] at found
  obtain ⟨modest, dry, count⟩ := found
  obtain ⟨opens, drop⟩ := moment_of_drop Layout.empty_sample run
    (fun m mem => Memory.within_fits_of_modest (modest m mem)) (by simp [dry]) {}
  refine ⟨s, run, count, opens, fun res d reopening => ?_⟩
  obtain ⟨_, c, rfl, moment⟩ := drop res d reopening
  exact ⟨c, rfl, moment⟩

/-- Behind a `clear`, a journal that is written joins the files of the time before it. The next
session then serves what was cleared beside what came later, or finds two names for one identity. -/
theorem mixed_of_drop :
    (∃ s c d, Run (.calm True fun _ => True) .sample [] (Layout.home ["cache"]) .sample s ∧
      Runs .none [] (Cache.open .sample {}) s.disk (.ok c, []) d ∧
      c.get? "a" = some (.entry (.sample "x" none)) ∧
      c.get? "b" = some (.entry (.sample "b" none)) ∧
      ∀ m ∈ s.past, ¬(m.get? "a" = c.get? "a" ∧ m.get? "b" = c.get? "b")) ∧
    ∃ s c message d, Run (.calm True fun _ => True) .sample [] (Layout.home ["cache"]) .sample s ∧
      Runs .none [] (Cache.open .sample {}) s.disk (.ok c, [message]) d := by
  constructor
  · obtain ⟨s, ⟨res, messages⟩, d, run, opening, found⟩ :=
      exists_runs_sample (.calm True fun _ => True) .none { journalInterval := 0 }
        [.put "a" (.sample "a" none), .put "b" (.sample "b" none), .save, .clear,
          .put "a" (.sample "x" none)]
        (fun s => Cache.open .sample {})
        (fun s (r : Except StoreError Cache × List Diagnostic) _ =>
          (r.2.length, r.1.toOption.map fun c : Cache => (c.get? "a", c.get? "b",
            s.past.all fun m => !decide (m.get? "a" = c.get? "a" ∧ m.get? "b" = c.get? "b"))))
        (0, some (some (.entry (.sample "x" none)), some (.entry (.sample "b" none)), true))
        (by simp [Rules.Permits, Rules.calm]) (by decide +kernel)
    simp only [Prod.mk.injEq, List.length_eq_zero_iff] at found
    obtain ⟨rfl, found⟩ := found
    cases res with
    | error e => cases found
    | ok c =>
      simp only [Except.toOption, Option.map_some, Option.some.injEq, Prod.mk.injEq,
        List.all_eq_true, Bool.not_eq_true', decide_eq_false_iff_not] at found
      obtain ⟨first, second, never⟩ := found
      exact ⟨s, c, d, run, opening, first, second, never⟩
  · obtain ⟨s, ⟨res, messages⟩, d, run, opening, found⟩ :=
      exists_runs_sample (.calm True fun _ => True) .none { journalInterval := 0 }
        [.put "a" (.sample "a" none), .save, .clear, .put "b" (.sample "b" none)]
        (fun s => Cache.open .sample {}) (fun _ r _ => (r.1.isOk, r.2.length)) (true, 1)
        (by simp [Rules.Permits, Rules.calm]) (by decide +kernel)
    simp only [Prod.mk.injEq, List.length_eq_one_iff] at found
    obtain ⟨ok, message, rfl⟩ := found
    cases res with
    | error e => cases ok
    | ok c => exact ⟨s, c, message, d, run, opening⟩

end BuildCache
