import BuildCache.Proofs.Regularity
import BuildCache.Proofs.Rehearsals

/-!
A save that is done is all that a reopened cache needs. Whatever was stored, removed or cleared
before, and whichever operations on files were refused until then, the cache that opens over the
saved files has the same names and the same records and serves the same for every key.
-/
namespace BuildCache

open Disk Program Situation

variable {μ : Measure} {layout : Layout} {cwd r : Place} {start : Disk} {faults : Faults}
  {s : Situation} {c : Cache} {d : Disk}

/-- One session, of any operations. -/
def Rules.session (faults : Faults) : Rules where
  changes := faults
  saves := faults
  clears := True
  stops := False
  ends _ := False

theorem invariant_session (empty : layout.Empty cwd r start) :
    Invariant μ (.session faults) layout cwd r start fun _ => True where
  opened _ _ _ _ opening := ⟨(regular_of_empty empty opening).2.2.2, trivial⟩
  handed _ _ _ _ := trivial
  changed _ _ _ _ _ _ _ _ _ _ _ := trivial
  cleared _ _ _ _ := trivial
  saved _ _ _ _ _ _ _ _ _ := trivial
  unsaved _ _ _ _ _ _ _ _ _ := trivial
  reopened _ _ _ _ _ _ ends := ends.elim
  stopped _ _ _ _ _ _ _ _ stops := stops.elim

/-- Files that hold what is in memory open as that memory. -/
theorem Cache.Settled.open_ {stored : Stores} (settled : c.Settled .fits stored (Layout.home r) d)
    (lives : layout.Lives cwd r d) (coherent : c.memory.Coherent stored) (options : Options) :
    Always .none cwd (Cache.open layout options) d fun res d' => d' = d ∧ ∃ c' records,
      res = (.ok c', []) ∧ c'.Opened layout options ⟨c.index.names, records⟩ ∧
        records.keys.Nodup ∧ ∀ slot, records.get? slot = c.map.entries.get? slot := by
  obtain ⟨⟨told, index, spells⟩, told', map, covers⟩ := settled
  have same := covers.get?_replay
  have validated := coherent.validated.of_same (Nat.le_refl _) same
  refine (always_open lives (index.mono fun _ h => h.2) (map.mono fun _ h => h.1) spells
    coherent.sound validated options).mono ?_
  rintro res d' ⟨rfl, c', rfl, opened⟩
  exact ⟨rfl, c', _, rfl, opened, DurableMap.nodup_keys_replay told', same⟩

/-- Save, then reopen: nothing is lost and nothing is added. -/
theorem reopen_of_save (empty : layout.Empty cwd r start)
    (run : Run (.session .refusalsOnly) layout cwd (Layout.home r) start s)
    (fit : ∀ m ∈ s.past, m.Within .fits) {n : Nat}
    (save : Runs .refusalsOnly cwd s.cache.save s.disk (.ok n, c) d) (options : Options) :
    (∃ res d', Runs .none cwd (Cache.open layout options) d res d') ∧
    ∀ res d', Runs .none cwd (Cache.open layout options) d res d' →
      d' = d ∧ ∃ c', res = (.ok c', []) ∧ c'.index.names = c.index.names ∧
        c'.map.entries.Perm c.map.entries ∧ ∀ key, c'.get? key = c.get? key := by
  have whole : ¬(Rules.session .refusalsOnly).changes.tears := id
  obtain ⟨regular, _⟩ := run.invariant (invariant_session empty) whole fit
  obtain ⟨_, after, _, settled⟩ := regular.saved fit save
  have coherent := after.consistent.coherent
  refine ⟨exists_runs .none cwd _ d, fun res d' reopening => ?_⟩
  obtain ⟨rfl, c', records, rfl, opened, distinct, same⟩ :=
    (settled rfl).open_ after.lives coherent options res d' reopening
  have memory := opened.memory
  refine ⟨rfl, c', rfl, congrArg Memory.names memory, ?_, fun key => ?_⟩
  · have entries : c'.map.entries = records := congrArg Memory.records memory
    rw [entries]
    exact Table.perm_of_get? distinct coherent.distinct same
  · rw [Cache.get?, memory]
    exact coherent.get?_eq (.refl _) coherent.sound same key

/-- One entry stored, the cache cleared, another entry stored. -/
theorem reopen_of_save_sample : ∃ s n c d,
    Run (.session .refusalsOnly) .sample [] (Layout.home ["cache"]) .sample s ∧
      Runs .refusalsOnly [] s.cache.save s.disk (.ok n, c) d ∧
      (∃ res d', Runs .none [] (Cache.open .sample {}) d res d') ∧
      ∀ res d', Runs .none [] (Cache.open .sample {}) d res d' → ∃ c', res = (.ok c', []) ∧
        c'.get? "a" = none ∧ c'.get? "b" = some (.entry (.sample "b" (some ["p"]))) := by
  obtain ⟨s, ⟨res, c⟩, d, run, save, found⟩ :=
    exists_runs_sample (.session .refusalsOnly) .refusalsOnly {}
      [.put "a" (.sample "a" none), .clear, .put "b" (.sample "b" (some ["p"]))]
      (fun s => s.cache.save)
      (fun s r _ => (s.past.all Memory.modest, r.1.isOk, r.2.get? "a", r.2.get? "b"))
      (true, true, none, some (.entry (.sample "b" (some ["p"]))))
      (by simp [Rules.Permits, Rules.session]) (by decide +kernel)
  simp only [Prod.mk.injEq, List.all_eq_true] at found
  obtain ⟨modest, ok, first, second⟩ := found
  cases res with
  | error e => cases ok
  | ok n =>
    obtain ⟨opens, same⟩ := reopen_of_save Layout.empty_sample run
      (fun m mem => Memory.within_fits_of_modest (modest m mem)) save {}
    refine ⟨s, n, c, d, run, save, opens, fun res d' reopening => ?_⟩
    obtain ⟨_, c', rfl, _, _, serves⟩ := same res d' reopening
    exact ⟨c', rfl, (serves "a").trans first, (serves "b").trans second⟩

end BuildCache
