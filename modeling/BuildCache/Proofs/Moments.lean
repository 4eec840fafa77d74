import BuildCache.Proofs.Interruptions
import BuildCache.Proofs.Resolving

/-!
The moments of a run: every change and every save may be between two of its requests. At all of them
the files of the index define what the records of the map refer to, as long as the index has not let
go of a name; and one refused append is enough for that not to be so.
-/
namespace BuildCache

open Disk Program Situation

variable {layout : Layout} {home : Home} {cwd r : Place} {start d : Disk} {s s' : Situation}
  {faults : Faults}

/-- One session without a `clear`, in which any operation may be refused. -/
def Rules.accruing : Rules where
  changes := .refusalsOnly
  saves := .refusalsOnly
  clears := False
  stops := False
  ends _ := False

/-- Charted situations lead to charted ones, whatever list of changes a caller makes. -/
theorem Changes.charted {done rest : List Change} {before : Option Change}
    (changes : Changes .refusalsOnly cwd (Layout.home r) done s s')
    (regular : s.Regular .any layout cwd r) (charted : s.Charted (Layout.home r))
    (allowed : s.cache.memory.AllowsAll s.stored before (done ++ rest)) :
    s'.Regular .any layout cwd r ∧ s'.Charted (Layout.home r) ∧
      ∃ before, s'.cache.memory.AllowsAll s'.stored before rest := by
  induction changes generalizing before with
  | done s => exact ⟨regular, charted, before, allowed⟩
  | @next change done s s' c d run _ ih =>
    obtain ⟨first, _, later⟩ := allowed
    obtain ⟨changed, keeps⟩ := regular.changed id first run
    have memory : (s.changed (Layout.home r) c d).cache.memory = _ := changed.memory
    rw [← memory] at later
    exact ih (keeps (Memory.within_any _)) (charted.step regular id first run).2 later

/-- What a caller undertakes in a situation, as a list of changes; an entry is handed over first. -/
inductive Situation.Undertaken (s : Situation) : List Change → Situation → Prop
  | put (key : String) (e : Entry) :
    Undertaken s (s.cache.memory.putting key e) { s with stored := (key, e) :: s.stored }
  | remove (key : String) : Undertaken s (s.cache.memory.removing key) s
  | removeIf (p : Cached → Bool) (slots : List Slot)
      (perm : slots.Perm (s.cache.memory.doomed p)) : Undertaken s (slots.map .remove) s

/-- A moment of a run: the situation from which a change or a save has set out, and the disk as it
is between two requests. -/
inductive Moment (rules : Rules) (layout : Layout) (cwd : Place) (home : Home) (start : Disk) :
    Situation → Disk → Prop
  | changing {s₀ s₁ s : Situation} {done rest : List Change} {change : Change} {d : Disk}
      (run : Run rules layout cwd home start s₀)
      (undertaken : s₀.Undertaken (done ++ change :: rest) s₁)
      (before : Changes rules.changes cwd home done s₁ s)
      (stop : Stops rules.changes cwd (s.cache.change change) s.disk d) :
    Moment rules layout cwd home start s d
  | saving {s : Situation} {d : Disk} (run : Run rules layout cwd home start s)
      (stop : Stops rules.saves cwd s.cache.save s.disk d) :
    Moment rules layout cwd home start s d

theorem Situation.Undertaken.run {rules : Rules} {s₁ : Situation} {changes : List Change}
    (undertaken : s.Undertaken changes s₁) (run : Run rules layout cwd home start s)
    (changed : Changes rules.changes cwd home changes s₁ s') :
    Run rules layout cwd home start s' := by
  cases undertaken with
  | put key e => exact run.put key e changed
  | remove key => exact run.remove key changed
  | removeIf p slots perm => exact run.removeIf p slots perm changed

theorem Situation.Undertaken.charted {s₁ : Situation} {changes : List Change}
    (undertaken : s.Undertaken changes s₁) (regular : s.Regular .any layout cwd r)
    (charted : s.Charted (Layout.home r)) : s₁.Regular .any layout cwd r ∧
      s₁.Charted (Layout.home r) ∧ s₁.cache.memory.AllowsAll s₁.stored none changes := by
  cases undertaken with
  | put key e =>
    have regular := regular.handed (List.subset_cons_self (key, e) s.stored)
    exact ⟨regular, charted.handed,
      Memory.allowsAll_putting regular.consistent.coherent.sound List.mem_cons_self⟩
  | remove key => exact ⟨regular, charted, Memory.allowsAll_removing s.cache.memory key⟩
  | removeIf p slots perm =>
    exact ⟨regular, charted, Memory.allowsAll_removes none slots
      fun slot mem => Memory.entry_of_mem_doomed (perm.mem_iff.mp mem)⟩

/-- In a run of one session without a `clear`, every situation is charted. -/
theorem charted_of_run (empty : layout.Empty cwd r start)
    (run : Run .accruing layout cwd (Layout.home r) start s) :
    s.Regular .any layout cwd r ∧ s.Charted (Layout.home r) := by
  have within (s : Situation) : ∀ m ∈ s.past, m.Within .any := fun m _ => m.within_any
  have through {s s₁ s' : Situation} {changes : List Change} (undertaken : s.Undertaken changes s₁)
      (changed : Changes .refusalsOnly cwd (Layout.home r) changes s₁ s')
      (known : s.Regular .any layout cwd r ∧ s.Charted (Layout.home r)) :
      s'.Regular .any layout cwd r ∧ s'.Charted (Layout.home r) := by
    obtain ⟨regular, charted, allowed⟩ := undertaken.charted known.1 known.2
    rw [← List.append_nil changes] at allowed
    obtain ⟨regular', charted', _⟩ := changed.charted regular charted allowed
    exact ⟨regular', charted'⟩
  induction run with
  | opened opening =>
    obtain ⟨rfl, _, opened, regular⟩ := regular_of_empty (μ := .any) empty opening
    exact ⟨regular, charted_opened empty opened⟩
  | put key e _ changes ih => exact through (.put key e) changes ih
  | remove key _ changes ih => exact through (.remove key) changes ih
  | removeIf p slots _ perm changes ih => exact through (.removeIf p slots perm) changes ih
  | clear _ may => exact may.elim
  | @saved s n c d _ save ih =>
    obtain ⟨regular, charted⟩ := ih
    obtain ⟨saved, regular', _, _⟩ := regular.saved (within s) save
    obtain ⟨_, charted', _, _⟩ := charted.saved regular.stands regular.consistent.coherent
      regular.consistent.index id saved
    exact ⟨regular', charted'⟩
  | @unsaved s e c d _ save ih =>
    obtain ⟨regular, charted⟩ := ih
    obtain ⟨saved, _, regular', _⟩ := regular.saved (within s) save
    obtain ⟨_, _, charted', _⟩ := charted.saved regular.stands regular.consistent.coherent
      regular.consistent.index id saved
    exact ⟨regular', charted'⟩
  | reopened _ ends => exact ends.elim
  | stopped _ stops => exact stops.elim

section Adequacy
variable {rules : Rules}

theorem exists_moment_of_changes {s₀ s₁ : Situation} (done : List Change) {changes : List Change}
    (run : Run rules layout cwd home start s₀) (undertaken : s₀.Undertaken (done ++ changes) s₁)
    (before : Changes rules.changes cwd home done s₁ s)
    (stop : Stops rules.changes cwd (s.cache.changeAll changes) s.disk d) :
    ∃ s', Moment rules layout cwd home start s' d := by
  induction changes generalizing done s with
  | nil =>
    rw [List.append_nil] at undertaken
    cases stop
    exact ⟨s, .saving (undertaken.run run before) (.here _ _)⟩
  | cons change changes ih =>
    rcases stops_bind stop with halt | ⟨c, d₁, ran, stop⟩
    · exact ⟨s, .changing run undertaken before halt.stops⟩
    · rw [List.append_cons] at undertaken
      exact ih _ undertaken (before.snoc ran) stop

/-- Wherever an operation of the cache is between two requests, that is a moment of the run. -/
theorem exists_moment (run : Run rules layout cwd home start s) :
    (∀ key e, Stops rules.changes cwd (s.cache.put key e) s.disk d →
      ∃ s', Moment rules layout cwd home start s' d) ∧
    (∀ key, Stops rules.changes cwd (s.cache.remove key) s.disk d →
      ∃ s', Moment rules layout cwd home start s' d) ∧
    (∀ p, Stops rules.changes cwd (s.cache.removeIf p) s.disk d →
      ∃ s', Moment rules layout cwd home start s' d) ∧
    (Stops rules.saves cwd s.cache.save s.disk d →
      ∃ s', Moment rules layout cwd home start s' d) := by
  refine ⟨fun key e stop => ?_, fun key stop => ?_, fun p stop => ?_, fun stop => ?_⟩
  · exact exists_moment_of_changes [] run (.put key e) (.done _) stop
  · exact exists_moment_of_changes [] run (.remove key) (.done _) stop
  · rcases stops_bind stop with halt | ⟨slots, d₁, walked, stop⟩
    · obtain rfl := amid_walk _ d halt
      exact ⟨s, .saving run (.here _ _)⟩
    · obtain ⟨rfl, perm⟩ := always_walk (s.cache.memory.doomed p) slots d₁ walked
      refine exists_moment_of_changes [] run (.removeIf p slots perm) (.done _) ?_
      rcases stops_bind stop with halt | ⟨c, d₂, ran, stop⟩
      · exact halt.stops
      · cases stop
        exact ran.stops
  · exact ⟨s, .saving run stop⟩

end Adequacy

/-- What the files of the map refer to at a moment of a run is known, and defined unless the index
has let go of the name. -/
theorem Moment.carries (empty : layout.Empty cwd r start)
    (moment : Moment .accruing layout cwd (Layout.home r) start s d) :
    s.Regular .any layout cwd r ∧ s.Charted (Layout.home r) ∧ s.Carries (Layout.home r) d := by
  -- whatever was still to come might as well have been refused
  cases moment with
  | changing run undertaken before stop =>
    obtain ⟨regular, charted⟩ := charted_of_run empty run
    obtain ⟨regular, charted, allowed⟩ := undertaken.charted regular charted
    obtain ⟨regular, charted, _, allowed, _⟩ := before.charted regular charted allowed
    obtain ⟨c, ran⟩ := stop.exists_runs trivial
    exact ⟨regular, charted, (charted.step regular id allowed ran).1⟩
  | saving run stop =>
    obtain ⟨regular, charted⟩ := charted_of_run empty run
    obtain ⟨⟨res, c⟩, ran⟩ := stop.exists_runs trivial
    obtain ⟨saved, _⟩ := regular.saved (fun m _ => m.within_any) ran
    exact ⟨regular, charted, (charted.saved regular.stands regular.consistent.coherent
      regular.consistent.index id saved).1⟩

/-- At every moment the files of the index define each identity that a record in the files of the
map refers to, if its name is kept: it is there already, or pending. So all is defined as long as no
name was let go; and a save that is done defines everything, whatever was let go before. -/
theorem resolves_of_moment (empty : layout.Empty cwd r start)
    (moment : Moment .accruing layout cwd (Layout.home r) start s d) :
    s.Carries (Layout.home r) d ∧
    ((∀ id : PathId, id.toNat < s.cache.index.names.size → s.Keeps (Layout.home r) id) →
      (Layout.home r).Resolves d) ∧
    ∀ n c d', Runs .refusalsOnly cwd s.cache.save s.disk (.ok n, c) d' →
      (Layout.home r).Resolves d' := by
  obtain ⟨regular, charted, carries⟩ := moment.carries empty
  refine ⟨carries, carries.resolves, fun n c d' save => ?_⟩
  obtain ⟨saved, _⟩ := regular.saved (fun m _ => m.within_any) save
  obtain ⟨_, _, _, resolves⟩ := charted.saved regular.stands regular.consistent.coherent
    regular.consistent.index id saved
  exact resolves rfl

/-- An entry is stored, and every write that it comes to is done. -/
theorem resolves_of_moment_sample : ∃ s,
    Moment .accruing .sample [] (Layout.home ["cache"]) .sample s s.disk ∧
      s.cache.index.names = ⟨["n"]⟩ ∧
      s.disk.content ["cache", "action_journal.bin"] ≠ [] ∧
      (∀ id : PathId, id.toNat < s.cache.index.names.size → s.Keeps (Layout.home ["cache"]) id) ∧
      (Layout.home ["cache"]).Resolves s.disk := by
  obtain ⟨s, _, _, run, _, found⟩ := exists_runs_sample .accruing .refusalsOnly
    { journalInterval := 0 } [.put "n" (.sample "n" none)] (fun _ => .done ())
    (fun s _ _ => (s.cache.index.names, (s.disk.content ["cache", "action_journal.bin"]).isEmpty,
      s.disk.content ["cache", "filename_index.bin"],
      s.disk.content ["cache", "filename_index_journal.bin"]))
    (⟨["n"]⟩, false, [], StoreFile.journal Index.format [Record.put (0 : PathId) "n"])
    (by simp [Rules.Permits]) (by decide +kernel)
  simp only [Prod.mk.injEq] at found
  obtain ⟨names, written, snapshot, journal⟩ := found
  have moment : Moment .accruing .sample [] (Layout.home ["cache"]) .sample s s.disk :=
    .saving run (.here _ _)
  have kept : ∀ id : PathId, id.toNat < s.cache.index.names.size →
      s.Keeps (Layout.home ["cache"]) id := by
    intro id known
    rw [names] at known
    obtain rfl : id = 0 := UInt32.toNat_inj.mp (Nat.lt_one_iff.mp known)
    refine .inr ⟨[.put 0 "n"], "n", ⟨⟨[], _, ?_, .inr journal, rfl⟩, fun _ _ => trivial⟩, ?_⟩
    · exact .inl ⟨snapshot, rfl⟩
    · exact List.mem_cons_self
  refine ⟨s, moment, names, ?_, kept, ?_⟩
  · intro nothing
    rw [nothing] at written
    cases written
  · exact (resolves_of_moment Layout.empty_sample moment).2.1 kept

/-- The append of a new name to the index's journal is refused. The next flush of the index has
nothing to do, so the map's journal is written, with a record of an entry whose identity is defined
nowhere; and the next session gives the whole cache up. -/
theorem unresolved_of_refusal : ∃ s, Run .accruing .sample [] (Layout.home ["cache"]) .sample s ∧
    ¬(Layout.home ["cache"]).Resolves s.disk ∧
    ∃ c message d, Runs .none [] (Cache.open .sample {}) s.disk (.ok c, [message]) d := by
  let home := Layout.home ["cache"]
  let put (s : Situation) := refuse 4 (s.cache.put "n" (.sample "n" none)) (host [] s.disk)
  let reading (d : Disk) : Except StoreError (List (Record Slot Bytes)) :=
    StoreFile.readJournal ⟨"cache"⟩ Cache.format (d.content home.map.journal)
  have found : (start? .sample { journalInterval := 0 } [] [] [] .sample).map (fun s =>
      let d := (put s).2.disk
      ([d.content home.index.snapshot, d.content home.index.journal],
        (d.content home.map.journal).length, (reading d).toOption.map (List.map Record.key))) =
      some ([[], StoreFile.journalFront Index.format], 29, some [.validation, .entry 0]) := by
    decide +kernel
  have lost : (start? .sample { journalInterval := 0 } [] [] [] .sample).map (fun s =>
      let opened := ((Cache.open .sample {}).run (host [] (put s).2.disk)).1
      (opened.1.isOk, opened.2.length)) = some (true, 1) := by
    decide +kernel
  obtain ⟨s, started, found⟩ := Option.map_eq_some_iff.mp found
  rw [started] at lost
  simp only [Prod.mk.injEq, List.cons.injEq, and_true] at found
  obtain ⟨⟨snapshot, journal⟩, length, keys⟩ := found
  obtain ⟨c, messages, d, opening, rfl⟩ := runs_of_start? started
  let handed : Situation := { opened [] [] c d with stored := [("n", .sample "n" none)] }
  have ran : Runs .refusalsOnly []
      (handed.cache.changeAll (c.memory.putting "n" (.sample "n" none))) handed.disk _ _ :=
    runs_refuse trivial 4 (c.put "n" (.sample "n" none)) (host [] d)
  obtain ⟨s, changes, _, disk⟩ := exists_changes ran
  have disk : s.disk = (put (opened [] [] c d)).2.disk := disk
  refine ⟨s, Run.put "n" (.sample "n" none) (.opened opening) changes, ?_, ?_⟩
  · rw [disk]
    intro resolves
    cases read : reading (put (opened [] [] c d)).2.disk with
    | error e =>
      rw [read] at keys
      cases keys
    | ok records =>
      -- the journal of the map was written for an entry, and no file of the index for its name
      rw [read] at keys
      have mem : Slot.entry 0 ∈ records.map Record.key := by
        rw [Option.some.inj keys]
        decide
      obtain ⟨rec, mem, key⟩ := List.mem_map.mp mem
      have refers := resolves.read (by rw [length]; decide) read rec mem
      refine Home.not_defines_of_bare snapshot journal 0 ?_
      cases rec with
      | put slot bytes =>
        cases key
        exact refers.1
      | remove slot =>
        cases key
        exact refers
  · rw [disk]
    have reopening := runs_run .none (Cache.open .sample {})
      (host [] (put (opened [] [] c d)).2.disk)
    cases ended : ((Cache.open .sample {}).run (host [] (put (opened [] [] c d)).2.disk)).1 with
    | mk res messages =>
      simp only [Option.map_some, Option.some.injEq, Prod.mk.injEq, ended] at lost
      rw [ended] at reopening
      obtain ⟨message, rfl⟩ := List.length_eq_one_iff.mp lost.2
      cases res with
      | error e => cases lost.1
      | ok c' => exact ⟨c', message, _, reopening⟩

end BuildCache
