import BuildCache.Proofs.Outgrowing

/-!
The index of an earlier day. Where the files of a saved index give way to those of one with fewer
names, the validation record alone tells whether the map can do with them: below the number in it
the cache is lost, from there on every entry decodes as before. Only a record that is too long for a
reader comes in between; such a record is written and saved like any other.
-/
namespace BuildCache

open Disk Program Situation

variable {stored : Stores} {layout : Layout} {cwd r : Place} {start d d' : Disk} {s : Situation}
  {c : Cache} {front : Names}

/-- The files of the index tell these names, and the files of the map are as they were. -/
structure Exchanged (home : Home) (front : Names) (d d' : Disk) : Prop where
  index : ∃ told, Log.Tells Metered.Sized home.index Index.format d' told ∧ Names.Spells told front
  map : SameAt [home.map.snapshot, home.map.journal] d d'

/-- What a session with these names has saved is such an index. -/
theorem Cache.Settled.exchanged {c₀ : Cache} {d₀ : Disk} {home₀ home : Home}
    (settled : c₀.Settled .sized stored home₀ d₀)
    (snapshot : d'.content home.index.snapshot = d₀.content home₀.index.snapshot)
    (journal : d'.content home.index.journal = d₀.content home₀.index.journal)
    (map : SameAt [home.map.snapshot, home.map.journal] d d') :
    Exchanged home c₀.index.names d d' := by
  obtain ⟨told, ⟨⟨pairs, rs, isSnapshot, isJournal, whole⟩, each⟩, spells⟩ := settled.index
  refine ⟨⟨told, ⟨⟨pairs, rs, ?_, ?_, whole⟩, fun rec mem => (each rec mem).2⟩, spells⟩, map⟩
  · rw [snapshot]
    exact isSnapshot
  · rw [journal]
    exact isJournal

/-- Names of which one is too long for a record are not read back. -/
theorem Exchanged.always_lost {id : PathId} {name : String}
    (exchanged : Exchanged (Layout.home r) front d d') (clear : layout.Clear cwd)
    (lives : layout.Lives cwd r d') (sound : front.Sound) (known : front.name? id = some name)
    (long : ¬Fits (id, name)) (options : Options) :
    Always .none cwd (Cache.open layout options) d' (Cache.Lost layout cwd d') := by
  obtain ⟨told, index, spells⟩ := exchanged.index
  rcases Index.verdict_or_refused lives.index index spells sound with
    ⟨_, fits⟩ | ⟨e, refused, other⟩
  · exact absurd (fits id name known) long
  · have verdict : ∃ cause, layout.verdict cwd d' = .error cause ∧ ¬cause.isIncompatible := by
      unfold Layout.verdict
      rw [refused]
      exact ⟨_, rfl, other⟩
    obtain ⟨cause, verdict, other⟩ := verdict
    exact Cache.always_lost clear lives.there verdict other options

theorem Situation.saved_settled {n : Nat} (empty : layout.Empty cwd r start)
    (apart : layout.Apart cwd r) (run : Run .settling layout cwd (Layout.home r) start s)
    (sized : ∀ m ∈ s.past, m.Within .sized)
    (save : Runs .none cwd s.cache.save s.disk (.ok n, c) d) :
    (s.saved c d).Regular .sized layout cwd r ∧ c.memory = s.cache.memory ∧
      c.Settled .sized s.stored (Layout.home r) d := by
  obtain ⟨regular, _⟩ := run.invariant (invariant_settling empty apart) id sized
  obtain ⟨saved, after, _, settled⟩ := regular.saved sized save
  exact ⟨after, saved.memory, settled rfl⟩

/-- The files of a cache that was saved, as a reader takes them. -/
theorem Situation.saved_tells {n : Nat} (empty : layout.Empty cwd r start)
    (apart : layout.Apart cwd r)
    (run : Run .settling layout cwd (Layout.home r) start s)
    (sized : ∀ m ∈ s.past, m.Within .sized)
    (save : Runs .none cwd s.cache.save s.disk (.ok n, c) d) :
    ∃ told', Log.Tells Metered.Sized (Layout.home r).map Cache.format d told' ∧
      Log.Covers told' [] c.map.entries ∧
      ((∀ m ∈ s.past, m.Within .fits) → ∀ rec ∈ told', Fits rec) := by
  by_cases fit : ∀ m ∈ s.past, m.Within .fits
  · have dry (s : Situation) (ends : ¬s.cleared) (cleared : s.spilled → s.cleared ∧ True) :
        ¬s.spilled := fun spilled => ends (cleared spilled).1
    have inv : Invariant .fits .settling layout cwd r start _ :=
      invariant_calm empty (reopens_fits layout cwd r) dry
    obtain ⟨regular, _⟩ := run.invariant inv id fit
    obtain ⟨_, _, _, settled⟩ := regular.saved fit save
    obtain ⟨told', tells, covers⟩ := (settled rfl).map
    exact ⟨told', tells.mono fun _ said => said.1.sized, covers,
      fun _ rec mem => (tells.each rec mem).1⟩
  · obtain ⟨_, _, settled⟩ := saved_settled empty apart run sized save
    obtain ⟨told', tells, covers⟩ := settled.map
    exact ⟨told', tells.mono fun _ said => said.1, covers, fun fit' => absurd fit' fit⟩

/-- The same cache with only the first of its names: it has the same records and serves the same, and
every entry decodes as with all names. -/
structure Cache.Shortened (front : Names) (c c' : Cache) : Prop where
  names : c'.index.names = front
  records : c'.map.entries.Perm c.map.entries
  serves : ∀ key, c'.get? key = c.get? key
  decodes : ∀ id bytes, (.entry id, bytes) ∈ c.map.entries → ∃ e,
    Entry.decode? front bytes = .ok e ∧ Entry.decode? c.index.names bytes = .ok e

theorem Memory.Guards.shortened {n : Nat} {c c' : Cache} (guards : c.memory.Guards n)
    (coherent : c.memory.Coherent stored) (front_ : front.Prefix c.index.names)
    (enough : n ≤ front.size) (same : ∀ slot, c'.map.entries.get? slot = c.map.entries.get? slot)
    (distinct : c'.map.entries.keys.Nodup) (names : c'.index.names = front) :
    c.Shortened front c' := by
  have small := guards.coherent_front coherent front_ enough
  refine ⟨names, Table.perm_of_get? distinct coherent.distinct same, fun key => ?_,
    fun id bytes mem => ?_⟩
  · rw [Cache.get?, Cache.memory, names, small.get?_eq (.refl _) small.sound same key]
    exact (small.get?_eq front_ coherent.sound (fun _ => rfl) key).symm
  · have found := Table.get?_of_mem coherent.distinct mem
    obtain ⟨_, e, _, _, decoded⟩ := small.genuine id bytes found
    exact ⟨_, decoded, Entry.decode?_prefix front_ decoded⟩

/-- At every moment the validation record guards the entries. And where the index of a saved cache
gives way to one with fewer names, a cache opens that serves the same as long as the names reach up
to the number in the record, or a record was too long to be read back; below that number the cache
is lost. -/
theorem guarded_of_run (empty : layout.Empty cwd r start) (clear : layout.Clear cwd)
    (run : Run .settling layout cwd (Layout.home r) start s)
    (sized : ∀ m ∈ s.past, m.Within .sized) :
    (∀ m ∈ s.cache.memory :: s.past, m.Guarded) ∧
    ∀ k c d, Runs .none cwd s.cache.save s.disk (.ok k, c) d → ∀ n, c.memory.Guards n →
      ∀ front d', front.Prefix c.index.names → Exchanged (Layout.home r) front d d' →
      layout.Lives cwd r d' → ∀ options,
        (∃ res d'', Runs .none cwd (Cache.open layout options) d' res d'') ∧
        ∀ res d'', Runs .none cwd (Cache.open layout options) d' res d'' →
          (front.size < n → Cache.Lost layout cwd d' res d'') ∧
          (n ≤ front.size →
            (d'' = d' ∧ ∃ c', res = (.ok c', []) ∧ c.Shortened front c') ∨
            (¬∀ m ∈ s.past, m.Within .fits) ∧ Cache.Lost layout cwd d' res d'') := by
  have root : r = goal cwd layout.root := empty.arrives.eq_goal
  have apart : layout.Apart cwd r := root ▸ clear.toDirect.isApart
  obtain ⟨regular, watched⟩ := run.invariant (invariant_settling empty apart) id sized
  refine ⟨List.forall_mem_cons.mpr ⟨watched.guarded _ regular.recent, watched.guarded⟩, ?_⟩
  intro k c d save n guards front d' front_ exchanged lives options
  obtain ⟨after, _, _⟩ := saved_settled empty apart run sized save
  have coherent := after.consistent.coherent
  have sound := front_.sound coherent.sound
  -- what the files hold now: the front of the names, and the records as they were
  obtain ⟨told', map, covers, fits'⟩ := saved_tells empty apart run sized save
  obtain ⟨told, index, spells⟩ := exchanged.index
  have map : Log.Tells Metered.Sized (Layout.home r).map Cache.format d' told' :=
    map.same_content (exchanged.map _ (by simp)) (exchanged.map _ (by simp))
  have fits : (∀ m ∈ s.past, m.Within .fits) → ∀ rec ∈ told, Fits rec := by
    intro fit rec mem
    have known := spells.tells rec mem
    cases rec with
    | remove id => exact known.elim
    | put id name => exact (fit _ after.recent).names id name (front_.name? known)
  have verdict := Layout.verdict_of_tells lives index map spells sound
  have same := covers.get?_replay
  have lost {cause : StoreError} (verdict : layout.verdict cwd d' = .error cause)
      (other : ¬cause.isIncompatible) :
      Always .none cwd (Cache.open layout options) d' (Cache.Lost layout cwd d') :=
    Cache.always_lost clear lives.there verdict other options
  refine ⟨exists_runs .none cwd _ d', fun res d'' opening => ⟨fun below => ?_, fun enough => ?_⟩⟩
  · rcases verdict with judged | ⟨_, cause, verdict, other⟩
    · have spoilt := guards.not_validated below same
      obtain ⟨cause, verdict, other⟩ := Memory.judged_of_not_validated spoilt
      exact lost (judged.trans verdict) other res d'' opening
    · exact lost verdict other res d'' opening
  · rcases verdict with judged | ⟨long, cause, verdict, other⟩
    · have small := (guards.coherent_front coherent front_ enough).validated
      have verdict := Memory.judged_of_validated (small.of_same (Nat.le_refl _) same)
      obtain ⟨rfl, c', rfl, memory⟩ :=
        Cache.always_loaded clear lives.there (judged.trans verdict) options res d'' opening
      have records : c'.map.entries = DurableMap.replay told' := congrArg Memory.records memory
      refine .inl ⟨rfl, c', rfl, guards.shortened coherent front_ enough (fun slot => ?_) ?_ ?_⟩
      · rw [records]
        exact same slot
      · rw [records]
        exact DurableMap.nodup_keys_replay told'
      · exact congrArg Memory.names memory
    · refine .inr ⟨fun fit => long ⟨fits fit, fits' fit⟩, ?_⟩
      exact lost verdict other res d'' opening

/-- The files of an index can be replaced by any others. -/
theorem Layout.Lives.exists_replaced (lives : layout.Lives cwd r d) (snapshot journal : Bytes) :
    ∃ d', layout.Lives cwd r d' ∧ d'.content (Layout.home r).index.snapshot = snapshot ∧
      d'.content (Layout.home r).index.journal = journal ∧
      SameAt [(Layout.home r).map.snapshot, (Layout.home r).map.journal] d d' := by
  have write {p : Place} {path : Path} {d : Disk} (lives : layout.Lives cwd r d)
      (leads : d.Leads cwd path p) (raw : Bytes) :
      ∃ d', Touches [p] d d' ∧ d'.content p = raw := by
    obtain ⟨res, d', run⟩ := exists_runs .none cwd (Log.writeNew path [raw]) d
    obtain ⟨touches, ⟨_, h, file⟩ | ⟨possible, _⟩⟩ :=
      Log.always_writeNew lives.sound leads [raw] res d' run
    · refine ⟨d', touches, ?_⟩
      rw [content_of_file? file, List.flatten_singleton]
    · exact absurd possible Faults.not_possible_none
  obtain ⟨d₁, first, snapshot_⟩ := write lives lives.index.snapshot snapshot
  have lives₁ := lives.touches first
  obtain ⟨d₂, second, journal_⟩ := write lives₁ lives₁.index.journal journal
  refine ⟨d₂, lives₁.touches second, ?_, journal_, ?_⟩
  · rw [second.content (by simp [Layout.home, Shelf.under]), snapshot_]
  · have before : SameAt [(Layout.home r).map.snapshot, (Layout.home r).map.journal] d d₁ :=
      first.sameAt (by simp [Layout.home, Shelf.under])
    have after : SameAt [(Layout.home r).map.snapshot, (Layout.home r).map.journal] d₁ d₂ :=
      second.sameAt (by simp [Layout.home, Shelf.under])
    exact fun p mem => (after p mem).trans (before p mem)

/-- A rehearsal within the limits, whose save is done, shows a run and what it has saved. -/
theorem exists_saved_sample {β : Type} (puts : List (String × Entry)) (look : Cache → β) (b : β)
    (found : (rehearsal .sample {} [] (Layout.home ["cache"]) .sample
        (puts.map fun e => .put e.1 e.2)).map (fun s =>
      let r := s.cache.save.run (host [] s.disk)
      (s.past.all Memory.modest && r.1.1.isOk, look r.1.2)) = some (true, b)) :
    ∃ s k c d, Run .settling .sample [] (Layout.home ["cache"]) .sample s ∧
      (∀ m ∈ s.past, m.Within .fits) ∧ (∀ m ∈ s.past, m.Within .sized) ∧
      Runs .none [] s.cache.save s.disk (.ok k, c) d ∧ look c = b := by
  have permits : ∀ deed ∈ puts.map fun e => Deed.put e.1 e.2, Rules.settling.Permits deed := by
    intro deed mem
    obtain ⟨e, _, rfl⟩ := List.mem_map.mp mem
    trivial
  obtain ⟨s, ⟨res, c⟩, d, run, save, found⟩ := exists_runs_sample .settling .none {} _
    (fun s => s.cache.save) (fun s r _ => (s.past.all Memory.modest && r.1.isOk, look r.2))
    (true, b) permits found
  simp only [Prod.mk.injEq, Bool.and_eq_true, List.all_eq_true] at found
  obtain ⟨⟨modest, ok⟩, seen⟩ := found
  cases res with
  | error e => cases ok
  | ok k =>
    exact ⟨s, k, c, d, run, fun m mem => Memory.within_fits_of_modest (modest m mem),
      fun m mem => Memory.within_sized_of_modest (modest m mem), save, seen⟩

/-- An entry that is stored, and then one that is not, whose name the index knows all the same. The
index from before that name is as good; an empty one is not. -/
theorem guarded_of_run_sample : ∃ s k c d d₁ d₂,
    Run .settling .sample [] (Layout.home ["cache"]) .sample s ∧
      Runs .none [] s.cache.save s.disk (.ok k, c) d ∧ c.index.names = ⟨["a", "b"]⟩ ∧
      Exchanged (Layout.home ["cache"]) ⟨["a"]⟩ d d₁ ∧
      Exchanged (Layout.home ["cache"]) .empty d d₂ ∧
      (∀ res d', Runs .none [] (Cache.open .sample {}) d₁ res d' → ∃ c', res = (.ok c', []) ∧
        c'.get? "a" = some (.entry (.sample "a" none))) ∧
      ∀ res d', Runs .none [] (Cache.open .sample {}) d₂ res d' →
        Cache.Lost .sample [] d₂ res d' := by
  obtain ⟨s₀, k₀, c₀, d₀, run₀, _, sized₀, save₀, names₀⟩ := exists_saved_sample
    [("a", .sample "a" none)] (fun c => c.index.names) ⟨["a"]⟩ (by decide +kernel)
  obtain ⟨s, k, c, d, run, fits, sized, save, found⟩ := exists_saved_sample
    [("a", .sample "a" none), ("b", .sample "Ā" none)]
    (fun c => ((c.map.entries.get? .validation).bind recordedSize, c.index.names, c.get? "a"))
    (some 1, ⟨["a", "b"]⟩, some (.entry (.sample "a" none))) (by decide +kernel)
  simp only [Prod.mk.injEq] at found
  obtain ⟨stated, names, served⟩ := found
  have apart : Layout.sample.Apart [] ["cache"] := Layout.clear_sample.toDirect.isApart
  obtain ⟨_, _, settled₀⟩ := saved_settled Layout.empty_sample apart run₀ sized₀ save₀
  obtain ⟨after, memory, _⟩ := saved_settled Layout.empty_sample apart run sized save
  obtain ⟨guarded, opens⟩ := guarded_of_run Layout.empty_sample Layout.clear_sample run sized
  have guards : c.memory.Guards 1 := by
    rw [memory]
    refine (guarded _ List.mem_cons_self).guards_of_stated ?_
    rw [← memory]
    exact stated
  obtain ⟨d₁, lives₁, snapshot₁, journal₁, map₁⟩ := after.lives.exists_replaced
    (d₀.content (Layout.home ["cache"]).index.snapshot)
    (d₀.content (Layout.home ["cache"]).index.journal)
  obtain ⟨d₂, lives₂, snapshot₂, journal₂, map₂⟩ := after.lives.exists_replaced [] []
  have exchanged₁ : Exchanged (Layout.home ["cache"]) ⟨["a"]⟩ d d₁ := by
    rw [← names₀]
    exact settled₀.exchanged snapshot₁ journal₁ map₁
  have exchanged₂ : Exchanged (Layout.home ["cache"]) .empty d d₂ :=
    ⟨⟨[], Log.tells_of_absent snapshot₂ journal₂, Names.spells_nil⟩, map₂⟩
  have front : Names.Prefix ⟨["a"]⟩ c.index.names := by
    rw [names]
    exact List.prefix_append ["a"] ["b"]
  refine ⟨s, k, c, d, d₁, d₂, run, save, names, exchanged₁, exchanged₂, ?_, ?_⟩
  · intro res d' opening
    obtain ⟨_, opens⟩ := opens k c _ save 1 guards _ d₁ front exchanged₁ lives₁ {}
    rcases (opens res d' opening).2 (Nat.le_refl _) with ⟨_, c', rfl, same⟩ | ⟨long, _⟩
    · exact ⟨c', rfl, (same.serves "a").trans served⟩
    · exact absurd fits long
  · intro res d' opening
    obtain ⟨_, opens⟩ := opens k c _ save 1 guards _ d₂ List.nil_prefix exchanged₂ lives₂ {}
    exact (opens res d' opening).1 Nat.one_pos

/-- Any run can go on with a name that is new and no entry for it. -/
theorem Run.exists_named {rules : Rules} {home : Home} {names : List String} {name : String}
    (run : Run rules layout cwd home start s) (known : s.cache.memory.names = ⟨names⟩)
    (new : name ∉ names) (few : names.length + 1 < UInt32.size)
    (words : ∀ s ∈ names ++ [name], (Text.utf8 s).length < UInt64.size)
    (now : s.cache.memory.Within .sized) (sized : ∀ m ∈ s.past, m.Within .sized) :
    ∃ s', Run rules layout cwd home start s' ∧
      s'.cache.memory = s.cache.memory.after (.learn ⟨names ++ [name]⟩) ∧
      ∀ m ∈ s'.past, m.Within .sized := by
  obtain ⟨fault, refused⟩ := Entry.exists_encode_error_sample
  have putting := Memory.putting_of_encode_error known new (Nat.lt_of_succ_lt few) refused
  let handed : Situation := { s with stored := (name, Entry.sample "Ā" none) :: s.stored }
  have changes : Changes rules.changes cwd home (s.cache.memory.putting name (.sample "Ā" none))
      handed _ := changes_carry ..
  refine ⟨_, run.put name (.sample "Ā" none) changes, ?_, changes.within now sized ?_⟩
  · rw [changes.memory, putting]
    rfl
  · rw [putting]
    refine List.forall_mem_singleton.mpr (Change.within_learn ?_ words)
    rwa [List.length_append]

/-- With a name in it that is too long for a record, the index of an earlier day costs the whole
cache, although it has all the names that the record asks for. -/
theorem lost_of_exchange : ∃ s₁ k₁ c₁ d₁ s k c d d',
    Run .settling .sample [] (Layout.home ["cache"]) .sample s₁ ∧
      Runs .none [] s₁.cache.save s₁.disk (.ok k₁, c₁) d₁ ∧
      Run .settling .sample [] (Layout.home ["cache"]) .sample s ∧
      Runs .none [] s.cache.save s.disk (.ok k, c) d ∧
      c₁.index.names.Prefix c.index.names ∧ c₁.index.names.size < c.index.names.size ∧
      c.memory.Guards c₁.index.names.size ∧
      SameAt [(Layout.home ["cache"]).index.snapshot, (Layout.home ["cache"]).index.journal] d₁ d' ∧
      Exchanged (Layout.home ["cache"]) c₁.index.names d d' ∧
      (∃ res d'', Runs .none [] (Cache.open .sample {}) d' res d'') ∧
      ∀ res d'', Runs .none [] (Cache.open .sample {}) d' res d'' →
        Cache.Lost .sample [] d' res d'' := by
  have apart : Layout.sample.Apart [] ["cache"] := Layout.clear_sample.toDirect.isApart
  have regular {s : Situation} (run : Run .settling .sample [] (Layout.home ["cache"]) .sample s)
      (sized : ∀ m ∈ s.past, m.Within .sized) : s.Regular .sized .sample [] ["cache"] :=
    (run.invariant (invariant_settling Layout.empty_sample apart) id sized).1
  obtain ⟨s₀, key, e, s₁, grown⟩ := exists_overgrows .settling (fun _ _ => trivial)
    fun s run sized => (regular run sized).consistent.coherent.sound
  obtain ⟨id, bytes, storing⟩ := grown.storing
  have run₁ := grown.run.put key e grown.changes
  have before₁ := regular run₁ grown.sized
  obtain ⟨k₁, c₁, d₁, save₁⟩ := Cache.exists_save before₁.stands
  obtain ⟨after₁, memory₁, settled₁⟩ :=
    saved_settled Layout.empty_sample apart run₁ grown.sized save₁
  have names₁ : c₁.memory.names = ⟨["b", key]⟩ := memory₁ ▸ grown.names_after
  have new : "x" ∉ ["b", key] := by
    have other : "x" ≠ key := grown.other (by decide)
    simp [other]
  have words : ∀ s ∈ ["b", key] ++ ["x"], (Text.utf8 s).length < UInt64.size := by
    intro s mem
    rcases List.mem_append.mp mem with mem | mem
    · exact grown.words s mem
    · rw [List.mem_singleton.mp mem]
      decide
  obtain ⟨s, run, next, sized⟩ := (run₁.saved save₁).exists_named names₁ new
    (show 3 < UInt32.size by decide) words (grown.sized _ after₁.recent) grown.sized
  obtain ⟨k, c, d, save⟩ := Cache.exists_save (regular run sized).stands
  obtain ⟨after, memory, _⟩ := saved_settled Layout.empty_sample apart run sized save
  have came : c.memory = c₁.memory.after (.learn ⟨["b", key, "x"]⟩) := memory.trans next
  have names : c.index.names = ⟨["b", key, "x"]⟩ := congrArg Memory.names came
  have more : c₁.memory.names.Prefix ⟨["b", key, "x"]⟩ := by
    rw [names₁]
    exact List.prefix_append ["b", key] ["x"]
  have size₁ : c₁.index.names.size = 2 := congrArg Names.size names₁
  have guards : c.memory.Guards c₁.index.names.size := by
    rw [came, size₁]
    apply Memory.Guards.learn _ more
    rw [memory₁]
    exact grown.guards before₁.consistent.coherent
  obtain ⟨d', lives, snapshot, journal, map⟩ := after.lives.exists_replaced
    (d₁.content (Layout.home ["cache"]).index.snapshot)
    (d₁.content (Layout.home ["cache"]).index.journal)
  have exchanged := settled₁.exchanged snapshot journal map
  have known : c₁.index.names.name? id = some key := by
    rw [show c₁.index.names = _ from names₁]
    exact storing.known
  have lost := exchanged.always_lost Layout.clear_sample lives
    after₁.consistent.coherent.sound known (grown.not_fits id) {}
  refine ⟨s₁, k₁, c₁, d₁, s, k, c, d, d', run₁, save₁, run, save, ?_, ?_, guards, ?_, exchanged,
    exists_runs .., lost⟩
  · rw [names]
    exact more
  · rw [size₁, names]
    exact Nat.lt_succ_self 2
  · simpa [SameAt] using ⟨snapshot, journal⟩

end BuildCache
