import BuildCache.Proofs.Dictionary
import BuildCache.Proofs.Guarding
import BuildCache.Proofs.Mirrors
import BuildCache.Proofs.Reopening

/-!
One more entry, a save, and another session. In memory the other entries do not notice. In the files
they share their fate: what is written has any length, a reader takes only so much for one record,
and one record that is too long costs the whole cache.
-/
namespace BuildCache

open Disk Program Situation

variable {μ : Measure} {layout : Layout} {cwd r : Place} {start d : Disk} {faults : Faults}
  {rules : Rules} {s s' : Situation} {c : Cache} {stored : Stores} {m : Memory} {key : String}
  {e : Entry}

namespace Memory

theorem get?_putValidation (m : Memory) (bytes : Bytes) (key : String) :
    (m.after (.put .validation bytes)).get? key = m.get? key := by
  rw [get?_eq, get?_eq]
  simp [after, Table.get?_insert]

/-- In memory a key that is put leaves all others alone, whether the entry is stored or dropped. -/
theorem Coherent.get?_putting (coherent : m.Coherent stored) (key : String) (e : Entry)
    {other : String} (ne : other ≠ key) :
    (m.afterAll (m.putting key e)).get? other = m.get? other := by
  have learned {names : Names} (more : m.names.Prefix names) (sound : names.Sound) :
      (m.after (.learn names)).get? other = m.get? other :=
    coherent.get?_eq more sound (fun _ => rfl) other
  rcases putting_cases coherent.sound key e with ⟨_, names, id, bytes, storing⟩ |
    ⟨_, names, changes, more, sound⟩
  · let noted := (m.after (.learn names)).after (.put .validation (validationRecord names.size))
    have entry : (noted.after (.put (.entry id) bytes)).get? other = noted.get? other := by
      rw [get?_putEntry (m := noted) storing.sound storing.known storing.decoded,
        if_neg (Ne.symm ne)]
    rw [storing.changes]
    calc (noted.after (.put (.entry id) bytes)).get? other
      _ = noted.get? other := entry
      _ = (m.after (.learn names)).get? other := get?_putValidation _ _ other
      _ = m.get? other := learned storing.more storing.sound
  · rw [changes]
    exact learned more sound

/-- Something in memory is too long even for a snapshot, where records have no variant. -/
def Outgrown (m : Memory) : Prop :=
  (∃ id s, m.names.name? id = some s ∧ ¬Fits (id, s)) ∨
    ∃ slot bytes, m.records.get? slot = some bytes ∧ ¬Fits (slot, bytes)

/-- What an entry may come to is not bounded when it is stored: not its key, and not its bytes. -/
theorem Storing.outgrown {names : Names} {id : PathId} {bytes : Bytes}
    (storing : m.Storing key e names id bytes)
    (long : recordLimit < 12 + (Text.utf8 key).length ∨ recordLimit < 16 + bytes.length) :
    (m.afterAll (m.putting key e)).Outgrown := by
  rw [storing.changes]
  rcases long with long | long
  · refine .inl ⟨id, key, storing.known, ?_⟩
    change ¬(4 + (8 + (Text.utf8 key).length) ≤ recordLimit)
    omega
  · refine .inr ⟨.entry id, bytes, ?_, ?_⟩
    · simp [afterAll, after, Table.get?_insert]
    · change ¬(8 + (8 + bytes.length) ≤ recordLimit)
      omega

/-- The record guards an entry as soon as it is stored. -/
theorem Storing.guards {names : Names} {id : PathId} {bytes : Bytes}
    (storing : m.Storing key e names id bytes)
    (coherent : (m.afterAll (m.putting key e)).Coherent stored) (few : names.size < UInt32.size) :
    (m.afterAll (m.putting key e)).Guards names.size := by
  have some_ := Nat.lt_of_le_of_lt (Nat.zero_le _) (Names.lt_size_of_name? storing.known)
  have size : (m.afterAll (m.putting key e)).names.size = names.size := by
    rw [storing.changes]
    rfl
  have valid : (m.afterAll (m.putting key e)).records.get? .validation =
      some (validationRecord names.size) := by
    rw [storing.changes]
    simp [afterAll, after, Table.get?_insert]
  rw [← size] at some_ few valid ⊢
  exact coherent.guards some_ few valid

end Memory

section Reading
variable {files : LogFiles} {shelf : Shelf}

/-- Either all that was put into the files is read, and then it is not too long, or nothing is. -/
theorem Log.verdict_or_refused {K V : Type} [Stored K] [Stored V] [Metered K] [Metered V] [Framed K]
    [Framed V] [Tangible K] {format : StoreFormat} {told : List (Record K V)}
    (holds : shelf.Holds files cwd d) (tells : Tells Metered.Sized shelf format d told) :
    (verdict files format cwd d = .ok told ∧ ∀ k v, .put k v ∈ told → Fits (k, v)) ∨
      ∃ e, verdict (K := K) (V := V) files format cwd d = .error e ∧ ¬e.isIncompatible := by
  rcases verdict_of_tells holds tells with read | ⟨_, refused⟩
  · exact .inl ⟨read, fun k v mem => fits_of_verdict holds read mem⟩
  · exact .inr refused

theorem Index.verdict_or_refused {ns : Names} {told : List (Record PathId String)}
    (holds : shelf.Holds files cwd d) (tells : Log.Tells Metered.Sized shelf format d told)
    (spells : Names.Spells told ns) (sound : ns.Sound) :
    (verdict files cwd d = .ok ns ∧ ∀ id s, ns.name? id = some s → Fits (id, s)) ∨
      ∃ e, verdict files cwd d = .error e ∧ ¬e.isIncompatible := by
  rcases Log.verdict_or_refused holds tells with ⟨read, fits⟩ | ⟨e, refused, other⟩
  · have names := verdict_eq_ok.mpr ⟨told, read, spells, sound⟩
    exact .inl ⟨names, fun id s known => fits id s (spells.toldBy id s known)⟩
  · rw [verdict, refused]
    exact .inr ⟨e, rfl, other⟩

end Reading

namespace Cache

/-- Files that hold what is in memory are read as that memory, and then nothing in it is too long;
or they are refused. -/
theorem Settled.verdict (settled : c.Settled .sized stored (Layout.home r) d)
    (lives : layout.Lives cwd r d) (coherent : c.memory.Coherent stored) :
    (∃ records, layout.verdict cwd d = .ok ⟨c.index.names, records⟩ ∧
      (∀ slot, records.get? slot = c.map.entries.get? slot) ∧ ¬c.memory.Outgrown) ∨
    ∃ e, layout.verdict cwd d = .error e ∧ ¬e.isIncompatible := by
  obtain ⟨⟨told, index, spells⟩, told', map, covers⟩ := settled
  have same := covers.get?_replay
  have judged := Memory.judged_of_validated (coherent.validated.of_same (Nat.le_refl _) same)
  unfold Layout.verdict
  rcases Index.verdict_or_refused lives.index (index.mono fun _ h => h.2) spells coherent.sound with
    ⟨read, names⟩ | ⟨e, refused, other⟩
  · rcases Log.verdict_or_refused lives.map (map.mono fun _ h => h.1) with
      ⟨read', records⟩ | ⟨e, refused, other⟩
    · rw [read, read']
      refine .inl ⟨_, judged, same, ?_⟩
      rintro (⟨id, s, known, long⟩ | ⟨slot, bytes, found, long⟩)
      · exact long (names id s known)
      · exact long (records slot bytes (DurableMap.mem_of_get?_replay ((same slot).trans found)))
    · rw [read, refused]
      exact .inr ⟨_, rfl, other⟩
  · rw [refused]
    exact .inr ⟨_, rfl, other⟩

/-- Another session serves what was saved, or the cache is lost. -/
theorem Settled.always_reopen (settled : c.Settled .sized stored (Layout.home r) d)
    (clear : layout.Clear cwd) (lives : layout.Lives cwd r d)
    (coherent : c.memory.Coherent stored) (options : Options) :
    Always .none cwd (Cache.open layout options) d fun res d' =>
      (¬c.memory.Outgrown ∧ d' = d ∧ ∃ c', res = (.ok c', []) ∧
        ∀ key, c'.get? key = c.get? key) ∨ Lost layout cwd d res d' := by
  rcases settled.verdict lives coherent with ⟨records, verdict, same, short⟩ | ⟨e, verdict, other⟩
  · refine (always_loaded clear lives.there verdict options).mono ?_
    rintro res d' ⟨rfl, c', rfl, memory⟩
    refine .inl ⟨short, rfl, c', rfl, fun key => ?_⟩
    rw [Cache.get?, memory]
    exact coherent.get?_eq (.refl _) coherent.sound same key
  · exact (always_lost clear lives.there verdict other options).mono fun _ _ lost => .inr lost

end Cache

theorem Changes.memory {home : Home} {changes : List Change}
    (run : Changes faults cwd home changes s s') :
    s'.cache.memory = s.cache.memory.afterAll changes := by
  induction run with
  | done => rfl
  | @next change changes s s' c d step _ ih =>
    have first := Cache.always_memory_change s.cache change c d step
    rw [ih]
    exact congrArg (Memory.afterAll · changes) first

/-- One session in which any operation may be refused, or many in which none is, and none ends when
a file has changed behind a `clear`. -/
inductive Rules.Orderly : Rules → Prop
  | session : Orderly (.session .refusalsOnly)
  | calm : Orderly (.calm True fun s => ¬s.spilled)

theorem Run.regular (run : Run rules layout cwd (Layout.home r) start s) (orderly : rules.Orderly)
    (empty : layout.Empty cwd r start) (reopens : μ.Reopens layout cwd r)
    (within : ∀ m ∈ s.past, m.Within μ) : s.Regular μ layout cwd r := by
  cases orderly with
  | session => exact (run.invariant (invariant_session empty) id within).1
  | calm =>
    have inv : Invariant μ (.calm True fun s => ¬s.spilled) layout cwd r start _ :=
      invariant_calm empty reopens fun _ dry _ => dry
    exact (run.invariant inv id within).1

/-- What comes of one more entry and a save that is done, when the cache is opened again. All other
keys have what they had, and nothing in memory is too long; or the cache is lost as a whole, and
something that was in memory at some moment is too long for a record. -/
theorem undisturbed_or_lost_of_put {n : Nat} (empty : layout.Empty cwd r start)
    (clear : layout.Clear cwd) (orderly : rules.Orderly)
    (run : Run rules layout cwd (Layout.home r) start s)
    (changes : Changes rules.changes cwd (Layout.home r) (s.cache.memory.putting key e)
      { s with stored := (key, e) :: s.stored } s')
    (sized : ∀ m ∈ s'.past, m.Within .sized)
    (save : Runs rules.saves cwd s'.cache.save s'.disk (.ok n, c) d) (options : Options) :
    (∃ res d', Runs .none cwd (Cache.open layout options) d res d') ∧
    ∀ res d', Runs .none cwd (Cache.open layout options) d res d' →
      (¬c.memory.Outgrown ∧ d' = d ∧ ∃ c', res = (.ok c', []) ∧
        ∀ other ≠ key, c'.get? other = s.cache.get? other) ∨
      (∃ m ∈ s'.past, ¬m.Within .fits) ∧ Cache.Lost layout cwd d res d' := by
  have run' := run.put key e changes
  have root : r = goal cwd layout.root := empty.arrives.eq_goal
  have apart : layout.Apart cwd r := root ▸ clear.toDirect.isApart
  have before := run.regular orderly empty (reopens_sized empty.straight apart)
    fun m mem => sized m (changes.past mem)
  have regular := run'.regular orderly empty (reopens_sized empty.straight apart) sized
  obtain ⟨saved, after, _, settled⟩ := regular.saved sized save
  have memory : c.memory = s.cache.memory.afterAll (s.cache.memory.putting key e) :=
    saved.memory.trans changes.memory
  refine ⟨exists_runs .none cwd _ d, fun res d' opening => ?_⟩
  rcases (settled rfl).always_reopen clear after.lives after.consistent.coherent options res d'
    opening with ⟨short, same, c', loaded, serves⟩ | lost
  · refine .inl ⟨short, same, c', loaded, fun other ne => (serves other).trans ?_⟩
    rw [Cache.get?, memory]
    exact before.consistent.coherent.get?_putting key e ne
  · refine .inr ⟨Classical.byContradiction fun none => ?_, lost⟩
    have fit : ∀ m ∈ s'.past, m.Within .fits := fun m mem =>
      Classical.byContradiction fun long => none ⟨m, mem, long⟩
    have regular := run'.regular orderly empty (reopens_fits layout cwd r) fit
    obtain ⟨_, after, _, settled⟩ := regular.saved fit save
    obtain ⟨_, c', _, rfl, _⟩ :=
      (settled rfl).open_ after.lives after.consistent.coherent options res d' opening
    cases lost

/-- An entry beside another one, both of an ordinary size. -/
theorem undisturbed_or_lost_of_put_sample : ∃ s e s' n c d,
    Run (.session .refusalsOnly) .sample [] (Layout.home ["cache"]) .sample s ∧
      Changes .refusalsOnly [] (Layout.home ["cache"]) (s.cache.memory.putting "a" e)
        { s with stored := ("a", e) :: s.stored } s' ∧
      Runs .refusalsOnly [] s'.cache.save s'.disk (.ok n, c) d ∧
      ∀ res d', Runs .none [] (Cache.open .sample {}) d res d' →
        d' = d ∧ ∃ c', res = (.ok c', []) ∧ c'.get? "b" = some (.entry (.sample "b" none)) := by
  let home := Layout.home ["cache"]
  let e := Entry.sample "a" (some ["p"])
  let put (s : Situation) : Situation :=
    carry [] home (s.cache.memory.putting "a" e) { s with stored := ("a", e) :: s.stored }
  have found : (rehearsal .sample {} [] home .sample [.put "b" (.sample "b" none)]).map (fun s =>
      ((put s).past.all Memory.modest && ((put s).cache.save.run (host [] (put s).disk)).1.1.isOk,
        s.cache.get? "b")) = some (true, some (.entry (.sample "b" none))) := by
    decide +kernel
  obtain ⟨s, run, found⟩ := exists_run_of_rehearsal (.session .refusalsOnly)
    (by simp [Rules.Permits]) found
  simp only [Prod.mk.injEq, Bool.and_eq_true, List.all_eq_true] at found
  obtain ⟨⟨modest, ok⟩, served⟩ := found
  have changes : Changes .refusalsOnly [] home _ _ (put s) := changes_carry ..
  have save := runs_run .refusalsOnly (put s).cache.save (host [] (put s).disk)
  cases done : ((put s).cache.save.run (host [] (put s).disk)).1 with
  | mk res c =>
    rw [done] at ok save
    cases res with
    | error e => cases ok
    | ok n =>
      obtain ⟨_, opens⟩ := undisturbed_or_lost_of_put Layout.empty_sample Layout.clear_sample
        .session run changes (fun m mem => Memory.within_sized_of_modest (modest m mem)) save {}
      refine ⟨s, e, put s, n, c, _, run, changes, save, fun res d' opening => ?_⟩
      rcases opens res d' opening with ⟨_, same, c', loaded, serves⟩ | ⟨⟨m, mem, long⟩, _⟩
      · exact ⟨same, c', loaded, (serves "b" (by decide)).trans served⟩
      · exact absurd (Memory.within_fits_of_modest (modest m mem)) long

/-- What a change brings into memory is within the measure. -/
def Change.Within (μ : Measure) : Change → Prop
  | .learn names => (∀ id s, names.name? id = some s → μ.names (.put id s)) ∧ μ.count names.size
  | .put slot bytes => μ.slots (.put slot bytes)
  | .remove _ => True

theorem Memory.Within.after {change : Change} (within : m.Within μ) (new : change.Within μ) :
    (m.after change).Within μ := by
  cases change with
  | learn names => exact ⟨new.1, within.records, new.2⟩
  | put slot bytes =>
    refine ⟨within.names, fun slot' bytes' found => ?_, within.count⟩
    rw [Memory.after, Table.get?_insert] at found
    split at found
    · rename_i same
      cases same
      cases found
      exact new
    · exact within.records slot' bytes' found
  | remove slot =>
    refine ⟨within.names, fun slot' bytes' found => ?_, within.count⟩
    rw [Memory.after, Table.get?_erase] at found
    split at found
    · cases found
    · exact within.records slot' bytes' found

/-- If nothing that is new is out of measure, nothing that memory comes to is. -/
theorem Changes.within {home : Home} {changes : List Change}
    (run : Changes faults cwd home changes s s') (now : s.cache.memory.Within μ)
    (within : ∀ m ∈ s.past, m.Within μ) (new : ∀ change ∈ changes, change.Within μ) :
    ∀ m ∈ s'.past, m.Within μ := by
  induction run with
  | done => exact within
  | @next change changes s s' c d step _ ih =>
    have next : c.memory.Within μ := by
      rw [Cache.always_memory_change s.cache change c d step]
      exact now.after (new change List.mem_cons_self)
    exact ih next (List.forall_mem_cons.mpr ⟨next, within⟩)
      fun change mem => new change (List.mem_cons_of_mem _ mem)

theorem exists_long (n : Nat) : ∃ s : String, (Text.utf8 s).length = n := by
  refine ⟨String.ofList (List.replicate n 'a'), ?_⟩
  have one : (String.utf8EncodeChar 'a').length = 1 := by decide
  rw [Text.utf8, String.toList_ofList, List.length_flatMap, List.map_replicate, one,
    List.sum_replicate_nat, Nat.mul_one]

theorem Names.intern_of_new {ns : Names} (new : key ∉ ns.toList) (room : ns.size < capacity) :
    ns.intern key = (.ok (UInt32.ofNat ns.size), ⟨ns.toList ++ [key]⟩) := by
  rw [intern, id?_eq_none.mpr new]
  exact if_pos room

/-- An entry that has a stored form whatever the names are, under a key that is new. -/
theorem Memory.putting_of_encode {names : List String} {bytes : Bytes}
    (known : m.names = ⟨names⟩) (new : key ∉ names) (room : names.length < Names.capacity)
    (encoded : ∀ ns, e.encode ns = (.ok bytes, ns)) : m.putting key e =
      [.learn ⟨names ++ [key]⟩, .put .validation (validationRecord (names.length + 1)),
        .put (.entry (UInt32.ofNat names.length)) bytes] := by
  have size : Names.size ⟨names ++ [key]⟩ = names.length + 1 := List.length_append
  rw [putting, known, Names.intern_of_new new room]
  dsimp only
  rw [encoded]
  dsimp only
  rw [size]
  rfl

/-- One that has none whatever the names are leaves its key behind. -/
theorem Memory.putting_of_encode_error {names : List String} {fault : EncodeFault}
    (known : m.names = ⟨names⟩) (new : key ∉ names) (room : names.length < Names.capacity)
    (refused : ∀ ns, e.encode ns = (.error fault, ns)) :
    m.putting key e = [.learn ⟨names ++ [key]⟩] := by
  rw [putting, known, Names.intern_of_new new room]
  dsimp only
  rw [refused]

theorem Memory.storing_of_encode {names : List String} {bytes : Bytes} (sound : m.names.Sound)
    (known : m.names = ⟨names⟩) (new : key ∉ names) (room : names.length < Names.capacity)
    (encoded : ∀ ns, e.encode ns = (.ok bytes, ns)) : m.Accepts key e ∧
      m.Storing key e ⟨names ++ [key]⟩ (UInt32.ofNat names.length) bytes := by
  have putting := putting_of_encode known new room encoded
  rcases putting_cases sound key e with ⟨accepts, _, _, _, storing⟩ | ⟨_, _, dropped, _⟩
  · have same := storing.changes.symm.trans putting
    simp only [List.cons.injEq, Change.learn.injEq, Change.put.injEq, Slot.entry.injEq, and_true,
      true_and] at same
    obtain ⟨rfl, _, rfl, rfl⟩ := same
    exact ⟨accepts, storing⟩
  · rw [putting] at dropped
    cases dropped

/-- Names are within the measure if there are few, and none is too long for its length to be told. -/
theorem Change.within_learn {names : List String} (few : names.length < UInt32.size)
    (short : ∀ s ∈ names, (Text.utf8 s).length < UInt64.size) :
    (Change.learn ⟨names⟩).Within .sized :=
  ⟨fun _ s known => ⟨trivial, short s (List.mem_of_getElem? known)⟩, few⟩

theorem Memory.within_putting_of_encode {names : List String} {bytes : Bytes}
    (known : m.names = ⟨names⟩) (new : key ∉ names) (room : names.length + 1 < UInt32.size)
    (encoded : ∀ ns, e.encode ns = (.ok bytes, ns))
    (short : ∀ s ∈ names ++ [key], (Text.utf8 s).length < UInt64.size)
    (small : bytes.length < UInt64.size) :
    ∀ change ∈ m.putting key e, change.Within .sized := by
  rw [putting_of_encode known new (Nat.lt_of_succ_lt room) encoded]
  simp only [List.forall_mem_cons, List.not_mem_nil, false_implies, implies_true, and_true]
  refine ⟨Change.within_learn ?_ short, ⟨trivial, ?_⟩, ⟨trivial, small⟩⟩
  · rwa [List.length_append]
  · have length : (validationRecord (names.length + 1)).length = 4 := Bytes.length_ofNatBE 4 _
    have word : UInt64.size = 18446744073709551616 := rfl
    change (validationRecord (names.length + 1)).length < UInt64.size
    omega

/-- An entry without any names has the same stored form whatever the names are. -/
theorem Entry.exists_encode_sample : ∃ bytes : Bytes, bytes.length ≤ 1000 ∧
    ∀ ns, (Entry.sample "k" none).encode ns = (.ok bytes, ns) :=
  ⟨_, by decide, fun ns => rfl⟩

/-- One whose key has a character that is not a byte has none. -/
theorem Entry.exists_encode_error_sample : ∃ fault : EncodeFault,
    ∀ ns, (Entry.sample "Ā" none).encode ns = (.error fault, ns) :=
  ⟨_, fun _ => rfl⟩

/-- Behind a save with something in memory that is too long, no session finds the cache again. -/
theorem Situation.Regular.always_lost {n : Nat} (regular : s.Regular .sized layout cwd r)
    (clear : layout.Clear cwd) (sized : ∀ m ∈ s.past, m.Within .sized)
    (outgrown : s.cache.memory.Outgrown)
    (save : Runs faults cwd s.cache.save s.disk (.ok n, c) d) (options : Options) :
    Always .none cwd (Cache.open layout options) d (Cache.Lost layout cwd d) := by
  obtain ⟨saved, after, _, settled⟩ := regular.saved sized save
  have memory : c.memory = s.cache.memory := saved.memory
  refine ((settled rfl).always_reopen clear after.lives after.consistent.coherent options).mono ?_
  rintro res d' (⟨short, _⟩ | lost)
  · rw [memory] at short
    exact absurd outgrown short
  · exact lost

/-- Beside an entry under "b", another one is stored whose key is too long for a record. -/
structure Overgrows (rules : Rules) (s : Situation) (key : String) (e : Entry) (s' : Situation) :
    Prop where
  run : Run rules .sample [] (Layout.home ["cache"]) .sample s
  served : s.cache.get? "b" = some (.entry (.sample "b" none))
  long : (Text.utf8 key).length = recordLimit
  accepts : s.cache.memory.Accepts key e
  storing : ∃ id bytes, s.cache.memory.Storing key e ⟨["b", key]⟩ id bytes
  changes : Changes rules.changes [] (Layout.home ["cache"]) (s.cache.memory.putting key e)
    { s with stored := (key, e) :: s.stored } s'
  sized : ∀ m ∈ s'.past, m.Within .sized

theorem exists_overgrows (rules : Rules) (permits : ∀ key e, rules.Permits (.put key e))
    (sound : ∀ s, Run rules .sample [] (Layout.home ["cache"]) .sample s →
      (∀ m ∈ s.past, m.Within .sized) → s.cache.memory.names.Sound) :
    ∃ s key e s', Overgrows rules s key e s' := by
  obtain ⟨s, _, _, run, _, found⟩ := exists_runs_sample rules .none {}
    [.put "b" (.sample "b" none)] (fun _ => .done ())
    (fun s _ _ => (s.past.all Memory.modest, s.cache.memory.modest, s.cache.memory.names,
      s.cache.get? "b"))
    (true, true, ⟨["b"]⟩, some (.entry (.sample "b" none)))
    (List.forall_mem_singleton.mpr (permits _ _)) (by decide +kernel)
  simp only [Prod.mk.injEq, List.all_eq_true] at found
  obtain ⟨modest, now, names, served⟩ := found
  have sized : ∀ m ∈ s.past, m.Within .sized :=
    fun m mem => Memory.within_sized_of_modest (modest m mem)
  obtain ⟨key, long⟩ := exists_long recordLimit
  have limit : recordLimit = 67108864 := rfl
  have word : UInt64.size = 18446744073709551616 := rfl
  have other : key ∉ ["b"] := by
    intro mem
    rw [List.mem_singleton.mp mem] at long
    cases long
  have words : ∀ s ∈ ["b"] ++ [key], (Text.utf8 s).length < UInt64.size := by
    intro s mem
    rcases List.mem_cons.mp mem with rfl | mem
    · decide
    · rw [List.mem_singleton.mp mem]
      omega
  obtain ⟨bytes, small, encoded⟩ := Entry.exists_encode_sample
  obtain ⟨accepts, storing⟩ :=
    Memory.storing_of_encode (sound s run sized) names other (by decide) encoded
  let handed : Situation := { s with stored := (key, Entry.sample "k" none) :: s.stored }
  have changes : Changes rules.changes [] (Layout.home ["cache"])
      (s.cache.memory.putting key (.sample "k" none)) handed _ := changes_carry ..
  have sized' := changes.within (Memory.within_sized_of_modest now) sized
    (Memory.within_putting_of_encode names other (by decide) encoded words (by omega))
  exact ⟨s, key, .sample "k" none, _, run, served, long, accepts, ⟨_, bytes, storing⟩, changes,
    sized'⟩

namespace Overgrows
variable (grown : Overgrows rules s key e s')
include grown

theorem not_fits (id : PathId) : ¬Fits (id, key) := by
  change ¬(4 + (8 + (Text.utf8 key).length) ≤ recordLimit)
  rw [grown.long]
  decide

theorem outgrown : s'.cache.memory.Outgrown := by
  obtain ⟨id, bytes, storing⟩ := grown.storing
  have long := grown.long
  rw [grown.changes.memory]
  exact storing.outgrown (.inl (by omega))

theorem other {name : String} (short : (Text.utf8 name).length < recordLimit) : name ≠ key := by
  rintro rfl
  exact absurd grown.long (Nat.ne_of_lt short)

theorem names_after : s'.cache.memory.names = ⟨["b", key]⟩ := by
  obtain ⟨id, bytes, storing⟩ := grown.storing
  rw [grown.changes.memory, storing.changes]
  rfl

theorem words : ∀ s ∈ ["b", key], (Text.utf8 s).length < UInt64.size := by
  intro s mem
  rcases List.mem_cons.mp mem with rfl | mem
  · decide
  · rw [List.mem_singleton.mp mem, grown.long]
    decide

theorem guards (coherent : s'.cache.memory.Coherent stored) : s'.cache.memory.Guards 2 := by
  obtain ⟨id, bytes, storing⟩ := grown.storing
  have memory := grown.changes.memory
  rw [memory] at coherent ⊢
  exact storing.guards coherent (show 2 < UInt32.size by decide)

end Overgrows

/-- One key that is too long for a record costs every other entry. It is stored like any other and
the save is done; the next session then finds a name in the index that it does not take. -/
theorem lost_of_put : ∃ s key e s' n c d,
    Run (.session .none) .sample [] (Layout.home ["cache"]) .sample s ∧
      s.cache.get? "b" = some (.entry (.sample "b" none)) ∧ "b" ≠ key ∧
      s.cache.memory.Accepts key e ∧
      Changes .none [] (Layout.home ["cache"]) (s.cache.memory.putting key e)
        { s with stored := (key, e) :: s.stored } s' ∧
      Runs .none [] s'.cache.save s'.disk (.ok n, c) d ∧
      (∃ res d', Runs .none [] (Cache.open .sample {}) d res d') ∧
      ∀ res d', Runs .none [] (Cache.open .sample {}) d res d' →
        Cache.Lost .sample [] d res d' := by
  have regular {s : Situation} (run : Run (.session .none) .sample [] (Layout.home ["cache"])
      .sample s) (sized : ∀ m ∈ s.past, m.Within .sized) : s.Regular .sized .sample [] ["cache"] :=
    (run.invariant (invariant_session Layout.empty_sample) id sized).1
  obtain ⟨s, key, e, s', grown⟩ := exists_overgrows (.session .none)
    (fun _ _ => trivial) fun s run sized => (regular run sized).consistent.coherent.sound
  have after := regular (grown.run.put key e grown.changes) grown.sized
  obtain ⟨n, c, d, save⟩ := Cache.exists_save after.stands
  have lost := after.always_lost Layout.clear_sample grown.sized grown.outgrown save {}
  exact ⟨s, key, e, s', n, c, d, grown.run, grown.served, grown.other (by decide), grown.accepts,
    grown.changes, save, exists_runs .., lost⟩

end BuildCache
