import BuildCache.Proofs.Lingering

/-!
Removing every entry that matches is removing each of them by its key. In memory it makes no
difference: the same records are left, whatever the order and whichever of the removals find the
journal due. In the files it does: an entry that is removed before the journal is written never gets
there, and one that is too long for a reader is better not there.
-/
namespace BuildCache

open Disk Program

variable {faults : Faults} {layout : Layout} {cwd r : Place} {d d' : Disk} {c c' : Cache}
  {m : Memory} {p : Cached → Bool} {made : List Change}

/-- Where the entry of a key is, if the key has an identity. -/
def Names.slot? (ns : Names) (key : String) : Option Slot := (ns.id? key).map .entry

/-- The key of the entry that is there. -/
def Names.nameOf (ns : Names) : Slot → Option String
  | .validation => none
  | .entry id => ns.name? id

namespace Memory

/-- Every entry has a name. -/
def Interned (m : Memory) : Prop :=
  ∀ id bytes, m.records.get? (.entry id) = some bytes → (m.names.name? id).isSome

/-- Memory without the entries that `p` holds of. -/
def without (m : Memory) (p : Cached → Bool) : Memory :=
  { m with records := m.records.filter fun e => !m.matching p e }

/-- The names of the entries that `p` holds of. -/
def matched (m : Memory) (p : Cached → Bool) : List String :=
  (m.doomed p).filterMap m.names.nameOf

theorem removing_eq (m : Memory) (key : String) :
    m.removing key = (m.names.slot? key).toList.map .remove := by
  unfold removing Names.slot?
  cases m.names.id? key <;> rfl

/-- Removals leave the records that none of them is about, in their order. -/
theorem afterAll_removes (m : Memory) (slots : List Slot) :
    m.afterAll (slots.map .remove) =
      { m with records := m.records.filter fun e => decide (e.1 ∉ slots) } := by
  induction slots generalizing m with
  | nil =>
    have all : m.records.filter (fun _ => true) = m.records :=
      List.filter_eq_self.mpr fun _ _ => rfl
    simp [afterAll, all]
  | cons slot slots ih =>
    change (m.after (.remove slot)).afterAll (slots.map .remove) = _
    rw [ih, after, Table.erase, List.filter_filter]
    simp [Bool.and_comm]

theorem afterAll_doomed {slots : List Slot} (distinct : m.records.keys.Nodup)
    (perm : slots.Perm (m.doomed p)) : m.afterAll (slots.map .remove) = m.without p := by
  rw [afterAll_removes, without]
  congr 1
  refine List.filter_congr fun e mem => ?_
  have same : e.1 ∈ slots ↔ m.matching p e := by
    rw [perm.mem_iff, doomed, List.mem_map]
    constructor
    · rintro ⟨e', inside, key⟩
      obtain ⟨mem', matches_⟩ := List.mem_filter.mp inside
      have value := Table.get?_of_mem distinct (k := e.1) (v := e.2) mem
      rw [← key, Table.get?_of_mem distinct (k := e'.1) (v := e'.2) mem'] at value
      rwa [Prod.ext key.symm (Option.some.inj value).symm]
    · exact fun matches_ => ⟨e, List.mem_filter.mpr ⟨mem, matches_⟩, rfl⟩
  simp [same]

/-- Behind a removal of what matches nothing matches. -/
theorem doomed_without (m : Memory) (p : Cached → Bool) : (m.without p).doomed p = [] := by
  have none : (m.without p).records.filter ((m.without p).matching p) = [] := by
    refine List.filter_eq_nil_iff.mpr fun e mem => ?_
    have kept := (List.mem_filter.mp mem).2
    rw [Bool.not_eq_true'] at kept
    exact Bool.not_eq_true _ ▸ kept
  rw [doomed, none, List.map_nil]

theorem length_without (m : Memory) (p : Cached → Bool) :
    m.records.length = (m.without p).records.length + (m.doomed p).length := by
  have parts := List.length_eq_countP_add_countP (m.matching p) (l := m.records)
  rw [List.countP_eq_length_filter, List.countP_eq_length_filter] at parts
  rw [doomed, List.length_map, parts, Nat.add_comm, without]
  simp

/-- The validation record never matches. -/
theorem validation_without (distinct : m.records.keys.Nodup) :
    (m.without p).records.get? .validation = m.records.get? .validation := by
  rw [without, Table.get?_filter distinct]
  cases m.records.get? .validation <;> rfl

theorem get?_without (distinct : m.records.keys.Nodup) (key : String) :
    (m.without p).get? key = (m.get? key).filter fun x => !p x := by
  have names : (m.without p).names = m.names := rfl
  rw [get?_eq, get?_eq, names]
  cases m.names.id? key with
  | none => rfl
  | some id =>
    rw [Option.bind_some, Option.bind_some, without, Table.get?_filter distinct, Option.filter_map]
    rfl

/-- The names of what matches lead back to it. -/
theorem slots_matched (sound : m.names.Sound) (distinct : m.records.keys.Nodup)
    (interned : m.Interned) : (m.matched p).filterMap m.names.slot? = m.doomed p := by
  have back : ∀ slot ∈ m.doomed p, ∃ name, m.names.nameOf slot = some name ∧
      m.names.slot? name = some slot := by
    intro slot mem
    cases slot with
    | validation => exact absurd rfl (entry_of_mem_doomed mem)
    | entry id =>
      obtain ⟨bytes, found, _⟩ := (mem_doomed distinct).mp mem
      obtain ⟨name, known⟩ := Option.isSome_iff_exists.mp (interned id bytes found)
      exact ⟨name, known, congrArg (·.map Slot.entry) ((Names.id?_eq_some sound).mpr known)⟩
  unfold matched
  generalize m.doomed p = slots at back ⊢
  induction slots with
  | nil => rfl
  | cons slot slots ih =>
    obtain ⟨name, known, same⟩ := back slot List.mem_cons_self
    rw [List.filterMap_cons_some known, List.filterMap_cons_some same,
      ih fun slot mem => back slot (List.mem_cons_of_mem _ mem)]

end Memory

namespace Cache

/-- Removes the entries of keys, one after the other. -/
def removeEach (c : Cache) : List String → Program Cache
  | [] => return c
  | key :: keys => do (← c.remove key).removeEach keys

theorem always_memory_removeEach (c : Cache) (keys : List String) :
    Always faults cwd (c.removeEach keys) d fun c' _ =>
      c'.memory = c.memory.afterAll ((keys.filterMap c.memory.names.slot?).map .remove) := by
  induction keys generalizing c d with
  | nil => exact always_pure.mpr rfl
  | cons key keys ih =>
    refine Always.bind (always_memory_changeAll c (c.memory.removing key)) ?_
    intro c₁ d₁ removed
    refine (ih c₁).mono fun c₂ d₂ rest => ?_
    rw [Memory.removing_eq] at removed
    rw [rest, removed, (Memory.get?_removes _ _ .validation).1, List.filterMap_cons]
    cases c.memory.names.slot? key <;> rfl

/-- What removing the entries that `p` holds of leaves, if it answers `n`. -/
structure Relieved (p : Cached → Bool) (c c' : Cache) (n : Nat) : Prop where
  entries : c'.map.entries = c.map.entries.filter fun e => !c.memory.matching p e
  validation : c'.map.get? .validation = c.map.get? .validation
  names : c'.index.names = c.index.names
  count : c.size = c'.size + n
  serves : ∀ key, c'.get? key = (c.get? key).filter fun x => !p x

theorem relieved_of_memory {n : Nat} (distinct : c.memory.records.keys.Nodup)
    (memory : c'.memory = c.memory.without p) (answer : n = (c.memory.doomed p).length) :
    c.Relieved p c' n where
  entries := congrArg Memory.records memory
  validation := by
    have same := Memory.validation_without (p := p) distinct
    rwa [← memory] at same
  names := congrArg Memory.names memory
  count := by
    have parts := c.memory.length_without p
    rwa [← memory, ← answer] at parts
  serves key := by
    rw [get?, memory]
    exact Memory.get?_without distinct key

/-- However the table is walked, whenever the journal is due and whatever fails in the files. -/
theorem always_removeIf (distinct : c.memory.records.keys.Nodup) (p : Cached → Bool) :
    Always faults cwd (c.removeIf p) d fun r _ =>
      r.2.memory = c.memory.without p ∧ r.1 = (c.memory.doomed p).length := by
  refine Always.bind (always_walk (c.memory.doomed p)) ?_
  rintro slots d₁ ⟨rfl, perm⟩
  refine Always.bind (always_memory_changeAll c (slots.map .remove)) fun c₁ d₂ removed => ?_
  exact always_pure.mpr ⟨removed.trans (Memory.afterAll_doomed distinct perm), perm.length_eq⟩

/-- Where nothing matches, nothing happens. -/
theorem always_removeIf_idle (nothing : c.memory.doomed p = []) :
    Always faults cwd (c.removeIf p) d fun r d' => r = (0, c) ∧ d' = d := by
  unfold removeIf
  rw [nothing]
  refine Always.bind (always_walk []) ?_
  rintro slots d₁ ⟨rfl, perm⟩
  rw [perm.eq_nil]
  exact always_pure.mpr ⟨rfl, rfl⟩

theorem always_removeEach (sound : c.memory.names.Sound) (distinct : c.memory.records.keys.Nodup)
    (interned : c.memory.Interned) {keys : List String} (perm : keys.Perm (c.memory.matched p)) :
    Always faults cwd (c.removeEach keys) d fun c' _ => c'.memory = c.memory.without p := by
  refine (always_memory_removeEach c keys).mono fun c' d' removed => ?_
  have slots := perm.filterMap c.memory.names.slot?
  rw [Memory.slots_matched sound distinct interned] at slots
  rw [removed, Memory.afterAll_doomed distinct slots]

end Cache

namespace Session

theorem removeEach {keys : List String} (session : Session faults layout cwd r made c d)
    (run : Runs faults cwd (c.removeEach keys) d c' d') :
    Session faults layout cwd r made c' d' := by
  induction keys generalizing c d with
  | nil =>
    cases run
    exact session
  | cons key keys ih =>
    obtain ⟨c₁, d₁, first, rest⟩ := runs_bind.mp run
    exact ih (session.remove key first) rest

end Session

/-- Removing what matches is removing the key of each entry that matches, in any order: nothing else
is lost, a second time finds nothing, and what is in memory is the same. Behind a save that is done
both ways are found again as that; but a cache may be lost, either way, if something that was put in
the session is too long for a record. -/
theorem Cache.removeIf_as_removeEach (sound : c.memory.names.Sound)
    (distinct : c.memory.records.keys.Nodup) (interned : c.memory.Interned) (p : Cached → Bool) :
    (∃ n c₁ d₁, Runs faults cwd (c.removeIf p) d (n, c₁) d₁) ∧
    ∀ n c₁ d₁, Runs faults cwd (c.removeIf p) d (n, c₁) d₁ →
      c.Relieved p c₁ n ∧
      (∀ res d₂, Runs faults cwd (c₁.removeIf p) d₁ res d₂ → res = (0, c₁) ∧ d₂ = d₁) ∧
      ∀ keys, keys.Perm (c.memory.matched p) → ∀ c₂ d₂,
        Runs faults cwd (c.removeEach keys) d c₂ d₂ → c₂.memory = c₁.memory ∧
        ∀ layout r made, Session faults layout cwd r made c d → ¬faults.tears →
          layout.Clear cwd → (∀ change ∈ made, change.Within .words) →
          Session.Returns faults layout cwd made c₁ d₁ c₁.memory ∧
            Session.Returns faults layout cwd made c₂ d₂ c₁.memory := by
  constructor
  · obtain ⟨⟨n, c₁⟩, d₁, run⟩ := exists_runs faults cwd (c.removeIf p) d
    exact ⟨n, c₁, d₁, run⟩
  intro n c₁ d₁ run
  obtain ⟨memory, answer⟩ := always_removeIf distinct p _ _ run
  have nothing : c₁.memory.doomed p = [] := by
    rw [memory]
    exact Memory.doomed_without c.memory p
  refine ⟨relieved_of_memory distinct memory answer, always_removeIf_idle nothing, ?_⟩
  intro keys perm c₂ d₂ run'
  have same := always_removeEach sound distinct interned perm _ _ run'
  rw [← memory] at same
  refine ⟨same, fun layout r made session whole clear words => ?_⟩
  have there := (session.removeIf p run).returns whole clear words
  have there' := (session.removeEach run').returns whole clear words
  rw [same] at there'
  exact ⟨there, there'⟩

theorem Memory.Coherent.interned {stored : Stores} (coherent : m.Coherent stored) : m.Interned := by
  intro id bytes found
  obtain ⟨key, e, _, known, _⟩ := coherent.genuine id bytes found
  rw [known]
  rfl

/-- One of two entries matches. -/
theorem Cache.removeIf_as_removeEach_sample : ∃ made c d c₁ d₁ c₂ d₂ k c' d',
    Session .none .sample [] ["cache"] made c d ∧
      Runs .none [] (c.removeIf fun x => decide (x = .entry (.sample "a" none))) d (1, c₁) d₁ ∧
      c₁.get? "a" = none ∧ c₁.get? "b" = some (.entry (.sample "b" none)) ∧
      Runs .none [] (c.removeEach ["a"]) d c₂ d₂ ∧ c₂.memory = c₁.memory ∧
      Runs .none [] c₁.save d₁ (.ok k, c') d' ∧ Layout.sample.Recalls [] d' c₁.memory := by
  let p : Cached → Bool := fun x => decide (x = .entry (.sample "a" none))
  have found : (Situation.rehearsal .sample {} [] (Layout.home ["cache"]) .sample
      [.put "a" (.sample "a" none), .put "b" (.sample "b" none)]).map (fun s =>
        (s.past.all Memory.modest, s.cache.get? "a", s.cache.get? "b", s.cache.memory.matched p,
          (s.cache.memory.doomed p).length)) =
      some (true, some (.entry (.sample "a" none)), some (.entry (.sample "b" none)), ["a"], 1) := by
    decide +kernel
  obtain ⟨s, run, found⟩ := Situation.exists_run_of_rehearsal (.session .none)
    (by simp [Rules.Permits]) found
  simp only [Prod.mk.injEq, List.all_eq_true] at found
  obtain ⟨modest, servedA, servedB, matched, count⟩ := found
  obtain ⟨made, session, shown⟩ := run.exists_session Layout.empty_sample
  have sized : ∀ m ∈ s.past, m.Within .sized :=
    fun m mem => Memory.within_sized_of_modest (modest m mem)
  have words : ∀ change ∈ made, change.Within .words :=
    fun change mem => (Change.within_of_shown shown sized change mem).words
  have fits : ∀ change ∈ made, change.Within .fits :=
    Change.within_of_shown shown fun m mem => Memory.within_fits_of_modest (modest m mem)
  have coherent := (run.invariant (invariant_session Layout.empty_sample) id sized).1
    |>.consistent.coherent
  obtain ⟨⟨n, c₁⟩, d₁, removed⟩ := exists_runs .none [] (s.cache.removeIf p) s.disk
  obtain ⟨relieved, _, each⟩ := (removeIf_as_removeEach coherent.sound coherent.distinct
    coherent.interned p).2 n c₁ d₁ removed
  obtain ⟨c₂, d₂, removed'⟩ := exists_runs .none [] (s.cache.removeEach ["a"]) s.disk
  obtain ⟨same, returns⟩ := each ["a"] (by rw [matched]) c₂ d₂ removed'
  have answer := (always_removeIf coherent.distinct p _ _ removed).2
  obtain rfl : n = 1 := answer.trans count
  obtain ⟨k, c', d', save⟩ := (session.removeIf p removed).exists_save words
  refine ⟨made, s.cache, s.disk, c₁, d₁, c₂, d₂, k, c', d', session, removed, ?_, ?_, removed',
    same, save, ?_⟩
  · rw [relieved.serves, servedA]
    decide
  · rw [relieved.serves, servedB]
    decide
  · rcases (returns _ _ made session id Layout.clear_sample words).1 k c' d' save with
      recalls | ⟨⟨change, mem, long⟩, _⟩
    · exact recalls
    · exact absurd (fits change mem) long

/-- An entry without any names, with a digest of any length. -/
def Entry.digested (digest : Bytes) : Entry := { Entry.sample "k" none with fileDigest := digest }

def Entry.digestedBytes (digest : Bytes) : Bytes :=
  [2, 107] ++ (Field.putI32 (Int32.ofNat digest.length) ++ digest) ++ [1, 0, 0, 0]

theorem Entry.encode_digested {digest : Bytes} (small : digest.length < Field.lengthBound)
    (ns : Names) : (digested digest).encode ns = (.ok (digestedBytes digest), ns) := by
  have field : Field.putBytes "file digest" digest =
      .ok (Field.putI32 (Int32.ofNat digest.length) ++ digest) := by
    rw [Field.putBytes, Field.putLength, if_pos small]
    rfl
  unfold encode put digested
  dsimp only
  rw [field]
  change (Except.ok ([2, 107] ++ (Field.putI32 (Int32.ofNat digest.length) ++ digest) ++ [1] ++
    [0] ++ [0] ++ [] ++ [0] ++ []), ns) = _
  simp [digestedBytes]

theorem Entry.length_digestedBytes (digest : Bytes) :
    digest.length ≤ (digestedBytes digest).length ∧
      (digestedBytes digest).length ≤ digest.length + 15 := by
  have size := Integer.length_put_le (Integer.zigzag (Int32.ofNat digest.length).toInt)
  unfold digestedBytes Field.putI32
  simp only [List.length_append, List.length_cons, List.length_nil]
  omega

/-- An entry that is longer than a reader takes for one record. -/
def Entry.overlong : Entry := digested (List.replicate recordLimit 0)

-- Nobody is to count these bytes one by one.
@[irreducible] def Entry.overlongBytes : Bytes := digestedBytes (List.replicate recordLimit 0)

theorem Entry.encode_overlong (ns : Names) : overlong.encode ns = (.ok overlongBytes, ns) := by
  unfold overlongBytes
  refine encode_digested ?_ ns
  rw [List.length_replicate]
  decide

theorem Entry.length_overlongBytes :
    recordLimit ≤ overlongBytes.length ∧ overlongBytes.length ≤ recordLimit + 15 := by
  have length := length_digestedBytes (List.replicate recordLimit 0)
  rw [List.length_replicate] at length
  unfold overlongBytes
  exact length

theorem Entry.not_fits_overlong (slot : Slot) : ¬Fits (Record.put slot overlongBytes) := by
  have long : ∀ n, recordLimit ≤ n → ¬(8 + n ≤ recordLimit) := by omega
  exact mt Fits.length_le (long _ length_overlongBytes.1)

namespace Cache

/-- Empties a slot at a moment at which every journal is due. -/
def removeLate (c : Cache) (d : Disk) (slot : Slot) : Cache × Disk :=
  let r := (c.change (.remove slot)).run ⟨d, [], ⟨0, maxTick, 0⟩⟩
  (r.1, r.2.disk)

/-- Removes the entries of keys, at a moment at which no journal is due, and saves. -/
def removeEarly (c : Cache) (d : Disk) (keys : List String) :
    (Cache × Disk) × ((Except StoreError Nat × Cache) × Disk) :=
  let removed := (c.removeEach keys).run (Situation.host [] d)
  let saved := removed.1.save.run (Situation.host [] removed.2.disk)
  ((removed.1, removed.2.disk), (saved.1, saved.2.disk))

theorem runs_removeLate (c : Cache) (d : Disk) (slot : Slot) : Runs .none []
    (c.change (.remove slot)) d (c.removeLate d slot).1 (c.removeLate d slot).2 :=
  runs_run .none _ ⟨d, [], ⟨0, maxTick, 0⟩⟩

theorem runs_removeEarly (c : Cache) (d : Disk) (keys : List String) :
    Runs .none [] (c.removeEach keys) d (c.removeEarly d keys).1.1 (c.removeEarly d keys).1.2 ∧
      Runs .none [] (c.removeEarly d keys).1.1.save (c.removeEarly d keys).1.2
        (c.removeEarly d keys).2.1 (c.removeEarly d keys).2.2 :=
  ⟨runs_run .none _ (Situation.host [] d), runs_run .none _ (Situation.host [] _)⟩

/-- What comes of an entry that is too long behind another one that is on the disk, if both are
removed: late or early. -/
def glimpse (c : Cache) (d : Disk) : List Bool :=
  let first := c.removeLate d (.entry 0)
  let second := first.1.removeLate first.2 (.entry 1)
  let early := c.removeEarly d ["a", "x"]
  let opened := (Cache.open .sample {}).run (Situation.host [] early.2.2)
  [c.map.log.pending.isEmpty, c.map.log.needsSnapshot,
    c.memory.doomed (fun _ => true) = [.entry 0, .entry 1],
    c.memory.matched (fun _ => true) = ["a", "x"],
    first.1.map.log.pending.isEmpty, second.1.map.log.pending.isEmpty,
    second.1.map.log.needsSnapshot, second.1.options.compactionPercent = largestWord,
    (second.2.content (Layout.home ["cache"]).map.snapshot).isEmpty,
    early.2.1.1.isOk, opened.1.1.isOk, opened.1.2.isEmpty]

end Cache

theorem exists_session_overlong : ∃ made c d, Session .none .sample [] ["cache"] made c d ∧
    (∀ change ∈ made, change.Within .words) ∧ c.memory.Interned ∧
    c.map.log.pending.get? (.entry 1) = some (some Entry.overlongBytes) ∧
    c.map.log.bulk (Layout.home ["cache"]).map d ≤ recordLimit + 200 ∧
    c.glimpse d = [false, false, true, true, true, true, false, true, false, true, true, true] := by
  let home := Layout.home ["cache"]
  let put (s : Situation) : Cache × Host :=
    (s.cache.changeAll [.learn ⟨["a", "x"]⟩, .put .validation (validationRecord 2),
      .put (.entry 1) Entry.overlongBytes]).run (Situation.host [] s.disk)
  have found : (Situation.rehearsal .sample { compactionPercent := Cache.largestWord } [] home
      .sample [.put "a" (.sample "a" none), .save]).map (fun s =>
        (s.past.all Memory.modest, s.cache.memory.names, s.cache.map.log.bulk home.map s.disk,
          (put s).1.glimpse (put s).2.disk)) =
      some (true, ⟨["a"]⟩, 0,
        [false, false, true, true, true, true, false, true, false, true, true, true]) := by
    -- The long bytes are only carried around here; the save that would count them is not run.
    decide +kernel
  obtain ⟨s, run, found⟩ := Situation.exists_run_of_rehearsal (.session .none)
    (by simp [Rules.Permits]) found
  simp only [Prod.mk.injEq, List.all_eq_true] at found
  obtain ⟨modest, names, empty, shows⟩ := found
  obtain ⟨made, session, shown⟩ := run.exists_session Layout.empty_sample
  have sized : ∀ m ∈ s.past, m.Within .sized :=
    fun m mem => Memory.within_sized_of_modest (modest m mem)
  have coherent := (run.invariant (invariant_session Layout.empty_sample) id sized).1
    |>.consistent.coherent
  have long := Entry.length_overlongBytes
  have limit : recordLimit = 67108864 := rfl
  have word : UInt64.size = 18446744073709551616 := rfl
  have storing : s.cache.memory.Storing "x" .overlong ⟨["a", "x"]⟩ 1 Entry.overlongBytes :=
    (Memory.storing_of_encode coherent.sound names (by decide) (by decide)
      Entry.encode_overlong).2
  have step : Runs .none [] (s.cache.put "x" .overlong) s.disk (put s).1 (put s).2.disk := by
    rw [Cache.put, storing.changes]
    exact runs_run .none _ (Situation.host [] s.disk)
  have session' := session.put "x" .overlong step
  have words : ∀ change ∈ s.cache.memory.putting "x" .overlong ++ made, change.Within .words := by
    intro change mem
    rcases List.mem_append.mp mem with mem | mem
    · exact (Memory.within_putting_of_encode names (by decide) (by decide) Entry.encode_overlong
        (by decide) (by omega) change mem).words
    · exact (Change.within_of_shown shown sized change mem).words
  have stands := (session.upheld id fun change mem =>
    words change (List.mem_append_right _ mem)).stands
  have allowed : s.cache.memory.AllowsAll (("x", .overlong) :: s.stored) none _ :=
    Memory.allowsAll_putting coherent.sound List.mem_cons_self
  have memory := Cache.always_memory_changeAll s.cache _ _ _ step
  have after := (coherent.mono (List.subset_cons_self _ _)).afterAll none allowed
  rw [← memory] at after
  refine ⟨_, (put s).1, (put s).2.disk, session', words, after.interned, ?_, ?_, shows⟩
  · have first := congrArg List.head? shows
    have waits : (put s).1.map.log.pending ≠ [] :=
      fun nothing => by simp [Cache.glimpse, nothing] at first
    exact Cache.pending_of_put stands storing step waits
  · have grown := Cache.bulk_of_put stands id coherent.sound storing step
    have small : ∀ n, n ≤ recordLimit + 15 → 132 + n ≤ recordLimit + 200 := by omega
    rw [empty, Nat.zero_add] at grown
    exact Nat.le_trans grown (small _ long.2)

section Overlong
variable (session : Session .none .sample [] ["cache"] made c d)
  (words : ∀ change ∈ made, change.Within .words)
  (shows : c.glimpse d =
    [false, false, true, true, true, true, false, true, false, true, true, true])
include session words shows

/-- Both entries are removed because they match, and the journal is due at the first of them. -/
theorem Session.lost_late (bulk : c.map.log.bulk (Layout.home ["cache"]).map d ≤ recordLimit + 200)
    (waits : c.map.log.pending.get? (.entry 1) = some (some Entry.overlongBytes)) :
    ∃ n c₁ d₁ k c' d', Runs .none [] (c.removeIf fun _ => true) d (n, c₁) d₁ ∧
      Runs .none [] c₁.save d₁ (.ok k, c') d' ∧ Layout.sample.Loses [] d' := by
  simp only [Cache.glimpse, List.cons.injEq, List.isEmpty_iff, List.isEmpty_eq_false_iff,
    decide_eq_true_eq, and_true] at shows
  obtain ⟨_, good, doomed, _, written, written₂, good₂, percent, snapshot, _⟩ := shows
  have run₁ := c.runs_removeLate d (.entry 0)
  generalize c.removeLate d (.entry 0) = first at *
  have run₂ := first.1.runs_removeLate first.2 (.entry 1)
  generalize first.1.removeLate first.2 (.entry 1) = second at *
  have removed : Runs .none [] (c.changeAll [.remove (.entry 0), .remove (.entry 1)]) d second.1
      second.2 := runs_bind.mpr ⟨_, _, run₁, runs_bind.mpr ⟨_, _, run₂, .done _ _⟩⟩
  have removedIf : Runs .none [] (c.removeIf fun _ => true) d (2, second.1) second.2 := by
    refine runs_bind.mpr ⟨[.entry 0, .entry 1], d, runs_walk (by rw [doomed]), ?_⟩
    exact runs_bind.mpr ⟨_, _, removed, .done _ _⟩
  have session₂ := session.removeIf _ removedIf
  obtain ⟨k, c', d', save⟩ := session₂.exists_save words
  have entries : ∀ slot ∈ [Slot.entry 0, .entry 1], slot ≠ .validation := by decide
  have allowed : c.memory.AllowsAll [] none _ := Memory.allowsAll_removes none _ entries
  have grown := Cache.always_bulk_changeAll (session.upheld id words).stands id none allowed _ _
    removed
  have short : (second.2.content (Layout.home ["cache"]).map.journal).length * 100 <
      Cache.largestWord := by
    have total : ∀ n bulk, n ≤ bulk → bulk ≤ recordLimit + 200 + 128 →
        n * 100 < Cache.largestWord := by
      have limit : recordLimit = 67108864 := rfl
      have word : Cache.largestWord = 18446744073709551615 := rfl
      omega
    exact total _ _ (Nat.le_add_right _ _) (Nat.le_trans grown (Nat.add_le_add_right bulk 128))
  have small : Cache.keepJournal second.1.options.compactionPercent
      (second.2.content (Layout.home ["cache"]).map.journal).length
      (second.2.content (Layout.home ["cache"]).map.snapshot).length = true := by
    rw [percent]
    exact Cache.keepJournal_largestWord short (List.length_pos_iff.mpr snapshot)
  have loses := session.loses_of_late Layout.clear_sample words (Entry.not_fits_overlong _) waits
    good (by decide) (by decide) run₁ written run₂ session₂ written₂ good₂ small save
  exact ⟨2, second.1, second.2, k, c', d', removedIf, save, loses⟩

/-- Both entries are removed by their keys, and the journal is not due. -/
theorem Session.found_early : ["a", "x"].Perm (c.memory.matched fun _ => true) ∧
    ∃ c₂ d₂ k c' d', Runs .none [] (c.removeEach ["a", "x"]) d c₂ d₂ ∧
      Runs .none [] c₂.save d₂ (.ok k, c') d' ∧ Layout.sample.Recalls [] d' c₂.memory := by
  simp only [Cache.glimpse, List.cons.injEq, List.isEmpty_iff, decide_eq_true_eq, and_true]
    at shows
  obtain ⟨_, _, _, matched, _, _, _, _, _, saved, opens, quiet⟩ := shows
  obtain ⟨each, save⟩ := c.runs_removeEarly d ["a", "x"]
  generalize c.removeEarly d ["a", "x"] = early at *
  have opening := runs_run .none (Cache.open .sample {}) (Situation.host [] early.2.2)
  generalize (Cache.open .sample {}).run (Situation.host [] early.2.2) = opened at *
  obtain ⟨⟨c₂, d₂⟩, ⟨result, c'⟩, d'⟩ := early
  cases result with
  | error e => cases saved
  | ok k =>
    have recalls := (session.removeEach each).recalls_of_quiet id Layout.clear_sample words save
      opening opens quiet
    exact ⟨by rw [matched], c₂, d₂, k, c', d', each, save, recalls⟩

end Overlong

/-- A session in which two entries are removed because they match, one of them longer than a reader
takes, and the journal is due at the first of them, and then saved; or in which they are removed by
their keys, and the journal is not due. The first way the cache is lost, and the second way it is
found again. -/
theorem Cache.lost_of_removeIf : ∃ made c d n c₁ d₁ k₁ c₁' d₁' keys c₂ d₂ k₂ c₂' d₂',
    Session .none .sample [] ["cache"] made c d ∧ (∀ change ∈ made, change.Within .words) ∧
      c.memory.Interned ∧
      Runs .none [] (c.removeIf fun _ => true) d (n, c₁) d₁ ∧
      Runs .none [] c₁.save d₁ (.ok k₁, c₁') d₁' ∧ Layout.sample.Loses [] d₁' ∧
      keys.Perm (c.memory.matched fun _ => true) ∧
      Runs .none [] (c.removeEach keys) d c₂ d₂ ∧ c₂.memory = c₁.memory ∧
      Runs .none [] c₂.save d₂ (.ok k₂, c₂') d₂' ∧ Layout.sample.Recalls [] d₂' c₁.memory := by
  obtain ⟨made, c, d, session, words, interned, waits, bulk, shows⟩ := exists_session_overlong
  obtain ⟨n, c₁, d₁, k₁, c₁', d₁', removedIf, save, loses⟩ :=
    session.lost_late words shows bulk waits
  obtain ⟨perm, c₂, d₂, k₂, c₂', d₂', each, save₂, recalls⟩ := session.found_early words shows
  have upheld := session.upheld id words
  have distinct : c.memory.records.keys.Nodup := upheld.map.distinct
  have same : c₂.memory = c₁.memory :=
    (always_removeEach upheld.sound distinct interned perm _ _ each).trans
      (always_removeIf distinct _ _ _ removedIf).1.symm
  rw [same] at recalls
  exact ⟨made, c, d, n, c₁, d₁, k₁, c₁', d₁', ["a", "x"], c₂, d₂, k₂, c₂', d₂', session, words,
    interned, removedIf, save, loses, perm, each, same, save₂, recalls⟩

end BuildCache
