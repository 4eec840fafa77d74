import BuildCache.Proofs.Homes

/-!
Opening a cache whose files belong together: the index is what its records spell, the map is what
its records replay to, and nothing on the disk changes. Where nothing is refused there is no reset
and no message.
-/
namespace BuildCache

open Disk Program

namespace Program
variable {faults : Faults} {cwd : Place} {d d' : Disk} {path : Path}

/-- A directory that is there is not made again. -/
theorem answers_makeDir_of_isDir {reply : Except OsError Unit} (isDir : d.isDir cwd path = true)
    (answer : d.Answers faults cwd (.makeDir path) reply d') :
    d' = d ∧ ∃ e, reply = .error e := by
  cases answer with
  | refused _ e _ may other refusal =>
    cases refusal
    exact ⟨rfl, e, rfl⟩
  | served clock =>
    obtain ⟨e, refused⟩ := makeDir_of_isDir isDir
    simp [Host.answer, Host.change, refused, Except.map]

theorem always_makeDirs_of_isDir (isDir : d.isDir cwd path = true) :
    Always faults cwd (makeDirs path) d fun r d' => d' = d ∧ r = .ok () := by
  unfold makeDirs makeDirsFrom
  by_cases text : path.text = ""
  · rw [if_pos text]
    exact always_pure.mpr ⟨rfl, rfl⟩
  rw [if_neg text]
  have made : Always faults cwd (makeDir path) d fun r d' => d' = d ∧ r = .ok () := by
    refine Always.bind (always_request.mpr fun reply d' answer =>
      answers_makeDir_of_isDir isDir answer) ?_
    rintro r d' ⟨rfl, e, rfl⟩
    refine Always.bind (always_request.mpr fun reply d' answer => answers_isDir answer) ?_
    rintro is d' ⟨rfl, rfl⟩
    rw [isDir]
    exact always_pure.mpr ⟨rfl, rfl⟩
  refine Always.bind made ?_
  rintro r d' ⟨rfl, rfl⟩
  exact always_pure.mpr ⟨rfl, rfl⟩

end Program

variable {faults : Faults} {cwd : Place} {d d' : Disk}

/-- An index opens as the names that its records spell. -/
theorem Index.always_open {shelf : Shelf} {files : LogFiles} {told : List (Record PathId String)}
    {ns : Names} (holds : shelf.Holds files cwd d) (tells : Log.Tells Fits shelf format d told)
    (spells : Names.Spells told ns) (sound : ns.Sound) (interval : Nat) :
    Always faults cwd (Index.open files interval) d fun r d' => d' = d ∧
      ((∃ gate, r = .ok { names := ns, log := { files, format }, gate }) ∨
        faults.possible ∧ ∃ e, r = .error e) := by
  refine Always.bind always_tick ?_
  rintro now d rfl
  refine Always.bind (Log.always_open holds tells) ?_
  rintro r d' ⟨rfl, rfl | ⟨may, e, rfl⟩⟩
  · dsimp only
    rw [Names.ofRecords_eq_ok.mpr ⟨spells, sound⟩]
    exact always_pure.mpr ⟨rfl, .inl ⟨_, rfl⟩⟩
  · exact always_pure.mpr ⟨rfl, .inr ⟨may, e, rfl⟩⟩

theorem DurableMap.always_open {K V : Type} [DecidableEq K] [Stored K] [Stored V] [Metered K]
    [Metered V] [Tangible K] {shelf : Shelf} {files : LogFiles} {format : StoreFormat}
    {told : List (Record K V)} (holds : shelf.Holds files cwd d)
    (tells : Log.Tells Fits shelf format d told) :
    Always faults cwd (DurableMap.open (K := K) (V := V) files format) d fun r d' => d' = d ∧
      (r = .ok ⟨replay told, { files, format }⟩ ∨ faults.possible ∧ ∃ e, r = .error e) := by
  refine Always.bind (Log.always_open holds tells) ?_
  rintro r d' ⟨rfl, rfl | ⟨may, e, rfl⟩⟩
  · exact always_pure.mpr ⟨rfl, .inl rfl⟩
  · exact always_pure.mpr ⟨rfl, .inr ⟨may, e, rfl⟩⟩

/-- Whatever the size of its records, an index opens as the names that they spell, or not at all. -/
theorem Index.always_open_sized {shelf : Shelf} {files : LogFiles}
    {told : List (Record PathId String)} (holds : shelf.Holds files cwd d)
    (tells : Log.Tells Metered.Sized shelf format d told) (interval : Nat) :
    Always faults cwd (Index.open files interval) d fun r d' => d' = d ∧
      ∀ index, r = .ok index → Names.Spells told index.names ∧ index.names.Sound ∧
        index.log = { files, format } := by
  refine Always.bind always_tick ?_
  rintro now d rfl
  refine Always.bind (Log.always_open_sized holds tells) ?_
  rintro r d' ⟨rfl, same⟩
  cases r with
  | error e => exact always_pure.mpr ⟨rfl, nofun⟩
  | ok opened =>
    rw [same opened rfl]
    dsimp only
    cases spelled : Names.ofRecords told with
    | error fault => exact always_pure.mpr ⟨rfl, nofun⟩
    | ok ns =>
      obtain ⟨spells, sound⟩ := Names.ofRecords_eq_ok.mp spelled
      refine always_pure.mpr ⟨rfl, ?_⟩
      rintro index ⟨⟩
      exact ⟨spells, sound, rfl⟩

theorem DurableMap.always_open_sized {K V : Type} [DecidableEq K] [Stored K] [Stored V]
    [Metered K] [Metered V] [Tangible K] {shelf : Shelf} {files : LogFiles} {format : StoreFormat}
    {told : List (Record K V)} (holds : shelf.Holds files cwd d)
    (tells : Log.Tells Metered.Sized shelf format d told) :
    Always faults cwd (DurableMap.open (K := K) (V := V) files format) d fun r d' => d' = d ∧
      ∀ m, r = .ok m → m = ⟨replay told, { files, format }⟩ := by
  refine Always.bind (Log.always_open_sized holds tells) ?_
  rintro r d' ⟨rfl, same⟩
  cases r with
  | error e => exact always_pure.mpr ⟨rfl, nofun⟩
  | ok opened =>
    rw [same opened rfl]
    refine always_pure.mpr ⟨rfl, ?_⟩
    rintro m ⟨⟩
    rfl

namespace Cache
variable {layout : Layout} {options : Options} {r : Place}

theorem validate_eq_ok {t : Table Slot Bytes} {n : Nat} :
    validate t n = .ok () ↔ 0 < n ∧ ∃ record size, t.get? .validation = some record ∧
      recordedSize record = some size ∧ size ≤ n := by
  unfold validate
  by_cases nothing : n = 0
  · simp [nothing]
  rw [if_neg nothing]
  cases t.get? .validation with
  | none => simp
  | some record =>
    cases known : recordedSize record with
    | none => simp [known]
    | some size =>
      by_cases small : n < size
      · simp [known, small]
      · simp [known, small]
        omega

/-- The cache as it is right after it was opened with this memory. -/
structure Opened (c : Cache) (layout : Layout) (options : Options) (m : Memory) : Prop where
  memory : c.memory = m
  options : c.options = options
  index : c.index.log = { files := layout.indexFiles, format := Index.format }
  map : c.map.log = { files := layout.mapFiles, format := format }

theorem always_load {told : List (Record PathId String)} {told' : List (Record Slot Bytes)}
    {ns : Names} (lives : layout.Lives cwd r d)
    (index : Log.Tells Fits (Layout.home r).index Index.format d told)
    (map : Log.Tells Fits (Layout.home r).map format d told')
    (spells : Names.Spells told ns) (sound : ns.Sound)
    (validated : Memory.Validated ⟨ns, DurableMap.replay told'⟩) (options : Options) :
    Always faults cwd (load layout options) d fun res d' => d' = d ∧
      ((∃ c, res = .ok c ∧ c.Opened layout options ⟨ns, DurableMap.replay told'⟩) ∨
        faults.possible ∧ ∃ e, res = .error e) := by
  refine Always.bind (Index.always_open lives.index index spells sound _) ?_
  rintro res d' ⟨rfl, ⟨gate, rfl⟩ | ⟨may, e, rfl⟩⟩
  · refine Always.bind always_tick ?_
    rintro now d' rfl
    refine Always.bind (DurableMap.always_open lives.map map) ?_
    rintro res d' ⟨rfl, rfl | ⟨may, e, rfl⟩⟩
    · dsimp only
      by_cases nothing : DurableMap.replay told' = []
      · rw [if_pos (by simp [nothing])]
        exact always_pure.mpr ⟨rfl, .inl ⟨_, rfl, rfl, rfl, rfl, rfl⟩⟩
      · rw [if_neg (by simpa using nothing), validate_eq_ok.mpr (validated nothing)]
        exact always_pure.mpr ⟨rfl, .inl ⟨_, rfl, rfl, rfl, rfl, rfl⟩⟩
    · exact always_pure.mpr ⟨rfl, .inr ⟨may, _, rfl⟩⟩
  · exact always_pure.mpr ⟨rfl, .inr ⟨may, _, rfl⟩⟩

/-- Whatever the size of the records, a cache that loads at all holds what its files tell, and its
validation record states no more names than it has. -/
theorem always_load_sized {told : List (Record PathId String)} {told' : List (Record Slot Bytes)}
    (lives : layout.Lives cwd r d)
    (index : Log.Tells Metered.Sized (Layout.home r).index Index.format d told)
    (map : Log.Tells Metered.Sized (Layout.home r).map format d told') (options : Options) :
    Always faults cwd (load layout options) d fun res d' => d' = d ∧ ∀ c, res = .ok c →
      ∃ ns, Names.Spells told ns ∧ ns.Sound ∧ Memory.Validated ⟨ns, DurableMap.replay told'⟩ ∧
        c.Opened layout options ⟨ns, DurableMap.replay told'⟩ := by
  refine Always.bind (Index.always_open_sized lives.index index _) ?_
  rintro res d' ⟨rfl, known⟩
  cases res with
  | error e => exact always_pure.mpr ⟨rfl, by simp⟩
  | ok idx =>
    obtain ⟨spells, sound, log⟩ := known idx rfl
    refine Always.bind always_tick ?_
    rintro now d' rfl
    refine Always.bind (DurableMap.always_open_sized lives.map map) ?_
    rintro res d' ⟨rfl, same⟩
    cases res with
    | error e => exact always_pure.mpr ⟨rfl, by simp⟩
    | ok m =>
      rw [same m rfl]
      dsimp only
      by_cases nothing : DurableMap.replay told' = []
      · rw [if_pos (by simp [nothing])]
        refine always_pure.mpr ⟨rfl, ?_⟩
        rintro c ⟨⟩
        refine ⟨idx.names, spells, sound, fun nonempty => absurd nothing nonempty, ?_⟩
        exact ⟨rfl, rfl, log, rfl⟩
      · rw [if_neg (by simpa using nothing)]
        cases valid : validate (DurableMap.replay told') idx.names.size with
        | error fault => exact always_pure.mpr ⟨rfl, by simp⟩
        | ok u =>
          refine always_pure.mpr ⟨rfl, ?_⟩
          rintro c ⟨⟩
          exact ⟨idx.names, spells, sound, fun _ => validate_eq_ok.mp valid, rfl, rfl, log, rfl⟩

theorem Opened.stamped {c : Cache} {m : Memory} (opened : c.Opened layout options m)
    (millis : Option Nat) : Opened { c with loadMillis := millis } layout options m :=
  ⟨opened.memory, opened.options, opened.index, opened.map⟩

theorem always_makeDirs_of_isDir {path : Path} (isDir : d.isDir cwd path = true) :
    Always faults cwd (makeDirs path) d fun res d' => d' = d ∧ res = .ok () := by
  refine Always.bind (Program.always_makeDirs_of_isDir isDir) ?_
  rintro res d' ⟨rfl, rfl⟩
  exact always_pure.mpr ⟨rfl, rfl⟩

/-- Opening is loading or resetting, and looking at the clock. -/
theorem always_open_of_loadOrReset {Q : Except StoreError Cache × List Diagnostic → Disk → Prop}
    (stamped : ∀ c messages ms d', Q (.ok c, messages) d' →
      Q (.ok { c with loadMillis := ms }, messages) d')
    (tried : Always faults cwd (loadOrReset layout options) d Q) :
    Always faults cwd (Cache.open layout options) d Q := by
  refine Always.bind always_wallTime ?_
  rintro before d rfl
  refine Always.bind tried ?_
  rintro ⟨res, messages⟩ d' outcome
  cases res with
  | error e => exact always_pure.mpr outcome
  | ok c =>
    refine Always.bind always_wallTime ?_
    rintro after d' rfl
    exact always_pure.mpr (stamped c messages _ d' outcome)

/-- Where nothing is refused, a cache whose files belong together opens without reset and without
any message, and no file changes. -/
theorem always_open {told : List (Record PathId String)} {told' : List (Record Slot Bytes)}
    {ns : Names} (lives : layout.Lives cwd r d)
    (index : Log.Tells Fits (Layout.home r).index Index.format d told)
    (map : Log.Tells Fits (Layout.home r).map format d told')
    (spells : Names.Spells told ns) (sound : ns.Sound)
    (validated : Memory.Validated ⟨ns, DurableMap.replay told'⟩) (options : Options) :
    Always .none cwd (Cache.open layout options) d fun res d' => d' = d ∧
      ∃ c, res = (.ok c, []) ∧ c.Opened layout options ⟨ns, DurableMap.replay told'⟩ := by
  refine always_open_of_loadOrReset ?_ ?_
  · rintro c messages ms d' ⟨rfl, c', same, opened⟩
    cases same
    exact ⟨rfl, _, rfl, opened.stamped ms⟩
  refine Always.bind (always_makeDirs_of_isDir lives.isDir) ?_
  rintro res d' ⟨rfl, rfl⟩
  refine Always.bind (always_load lives index map spells sound validated options) ?_
  rintro res d' ⟨rfl, ⟨c, rfl, opened⟩ | ⟨may, _⟩⟩
  · exact always_pure.mpr ⟨rfl, c, rfl, opened⟩
  · exact absurd may Faults.not_possible_none

theorem Opened.stands {c : Cache} {m : Memory} (opened : c.Opened layout options m)
    (lives : layout.Lives cwd r d) : c.Stands (Layout.home r) cwd d where
  index := by
    rw [opened.index]
    exact ⟨lives.index, nofun⟩
  map := by
    rw [opened.map]
    exact ⟨lives.map, nofun⟩
  apart := Layout.apart r
  indexFormat := by rw [opened.index]
  mapFormat := by rw [opened.map]

end Cache
end BuildCache
