import BuildCache.Proofs.Names
import BuildCache.Proofs.Rehearsals
import BuildCache.Proofs.Verdicts

/-!
Which records make an index. It takes no more than their set: nothing is removed, no identity has
two names and no name two identities, and the identities are the numbers below some bound. Nothing
is assumed about the order in which records come or how often one is there, so snapshot and journal
may overlap in any way.
-/
namespace BuildCache

open Disk Program

theorem toOption_eq_some {ε α : Type} {x : Except ε α} {a : α} :
    x.toOption = some a ↔ x = .ok a := by
  cases x with
  | error e => exact iff_of_false nofun nofun
  | ok b => simp [Except.toOption]

namespace Names
variable {rs rs' : List (Record PathId String)} {n : Nat} {ns : Names}

/-- The records put one name under each identity below `n`, and each name under one. -/
structure Dense (n : Nat) (rs : List (Record PathId String)) : Prop where
  puts : ∀ id, .remove id ∉ rs
  single : ∀ id s s', .put id s ∈ rs → .put id s' ∈ rs → s = s'
  covers : ∀ i, i < n ↔ ∃ id s, .put id s ∈ rs ∧ id.toNat = i
  injective : ∀ id id' s, .put id s ∈ rs → .put id' s ∈ rs → id = id'

theorem Dense.size_unique {m : Nat} (dense : Dense n rs) (dense' : Dense m rs) : n = m := by
  have same (i : Nat) : i < n ↔ i < m := (dense.covers i).trans (dense'.covers i).symm
  have le := same n
  have ge := same m
  omega

theorem Dense.le_capacity (dense : Dense n rs) : n ≤ capacity := by
  apply Nat.le_of_not_lt
  intro excess
  obtain ⟨id, s, _, value⟩ := (dense.covers capacity).mp excess
  have small := id.toNat_lt
  rw [value] at small
  exact Nat.lt_irrefl _ small

/-- Records that spell names are dense, as many as there are names. -/
theorem Spells.dense_size (spells : Spells rs ns) (sound : ns.Sound) : Dense ns.size rs := by
  constructor
  · intro id mem
    exact spells.tells _ mem
  · intro id s s' mem mem'
    have known := spells.put_mem.mp mem
    rw [spells.put_mem.mp mem'] at known
    cases known
    rfl
  · intro i
    constructor
    · intro small
      have known := name?_ofNat sound.room small
      have value : (UInt32.ofNat i).toNat = i :=
        UInt32.toNat_ofNat_of_lt' (Nat.lt_of_lt_of_le small sound.room)
      exact ⟨_, _, spells.put_mem.mpr known, value⟩
    · rintro ⟨id, s, mem, rfl⟩
      exact lt_size_of_name? (spells.put_mem.mp mem)
  · intro id id' s mem mem'
    have first := (id?_eq_some sound).mpr (spells.put_mem.mp mem)
    have second := (id?_eq_some sound).mpr (spells.put_mem.mp mem')
    rw [first] at second
    cases second
    rfl

/-- Dense records spell some names. -/
theorem Dense.exists_names (dense : Dense n rs) :
    ∃ ns : Names, Spells rs ns ∧ ns.Sound ∧ ns.size = n := by
  have named : ∀ i, ∃ s, i < n → .put (UInt32.ofNat i) s ∈ rs := by
    intro i
    by_cases small : i < n
    · obtain ⟨id, s, mem, rfl⟩ := (dense.covers i).mp small
      rw [UInt32.ofNat_toNat]
      exact ⟨s, fun _ => mem⟩
    · exact ⟨"", fun small' => absurd small' small⟩
  obtain ⟨name, put⟩ := Classical.axiomOfChoice named
  let ns : Names := ⟨(List.range n).map name⟩
  have size : ns.size = n := by
    rw [Names.size, List.length_map, List.length_range]
  have room : ns.size ≤ capacity := size ▸ dense.le_capacity
  have known (id : PathId) (small : id.toNat < n) : ns.name? id = some (name id.toNat) := by
    rw [name?, List.getElem?_map, List.getElem?_range small]
    rfl
  have there (id : PathId) (small : id.toNat < n) : .put id (name id.toNat) ∈ rs := by
    have mem := put id.toNat small
    rwa [UInt32.ofNat_toNat] at mem
  have told : ns.ToldBy rs := by
    intro id s found
    have small : id.toNat < n := size ▸ lt_size_of_name? found
    rw [known id small] at found
    cases found
    exact there id small
  have tells : ∀ r ∈ rs, ns.Tells r := by
    intro r mem
    cases r with
    | remove id => exact absurd mem (dense.puts id)
    | put id s =>
      have small : id.toNat < n := (dense.covers _).mpr ⟨id, s, mem, rfl⟩
      rw [Tells, known id small, dense.single id _ _ (there id small) mem]
  have distinct : ns.toList.Nodup := by
    refine List.pairwise_map.mpr (List.nodup_range.imp_of_mem ?_)
    intro i j hi hj other same
    have small := List.mem_range.mp hi
    have small' := List.mem_range.mp hj
    have mem' := put j small'
    rw [← same] at mem'
    have ids := congrArg UInt32.toNat (dense.injective _ _ _ (put i small) mem')
    have le := dense.le_capacity
    rw [UInt32.toNat_ofNat_of_lt' (Nat.lt_of_lt_of_le small le),
      UInt32.toNat_ofNat_of_lt' (Nat.lt_of_lt_of_le small' le)] at ids
    exact other ids
  exact ⟨ns, spells_of_put room tells told, ⟨distinct, room⟩, size⟩

/-- Records are read as names exactly if they are dense. -/
theorem ofRecords_isOk_iff : (∃ ns, ofRecords rs = .ok ns) ↔ ∃ n, Dense n rs := by
  constructor
  · rintro ⟨ns, read⟩
    obtain ⟨spells, sound⟩ := ofRecords_eq_ok.mp read
    exact ⟨ns.size, spells.dense_size sound⟩
  · rintro ⟨n, dense⟩
    obtain ⟨ns, spells, sound, _⟩ := dense.exists_names
    exact ⟨ns, ofRecords_eq_ok.mpr ⟨spells, sound⟩⟩

theorem Spells.congr (spells : Spells rs ns) (same : ∀ r, r ∈ rs' ↔ r ∈ rs) : Spells rs' ns := by
  constructor
  · intro r mem
    exact spells.tells r ((same r).mp mem)
  · intro i small
    obtain ⟨r, mem, key⟩ := spells.dense i small
    exact ⟨r, (same r).mpr mem, key⟩

/-- Neither the order of the records matters nor how often one is there. -/
theorem ofRecords_congr (same : ∀ r, r ∈ rs' ↔ r ∈ rs) :
    (ofRecords rs').toOption = (ofRecords rs).toOption := by
  have read {ns : Names} : ofRecords rs' = .ok ns ↔ ofRecords rs = .ok ns := by
    rw [ofRecords_eq_ok, ofRecords_eq_ok]
    constructor
    · rintro ⟨spells, sound⟩
      exact ⟨spells.congr fun r => (same r).symm, sound⟩
    · rintro ⟨spells, sound⟩
      exact ⟨spells.congr same, sound⟩
  apply Option.ext
  intro ns
  rw [toOption_eq_some, toOption_eq_some, read]

end Names

namespace Index
variable {files : LogFiles} {cwd : Place} {d d' : Disk} {interval : Nat}
  {rs : List (Record PathId String)}

/-- What an index opens to is down to the records that its files hold. -/
theorem always_open_of_verdict (replayed : Log.verdict files format cwd d = .ok rs) :
    Always .none cwd (Index.open files interval) d fun r d' => d' = d ∧
      (r.toOption.map Index.names) = (Names.ofRecords rs).toOption ∧
        ∀ e, r = .error e → ∃ fault, e = .corrupted files.snapshot fault := by
  refine (always_verdict files interval).mono ?_
  rintro r d' ⟨rfl, gate, rfl⟩
  have read : verdict files cwd d' =
      (Names.ofRecords rs).mapError (.corrupted files.snapshot) := by
    rw [verdict, replayed]
    rfl
  rw [read]
  cases Names.ofRecords rs with
  | ok names =>
    refine ⟨rfl, rfl, ?_⟩
    intro e failed
    cases failed
  | error fault =>
    refine ⟨rfl, rfl, ?_⟩
    intro e failed
    cases failed
    exact ⟨fault, rfl⟩

/-- The index opens exactly if the records in its files are dense, and then its names are what they
say; files with the same records, in another order or repeated, come to the same. -/
theorem opens_iff_dense (replayed : Log.verdict files format cwd d = .ok rs)
    {r : Except StoreError Index} (opening : Runs .none cwd (Index.open files interval) d r d') :
    d' = d ∧ ((∃ index, r = .ok index) ↔ ∃ n, Names.Dense n rs) ∧
      (∀ e, r = .error e → ∃ fault, e = .corrupted files.snapshot fault) ∧
      (∀ index, r = .ok index → (∀ n, Names.Dense n rs ↔ n = index.names.size) ∧
        (∀ id s, index.names.name? id = some s ↔ .put id s ∈ rs) ∧
        ∀ id s, index.names.id? s = some id ↔ index.names.name? id = some s) ∧
      ∀ files' cwd' interval' rs' d₁ d₂ r', Log.verdict files' format cwd' d₁ = .ok rs' →
        (∀ rec, rec ∈ rs' ↔ rec ∈ rs) → Runs .none cwd' (Index.open files' interval') d₁ r' d₂ →
        r'.toOption.map Index.names = r.toOption.map Index.names := by
  obtain ⟨same, names, corrupted⟩ := always_open_of_verdict replayed r d' opening
  refine ⟨same, ?_, corrupted, ?_, ?_⟩
  · rw [← Names.ofRecords_isOk_iff]
    cases r with
    | ok index => exact iff_of_true ⟨index, rfl⟩ ⟨_, toOption_eq_some.mp names.symm⟩
    | error e =>
      refine iff_of_false nofun ?_
      rintro ⟨ns, read⟩
      rw [read] at names
      cases names
  · rintro index rfl
    have read : Names.ofRecords rs = .ok index.names := toOption_eq_some.mp names.symm
    obtain ⟨spells, sound⟩ := Names.ofRecords_eq_ok.mp read
    have dense := spells.dense_size sound
    refine ⟨fun n => ?_, fun id s => spells.put_mem.symm, fun id s => Names.id?_eq_some sound⟩
    constructor
    · intro other
      exact other.size_unique dense
    · rintro rfl
      exact dense
  · intro files' cwd' interval' rs' d₁ d₂ r' replayed' members opening'
    obtain ⟨_, names', _⟩ := always_open_of_verdict replayed' r' d₂ opening'
    rw [names, names', Names.ofRecords_congr members]

/-- An index in `cache`, with these pairs in its snapshot and these records in its journal. -/
def sampleDisk (pairs : Table PathId String) (records : List (Record PathId String)) : Disk where
  nodes := [(["cache"], .dir),
    (["cache", "filename_index.bin"], .file 0 (StoreFile.snapshot format pairs)),
    (["cache", "filename_index_journal.bin"], .file 1 (StoreFile.journal format records))]
  fresh := 2

/-- A journal that repeats a pair of the snapshot, and one that has everything twice. -/
theorem opens_iff_dense_sample : ∃ index r' d d',
    Runs .none [] (Index.open Layout.sample.indexFiles 0)
      (sampleDisk [(0, "a")] [.put 1 "b", .put 0 "a"]) (.ok index) d ∧
    Runs .none [] (Index.open Layout.sample.indexFiles 0)
      (sampleDisk [] [.put 1 "b", .put 0 "a", .put 0 "a", .put 1 "b"]) r' d' ∧
    index.names.size = 2 ∧ index.names.name? 1 = some "b" ∧ index.names.id? "b" = some 1 ∧
    r'.toOption.map Index.names = some index.names := by
  have replayed : Log.verdict Layout.sample.indexFiles format []
      (sampleDisk [(0, "a")] [.put 1 "b", .put 0 "a"]) =
      .ok [(.put 0 "a" : Record PathId String), .put 1 "b", .put 0 "a"] :=
    toOption_eq_some.mp (by decide +kernel)
  have replayed' : Log.verdict Layout.sample.indexFiles format []
      (sampleDisk [] [.put 1 "b", .put 0 "a", .put 0 "a", .put 1 "b"]) =
      .ok [(.put 1 "b" : Record PathId String), .put 0 "a", .put 0 "a", .put 1 "b"] :=
    toOption_eq_some.mp (by decide +kernel)
  obtain ⟨r, d, opening⟩ := exists_runs .none [] (Index.open Layout.sample.indexFiles 0)
    (sampleDisk [(0, "a")] [.put 1 "b", .put 0 "a"])
  obtain ⟨r', d', opening'⟩ := exists_runs .none [] (Index.open Layout.sample.indexFiles 0)
    (sampleDisk [] [.put 1 "b", .put 0 "a", .put 0 "a", .put 1 "b"])
  obtain ⟨_, opens, _, told, repeats⟩ := opens_iff_dense replayed opening
  have read : Names.ofRecords [.put 0 "a", .put 1 "b", .put 0 "a"] = .ok ⟨["a", "b"]⟩ :=
    toOption_eq_some.mp (by decide +kernel)
  obtain ⟨spells, sound⟩ := Names.ofRecords_eq_ok.mp read
  have dense := spells.dense_size sound
  obtain ⟨index, rfl⟩ := opens.mpr ⟨_, dense⟩
  obtain ⟨size, names, inverse⟩ := told index rfl
  have known : index.names.name? 1 = some "b" := (names 1 "b").mpr (by simp)
  have members : ∀ rec,
      rec ∈ [(.put 1 "b" : Record PathId String), .put 0 "a", .put 0 "a", .put 1 "b"] ↔
        rec ∈ [(.put 0 "a" : Record PathId String), .put 1 "b", .put 0 "a"] := by
    grind
  refine ⟨index, r', d, d', opening, opening', ((size 2).mp dense).symm, known,
    (inverse 1 "b").mpr known, ?_⟩
  exact repeats _ _ _ _ _ _ _ replayed' members opening'

end Index
end BuildCache
