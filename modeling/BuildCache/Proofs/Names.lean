import BuildCache.Names
import BuildCache.Proofs.Tables

/-!
Names and their identities. The identity of a name is its position, so names that only grew keep
all identities, and a dense set of index records determines its names up to the order and the
repetition of the records.
-/
namespace BuildCache

namespace Names

/-- Distinct names, and not more than there are identities. -/
structure Sound (ns : Names) : Prop where
  distinct : ns.toList.Nodup
  room : ns.size ≤ capacity

/-- The second names are the first ones, perhaps with others behind them. -/
def Prefix (ns ms : Names) : Prop := ns.toList <+: ms.toList

variable {ns ms ls : Names} {id : PathId} {s : String}

theorem sound_empty : empty.Sound := ⟨List.nodup_nil, Nat.zero_le _⟩

theorem Prefix.refl (ns : Names) : Prefix ns ns := List.prefix_refl _

theorem Prefix.trans (h : Prefix ns ms) (h' : Prefix ms ls) : Prefix ns ls :=
  List.IsPrefix.trans h h'

theorem empty_prefix (ns : Names) : Prefix empty ns := List.nil_prefix

theorem Prefix.size_le (h : Prefix ns ms) : ns.size ≤ ms.size := List.IsPrefix.length_le h

theorem Prefix.sound (h : Prefix ns ms) (sound : ms.Sound) : ns.Sound :=
  ⟨sound.distinct.sublist (List.IsPrefix.sublist h), Nat.le_trans h.size_le sound.room⟩

theorem Prefix.name? (h : Prefix ns ms) (known : ns.name? id = some s) : ms.name? id = some s := by
  obtain ⟨more, whole⟩ := h
  rw [Names.name?] at known ⊢
  rw [← whole, List.getElem?_append_left]
  · exact known
  · exact (List.getElem?_eq_some_iff.mp known).1

/-- Dense names that the second names agree with are their first ones. -/
theorem prefix_of_name? (room : ns.size ≤ capacity)
    (agree : ∀ id s, ns.name? id = some s → ms.name? id = some s) : Prefix ns ms := by
  have pointwise : ∀ i : Nat, i < ns.toList.length → ms.toList[i]? = ns.toList[i]? := by
    intro i hi
    have small : i < UInt32.size := Nat.lt_of_lt_of_le hi room
    have value : (UInt32.ofNat i).toNat = i := UInt32.toNat_ofNat_of_lt' small
    have found := agree (UInt32.ofNat i) ns.toList[i] (by
      rw [Names.name?, value]
      exact List.getElem?_eq_getElem hi)
    rw [Names.name?, value] at found
    rw [found, List.getElem?_eq_getElem hi]
  exact List.prefix_iff_getElem?.mpr fun i hi => by
    rw [pointwise i hi, List.getElem?_eq_getElem hi]

theorem lt_size_of_name? (h : ns.name? id = some s) : id.toNat < ns.size :=
  (List.getElem?_eq_some_iff.mp h).1

theorem id?_eq_some (sound : ns.Sound) : ns.id? s = some id ↔ ns.name? id = some s := by
  rw [id?, name?, Option.map_eq_some_iff]
  constructor
  · rintro ⟨i, found, rfl⟩
    obtain ⟨hi, here, _⟩ := List.findIdx?_eq_some_iff_getElem.mp found
    rw [UInt32.toNat_ofNat_of_lt' (Nat.lt_of_lt_of_le hi sound.room), List.getElem?_eq_getElem hi,
      eq_of_beq here]
  · intro found
    obtain ⟨hi, here⟩ := List.getElem?_eq_some_iff.mp found
    refine ⟨id.toNat, List.findIdx?_eq_some_iff_getElem.mpr ⟨hi, by simp [here], ?_⟩,
      UInt32.ofNat_toNat⟩
    intro j hj same
    have first : ns.toList[j] = ns.toList[id.toNat] := (eq_of_beq same).trans here.symm
    have := (List.getElem_inj sound.distinct).mp first
    omega

theorem id?_eq_none : ns.id? s = none ↔ s ∉ ns.toList := by
  rw [id?, Option.map_eq_none_iff, List.idxOf?_eq_none_iff]

/-- Giving a name its identity adds at most that name. -/
theorem intern_cases (ns : Names) (s : String) :
    (∃ id, ns.id? s = some id ∧ ns.intern s = (.ok id, ns)) ∨
    (s ∉ ns.toList ∧ ns.size < capacity ∧
      ns.intern s = (.ok (UInt32.ofNat ns.size), ⟨ns.toList ++ [s]⟩)) ∨
    (s ∉ ns.toList ∧ ns.size = capacity ∨ capacity < ns.size) ∧
      ns.intern s = (.error (.idsExhausted s), ns) := by
  unfold intern
  cases known : ns.id? s with
  | some id => exact .inl ⟨id, rfl, rfl⟩
  | none =>
    have new := id?_eq_none.mp known
    by_cases room : ns.size < capacity
    · exact .inr (.inl ⟨new, room, if_pos room⟩)
    · have full : s ∉ ns.toList ∧ ns.size = capacity ∨ capacity < ns.size := by
        by_cases excess : capacity < ns.size
        · exact .inr excess
        · exact .inl ⟨new, by omega⟩
      exact .inr (.inr ⟨full, if_neg room⟩)

theorem prefix_intern (ns : Names) (s : String) : Prefix ns (ns.intern s).2 := by
  rcases intern_cases ns s with ⟨id, _, eq⟩ | ⟨_, _, eq⟩ | ⟨_, eq⟩
  · rw [eq]
    exact Prefix.refl ns
  · rw [eq]
    exact List.prefix_append ..
  · rw [eq]
    exact Prefix.refl ns

theorem Sound.intern (sound : ns.Sound) (s : String) : (ns.intern s).2.Sound := by
  rcases intern_cases ns s with ⟨id, _, eq⟩ | ⟨new, room, eq⟩ | ⟨_, eq⟩
  · rw [eq]
    exact sound
  · rw [eq]
    refine ⟨List.nodup_append.mpr ⟨sound.distinct, by simp, ?_⟩, ?_⟩
    · rintro a ha b hb rfl
      exact new (List.mem_singleton.mp hb ▸ ha)
    · rw [size, List.length_append]
      exact room
  · rw [eq]
    exact sound

theorem name?_intern (sound : ns.Sound) (h : (ns.intern s).1 = .ok id) :
    (ns.intern s).2.name? id = some s := by
  rcases intern_cases ns s with ⟨id', known, eq⟩ | ⟨_, room, eq⟩ | ⟨_, eq⟩
  · rw [eq] at h ⊢
    cases h
    exact (id?_eq_some sound).mp known
  · rw [eq] at h ⊢
    cases h
    rw [name?, UInt32.toNat_ofNat_of_lt' room]
    simp [size]
  · rw [eq] at h
    cases h

theorem intern_of_name? (sound : ns.Sound) (known : ns.name? id = some s) :
    ns.intern s = (.ok id, ns) := by
  rw [intern, (id?_eq_some sound).mpr known]

theorem mappings_eq (ns : Names) : ns.mappings = ns.mappingsFrom 0 := by
  simp [mappings, mappingsFrom]

theorem mem_mappingsFrom (room : ns.size ≤ capacity) (start : Nat) :
    (id, s) ∈ ns.mappingsFrom start ↔ start ≤ id.toNat ∧ ns.name? id = some s := by
  rw [mappingsFrom, List.mem_mapIdx]
  constructor
  · rintro ⟨i, hi, eq⟩
    rw [List.length_drop] at hi
    have small : start + i < UInt32.size := by
      have : ns.toList.length ≤ UInt32.size := room
      omega
    cases eq
    rw [name?, UInt32.toNat_ofNat_of_lt' small]
    have inside : start + i < ns.toList.length := by omega
    exact ⟨by omega, by simp [List.getElem?_eq_getElem inside]⟩
  · rintro ⟨above, found⟩
    obtain ⟨hi, here⟩ := List.getElem?_eq_some_iff.mp found
    refine ⟨id.toNat - start, by rw [List.length_drop]; omega, ?_⟩
    simp [show start + (id.toNat - start) = id.toNat by omega, here]

theorem pairwise_mappingsFrom (room : ns.size ≤ capacity) (start : Nat) :
    (ns.mappingsFrom start).Pairwise fun a b => a.1.toNat < b.1.toNat := by
  rw [mappingsFrom, List.pairwise_iff_getElem]
  intro i j hi hj lt
  simp only [List.length_mapIdx, List.length_drop] at hi hj
  have : ns.toList.length ≤ UInt32.size := room
  simp only [List.getElem_mapIdx]
  rw [UInt32.toNat_ofNat_of_lt' (show start + i < UInt32.size by omega),
    UInt32.toNat_ofNat_of_lt' (show start + j < UInt32.size by omega)]
  omega

theorem nodup_mappingsFrom (room : ns.size ≤ capacity) (start : Nat) :
    (ns.mappingsFrom start).Nodup :=
  (pairwise_mappingsFrom room start).imp fun lt eq => by
    rw [eq] at lt
    exact Nat.lt_irrefl _ lt

/-- The record says what the names say. -/
def Tells (ns : Names) : Record PathId String → Prop
  | .put id s => ns.name? id = some s
  | .remove _ => False

theorem Tells.of_front (h : Prefix ns ms) {r : Record PathId String} (tells : ns.Tells r) :
    ms.Tells r := by
  cases r with
  | put id s => exact h.name? tells
  | remove id => exact tells

/-- The records say what the names say and leave no identity out. -/
structure Spells (rs : List (Record PathId String)) (ns : Names) : Prop where
  tells : ∀ r ∈ rs, ns.Tells r
  dense : ∀ i < ns.size, ∃ r ∈ rs, r.key.toNat = i

theorem spells_nil : Spells [] .empty where
  tells _ mem := absurd mem List.not_mem_nil
  dense i small := absurd small (Nat.not_lt_zero i)

theorem learn_eq_ok {known known' : Table PathId String} {r : Record PathId String} :
    learn known r = .ok known' ↔ ∃ id s, r = .put id s ∧
      (known.get? id = some s ∧ known' = known ∨
        known.get? id = none ∧ known' = known.insert id s) := by
  constructor
  · intro h
    cases r with
    | remove id => cases h
    | put id s =>
      refine ⟨id, s, rfl, ?_⟩
      rw [learn] at h
      split at h
      · cases h
        exact .inr ⟨by assumption, rfl⟩
      · split at h
        · rename_i same
          cases h
          exact .inl ⟨by rw [← same]; assumption, rfl⟩
        · cases h
  · rintro ⟨id, s, rfl, ⟨old, rfl⟩ | ⟨new, rfl⟩⟩
    · simp [learn, old]
    · simp [learn, new]

theorem foldlM_learn_cons (known : Table PathId String) (r : Record PathId String)
    (rs : List (Record PathId String)) :
    (r :: rs).foldlM learn known = learn known r >>= fun next => rs.foldlM learn next := rfl

/-- What has been learned is what was known before and what the records put. -/
theorem of_foldlM_learn {rs : List (Record PathId String)} {known known' : Table PathId String}
    (h : rs.foldlM learn known = .ok known') (distinct : known.keys.Nodup) :
    known'.keys.Nodup ∧ (∀ r ∈ rs, ∃ id s, r = .put id s) ∧
      ∀ id s, known'.get? id = some s ↔ known.get? id = some s ∨ .put id s ∈ rs := by
  induction rs generalizing known with
  | nil =>
    cases h
    exact ⟨distinct, nofun, fun id s => by simp⟩
  | cons r rs ih =>
    rw [foldlM_learn_cons] at h
    cases step : learn known r with
    | error e => rw [step] at h; cases h
    | ok next =>
      rw [step] at h
      obtain ⟨id, s, rfl, ⟨old, rfl⟩ | ⟨new, rfl⟩⟩ := learn_eq_ok.mp step
      · obtain ⟨nodup, shape, agree⟩ := ih h distinct
        refine ⟨nodup, ?_, fun id' s' => ?_⟩
        · rintro r (_ | ⟨_, mem⟩)
          · exact ⟨id, s, rfl⟩
          · exact shape r mem
        · rw [agree, List.mem_cons]
          constructor
          · rintro (known' | mem)
            · exact .inl known'
            · exact .inr (.inr mem)
          · rintro (known' | eq | mem)
            · exact .inl known'
            · cases eq
              exact .inl old
            · exact .inr mem
      · obtain ⟨nodup, shape, agree⟩ := ih h (Table.nodup_keys_insert distinct id s)
        refine ⟨nodup, ?_, fun id' s' => ?_⟩
        · rintro r (_ | ⟨_, mem⟩)
          · exact ⟨id, s, rfl⟩
          · exact shape r mem
        · rw [agree, List.mem_cons, Table.get?_insert]
          by_cases same : id = id'
          · subst same
            simp [new, eq_comm]
          · simp [same, Ne.symm same]

/-- Records that agree with the same names are never in conflict. -/
theorem foldlM_learn_of_tells {rs : List (Record PathId String)} {known : Table PathId String}
    (tells : ∀ r ∈ rs, ns.Tells r) (agree : ∀ id s, known.get? id = some s → ns.name? id = some s) :
    ∃ known', rs.foldlM learn known = .ok known' := by
  induction rs generalizing known with
  | nil => exact ⟨known, rfl⟩
  | cons r rs ih =>
    rw [foldlM_learn_cons]
    have first := tells r List.mem_cons_self
    have rest : ∀ r ∈ rs, ns.Tells r := fun r mem => tells r (List.mem_cons_of_mem _ mem)
    cases r with
    | remove id => exact first.elim
    | put id s =>
      cases old : known.get? id with
      | none =>
        have step := learn_eq_ok.mpr ⟨id, s, rfl, .inr ⟨old, rfl⟩⟩
        rw [step]
        refine ih rest fun id' s' found => ?_
        rw [Table.get?_insert] at found
        split at found
        · rename_i same
          cases found
          exact same ▸ first
        · exact agree id' s' found
      | some s' =>
        have same : s' = s := Option.some.inj ((agree id s' old).symm.trans first)
        have step := learn_eq_ok.mpr ⟨id, s, rfl, .inl ⟨same ▸ old, rfl⟩⟩
        rw [step]
        exact ih rest agree

/-- Pairs are added if their identities are the next ones and no name comes twice. -/
theorem extend_eq_ok {pairs : List (PathId × String)} (distinct : ns.toList.Nodup) :
    ns.extend pairs = .ok ms ↔ pairs.map (·.1.toNat) = List.range' ns.size pairs.length ∧
      ms.toList = ns.toList ++ pairs.map (·.2) ∧ ms.toList.Nodup := by
  induction pairs generalizing ns with
  | nil =>
    cases ms
    cases ns
    simp only [extend, Except.ok.injEq, List.map_nil, List.append_nil]
    constructor
    · intro same
      cases same
      exact ⟨rfl, rfl, distinct⟩
    · rintro ⟨_, rfl, _⟩
      rfl
  | cons e pairs ih =>
    obtain ⟨id, s⟩ := e
    simp only [List.map_cons, List.length_cons, List.range'_succ, List.cons.injEq]
    rw [extend]
    by_cases gap : id.toNat = ns.size
    · rw [if_neg (not_not_intro gap)]
      cases known : ns.id? s with
      | some first =>
        have present : s ∈ ns.toList := by
          by_cases mem : s ∈ ns.toList
          · exact mem
          · rw [id?_eq_none.mpr mem] at known
            cases known
        constructor
        · intro h
          cases h
        · rintro ⟨_, whole, nodup⟩
          rw [whole, List.nodup_append] at nodup
          exact absurd rfl (nodup.2.2 s present s List.mem_cons_self)
      | none =>
        have new := id?_eq_none.mp known
        have distinct' : (ns.toList ++ [s]).Nodup := by
          refine List.nodup_append.mpr ⟨distinct, by simp, ?_⟩
          rintro a ha b hb rfl
          exact new (List.mem_singleton.mp hb ▸ ha)
        have rest : extend ⟨ns.toList ++ [s]⟩ pairs = .ok ms ↔ _ := ih distinct'
        simp only [size, List.length_append, List.length_cons, List.length_nil, List.append_assoc,
          List.cons_append, List.nil_append] at rest ⊢
        rw [rest]
        simp only [size] at gap
        simp [gap]
    · rw [if_pos gap]
      simp [gap]

theorem Spells.put_mem {rs : List (Record PathId String)} (h : Spells rs ns) :
    .put id s ∈ rs ↔ ns.name? id = some s := by
  constructor
  · exact fun mem => h.tells _ mem
  · intro found
    obtain ⟨r, mem, key⟩ := h.dense id.toNat (lt_size_of_name? found)
    have tells := h.tells r mem
    cases r with
    | remove id' => exact tells.elim
    | put id' s' =>
      have same : id' = id := UInt32.toNat_inj.mp key
      subst same
      rw [Tells, found] at tells
      cases tells
      exact mem

/-- Each of the names is put by one of the records. -/
def ToldBy (ns : Names) (rs : List (Record PathId String)) : Prop :=
  ∀ id s, ns.name? id = some s → .put id s ∈ rs

theorem toldBy_empty (rs : List (Record PathId String)) : empty.ToldBy rs := nofun

theorem Spells.toldBy {rs : List (Record PathId String)} (spells : Spells rs ns) : ns.ToldBy rs :=
  fun _ _ known => spells.put_mem.mpr known

theorem ToldBy.mono {rs ss : List (Record PathId String)} (told : ns.ToldBy rs) (sub : rs ⊆ ss) :
    ns.ToldBy ss :=
  fun id s known => sub (told id s known)

theorem ToldBy.of_front {rs : List (Record PathId String)} (told : ms.ToldBy rs)
    (front : ns.Prefix ms) : ns.ToldBy rs :=
  fun id s known => told id s (front.name? known)

/-- Names that were told are the first ones of whatever the records spell. -/
theorem ToldBy.prefix_ {rs : List (Record PathId String)} (told : ns.ToldBy rs) (sound : ns.Sound)
    (spells : Spells rs ms) : ns.Prefix ms :=
  prefix_of_name? sound.room fun id s known => spells.put_mem.mp (told id s known)

theorem name?_ofNat (room : ns.size ≤ capacity) {i : Nat} (hi : i < ns.toList.length) :
    ns.name? (UInt32.ofNat i) = some ns.toList[i] := by
  have small : i < UInt32.size := Nat.lt_of_lt_of_le hi room
  rw [name?, UInt32.toNat_ofNat_of_lt' small]
  exact List.getElem?_eq_getElem hi

/-- True records spell the names as soon as each name is put. -/
theorem spells_of_put {rs : List (Record PathId String)} (room : ns.size ≤ capacity)
    (tells : ∀ r ∈ rs, ns.Tells r) (told : ns.ToldBy rs) : Spells rs ns where
  tells := tells
  dense i hi := by
    have small : i < UInt32.size := Nat.lt_of_lt_of_le hi room
    exact ⟨_, told _ _ (name?_ofNat room hi), UInt32.toNat_ofNat_of_lt' small⟩

theorem toNat_getElem {pairs : List (PathId × String)}
    (ids : pairs.map (·.1.toNat) = List.range' 0 pairs.length) (i : Nat) (hi : i < pairs.length) :
    pairs[i].1.toNat = i := by
  have here := List.getElem_of_eq ids (i := i) (by simpa using hi)
  rw [List.getElem_map] at here
  simp [here]

theorem name?_iff_mem {pairs : List (PathId × String)}
    (ids : pairs.map (·.1.toNat) = List.range' 0 pairs.length)
    (whole : ns.toList = pairs.map (·.2)) : ns.name? id = some s ↔ (id, s) ∈ pairs := by
  rw [name?, whole, List.getElem?_map, Option.map_eq_some_iff]
  constructor
  · rintro ⟨e, found, rfl⟩
    obtain ⟨hi, rfl⟩ := List.getElem?_eq_some_iff.mp found
    have same : pairs[id.toNat].1 = id := UInt32.toNat_inj.mp (toNat_getElem ids _ hi)
    have mem := List.getElem_mem hi
    rw [← Prod.eta pairs[id.toNat], same] at mem
    exact mem
  · intro mem
    obtain ⟨i, hi, here⟩ := List.getElem_of_mem mem
    have := toNat_getElem ids i hi
    rw [here] at this
    exact ⟨(id, s), by rw [this, List.getElem?_eq_getElem hi, here], rfl⟩

theorem map_fst_mappings (room : ns.size ≤ capacity) :
    ns.mappings.map (·.1.toNat) = List.range' 0 ns.size := by
  apply List.ext_getElem
  · simp [mappings, size]
  · intro i hi _
    simp only [mappings, List.length_map, List.length_mapIdx] at hi
    simp [mappings, UInt32.toNat_ofNat_of_lt' (Nat.lt_of_lt_of_le hi room)]

theorem map_snd_mappings (ns : Names) : ns.mappings.map (·.2) = ns.toList := by
  apply List.ext_getElem <;> simp [mappings]

theorem perm_insertById (e : PathId × String) (es : List (PathId × String)) :
    (insertById e es).Perm (e :: es) := by
  induction es with
  | nil => exact .refl _
  | cons a as ih =>
    rw [insertById]
    split
    · exact .refl _
    · exact (ih.cons a).trans (.swap e a as)

theorem perm_sortById (es : List (PathId × String)) : (sortById es).Perm es := by
  induction es with
  | nil => exact .refl _
  | cons e es ih => exact (perm_insertById e _).trans (ih.cons e)

theorem pairwise_insertById (e : PathId × String) {es : List (PathId × String)}
    (sorted : es.Pairwise fun a b => a.1 ≤ b.1) :
    (insertById e es).Pairwise fun a b => a.1 ≤ b.1 := by
  induction es with
  | nil => exact List.pairwise_singleton ..
  | cons a as ih =>
    obtain ⟨first, rest⟩ := List.pairwise_cons.mp sorted
    rw [insertById]
    split
    · rename_i le
      refine List.pairwise_cons.mpr ⟨fun b mem => ?_, sorted⟩
      rcases List.mem_cons.mp mem with rfl | mem
      · exact le
      · exact UInt32.le_trans le (first b mem)
    · rename_i above
      refine List.pairwise_cons.mpr ⟨fun b mem => ?_, ih rest⟩
      rcases List.mem_cons.mp ((perm_insertById e as).mem_iff.mp mem) with rfl | mem
      · simp only [UInt32.le_iff_toNat_le] at *
        omega
      · exact first b mem

theorem pairwise_sortById (es : List (PathId × String)) :
    (sortById es).Pairwise fun a b => a.1 ≤ b.1 := by
  induction es with
  | nil => exact .nil
  | cons e es ih => exact pairwise_insertById e ih

/-- What was learned from records that spell names is their mappings, once it is sorted. -/
theorem sortById_eq_mappings {rs : List (Record PathId String)} {known : Table PathId String}
    (room : ns.size ≤ capacity) (spells : Spells rs ns) (distinct : known.keys.Nodup)
    (agree : ∀ id s, known.get? id = some s ↔ .put id s ∈ rs) :
    sortById known = ns.mappings := by
  have perm : known.Perm ns.mappings := by
    rw [mappings_eq]
    refine (List.perm_ext_iff_of_nodup (Table.nodup_of_keys distinct)
      (nodup_mappingsFrom room 0)).mpr ?_
    rintro ⟨id, s⟩
    rw [← Table.get?_eq_some distinct, agree, spells.put_mem, mem_mappingsFrom room]
    simp
  have ascending : ns.mappings.Pairwise fun a b => a.1 ≤ b.1 := by
    rw [mappings_eq]
    refine (pairwise_mappingsFrom room 0).imp fun lt => ?_
    rw [UInt32.le_iff_toNat_le]
    omega
  have perm' := (perm_sortById known).trans perm
  refine List.Perm.eq_of_pairwise ?_ (pairwise_sortById known) ascending perm'
  rintro ⟨id, s⟩ ⟨id', s'⟩ ha hb ab ba
  simp only [UInt32.le_iff_toNat_le] at ab ba
  have same : id = id' := UInt32.toNat_inj.mp (by omega)
  subst same
  have here := perm'.mem_iff.mp ha
  rw [mappings_eq, mem_mappingsFrom room] at here hb
  rw [Option.some.inj (here.2.symm.trans hb.2)]

/-- Index records are read as names exactly if they spell these. -/
theorem ofRecords_eq_ok {rs : List (Record PathId String)} :
    ofRecords rs = .ok ns ↔ Spells rs ns ∧ ns.Sound := by
  constructor
  · intro h
    rw [ofRecords] at h
    cases learned : rs.foldlM learn [] with
    | error e => rw [learned] at h; cases h
    | ok known =>
      rw [learned] at h
      obtain ⟨distinct, shape, agree⟩ := of_foldlM_learn learned List.nodup_nil
      change empty.extend (sortById known) = .ok ns at h
      obtain ⟨ids, whole, nodup⟩ := (extend_eq_ok List.nodup_nil).mp h
      change _ = List.range' 0 _ at ids
      have member (id : PathId) (s : String) :
          (id, s) ∈ sortById known ↔ .put id s ∈ rs := by
        rw [(perm_sortById known).mem_iff, ← Table.get?_eq_some distinct, agree]
        simp
      have counted : ns.size = (sortById known).length := by
        rw [size, whole]
        exact List.length_map ..
      refine ⟨⟨?_, ?_⟩, nodup, ?_⟩
      · intro r mem
        obtain ⟨id, s, rfl⟩ := shape r mem
        exact (name?_iff_mem ids whole).mpr ((member id s).mpr mem)
      · intro i hi
        rw [counted] at hi
        exact ⟨_, (member _ _).mp (List.getElem_mem hi), toNat_getElem ids i hi⟩
      · refine Nat.le_of_not_lt fun excess => ?_
        rw [counted] at excess
        have value := toNat_getElem ids capacity excess
        have := UInt32.toNat_lt (sortById known)[capacity].1
        rw [value] at this
        exact Nat.lt_irrefl _ this
  · rintro ⟨spells, sound⟩
    have nothing : ∀ id s, Table.get? ([] : Table PathId String) id = some s →
        ns.name? id = some s := fun id s found => by cases found
    obtain ⟨known, learned⟩ := foldlM_learn_of_tells spells.tells nothing
    obtain ⟨distinct, _, agree⟩ := of_foldlM_learn learned List.nodup_nil
    have sorted := sortById_eq_mappings sound.room spells distinct fun id s => by simp [agree]
    have extended : empty.extend ns.mappings = .ok ns := by
      refine (extend_eq_ok List.nodup_nil).mpr ⟨?_, ?_, sound.distinct⟩
      · rw [map_fst_mappings sound.room]
        simp [mappings, size]
      · rw [map_snd_mappings]
        rfl
    rw [ofRecords, learned]
    exact (congrArg empty.extend sorted).trans extended

end Names
end BuildCache
