import BuildCache.DurableMap

/-!
What a sequence of mutations leaves of a table. Only the latest mutation of a key counts, so the
replay of records is read off key by key, and a batch of mutations with distinct keys may stand in
any order.
-/
namespace BuildCache

namespace Table
variable {K V : Type} [DecidableEq K] {t u : Table K V} {k : K} {v : V}

theorem mem_of_get? (h : t.get? k = some v) : (k, v) ∈ t := by
  induction t with
  | nil => cases h
  | cons e t ih =>
    rw [get?_cons] at h
    split at h
    · rename_i same
      cases h
      exact same ▸ List.mem_cons_self
    · exact List.mem_cons_of_mem e (ih h)

theorem get?_of_mem (distinct : t.keys.Nodup) (h : (k, v) ∈ t) : t.get? k = some v := by
  induction t with
  | nil => cases h
  | cons e t ih =>
    obtain ⟨first, rest⟩ := List.nodup_cons.mp distinct
    rw [get?_cons]
    rcases List.mem_cons.mp h with rfl | h
    · rw [if_pos rfl]
    · have other : e.1 ≠ k := fun same => first (same ▸ List.mem_map_of_mem h)
      rw [if_neg other, ih rest h]

theorem get?_eq_some (distinct : t.keys.Nodup) : t.get? k = some v ↔ (k, v) ∈ t :=
  ⟨mem_of_get?, get?_of_mem distinct⟩

theorem get?_perm (distinct : t.keys.Nodup) (perm : t.Perm u) (k : K) : t.get? k = u.get? k := by
  have distinct' : u.keys.Nodup := (perm.map Prod.fst).nodup distinct
  apply Option.ext
  intro v
  rw [get?_eq_some distinct, get?_eq_some distinct', perm.mem_iff]

omit [DecidableEq K] in
theorem nodup_of_keys (distinct : t.keys.Nodup) : t.Nodup :=
  (List.pairwise_map.mp distinct).imp fun other same => other (congrArg Prod.fst same)

/-- Tables that hold the same are lists of the same pairs. -/
theorem perm_of_get? (distinct : t.keys.Nodup) (distinct' : u.keys.Nodup)
    (same : ∀ k, t.get? k = u.get? k) : t.Perm u := by
  refine (List.perm_ext_iff_of_nodup (nodup_of_keys distinct) (nodup_of_keys distinct')).mpr ?_
  rintro ⟨k, v⟩
  rw [← get?_eq_some distinct, ← get?_eq_some distinct', same k]

/-- What holds of every pair holds still when one key is set anew or dropped. -/
theorem forall_mem_of_update {P : K × V → Prop} {v? : Option V} (distinct : u.keys.Nodup)
    (update : ∀ k', u.get? k' = if k = k' then v? else t.get? k')
    (new : ∀ v, v? = some v → P (k, v)) (each : ∀ e ∈ t, P e) : ∀ e ∈ u, P e := by
  rintro ⟨k', v⟩ mem
  have found := get?_of_mem distinct mem
  rw [update] at found
  split at found
  · rename_i same
    exact same ▸ new v found
  · exact each _ (mem_of_get? found)

theorem mem_keys : k ∈ t.keys ↔ (t.get? k).isSome := by
  induction t with
  | nil => simp [keys]
  | cons e t ih =>
    rw [get?_cons]
    simp only [keys, List.map_cons, List.mem_cons] at ih ⊢
    by_cases same : e.1 = k
    · simp [same]
    · simp [same, Ne.symm same, ih]

theorem get?_none_of_subset (sub : t ⊆ u) (nothing : u.get? k = none) : t.get? k = none := by
  refine Classical.byContradiction fun found => ?_
  have inside : k ∈ u.keys :=
    List.map_subset Prod.fst sub (mem_keys.mpr (Option.isSome_iff_ne_none.mpr found))
  rw [mem_keys, nothing] at inside
  cases inside

theorem mem_insert {e : K × V} (h : e ∈ t.insert k v) : e = (k, v) ∨ e ∈ t := by
  induction t with
  | nil => exact .inl (List.mem_singleton.mp h)
  | cons f t ih =>
    rw [insert] at h
    split at h
    · rcases List.mem_cons.mp h with rfl | h
      · exact .inl rfl
      · exact .inr (List.mem_cons_of_mem f h)
    · rcases List.mem_cons.mp h with rfl | h
      · exact .inr List.mem_cons_self
      · exact (ih h).imp_right (List.mem_cons_of_mem f)

theorem erase_of_get?_none (h : t.get? k = none) : t.erase k = t := by
  refine List.filter_eq_self.mpr fun e mem => ?_
  have : k ∉ t.keys := fun key => by
    rw [mem_keys, h] at key
    cases key
  exact decide_eq_true fun same => this (same ▸ List.mem_map_of_mem mem)

/-- Of the keys that are kept, the table says what it said. -/
theorem get?_filter_keys (t : Table K V) (keep : K → Bool) (k : K) :
    Table.get? (t.filter fun e => keep e.1) k = if keep k then t.get? k else none := by
  induction t with
  | nil => exact (ite_self none).symm
  | cons e t ih =>
    rw [List.filter_cons]
    by_cases kept : keep e.1
    · rw [if_pos kept, get?_cons, get?_cons, ih]
      by_cases same : e.1 = k
      · rw [if_pos same, if_pos same, if_pos (same ▸ kept)]
      · rw [if_neg same, if_neg same]
    · rw [if_neg kept, ih, get?_cons]
      by_cases same : e.1 = k
      · rw [if_neg (same ▸ kept), if_neg (same ▸ kept)]
      · rw [if_neg same]

end Table

namespace Record
variable {K V : Type}

@[simp] theorem key_of (k : K) (v? : Option V) : (of k v?).key = k := by cases v? <;> rfl

@[simp] theorem value?_of (k : K) (v? : Option V) : (of k v?).value? = v? := by cases v? <;> rfl

variable [DecidableEq K]

/-- What the latest of the mutations makes of a key, if one of them is about it. -/
def latest : List (Record K V) → K → Option (Option V)
  | [], _ => none
  | r :: rs, k => (latest rs k).or (if r.key = k then some r.value? else none)

theorem latest_append (rs ss : List (Record K V)) (k : K) :
    latest (rs ++ ss) k = (latest ss k).or (latest rs k) := by
  induction rs with
  | nil => simp [latest]
  | cons r rs ih => simp only [List.cons_append, latest, ih, Option.or_assoc]

theorem mem_of_latest {rs : List (Record K V)} {k : K} {v? : Option V}
    (h : latest rs k = some v?) : ∃ r ∈ rs, r.key = k ∧ r.value? = v? := by
  induction rs with
  | nil => cases h
  | cons r rs ih =>
    rw [latest, Option.or_eq_some_iff] at h
    rcases h with h | ⟨_, h⟩
    · obtain ⟨r', mem, found⟩ := ih h
      exact ⟨r', List.mem_cons_of_mem r mem, found⟩
    · split at h
      · cases h
        exact ⟨r, List.mem_cons_self, by assumption, rfl⟩
      · cases h

/-- A table of mutations is its own latest mutation of each key. -/
theorem latest_map_of {t : Table K (Option V)} (distinct : t.keys.Nodup) (k : K) :
    latest (t.map fun e => of e.1 e.2) k = t.get? k := by
  induction t with
  | nil => rfl
  | cons e t ih =>
    obtain ⟨first, rest⟩ := List.nodup_cons.mp distinct
    rw [List.map_cons, latest, ih rest, Table.get?_cons, key_of, value?_of]
    by_cases same : e.1 = k
    · have absent : Table.get? t k = none := by
        rw [← Option.not_isSome_iff_eq_none, ← Table.mem_keys, ← same]
        exact first
      rw [absent, if_pos same, Option.none_or]
    · rw [if_neg same, if_neg same, Option.or_none]

/-- The mutations that make a table from an empty one. -/
def puts (t : Table K V) : List (Record K V) := t.map fun e => put e.1 e.2

theorem latest_puts {t : Table K V} (distinct : t.keys.Nodup) (k : K) :
    latest (puts t) k = (t.get? k).map some := by
  induction t with
  | nil => rfl
  | cons e t ih =>
    obtain ⟨first, rest⟩ := List.nodup_cons.mp distinct
    have tail := ih rest
    unfold puts at tail ⊢
    rw [List.map_cons, latest, tail, Table.get?_cons]
    by_cases same : e.1 = k
    · have absent : Table.get? t k = none := by
        rw [← Option.not_isSome_iff_eq_none, ← Table.mem_keys, ← same]
        exact first
      rw [absent, if_pos same]
      simp [key, value?, same]
    · rw [if_neg same]
      simp [key, same]

end Record

namespace DurableMap
variable {K V : Type} [DecidableEq K]

theorem get?_apply (t : Table K V) (r : Record K V) (k : K) :
    (apply t r).get? k = if r.key = k then r.value? else t.get? k := by
  cases r with
  | put k' v => exact Table.get?_insert t k' k v
  | remove k' => exact Table.get?_erase t k' k

theorem get?_foldl_apply (rs : List (Record K V)) (t : Table K V) (k : K) :
    Table.get? (rs.foldl apply t) k = (Record.latest rs k).getD (t.get? k) := by
  induction rs generalizing t with
  | nil => rfl
  | cons r rs ih =>
    rw [List.foldl_cons, ih, get?_apply, Record.latest]
    cases Record.latest rs k with
    | some v? => rfl
    | none => by_cases same : r.key = k <;> simp [same]

theorem get?_replay (rs : List (Record K V)) (k : K) :
    (replay rs).get? k = (Record.latest rs k).join := by
  rw [replay, get?_foldl_apply]
  cases Record.latest rs k <;> rfl

theorem nodup_keys_apply {t : Table K V} (distinct : t.keys.Nodup) (r : Record K V) :
    (apply t r).keys.Nodup := by
  cases r with
  | put k v => exact Table.nodup_keys_insert distinct k v
  | remove k => exact Table.nodup_keys_erase distinct k

theorem nodup_keys_replay (rs : List (Record K V)) : (replay rs).keys.Nodup := by
  suffices general : ∀ t : Table K V, t.keys.Nodup → (Table.keys (rs.foldl apply t)).Nodup from
    general [] List.nodup_nil
  induction rs with
  | nil => exact fun t distinct => distinct
  | cons r rs ih => exact fun t distinct => ih _ (nodup_keys_apply distinct r)

/-- A value in the table that records leave was put by one of them. -/
theorem mem_of_get?_replay {rs : List (Record K V)} {k : K} {v : V}
    (h : (replay rs).get? k = some v) : Record.put k v ∈ rs := by
  rw [get?_replay, Option.join_eq_some_iff] at h
  obtain ⟨r, mem, key, value⟩ := Record.mem_of_latest h
  cases r with
  | put k' v' =>
    cases key
    cases value
    exact mem
  | remove k' => cases value

end DurableMap
end BuildCache
