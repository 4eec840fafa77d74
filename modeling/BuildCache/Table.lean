/-!
Finite tables as lists of pairs with distinct keys. The order of the list means nothing: it is up
to the host in which order a table is walked, and each operation is pinned by what it does to
`get?`.
-/
namespace BuildCache

abbrev Table (K V : Type) := List (K × V)

namespace Table
variable {K V : Type} [DecidableEq K]

def get? (t : Table K V) (k : K) : Option V :=
  (t.find? fun e => decide (e.1 = k)).map Prod.snd

/-- Puts `v` under `k`: in the place of an older value, else at the end. -/
def insert : Table K V → K → V → Table K V
  | [], k, v => [(k, v)]
  | e :: t, k, v => if e.1 = k then (k, v) :: t else e :: insert t k v

def erase (t : Table K V) (k : K) : Table K V :=
  t.filter fun e => decide (e.1 ≠ k)

omit [DecidableEq K] in
def keys (t : Table K V) : List K := t.map Prod.fst

def ofList (es : List (K × V)) : Table K V :=
  es.foldl (fun t e => t.insert e.1 e.2) []

@[simp] theorem get?_nil (k : K) : get? ([] : Table K V) k = none := rfl

theorem get?_cons (e : K × V) (t : Table K V) (k : K) :
    get? (e :: t) k = if e.1 = k then some e.2 else get? t k := by
  by_cases h : e.1 = k <;> simp [get?, List.find?, h]

theorem get?_insert (t : Table K V) (k k' : K) (v : V) :
    (t.insert k v).get? k' = if k = k' then some v else t.get? k' := by
  induction t with
  | nil => simp [insert, get?_cons]
  | cons e t ih =>
    by_cases h : e.1 = k
    · subst h
      by_cases h' : e.1 = k' <;> simp [insert, get?_cons, h']
    · by_cases h' : e.1 = k'
      · subst h'
        simp [insert, get?_cons, h, Ne.symm h]
      · simp [insert, get?_cons, h, h', ih]

theorem get?_erase (t : Table K V) (k k' : K) :
    (t.erase k).get? k' = if k = k' then none else t.get? k' := by
  induction t with
  | nil => simp [erase]
  | cons e t ih =>
    by_cases h : e.1 = k
    · have : erase (e :: t) k = erase t k := by simp [erase, h]
      rw [this, ih]
      subst h
      by_cases h' : e.1 = k' <;> simp [get?_cons, h']
    · have : erase (e :: t) k = e :: erase t k := by simp [erase, h]
      rw [this]
      by_cases h' : e.1 = k'
      · subst h'
        simp [get?_cons, Ne.symm h]
      · simp [get?_cons, h', ih]

theorem keys_insert (t : Table K V) (k : K) (v : V) :
    (t.insert k v).keys = if k ∈ t.keys then t.keys else t.keys ++ [k] := by
  induction t with
  | nil => simp [insert, keys]
  | cons e t ih =>
    by_cases h : e.1 = k
    · simp [insert, keys, h]
    · simp only [keys] at ih
      by_cases hm : k ∈ t.map Prod.fst <;> simp [insert, keys, h, Ne.symm h, ih, hm]

theorem nodup_keys_insert {t : Table K V} (h : t.keys.Nodup) (k : K) (v : V) :
    (t.insert k v).keys.Nodup := by
  rw [keys_insert]
  split
  · exact h
  · rename_i hk
    refine List.nodup_append.2 ⟨h, by simp, ?_⟩
    rintro a ha b hb rfl
    exact hk (List.mem_singleton.1 hb ▸ ha)

theorem nodup_keys_erase {t : Table K V} (h : t.keys.Nodup) (k : K) : (t.erase k).keys.Nodup :=
  h.sublist (List.filter_sublist.map _)

end Table
end BuildCache
