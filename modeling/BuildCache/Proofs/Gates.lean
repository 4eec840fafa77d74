import BuildCache.Clock

/-!
When a gate fires: at the first reading that is an interval behind its latest firing, or behind its
start, and at no other. A gate that has fired goes on as one that is started then, so that nothing
but the latest firing has a say in the next one, and no drift can build up.

Readings are words of 64 bits. A due time beyond them counts as the greatest one, and so does an
interval.
-/
namespace BuildCache
namespace Gate

/-- Asks at each of the readings, and notes them with the answers. -/
def calls (g : Gate) : List Nat → List (Nat × Bool)
  | [] => []
  | now :: later => (now, (g.tryFire now).1) :: (g.tryFire now).2.calls later

/-- The readings at which the gate fired. -/
def firings (calls : List (Nat × Bool)) : List Nat := (calls.filter Prod.snd).map Prod.fst

/-- The reading of the latest firing; that of the start, if there was none. -/
def latest (base : Nat) (calls : List (Nat × Bool)) : Nat := (firings calls).getLast?.getD base

variable {interval base now t : Nat} {readings : List Nat} {fired : Bool}
  {earlier later : List (Nat × Bool)}

theorem after_eq (interval base : Nat) :
    after interval base = min maxTick (base + min interval maxTick) := by
  unfold after
  omega

/-- A gate that fires is as good as one that is started then; one that does not stays as it is. -/
theorem tryFire_start (interval base now : Nat) : (start interval base).tryFire now =
    if after interval base ≤ now then (true, start interval now)
    else (false, start interval base) := by
  by_cases due : after interval base ≤ now
  · rw [if_pos due]
    exact if_neg (Nat.not_lt.mpr due)
  · rw [if_neg due]
    exact if_pos (Nat.lt_of_not_le due)

theorem calls_start (interval base now : Nat) (readings : List Nat) :
    (start interval base).calls (now :: readings) =
      if after interval base ≤ now then (now, true) :: (start interval now).calls readings
      else (now, false) :: (start interval base).calls readings := by
  rw [calls, tryFire_start]
  split <;> rfl

theorem map_calls (g : Gate) (readings : List Nat) :
    (g.calls readings).map Prod.fst = readings := by
  induction readings generalizing g with
  | nil => rfl
  | cons now readings ih => rw [calls, List.map_cons, ih]

theorem mem_of_mem_firings {g : Gate} (fires : t ∈ firings (g.calls readings)) : t ∈ readings := by
  rw [← map_calls g readings]
  exact (List.filter_sublist.map Prod.fst).subset fires

theorem firings_cons (now : Nat) (fired : Bool) (calls : List (Nat × Bool)) :
    firings ((now, fired) :: calls) = if fired then now :: firings calls else firings calls := by
  cases fired <;> rfl

theorem latest_cons (base now : Nat) (fired : Bool) (calls : List (Nat × Bool)) :
    latest base ((now, fired) :: calls) = latest (if fired then now else base) calls := by
  unfold latest
  rw [firings_cons]
  cases fired with
  | false => rfl
  | true => simp [List.getLast?_cons]

/-- Each call fires if it is an interval behind the latest firing before it. -/
theorem fired_iff (split : (start interval base).calls readings = earlier ++ (t, fired) :: later) :
    fired = true ↔ after interval (latest base earlier) ≤ t := by
  induction readings generalizing base earlier with
  | nil => cases earlier <;> cases split
  | cons now readings ih =>
    rw [calls_start] at split
    by_cases due : after interval base ≤ now
    · rw [if_pos due] at split
      cases earlier with
      | nil =>
        cases split
        exact iff_of_true rfl due
      | cons call earlier =>
        obtain ⟨rfl, rest⟩ := List.cons.inj split
        rw [latest_cons]
        exact ih rest
    · rw [if_neg due] at split
      cases earlier with
      | nil =>
        cases split
        exact iff_of_false Bool.false_ne_true due
      | cons call earlier =>
        obtain ⟨rfl, rest⟩ := List.cons.inj split
        rw [latest_cons]
        exact ih rest

/-- Firings are an interval behind the start. -/
theorem le_of_mem_firings (ordered : readings.Pairwise (· ≤ ·))
    (fires : t ∈ firings ((start interval base).calls readings)) : after interval base ≤ t := by
  induction readings generalizing base with
  | nil => cases fires
  | cons now readings ih =>
    obtain ⟨first, rest⟩ := List.pairwise_cons.mp ordered
    rw [calls_start] at fires
    by_cases due : after interval base ≤ now
    · rw [if_pos due, firings_cons, if_pos rfl] at fires
      rcases List.mem_cons.mp fires with rfl | behind
      · exact due
      · exact Nat.le_trans due (first t (mem_of_mem_firings behind))
    · rw [if_neg due, firings_cons, if_neg Bool.false_ne_true] at fires
      exact ih rest fires

/-- Of any two firings the later one is an interval behind the other. -/
theorem pairwise_firings (ordered : readings.Pairwise (· ≤ ·)) :
    (base :: firings ((start interval base).calls readings)).Pairwise
      fun b t => after interval b ≤ t := by
  induction readings generalizing base with
  | nil => exact List.pairwise_singleton _ base
  | cons now readings ih =>
    have behind : ∀ t ∈ firings ((start interval base).calls (now :: readings)),
        after interval base ≤ t := fun _ => le_of_mem_firings ordered
    refine List.pairwise_cons.mpr ⟨behind, ?_⟩
    obtain ⟨first, rest⟩ := List.pairwise_cons.mp ordered
    rw [calls_start]
    by_cases due : after interval base ≤ now
    · rw [if_pos due]
      exact ih rest
    · rw [if_neg due]
      have later : (base :: firings ((start interval base).calls readings)).Pairwise
          fun b t => after interval b ≤ t := ih rest
      exact (List.pairwise_cons.mp later).2

/-- With no interval to wait for, every reading is late enough. -/
theorem fired_of_zero (ordered : (base :: readings).Pairwise (· ≤ ·)) :
    ∀ call ∈ (start 0 base).calls readings, call.2 = true := by
  induction readings generalizing base with
  | nil => exact fun _ mem => absurd mem List.not_mem_nil
  | cons now readings ih =>
    obtain ⟨first, rest⟩ := List.pairwise_cons.mp ordered
    have due : after 0 base ≤ now := Nat.le_trans (Nat.min_le_left ..) (first now List.mem_cons_self)
    rw [calls_start, if_pos due]
    exact List.forall_mem_cons.mpr ⟨rfl, ih rest⟩

/-- The gate has fired whenever it was due, and only then. -/
structure Greedy (interval base : Nat) (calls : List (Nat × Bool)) : Prop where
  fires : ∀ earlier t fired later, calls = earlier ++ (t, fired) :: later →
    (fired = true ↔ min maxTick (latest base earlier + min interval maxTick) ≤ t)
  /-- Below the greatest reading this is no more and no less than the interval. -/
  prompt : ∀ earlier t fired later, calls = earlier ++ (t, fired) :: later →
    latest base earlier + min interval maxTick ≤ maxTick →
      (fired = true ↔ latest base earlier + min interval maxTick ≤ t)
  spaced : (base :: firings calls).Pairwise fun b t =>
    b + min interval maxTick ≤ maxTick → b + min interval maxTick ≤ t
  open_ : interval = 0 → ∀ call ∈ calls, call.2 = true

/-- Asked at readings that do not go back, a gate is greedy from its start on. -/
theorem greedy_of_calls (interval base : Nat) (readings : List Nat)
    (ordered : (base :: readings).Pairwise (· ≤ ·)) :
    ((start interval base).calls readings).map Prod.fst = readings ∧
      Greedy interval base ((start interval base).calls readings) := by
  refine ⟨map_calls _ readings, ?_, ?_, ?_, ?_⟩
  · intro earlier t fired later split
    rw [fired_iff split, after_eq]
  · intro earlier t fired later split room
    rw [fired_iff split, after_eq, Nat.min_eq_right room]
  · refine (pairwise_firings (List.pairwise_cons.mp ordered).2).imp ?_
    intro b t behind room
    rwa [after_eq, Nat.min_eq_right room] at behind
  · rintro rfl
    exact fired_of_zero ordered

/-- Near the greatest reading the due time stops there, and firings may follow each other closely. -/
theorem greedy_of_calls_top :
    let readings := [maxTick - 2, maxTick - 1, maxTick, maxTick]
    ((maxTick - 5) :: readings).Pairwise (· ≤ ·) ∧
      (start 3 (maxTick - 5)).calls readings =
        [(maxTick - 2, true), (maxTick - 1, false), (maxTick, true), (maxTick, true)] ∧
      Greedy 3 (maxTick - 5) ((start 3 (maxTick - 5)).calls readings) := by
  intro readings
  have ordered : ((maxTick - 5) :: readings).Pairwise (· ≤ ·) := by decide
  exact ⟨ordered, by decide, (greedy_of_calls 3 (maxTick - 5) readings ordered).2⟩

end Gate
end BuildCache
