import BuildCache.Proofs.Consistency
import BuildCache.Proofs.Loading

/-!
Runs of a cache over any number of sessions. A situation is an open cache with its disk and with
what an observer remembers: the entries handed over so far, what memory held at each moment, what
it held when the map's journal was last written, and whether something was cleared, spilled or
failed since the files were last brought up to date. The cache does not see any of that.
-/
namespace BuildCache

open Disk Program

/-- The places of the four files, without the temporary ones. -/
def Home.files (home : Home) : List Place :=
  [home.index.snapshot, home.index.journal, home.map.snapshot, home.map.journal]

structure Situation where
  cache : Cache
  disk : Disk
  /-- The entries that were handed to `put` so far. -/
  stored : Stores
  /-- What memory held at each moment so far, the latest first. -/
  past : List Memory
  /-- What memory held when the map's journal was last written, or a save done, or the cache
  opened. -/
  durable : Memory
  /-- The cache was cleared since the last save that was done, or since it was opened. -/
  cleared : Bool
  /-- A file has changed since such a clear. -/
  spilled : Bool
  /-- A save has failed since the last one that was done, or since the cache was opened. -/
  failed : Bool

namespace Situation

/-- A cache that has just been opened. -/
def opened (stored : Stores) (past : List Memory) (c : Cache) (d : Disk) : Situation where
  cache := c
  disk := d
  stored
  past := c.memory :: past
  durable := c.memory
  cleared := false
  spilled := false
  failed := false

/-- The situation with another disk. -/
def onDisk (s : Situation) (home : Home) (d : Disk) : Situation :=
  { s with disk := d, spilled := s.spilled || s.cleared && !decide (SameAt home.files s.disk d) }

theorem spilled_onDisk {s : Situation} {home : Home} {d : Disk} : (s.onDisk home d).spilled ↔
    s.spilled ∨ s.cleared ∧ ¬SameAt home.files s.disk d := by
  simp [onDisk]

/-- After one change of memory. -/
def changed (s : Situation) (home : Home) (c : Cache) (d : Disk) : Situation :=
  { s.onDisk home d with
    cache := c
    past := c.memory :: s.past
    durable :=
      if d.content home.map.journal = s.disk.content home.map.journal then s.durable
      else c.memory }

def cleared_ (s : Situation) : Situation :=
  { s with cache := s.cache.clear, past := s.cache.clear.memory :: s.past, cleared := true }

/-- After a save that was done. -/
def saved (s : Situation) (c : Cache) (d : Disk) : Situation :=
  { s with
    cache := c
    disk := d
    durable := c.memory
    cleared := false
    spilled := false
    failed := false }

/-- After a save that was not done, or was stopped. -/
def unsaved (s : Situation) (home : Home) (c : Cache) (d : Disk) : Situation :=
  { s.onDisk home d with cache := c, failed := true }

end Situation

/-- Changes of memory, one after the other, as the observer sees them. -/
inductive Changes (faults : Faults) (cwd : Place) (home : Home) :
    List Change → Situation → Situation → Prop
  | done (s : Situation) : Changes faults cwd home [] s s
  | next {change : Change} {changes : List Change} {s s' : Situation} {c : Cache} {d : Disk}
      (run : Runs faults cwd (s.cache.change change) s.disk c d)
      (rest : Changes faults cwd home changes (s.changed home c d) s') :
    Changes faults cwd home (change :: changes) s s'

/-- What may happen in a run. -/
structure Rules where
  changes : Faults
  saves : Faults
  clears : Prop
  /-- A save may be stopped. -/
  stops : Prop
  /-- A session may end in this situation, and another one follow. -/
  ends : Situation → Prop

/-- The situations that a run from a disk can come to. -/
inductive Run (rules : Rules) (layout : Layout) (cwd : Place) (home : Home) (start : Disk) :
    Situation → Prop
  | opened {options : Options} {c : Cache} {messages : List Diagnostic} {d : Disk}
      (opening : Runs .none cwd (Cache.open layout options) start (.ok c, messages) d) :
    Run rules layout cwd home start (.opened [] [] c d)
  | put {s s' : Situation} (key : String) (e : Entry) (run : Run rules layout cwd home start s)
      (changes : Changes rules.changes cwd home (s.cache.memory.putting key e)
        { s with stored := (key, e) :: s.stored } s') :
    Run rules layout cwd home start s'
  | remove {s s' : Situation} (key : String) (run : Run rules layout cwd home start s)
      (changes : Changes rules.changes cwd home (s.cache.memory.removing key) s s') :
    Run rules layout cwd home start s'
  | removeIf {s s' : Situation} (p : Cached → Bool) (slots : List Slot)
      (run : Run rules layout cwd home start s) (perm : slots.Perm (s.cache.memory.doomed p))
      (changes : Changes rules.changes cwd home (slots.map .remove) s s') :
    Run rules layout cwd home start s'
  | clear {s : Situation} (run : Run rules layout cwd home start s) (may : rules.clears) :
    Run rules layout cwd home start s.cleared_
  | saved {s : Situation} {n : Nat} {c : Cache} {d : Disk} (run : Run rules layout cwd home start s)
      (save : Runs rules.saves cwd s.cache.save s.disk (.ok n, c) d) :
    Run rules layout cwd home start (s.saved c d)
  | unsaved {s : Situation} {e : StoreError} {c : Cache} {d : Disk}
      (run : Run rules layout cwd home start s)
      (save : Runs rules.saves cwd s.cache.save s.disk (.error e, c) d) :
    Run rules layout cwd home start (s.unsaved home c d)
  | reopened {s : Situation} {options : Options} {c : Cache} {messages : List Diagnostic} {d : Disk}
      (run : Run rules layout cwd home start s) (may : rules.ends s)
      (opening : Runs .none cwd (Cache.open layout options) s.disk (.ok c, messages) d) :
    Run rules layout cwd home start (.opened s.stored s.past c d)
  | stopped {s : Situation} {options : Options} {c : Cache} {messages : List Diagnostic}
      {d d' : Disk} (run : Run rules layout cwd home start s) (may : rules.stops)
      (stop : Stops rules.saves cwd s.cache.save s.disk d)
      (ends : rules.ends (s.unsaved home s.cache d))
      (opening : Runs .none cwd (Cache.open layout options) d (.ok c, messages) d') :
    Run rules layout cwd home start (.opened s.stored s.past c d')

section Adequacy
variable {faults : Faults} {cwd : Place} {home : Home} {s : Situation} {c : Cache} {d : Disk}

/-- The observer does not get in the way: what a list of changes can come to, it can come to under
observation. -/
theorem exists_changes {changes : List Change}
    (run : Runs faults cwd (s.cache.changeAll changes) s.disk c d) :
    ∃ s', Changes faults cwd home changes s s' ∧ s'.cache = c ∧ s'.disk = d := by
  induction changes generalizing s with
  | nil =>
    cases run
    exact ⟨s, .done s, rfl, rfl⟩
  | cons change changes ih =>
    obtain ⟨c₁, d₁, first, rest⟩ := runs_bind.mp run
    obtain ⟨s', changes, cache, disk⟩ := ih (s := s.changed home c₁ d₁) rest
    exact ⟨s', .next first changes, cache, disk⟩

theorem Changes.snoc {s' : Situation} {done : List Change} {change : Change}
    (changes : Changes faults cwd home done s s')
    (run : Runs faults cwd (s'.cache.change change) s'.disk c d) :
    Changes faults cwd home (done ++ [change]) s (s'.changed home c d) := by
  induction changes with
  | done s => exact .next run (.done _)
  | next first _ ih => exact .next first (ih run)

/-- A removal of what matches is a removal of the slots in some order. -/
theorem exists_removeIf {p : Cached → Bool} {n : Nat}
    (run : Runs faults cwd (s.cache.removeIf p) s.disk (n, c) d) :
    ∃ (slots : List Slot) (s' : Situation), slots.Perm (s.cache.memory.doomed p) ∧
      Changes faults cwd home (slots.map .remove) s s' ∧ s'.cache = c ∧ s'.disk = d := by
  obtain ⟨slots, d₁, walked, rest⟩ := runs_bind.mp run
  obtain ⟨rfl, perm⟩ := always_walk (s.cache.memory.doomed p) slots d₁ walked
  obtain ⟨c₁, d₂, removed, last⟩ := runs_bind.mp rest
  cases last
  obtain ⟨s', changes, cache, disk⟩ := exists_changes removed
  exact ⟨slots, s', perm, changes, cache, disk⟩

end Adequacy
end BuildCache
