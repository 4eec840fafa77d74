/-!
Hits and misses of the cache, misses by their reason, and the summary that is reported of them.
-/
namespace BuildCache

/-- Why an action could not be served from the cache. -/
inductive MissReason
  | differentActionKey
  | differentDeps
  | differentEnvironment
  | differentFiles
  | corruptedCacheEntry
  | notCached
  | unconditionalExecution
  deriving DecidableEq, Repr

namespace MissReason

/-- Every reason, in the order of a report. -/
def all : List MissReason :=
  [differentActionKey, differentDeps, differentEnvironment, differentFiles, corruptedCacheEntry,
    notCached, unconditionalExecution]

theorem mem_all (r : MissReason) : r ∈ all := by cases r <;> decide

def text : MissReason → String
  | differentActionKey => "DIFFERENT_ACTION_KEY"
  | differentDeps => "DIFFERENT_DEPS"
  | differentEnvironment => "DIFFERENT_ENVIRONMENT"
  | differentFiles => "DIFFERENT_FILES"
  | corruptedCacheEntry => "CORRUPTED_CACHE_ENTRY"
  | notCached => "NOT_CACHED"
  | unconditionalExecution => "UNCONDITIONAL_EXECUTION"

end MissReason

/-- The running counts. -/
structure Counters where
  hits : Nat
  misses : MissReason → Nat

namespace Counters

def zero : Counters := ⟨0, fun _ => 0⟩

instance : Inhabited Counters := ⟨zero⟩

def hit (c : Counters) : Counters := { c with hits := c.hits + 1 }

def miss (c : Counters) (reason : MissReason) : Counters :=
  { c with misses := fun r => if r = reason then c.misses r + 1 else c.misses r }

end Counters

/-- The summary of one invocation. A time is absent where nothing was loaded or saved. -/
structure Statistics where
  sizeInBytes : Nat := 0
  loadMillis : Option Nat := none
  saveMillis : Option Nat := none
  hits : Nat := 0
  misses : Nat := 0
  missDetails : List (MissReason × Nat) := []
  deriving DecidableEq, Repr

namespace Statistics

/-- The summary with the counts as they stand, every reason listed. -/
def withCounters (s : Statistics) (c : Counters) : Statistics :=
  let details := MissReason.all.map fun r => (r, c.misses r)
  { s with hits := c.hits, misses := (details.map Prod.snd).foldl (· + ·) 0, missDetails := details }

def text (s : Statistics) : String :=
  String.join <|
    [s!"size:   {s.sizeInBytes} bytes\n"] ++
    (s.loadMillis.map fun ms => s!"load:   {ms} ms\n").toList ++
    (s.saveMillis.map fun ms => s!"save:   {ms} ms\n").toList ++
    [s!"hits:   {s.hits}\n", s!"misses: {s.misses}\n"] ++
    s.missDetails.map fun e => s!"  {e.1.text}: {e.2}\n"

end Statistics
end BuildCache
