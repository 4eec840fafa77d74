import BuildCache.Cache.Report

/-!
The summary that is reported of an open cache, as lines of text and as a JSON document.
-/
namespace BuildCache

structure Summary where
  entries : Nat
  paths : Nat
  statistics : Statistics
  deriving DecidableEq, Repr

namespace Summary

/-- Looks at the sizes of the files and takes the times that nobody has asked for yet. -/
def collect (c : Cache) : Program (Except StoreError Summary × Cache) := do
  match ← c.sizeOnDisk with
  | .error e => return (.error e, c)
  | .ok sizeInBytes =>
    let ((loadMillis, saveMillis), c) := c.takeTimes
    let statistics : Statistics := { sizeInBytes, loadMillis, saveMillis }
    return (.ok {
      entries := c.entryCount
      paths := c.index.names.size
      statistics := statistics.withCounters c.counters }, c)

def text (s : Summary) : String :=
  s!"entries: {s.entries}\npaths:  {s.paths}\n" ++ s.statistics.text

def orNull : Option Nat → String
  | some n => toString n
  | none => "null"

/-- A member of an object that lies `depth` levels deep. -/
def member (depth : Nat) (name value : String) : String :=
  String.ofList (List.replicate (2 * depth) ' ') ++ s!"\"{name}\": " ++ value

def reasonJson (e : MissReason × Nat) : String :=
  "    \x7b\n" ++
    ",\n".intercalate [member 3 "reason" s!"\"{e.1.text}\"", member 3 "count" (toString e.2)] ++
    "\n    \x7d"

def reasonsJson : List (MissReason × Nat) → String
  | [] => "[]"
  | es => "[\n" ++ ",\n".intercalate (es.map reasonJson) ++ "\n  ]"

/-- One object, a member a line. -/
def json (s : Summary) : String :=
  let t := s.statistics
  "\x7b\n" ++ ",\n".intercalate [
    member 1 "entries" (toString s.entries),
    member 1 "paths" (toString s.paths),
    member 1 "size_in_bytes" (toString t.sizeInBytes),
    member 1 "load_time_ms" (orNull t.loadMillis),
    member 1 "save_time_ms" (orNull t.saveMillis),
    member 1 "hits" (toString t.hits),
    member 1 "misses" (toString t.misses),
    member 1 "miss_details" (reasonsJson t.missDetails)] ++ "\n\x7d\n"

end Summary
end BuildCache
