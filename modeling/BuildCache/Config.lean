import BuildCache.Cache
import BuildCache.Toml.Document

/-!
The settings of a project, read from `actcache.toml` in its directory. Each has a default, and a
missing file stands for all of them. A section is a table of its settings, or an array of them in
the order in which they are declared here.
-/
namespace BuildCache

structure CacheSettings where
  dir : Path := ⟨".actcache/action_cache"⟩
  /-- Where a cache that cannot be read is moved; by default beside it. -/
  corruptedDir : Option Path := none
  journalIntervalMillis : Nat := 3000
  compactionPercent : Nat := 1
  deriving DecidableEq, Repr

namespace CacheSettings

/-- Where a cache that cannot be read is moved. -/
def quarantine (s : CacheSettings) : Path :=
  s.corruptedDir.getD (s.dir.withFileName (s.dir.fileName?.getD "action_cache" ++ ".corrupted"))

def journalInterval (s : CacheSettings) : Nat := s.journalIntervalMillis * nanosPerMilli

end CacheSettings

structure LogSettings where
  filter : String := "warn"
  deriving DecidableEq, Repr

structure Config where
  cache : CacheSettings := {}
  log : LogSettings := {}
  deriving DecidableEq, Repr

/-- Why settings are refused although they can be read. -/
inductive ConfigFault
  | emptyDir
  | percentOutOfRange (n : Nat)
  deriving DecidableEq, Repr

inductive ConfigError
  | io (cause : OsError)
  | parse
  | invalid (fault : ConfigFault)
  deriving DecidableEq, Repr

namespace ConfigFault

def message : ConfigFault → String
  | emptyDir => "cache.dir is empty"
  | percentOutOfRange n => s!"cache.compaction_percent must be between 1 and 100, got {n}"

end ConfigFault

namespace ConfigError

def message : ConfigError → String
  | io cause => s!"failed to read configuration: {cause.message}"
  | parse => "failed to parse configuration: "
  | invalid fault => s!"validation error: {fault.message}"

end ConfigError

namespace Config
open Toml (Item)

/-- The values of a section's settings, in the order of their names; of a date there are none. -/
def sectionFields (names : List String) : Item → Option (List (Option Item))
  | .table _ entries =>
    some (names.map fun n => (entries.find? fun e => e.1 = n).map Prod.snd)
  | .array items => some (names.mapIdx fun i _ => items[i]?)
  | .tables ts => some (names.mapIdx fun i _ => ts[i]?.map fun t => .table t.1 t.2)
  | .datetime => some (names.map fun _ => none)
  | _ => none

/-- A setting that may be missing, in which case it has its default. -/
def orDefault {α : Type} (read : Item → Option α) (default : α) : Option Item → Option α
  | none => some default
  | some item => read item

def text? : Item → Option String
  | .text s => some s
  | _ => none

def path? (item : Item) : Option Path := (text? item).map Path.mk

def natural? : Item → Option Nat
  | .integer n => if 0 ≤ n then some n.toNat else none
  | _ => none

def cacheSettings? (item : Item) : Option CacheSettings := do
  let fields ← sectionFields
    ["dir", "corrupted_dir", "journal_interval_ms", "compaction_percent"] item
  let default : CacheSettings := {}
  return {
    dir := ← orDefault path? default.dir fields[0]?.join
    corruptedDir := ← orDefault (fun i => (path? i).map some) none fields[1]?.join
    journalIntervalMillis :=
      ← orDefault natural? default.journalIntervalMillis fields[2]?.join
    compactionPercent := ← orDefault natural? default.compactionPercent fields[3]?.join }

def logSettings? (item : Item) : Option LogSettings := do
  let fields ← sectionFields ["filter"] item
  return { filter := ← orDefault text? "warn" fields[0]?.join }

/-- The settings that a document states. Keys that mean nothing here are passed over. -/
def ofTable? (t : Toml.Table) : Option Config := do
  return {
    cache := ← orDefault cacheSettings? {} (t.get? "cache")
    log := ← orDefault logSettings? {} (t.get? "log") }

def validate (c : Config) : Except ConfigError Config :=
  if c.cache.dir.text = "" then .error (.invalid .emptyDir)
  else if c.cache.compactionPercent < 1 ∨ 100 < c.cache.compactionPercent then
    .error (.invalid (.percentOutOfRange c.cache.compactionPercent))
  else .ok c

def parse (text : String) : Except ConfigError Config :=
  match (Toml.parse text).bind ofTable? with
  | none => .error .parse
  | some c => c.validate

def fileName : String := "actcache.toml"

def loadFile (p : Path) : Program (Except ConfigError Config) := do
  match ← Program.request (.read p) with
  | .error e => return .error (.io e)
  | .ok raw =>
    match Text.ofUtf8 raw with
    | .error _ => return .error (.io .notUtf8)
    | .ok text => return parse text

/-- The settings of the project in a directory. -/
def loadProject (dir : Path) : Program (Except ConfigError Config) := do
  let p := dir.join ⟨fileName⟩
  match ← Program.request (.size p) with
  | .error _ => return .ok {}
  | .ok _ => loadFile p

end Config
end BuildCache
