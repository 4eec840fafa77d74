import BuildCache.Cache.Summary
import BuildCache.CommandLine.Help
import BuildCache.Config

/-!
The commands over a cache on disk. Each loads the settings, opens the cache, reports what happened
on the way and does its work; what it prints, and its exit code, are its result.
-/
namespace BuildCache

/-- What a command leaves for its caller. -/
structure Outcome where
  stdout : String := ""
  stderr : String := ""
  code : UInt8 := 0
  deriving DecidableEq, Repr

/-- Where a command runs, and whether its messages go to a terminal. -/
structure Surroundings where
  cwd : Path
  terminal : Bool
  deriving DecidableEq, Repr

namespace Outcome

/-- A failure, after what was printed before it. -/
def failed (printed message : String) : Outcome :=
  { stderr := printed ++ s!"error: {message}\n", code := 1 }

end Outcome

namespace ColourChoice

def isOn (c : ColourChoice) (terminal : Bool) : Bool :=
  match c with
  | auto => terminal
  | always => true
  | never => false

end ColourChoice

namespace Config

/-- The cache that the settings mean, seen from `base`. A directory given beside them takes the
place of theirs, and quarantine is then beside it. -/
def cacheAt (c : Config) (base : Path) (dir : Option Path) : Layout × Options :=
  let cache := match dir with
    | some dir => { c.cache with dir, corruptedDir := none }
    | none => c.cache
  (⟨base.join cache.dir, base.join cache.quarantine⟩,
    ⟨cache.journalInterval, cache.compactionPercent⟩)

end Config

namespace Invocation

/-- The settings, and the directory from which their paths are seen. -/
def settings (i : Invocation) (cwd : Path) : Program (Except ConfigError (Config × Path)) := do
  match i.config with
  | some p => return (← Config.loadFile p).map fun c => (c, p.parent?.getD ⟨"."⟩)
  | none => return (← Config.loadProject cwd).map fun c => (c, cwd)

/-- The text, unless nothing but errors is to be printed. -/
def unlessQuiet (i : Invocation) (text : String) : String := if i.quiet then "" else text

def dump (c : Cache) (printed : String) : Outcome := { stdout := c.dump, stderr := printed }

def stats (i : Invocation) (c : Cache) (printed : String) : Program Outcome := do
  match (← Summary.collect c).1 with
  | .error e => return .failed printed e.message
  | .ok summary =>
    let text := match i.format with
      | .text => summary.text
      | .json => summary.json
    return { stdout := text, stderr := printed }

/-- Saves the cache; fails also if opening it gave rise to a message. -/
def check (i : Invocation) (c : Cache) (messages : List Diagnostic) (printed : String) :
    Program Outcome := do
  match ← c.save with
  | (.error e, _) => return .failed printed e.message
  | (.ok _, c) =>
    match (← Summary.collect c).1 with
    | .error e => return .failed printed e.message
    | .ok s =>
      let millis := s.statistics.saveMillis.getD 0
      let line := s!"    Checked {s.entries} entries, {s.paths} paths in {c.layout.root.text}" ++
        s!" (saved in {millis} ms)\n"
      return { stderr := printed ++ i.unlessQuiet line, code := if messages.isEmpty then 0 else 1 }

def clear (i : Invocation) (c : Cache) (printed : String) : Program Outcome := do
  match ← c.clear.save with
  | (.error e, _) => return .failed printed e.message
  | (.ok _, _) =>
    let line := s!"    Cleared {c.entryCount} entries from {c.layout.root.text}\n"
    return { stderr := printed ++ i.unlessQuiet line }

def run (i : Invocation) (here : Surroundings) : Program Outcome := do
  match ← i.settings here.cwd with
  | .error e => return .failed "" e.message
  | .ok (config, base) =>
    let (layout, options) := config.cacheAt base i.cacheDir
    match ← Cache.open layout options with
    | (.error e, _) => return .failed "" e.message
    | (.ok cache, messages) =>
      let coloured := i.colour.isOn here.terminal
      let printed := i.unlessQuiet (String.join (messages.map fun d => d.render coloured ++ "\n"))
      match i.command with
      | .dump => return dump cache printed
      | .stats => i.stats cache printed
      | .check => i.check cache messages printed
      | .clear => i.clear cache printed

end Invocation

namespace Refusal

def outcome : Refusal → Outcome
  | usage => { stderr := "error: usage: actcache [OPTIONS] <COMMAND>\n", code := 2 }
  | help topic full => { stdout := Help.text full topic }
  | version => { stdout := Help.versionText }

end Refusal

/-- Runs the command that the words of a command line ask for. -/
def CommandLine.run (args : List String) (here : Surroundings) : Program Outcome :=
  match parse args with
  | .error refusal => return refusal.outcome
  | .ok invocation => invocation.run here

end BuildCache
