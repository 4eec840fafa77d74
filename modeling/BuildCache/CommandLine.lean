import BuildCache.Path
import BuildCache.Table

/-!
The command line: flags in any order, a command, and the command's own flags. Every global flag may
stand before or behind the command; of two values for one flag the one behind the command counts,
and a flag twice in the same place is refused. Words are read from the left, so the first fault or
the first call for help decides; but a value that is a word of its own is looked at late.
-/
namespace BuildCache

inductive Command
  | dump
  | stats
  | check
  | clear
  deriving DecidableEq, Repr

namespace Command

def name : Command → String
  | dump => "dump"
  | stats => "stats"
  | check => "check"
  | clear => "clear"

def all : List Command := [dump, stats, check, clear]

def ofName? (s : String) : Option Command := all.find? fun c => c.name = s

end Command

inductive Flag
  | quiet
  | verbose
  | colour
  | config
  | cacheDir
  | format
  | help
  | version
  deriving DecidableEq, Repr

namespace Flag

/-- The flags of the line before the command. -/
def beforeCommand : List Flag := [quiet, verbose, colour, config, cacheDir, help, version]

def behind : Command → List Flag
  | .stats => [format, quiet, verbose, colour, config, cacheDir, help]
  | _ => [quiet, verbose, colour, config, cacheDir, help]

def long : Flag → String
  | quiet => "quiet"
  | verbose => "verbose"
  | colour => "color"
  | config => "config"
  | cacheDir => "cache-dir"
  | format => "format"
  | help => "help"
  | version => "version"

def short? : Flag → Option Char
  | quiet => some 'q'
  | verbose => some 'v'
  | format => some 'f'
  | help => some 'h'
  | version => some 'V'
  | _ => none

def takesValue : Flag → Bool
  | colour | config | cacheDir | format => true
  | _ => false

def accepts : Flag → String → Bool
  | colour, v => v = "auto" || v = "always" || v = "never"
  | format, v => v = "text" || v = "json"
  | _, v => v ≠ ""

end Flag

/-- When to write in colour. -/
inductive ColourChoice
  | auto
  | always
  | never
  deriving DecidableEq, Repr

inductive ReportFormat
  | text
  | json
  deriving DecidableEq, Repr

/-- What a command line asks for. -/
structure Invocation where
  command : Command
  quiet : Bool := false
  verbose : Bool := false
  colour : ColourChoice := .auto
  config : Option Path := none
  cacheDir : Option Path := none
  format : ReportFormat := .text
  deriving DecidableEq, Repr

/-- What help is given on. -/
inductive HelpTopic
  | everything
  | command (c : Command)
  | help
  deriving DecidableEq, Repr

/-- Why there is nothing to run. -/
inductive Refusal
  | usage
  /-- Help was asked for, in full or in short. -/
  | help (topic : HelpTopic) (full : Bool)
  | version
  deriving DecidableEq, Repr

namespace CommandLine

/-- The flags given in one place, with their values; a switch has the empty one. -/
abbrev Given := Table Flag String

/-- One flag and its value. -/
def assign (given : Given) (f : Flag) (value : String) : Except Refusal Given :=
  if !f.accepts value || (given.get? f).isSome then .error .usage
  else .ok (given.insert f value)

/-- The flags read so far. The value that a word of its own gives is not looked at before the next
flag of the same place, or else at its end. -/
structure Reading where
  given : Given
  /-- The last flag, if its value is a word of its own, and that word once it was read. -/
  pending : Option (Flag × Option String)

namespace Reading

def start : Reading := ⟨[], none⟩

/-- What is given, the pending flag included. -/
def settle (r : Reading) : Except Refusal Given :=
  match r.pending with
  | none => .ok r.given
  | some (f, some value) => assign r.given f value
  | some (_, none) => .error .usage

/-- One more flag that needs no value. -/
def switch (r : Reading) (topic : HelpTopic) (full : Bool) (f : Flag) :
    Except Refusal Reading := do
  let given ← r.settle
  if f = .help then throw (.help topic full)
  if f = .version then throw .version
  if (given.get? f).isSome then throw .usage
  return ⟨given.insert f "", none⟩

/-- One more flag with its value in the same word. -/
def attach (r : Reading) (f : Flag) (value : String) : Except Refusal Reading := do
  return ⟨← assign (← r.settle) f value, none⟩

/-- One more flag whose value is the next word. -/
def await (r : Reading) (f : Flag) : Except Refusal Reading := do
  return ⟨← r.settle, some (f, none)⟩

end Reading

/-- A word of one-letter flags. The first one that takes a value takes the rest of the word. -/
def letters (topic : HelpTopic) (known : List Flag) (r : Reading) :
    List Char → Except Refusal Reading
  | [] => .ok r
  | c :: cs =>
    match known.find? fun f => f.short? = some c with
    | none => .error .usage
    | some f =>
      if f.takesValue then
        match cs with
        | [] => r.await f
        | '=' :: value | value => r.attach f (String.ofList value)
      else do letters topic known (← r.switch topic false f) cs

/-- A word that names one flag, perhaps with its value. -/
def named (topic : HelpTopic) (known : List Flag) (r : Reading) (cs : List Char) :
    Except Refusal Reading :=
  let name := String.ofList (cs.takeWhile (· ≠ '='))
  match known.find? fun f => f.long = name, cs.dropWhile (· ≠ '=') with
  | none, _ => .error .usage
  | some f, [] => if f.takesValue then r.await f else r.switch topic true f
  | some f, _ :: value =>
    if f.takesValue then r.attach f (String.ofList value) else .error .usage

/-- The flags up to the first word that is none, and that word with what follows it. -/
def flags (topic : HelpTopic) (known : List Flag) (r : Reading) :
    List String → Except Refusal (Reading × List String)
  | [] => .ok (r, [])
  | w :: ws =>
    match w.toList with
    | ['-', '-'] => if ws = [] then .ok (r, []) else .error .usage
    | '-' :: '-' :: cs => do flags topic known (← named topic known r cs) ws
    | '-' :: c :: cs => do flags topic known (← letters topic known r (c :: cs)) ws
    | _ =>
      match r.pending with
      | some (f, none) => flags topic known ⟨r.given, some (f, some w)⟩ ws
      | _ => .ok (r, w :: ws)

/-- Reads the words behind the call for help. -/
def helpOn : List String → Refusal
  | [] => .help .everything true
  | [w] =>
    if w = "help" then .help .help false
    else match Command.ofName? w with
      | some c => .help (.command c) true
      | none => .usage
  | _ => .usage

def colourChoice : Option String → ColourChoice
  | some "always" => .always
  | some "never" => .never
  | _ => .auto

def reportFormat : Option String → ReportFormat
  | some "json" => .json
  | _ => .text

/-- What the flags before and behind a command come to. -/
def invocation (command : Command) (before behind : Given) : Invocation :=
  let value (f : Flag) : Option String := (behind.get? f).or (before.get? f)
  { command
    quiet := (value .quiet).isSome
    verbose := (value .verbose).isSome
    colour := colourChoice (value .colour)
    config := (value .config).map Path.mk
    cacheDir := (value .cacheDir).map Path.mk
    format := reportFormat (value .format) }

/-- Reads a whole line. What the command's own words come to is settled before the flags in front
of it, so that a call for help behind the command wins over a bad value before it. -/
def parse (args : List String) : Except Refusal Invocation := do
  match ← flags .everything Flag.beforeCommand .start args with
  | (_, []) => throw .usage
  | (before, w :: ws) =>
    if w = "help" then throw (helpOn ws)
    let some command := Command.ofName? w | throw .usage
    let (behind, rest) ← flags (.command command) (Flag.behind command) .start ws
    if rest ≠ [] then throw .usage
    let behind ← behind.settle
    return invocation command (← before.settle) behind

end CommandLine
end BuildCache
