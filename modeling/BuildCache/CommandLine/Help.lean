import BuildCache.CommandLine

/-!
The help texts. The short one has a line for each flag; the full one gives each flag a paragraph
and lists the values of a choice with their meaning.
-/
namespace BuildCache

namespace Command

def about : Command → String
  | dump => "Print the path index and every decoded entry"
  | stats => "Print hit, miss and size statistics"
  | check => "Load and validate the cache, then save it. Fails if it had to be reset"
  | clear => "Remove every entry from the cache"

end Command

namespace Flag

def about : Flag → String
  | quiet => "Suppress all output except errors"
  | verbose => "Enable verbose (debug-level) output"
  | colour => "Control colored output"
  | config => "Path to a custom \x60actcache.toml\x60 configuration file"
  | cacheDir => "Cache directory, overriding \x60cache.dir\x60 from the configuration"
  | format => "Output format"
  | help => "Print help"
  | version => "Print version"

/-- The values of a choice, the default first, with what each means. -/
def choices : Flag → List (String × String)
  | colour =>
    [("auto", "Detect from terminal capabilities"), ("always", "Always produce colored output"),
      ("never", "Never produce colored output")]
  | format => [("text", "Human-readable terminal output"), ("json", "Machine-readable JSON output")]
  | _ => []

def valueName : Flag → String
  | colour => " <COLOR>"
  | config => " <CONFIG>"
  | cacheDir => " <CACHE_DIR>"
  | format => " <FORMAT>"
  | _ => ""

def usage (f : Flag) : String :=
  let letter := match f.short? with
    | some c => String.ofList ['-', c, ',', ' ']
    | none => "    "
  s!"  {letter}--{f.long}{f.valueName}"

end Flag

namespace Help

/-- The text with blanks behind it, up to a width. -/
def padded (width : Nat) (s : String) : String :=
  s ++ String.ofList (List.replicate (width - s.length) ' ')

def widest (ss : List String) : Nat := (ss.map String.length).foldl max 0

def shortNote (f : Flag) : String :=
  if f = .help then " (see more with '--help')"
  else match f.choices with
    | [] => ""
    | (default, meaning) :: rest =>
      let names := ", ".intercalate (((default, meaning) :: rest).map Prod.fst)
      s!" [default: {default}] [possible values: {names}]"

/-- A line for each flag, what they mean in one column. -/
def shortFlags (fs : List Flag) : List String :=
  let width := widest (fs.map Flag.usage) + 2
  fs.map fun f => padded width f.usage ++ f.about ++ shortNote f ++ "\n"

def choiceLines (cs : List (String × String)) : List String :=
  let width := widest (cs.map Prod.fst) + 2
  cs.map fun c => "          - " ++ padded width (c.1 ++ ":") ++ c.2 ++ "\n"

def paragraph (f : Flag) : String :=
  let note := if f = .help then " (see a summary with '-h')" else ""
  f.usage ++ "\n          " ++ f.about ++ note ++ "\n" ++
    match f.choices with
    | [] => ""
    | (default, meaning) :: rest =>
      "\n          Possible values:\n" ++ String.join (choiceLines ((default, meaning) :: rest)) ++
        s!"          \n          [default: {default}]\n"

def flags (fs : List Flag) (full : Bool) : String :=
  "\nOptions:\n" ++
    if full then "\n".intercalate (fs.map paragraph) else String.join (shortFlags fs)

def about : String := "Print this message or the help of the given subcommand(s)"

def commands : String :=
  let rows := Command.all.map (fun c => (c.name, c.about)) ++ [("help", about)]
  let width := widest (rows.map Prod.fst) + 2
  "\nCommands:\n" ++ String.join (rows.map fun r => s!"  {padded width r.1}{r.2}\n")

def text (full : Bool) : HelpTopic → String
  | .everything =>
    "Action cache inspection tool\n\nUsage: actcache [OPTIONS] <COMMAND>\n" ++ commands ++
      flags Flag.beforeCommand full
  | .command c =>
    s!"{c.about}\n\nUsage: actcache {c.name} [OPTIONS]\n" ++ flags (Flag.behind c) full
  | .help =>
    s!"{about}\n\nUsage: actcache help [COMMAND]...\n\nArguments:\n" ++
      "  [COMMAND]...  Print help for the subcommand(s)\n"

/-- What the version flag prints. -/
def versionText : String := "actcache 0.1.0\n"

end Help
end BuildCache
