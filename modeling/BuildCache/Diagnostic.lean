/-!
Messages to the user: a severity, a code such as `W301`, the message, and notes and help below it.
A terminal shows the head in the colour of the severity.
-/
namespace BuildCache

/-- From the least to the most severe. -/
inductive Severity
  | note
  | warning
  | error
  deriving DecidableEq, Repr

namespace Severity

def rank : Severity → Nat
  | note => 0
  | warning => 1
  | error => 2

def text : Severity → String
  | note => "note"
  | warning => "warning"
  | error => "error"

/-- The number of the terminal colour. -/
def colour : Severity → String
  | note => "36"
  | warning => "33"
  | error => "31"

end Severity

inductive Category
  | error
  | warning
  deriving DecidableEq, Repr

namespace Category

def letter : Category → String
  | error => "E"
  | warning => "W"

end Category

structure DiagnosticCode where
  category : Category
  number : UInt16
  deriving DecidableEq, Repr

namespace DiagnosticCode

/-- The letter of the category and at least three digits. -/
def text (c : DiagnosticCode) : String :=
  let digits := toString c.number.toNat
  c.category.letter ++ String.ofList (List.replicate (3 - digits.length) '0') ++ digits

end DiagnosticCode

structure Diagnostic where
  severity : Severity
  code : DiagnosticCode
  message : String
  notes : List String := []
  help : List String := []
  deriving DecidableEq, Repr

namespace Diagnostic

def head (d : Diagnostic) (coloured : Bool) : String :=
  let plain := s!"{d.severity.text}[{d.code.text}]"
  if coloured then s!"\x1b[1;{d.severity.colour}m{plain}\x1b[0m" else plain

def render (d : Diagnostic) (coloured : Bool) : String :=
  d.head coloured ++ ": " ++ d.message ++
    String.join (d.notes.map fun n => s!"\n   = note: {n}") ++
    String.join (d.help.map fun h => s!"\n   = help: {h}")

/-- The greatest severity among the messages. -/
def worst (ds : List Diagnostic) : Option Severity :=
  ds.foldl (fun worst d => match worst with
    | none => some d.severity
    | some s => if s.rank < d.severity.rank then some d.severity else some s) none

end Diagnostic
end BuildCache
