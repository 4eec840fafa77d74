/-!
The words of a TOML document: blanks, comments, keys, and the four kinds of quoted text. A scanner
takes what it stands for off the front and leaves the rest, or refuses.
-/
namespace BuildCache.Toml

abbrev Scan (α : Type) := List Char → Option (α × List Char)

def isBlank (c : Char) : Bool := c = ' ' || c = '\t'

/-- What may stand in a comment: a tab, and all but the controls. -/
def isPlain (c : Char) : Bool := c = '\t' || (0x20 ≤ c.toNat && c.toNat ≠ 0x7f)

def skipBlanks (cs : List Char) : List Char := cs.dropWhile isBlank

/-- The end of a line, or nothing if there is none here. -/
def newline? : List Char → Option (List Char)
  | '\n' :: cs => some cs
  | '\r' :: '\n' :: cs => some cs
  | _ => none

def skipComment : List Char → List Char
  | '#' :: cs => cs.dropWhile isPlain
  | cs => cs

/-- Skips to the next line: blanks, perhaps a comment, and the end of the line or the document. -/
def endLine? (cs : List Char) : Option (List Char) :=
  match skipComment (skipBlanks cs) with
  | [] => some []
  | cs => newline? cs

/-- Skips blanks, line ends and comments, of which there are at most `fuel`. -/
def skipLayout : (fuel : Nat) → List Char → List Char
  | 0, cs => cs
  | fuel + 1, cs =>
    let rest := skipComment (skipBlanks cs)
    match newline? rest with
    | some rest => skipLayout fuel rest
    | none => rest

def hexValue? (c : Char) : Option Nat :=
  if '0' ≤ c ∧ c ≤ '9' then some (c.toNat - 48)
  else if 'a' ≤ c ∧ c ≤ 'f' then some (c.toNat - 87)
  else if 'A' ≤ c ∧ c ≤ 'F' then some (c.toNat - 55)
  else none

/-- A character by its number, in exactly `digits` hexadecimal digits. -/
def numbered (digits : Nat) : Scan Char := fun cs => do
  let front := cs.take digits
  guard (front.length = digits)
  let values ← front.mapM hexValue?
  let n := values.foldl (fun n v => 16 * n + v) 0
  guard (n.isValidChar)
  return (Char.ofNat n, cs.drop digits)

/-- What stands for a character after a backslash. -/
def escaped : Scan Char
  | 'b' :: cs => some ('\x08', cs)
  | 't' :: cs => some ('\t', cs)
  | 'n' :: cs => some ('\n', cs)
  | 'f' :: cs => some ('\x0c', cs)
  | 'r' :: cs => some ('\r', cs)
  | '"' :: cs => some ('"', cs)
  | '\\' :: cs => some ('\\', cs)
  | 'u' :: cs => numbered 4 cs
  | 'U' :: cs => numbered 8 cs
  | _ => none

/-- The rest of a text between double quotes. Each step takes a character. -/
def basicRest : (fuel : Nat) → Scan (List Char)
  | 0, _ => none
  | _, [] => none
  | fuel + 1, c :: cs =>
    if c = '"' then some ([], cs)
    else if c = '\\' then do
      let (e, cs) ← escaped cs
      let (s, cs) ← basicRest fuel cs
      return (e :: s, cs)
    else if isPlain c then do
      let (s, cs) ← basicRest fuel cs
      return (c :: s, cs)
    else none

/-- The rest of a text between single quotes, in which nothing is escaped. -/
def literalRest (cs : List Char) : Option (List Char × List Char) :=
  match cs.dropWhile fun c => isPlain c && c ≠ '\'' with
  | '\'' :: rest => some (cs.takeWhile fun c => isPlain c && c ≠ '\'', rest)
  | _ => none

/-- A run of quotes inside or at the end of a text of several lines: fewer than three belong to
the text; of more, the last three end it, and at most two before them belong to it. -/
def quoteRun (quote : Char) (cs : List Char) : List Char × Bool × List Char :=
  let n := min 5 (cs.takeWhile (· = quote)).length
  if n < 3 then (List.replicate n quote, false, cs.drop n)
  else (List.replicate (n - 3) quote, true, cs.drop n)

/-- After a backslash: the end of the line, and all blanks and line ends that follow. -/
def foldedLine? (cs : List Char) : Option (List Char) :=
  (newline? (skipBlanks cs)).map fun rest => skipFolded rest.length rest
where
  skipFolded : Nat → List Char → List Char
    | 0, cs => cs
    | fuel + 1, cs =>
      let cs := skipBlanks cs
      match newline? cs with
      | some rest => skipFolded fuel rest
      | none => cs

/-- The rest of a text of several lines, quoted by `quote`; only in the one between double quotes
a backslash means something. -/
def multilineRest (quote : Char) : (fuel : Nat) → Scan (List Char)
  | 0, _ => none
  | _, [] => none
  | fuel + 1, c :: cs =>
    if c = quote then
      match quoteRun quote (c :: cs) with
      | (quotes, true, rest) => some (quotes, rest)
      | (quotes, false, rest) => do
        let (s, rest) ← multilineRest quote fuel rest
        return (quotes ++ s, rest)
    else if c = '\\' ∧ quote = '"' then
      match foldedLine? cs with
      | some rest => multilineRest quote fuel rest
      | none => do
        let (e, rest) ← escaped cs
        let (s, rest) ← multilineRest quote fuel rest
        return (e :: s, rest)
    else match newline? (c :: cs) with
      | some rest => do
        let (s, rest) ← multilineRest quote fuel rest
        return ('\n' :: s, rest)
      | none =>
        if isPlain c then do
          let (s, rest) ← multilineRest quote fuel cs
          return (c :: s, rest)
        else none

/-- The text of several lines after its opening quotes; a line end right there is left out. -/
def multiline (quote : Char) (cs : List Char) : Option (List Char × List Char) :=
  let cs := (newline? cs).getD cs
  multilineRest quote (cs.length + 1) cs

/-- A quoted text of one line. -/
def quotedLine : Scan (List Char)
  | '"' :: cs => basicRest (cs.length + 1) cs
  | '\'' :: cs => literalRest cs
  | _ => none

/-- A quoted text of any kind. -/
def quoted : Scan (List Char)
  | '"' :: '"' :: '"' :: cs => multiline '"' cs
  | '\'' :: '\'' :: '\'' :: cs => multiline '\'' cs
  | cs => quotedLine cs

def isBare (c : Char) : Bool := c.isAlphanum || c = '_' || c = '-'

/-- One part of a key: bare, or a quoted text of one line. -/
def simpleKey : Scan String
  | '"' :: cs => (basicRest (cs.length + 1) cs).map fun r => (String.ofList r.1, r.2)
  | '\'' :: cs => (literalRest cs).map fun r => (String.ofList r.1, r.2)
  | cs =>
    match cs.takeWhile isBare with
    | [] => none
    | name => some (String.ofList name, cs.dropWhile isBare)

/-- The parts of a key between dots, with blanks around each. -/
def keyParts : (fuel : Nat) → Scan (List String)
  | 0, _ => none
  | fuel + 1, cs => do
    let (part, cs) ← simpleKey (skipBlanks cs)
    match skipBlanks cs with
    | '.' :: cs =>
      let (parts, cs) ← keyParts fuel cs
      return (part :: parts, cs)
    | cs => return ([part], cs)

/-- Neither keys nor values are nested as deep as this. -/
def depthLimit : Nat := 80

def key (cs : List Char) : Option (List String × List Char) := do
  let (parts, cs) ← keyParts (cs.length + 1) cs
  guard (parts.length < depthLimit)
  return (parts, cs)

end BuildCache.Toml
