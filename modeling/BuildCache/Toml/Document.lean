import BuildCache.Toml.Number
import BuildCache.Toml.Table

/-!
Whole TOML documents: lines of keys and values under headers, read into the table of the root.
-/
namespace BuildCache.Toml

def word (w : String) (item : Item) : Scan Item := fun cs =>
  if w.toList.isPrefixOf cs then some (item, cs.drop w.length) else none

/-- A number or a date, whichever the text is. -/
def numeric : Scan Item := fun cs =>
  match datetime cs with
  | some ((), cs) => some (.datetime, cs)
  | none =>
    match float cs with
    | some ((), cs) => some (.float, cs)
    | none => (integer cs).map fun r => (.integer r.1, r.2)

mutual

/-- A value that lies `depth` brackets deep. -/
def value (depth : Nat) : (fuel : Nat) → Scan Item
  | 0, _ => none
  | _, [] => none
  | fuel + 1, c :: cs =>
    if c = '"' ∨ c = '\'' then (quoted (c :: cs)).map fun r => (.text (String.ofList r.1), r.2)
    else if c = '[' then do
      guard (depth + 1 < depthLimit)
      let (items, cs) ← elements (depth + 1) fuel (skipLayout cs.length cs)
      return (.array items, cs)
    else if c = '\x7b' then do
      guard (depth + 1 < depthLimit)
      match skipBlanks cs with
      | '\x7d' :: cs => return (.table ⟨true, false, false⟩ [], cs)
      | cs =>
        let (t, cs) ← fields (depth + 1) fuel ⟨⟨true, false, false⟩, []⟩ cs
        return (.table t.form t.entries, cs)
    else if c = 't' then word "true" (.boolean true) (c :: cs)
    else if c = 'f' then word "false" (.boolean false) (c :: cs)
    else numeric (c :: cs)

/-- The values of an array, to its end; a comma may stand behind the last one. -/
def elements (depth : Nat) : (fuel : Nat) → Scan (List Item)
  | 0, _ => none
  | _, [] => none
  | fuel + 1, c :: cs =>
    if c = ']' then some ([], cs)
    else do
      let (item, cs) ← value depth fuel (c :: cs)
      match skipLayout cs.length cs with
      | ',' :: cs =>
        let (items, cs) ← elements depth fuel (skipLayout cs.length cs)
        return (item :: items, cs)
      | ']' :: cs => return ([item], cs)
      | _ => none

/-- The fields of an inline table, to its end; none is missing behind a comma. -/
def fields (depth : Nat) : (fuel : Nat) → Table → Scan Table
  | 0, _, _ => none
  | fuel + 1, t, cs => do
    let (name, cs) ← key cs
    let ((), cs) ← mark '=' cs
    let (item, cs) ← value depth fuel (skipBlanks cs)
    let t ← t.addValue name item
    match skipBlanks cs with
    | ',' :: cs => fields depth fuel t cs
    | '\x7d' :: cs => return (t, cs)
    | _ => none

end

/-- One line with a header. -/
def header (d : Draft) : List Char → Option (Draft × List Char)
  | '[' :: '[' :: cs => do
    let (path, cs) ← key cs
    let ((), cs) ← mark ']' cs
    let ((), cs) ← mark ']' cs
    return (← d.openElement path, ← endLine? cs)
  | '[' :: cs => do
    let (path, cs) ← key cs
    let ((), cs) ← mark ']' cs
    return (← d.openTable path, ← endLine? cs)
  | _ => none

/-- One line with a key and its value. -/
def field (d : Draft) (cs : List Char) : Option (Draft × List Char) := do
  let (name, cs) ← key cs
  let ((), cs) ← mark '=' cs
  let cs := skipBlanks cs
  let (item, cs) ← value 0 (2 * cs.length + 1) cs
  return ({ d with current := ← d.current.addValue name item }, ← endLine? cs)

/-- The lines of a document, each of which takes a character at least. -/
def lines : (fuel : Nat) → Draft → List Char → Option Table
  | 0, _, _ => none
  | fuel + 1, d, cs =>
    match skipBlanks cs with
    | [] => d.complete
    | '#' :: cs => do lines fuel d (← endLine? ('#' :: cs))
    | '[' :: cs => do
      let (d, cs) ← header d ('[' :: cs)
      lines fuel d cs
    | c :: cs =>
      match newline? (c :: cs) with
      | some cs => lines fuel d cs
      | none => do
        let (d, cs) ← field d (c :: cs)
        lines fuel d cs

/-- The root table of a document; a byte order mark may come first. -/
def parse (text : String) : Option Table :=
  let cs := match text.toList with
    | '\uFEFF' :: cs => cs
    | cs => cs
  lines (cs.length + 1) .start cs

end BuildCache.Toml
