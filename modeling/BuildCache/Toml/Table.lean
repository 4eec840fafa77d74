/-!
Values of a TOML document, and how its tables may be built up. A table is remembered with the way
it came about: written inline, only implied by a longer path, or opened by a dotted key. Headers
may fill in implied tables once; dotted keys may add only to tables that dotted keys made.
-/
namespace BuildCache.Toml

/-- How a table came about. -/
structure Form where
  inline : Bool
  implied : Bool
  dotted : Bool
  deriving DecidableEq, Repr, Inhabited

/-- A value. Floating-point numbers and dates are only known to be there. -/
inductive Item
  | text (s : String)
  | integer (n : Int)
  | boolean (b : Bool)
  | float
  | datetime
  | array (items : List Item)
  | table (form : Form) (entries : List (String × Item))
  /-- The tables that one header in double brackets opened, oldest first. -/
  | tables (ts : List (Form × List (String × Item)))
  deriving Repr, Inhabited

structure Table where
  form : Form
  entries : List (String × Item)
  deriving Inhabited

namespace Table

/-- What a header opens: neither inline, nor implied, nor dotted. -/
def opened : Table := ⟨⟨false, false, false⟩, []⟩

def get? (t : Table) (key : String) : Option Item :=
  (t.entries.find? fun e => e.1 = key).map Prod.snd

def set (t : Table) (key : String) (item : Item) : Table :=
  if (t.get? key).isSome then
    { t with entries := t.entries.map fun e => if e.1 = key then (key, item) else e }
  else { t with entries := t.entries ++ [(key, item)] }

def erase (t : Table) (key : String) : Table :=
  { t with entries := t.entries.filter fun e => e.1 ≠ key }

/-- Changes the table at the end of a path. Missing tables on the way are implied ones, `dotted`
if a dotted key makes them; a dotted key does not pass a table that is not implied; of an array
of tables the way leads through the last one. -/
def updateAt {α : Type} (dotted : Bool) (change : Table → Option (Table × α)) :
    List String → Table → Option (Table × α)
  | [], t => change t
  | key :: path, t =>
    match t.get? key with
    | none => do
      let (sub, a) ← updateAt dotted change path ⟨⟨t.form.inline, true, dotted⟩, []⟩
      return (t.set key (.table sub.form sub.entries), a)
    | some (.table form entries) => do
      guard (form.inline = t.form.inline)
      guard (!dotted || form.implied)
      let (sub, a) ← updateAt dotted change path ⟨form, entries⟩
      return (t.set key (.table sub.form sub.entries), a)
    | some (.tables ts) => do
      let last ← ts.getLast?
      let (sub, a) ← updateAt dotted change path ⟨last.1, last.2⟩
      return (t.set key (.tables (ts.dropLast ++ [(sub.form, sub.entries)])), a)
    | some _ => none

/-- Adds a value under a key, which may be dotted and must be new. -/
def addValue (t : Table) (key : List String) (item : Item) : Option Table := do
  let name ← key.getLast?
  let path := key.dropLast
  let add (t : Table) : Option (Table × Unit) := do
    guard (t.form.dotted = !path.isEmpty)
    guard (t.get? name).isNone
    return (t.set name item, ())
  return (← t.updateAt (!path.isEmpty) add path).1

end Table

/-- A document while it is read: what is complete, and the table that lines add to. -/
structure Draft where
  root : Table
  current : Table
  /-- Where the current table belongs; empty for the root. -/
  path : List String
  /-- Whether the current table is one more of an array of tables. -/
  isElement : Bool

namespace Draft

def start : Draft := ⟨.opened, .opened, [], false⟩

/-- The root with the current table in its place. -/
def complete (d : Draft) : Option Table :=
  match d.path.getLast? with
  | none => some d.current
  | some name => do
    let current := d.current
    let settle (parent : Table) : Option (Table × Unit) :=
      match d.isElement, parent.get? name with
      | true, none => some (parent.set name (.tables [(current.form, current.entries)]), ())
      | true, some (.tables ts) =>
        some (parent.set name (.tables (ts ++ [(current.form, current.entries)])), ())
      | true, some _ => none
      | false, none => some (parent.set name (.table current.form current.entries), ())
      | false, some (.table form _) =>
        if form.implied && !form.inline then
          some (parent.set name (.table current.form current.entries), ())
        else none
      | false, some _ => none
    return (← d.root.updateAt false settle d.path.dropLast).1

/-- Goes on with the table of a header, which may only have been implied so far. -/
def openTable (d : Draft) (path : List String) : Option Draft := do
  let root ← d.complete
  let name ← path.getLast?
  let claim (parent : Table) : Option (Table × List (String × Item)) :=
    match parent.get? name with
    | none => some (parent, [])
    | some (.table form entries) =>
      if form.implied && !form.dotted && !form.inline then some (parent.erase name, entries)
      else none
    | some _ => none
  let (root, entries) ← root.updateAt false claim path.dropLast
  return ⟨root, { Table.opened with entries }, path, false⟩

/-- Goes on with a new table of an array of tables. -/
def openElement (d : Draft) (path : List String) : Option Draft := do
  let root ← d.complete
  let name ← path.getLast?
  let claim (parent : Table) : Option (Table × Unit) :=
    match parent.get? name with
    | none => some (parent.set name (.tables []), ())
    | some (.tables _) => some (parent, ())
    | some _ => none
  let (root, ()) ← root.updateAt false claim path.dropLast
  return ⟨root, .opened, path, true⟩

end Draft
end BuildCache.Toml
