import BuildCache.Bytes
import BuildCache.Path
import BuildCache.Table

/-!
A file tree as a value. Every node has a place, the names on the way to it from the root; a file
has an identity of its own, so that an open handle keeps meaning the same file when it is renamed,
and nothing any more once it is deleted. Each operation changes the tree in one step or refuses
with the system's cause.
-/
namespace BuildCache

/-- Why the system refuses a file operation. -/
inductive OsError
  | notFound
  | busy
  | alreadyExists
  | notDirectory
  | isDirectory
  | invalidArgument
  | nameTooLong
  | notEmpty
  | nulInPath
  | notUtf8
  /-- A cause of which only the text is known. -/
  | described (text : String)
  deriving DecidableEq, Repr

namespace OsError

def message : OsError → String
  | notFound => "No such file or directory (os error 2)"
  | busy => "Device or resource busy (os error 16)"
  | alreadyExists => "File exists (os error 17)"
  | notDirectory => "Not a directory (os error 20)"
  | isDirectory => "Is a directory (os error 21)"
  | invalidArgument => "Invalid argument (os error 22)"
  | nameTooLong => "File name too long (os error 36)"
  | notEmpty => "Directory not empty (os error 39)"
  | nulInPath => "file name contained an unexpected NUL byte"
  | notUtf8 => "stream did not contain valid UTF-8"
  | described text => text

end OsError

/-- The names on the way from the root to a node. -/
abbrev Place := List String

/-- What an open file is known by. -/
abbrev Handle := Nat

inductive Node
  | dir
  | file (handle : Handle) (content : Bytes)
  deriving DecidableEq, Repr

structure Disk where
  nodes : Table Place Node
  /-- The identity of the next new file. -/
  fresh : Handle
  deriving Repr

/-- What the last component of a path stands for. -/
inductive Target
  /-- The place of that name, which need not exist. After a slash only a directory will do. -/
  | named (place : Place) (slash : Bool)
  /-- A directory that is there by being on the way; removing it is refused with `refusal`. -/
  | onTheWay (place : Place) (refusal : OsError)
  deriving DecidableEq, Repr

def Target.place : Target → Place
  | named place _ | onTheWay place _ => place

namespace Disk

def empty : Disk := ⟨[], 0⟩

/-- The node at a place; the root is always a directory. -/
def node? (d : Disk) (p : Place) : Option Node :=
  if p = [] then some .dir else d.nodes.get? p

def put (d : Disk) (p : Place) (n : Node) : Disk := { d with nodes := d.nodes.insert p n }

/-- The longest name, and the longest path, that the system takes, in bytes. -/
def nameLimit : Nat := 255

def pathLimit : Nat := 4095

/-- Looks for a node by the names on the way to it. -/
def lookup (d : Disk) (p : Place) : Except OsError (Option Node) :=
  if p.any fun name => nameLimit < name.utf8ByteSize then .error .nameTooLong else .ok (d.node? p)

/-- Follows names, each of which must be a directory. -/
def walk (d : Disk) (here : Place) : List String → Except OsError Place
  | [] => .ok here
  | s :: ss =>
    if s = "" ∨ s = "." then walk d here ss
    else if s = ".." then walk d here.dropLast ss
    else match d.lookup (here ++ [s]) with
      | .error e => .error e
      | .ok none => .error .notFound
      | .ok (some (.file ..)) => .error .notDirectory
      | .ok (some .dir) => walk d (here ++ [s]) ss

/-- What a path stands for, seen from the directory `cwd`. -/
def resolve (d : Disk) (cwd : Place) (p : Path) : Except OsError Target :=
  if p.text = "" then .error .notFound
  else if p.text.toList.contains '\x00' then .error .nulInPath
  else if pathLimit < p.text.utf8ByteSize then .error .nameTooLong
  else
    let segments := p.segments
    let solid := (segments.reverse.dropWhile (· = "")).reverse
    let start := if p.isAbsolute then [] else cwd
    match solid.getLast? with
    | none => .ok (.onTheWay [] .busy)
    | some last => do
      let parent ← walk d start solid.dropLast
      if last = "." then return .onTheWay parent .invalidArgument
      else if last = ".." then return .onTheWay parent.dropLast .notEmpty
      else if d.node? parent ≠ some .dir then throw .notFound
      else return .named (parent ++ [last]) (solid.length < segments.length)

/-- The node that a path leads to. -/
def find (d : Disk) (cwd : Place) (p : Path) : Except OsError Node := do
  match ← d.resolve cwd p with
  | .onTheWay .. => return .dir
  | .named place slash =>
    match ← d.lookup place with
    | none => throw .notFound
    | some .dir => return .dir
    | some n => if slash then throw .notDirectory else return n

def read (d : Disk) (cwd : Place) (p : Path) : Except OsError Bytes := do
  match ← d.find cwd p with
  | .dir => throw .isDirectory
  | .file _ content => return content

/-- The size that the system reports for every directory. -/
def directorySize : Nat := 4096

def size (d : Disk) (cwd : Place) (p : Path) : Except OsError Nat := do
  match ← d.find cwd p with
  | .dir => return directorySize
  | .file _ content => return content.length

def isDir (d : Disk) (cwd : Place) (p : Path) : Bool :=
  match d.find cwd p with
  | .ok .dir => true
  | _ => false

/-- Opens a file for writing, making it if need be; `keep` says what stays of its content. -/
def openFile (d : Disk) (cwd : Place) (p : Path) (keep : Bytes → Bytes) :
    Except OsError ((Handle × Nat) × Disk) := do
  match ← d.resolve cwd p with
  | .onTheWay .. => throw .isDirectory
  | .named place slash =>
    if slash then throw .isDirectory
    match ← d.lookup place with
    | some .dir => throw .isDirectory
    | some (.file h content) =>
      return ((h, (keep content).length), d.put place (.file h (keep content)))
    | none => return ((d.fresh, 0), { d.put place (.file d.fresh []) with fresh := d.fresh + 1 })

/-- Adds bytes at the end of an open file, if it still has a place. -/
def append (d : Disk) (h : Handle) (bs : Bytes) : Disk :=
  { d with nodes := d.nodes.map fun
      | (p, .file h' content) => (p, .file h' (if h' = h then content ++ bs else content))
      | e => e }

def removeFile (d : Disk) (cwd : Place) (p : Path) : Except OsError Disk := do
  match ← d.resolve cwd p with
  | .onTheWay .. => throw .isDirectory
  | .named place slash =>
    match ← d.lookup place with
    | none => throw .notFound
    | some .dir => throw .isDirectory
    | some (.file ..) =>
      if slash then throw .notDirectory
      return { d with nodes := d.nodes.erase place }

/-- Without the nodes that `drop` says, by their place. -/
def dropWhere (d : Disk) (drop : Place → Bool) : Disk :=
  { d with nodes := d.nodes.filter fun e => !drop e.1 }

/-- Whether the second place lies strictly under the first. -/
def isUnder (p q : Place) : Bool := p.isPrefixOf q && decide (p.length < q.length)

/-- Removes a directory with all that is in it, and that first. The directory stays where the
path leads to it no more, because it goes through what was removed. -/
def removeTree (d : Disk) (cwd : Place) (p : Path) : Except OsError Unit × Disk :=
  match d.resolve cwd p, d.find cwd p with
  | .error e, _ | _, .error e => (.error e, d)
  | _, .ok (.file ..) => (.error .notDirectory, d)
  | .ok target, .ok .dir =>
    let emptied := d.dropWhere (isUnder target.place)
    match emptied.resolve cwd p with
    | .error .notFound => (.ok (), emptied)
    | .error e => (.error e, emptied)
    | .ok (.onTheWay _ refusal) => (.error refusal, emptied)
    | .ok (.named place _) => (.ok (), { emptied with nodes := emptied.nodes.erase place })

def makeDir (d : Disk) (cwd : Place) (p : Path) : Except OsError Disk := do
  match ← d.resolve cwd p with
  | .onTheWay .. => throw .alreadyExists
  | .named place _ =>
    match ← d.lookup place with
    | some _ => throw .alreadyExists
    | none => return d.put place .dir

/-- The place that takes over from `q` when the node at `a` moves to `b`. -/
def moved (a b q : Place) : Place := if a.isPrefixOf q then b ++ q.drop a.length else q

/-- Moves a node with all that is in it. It replaces a file, or an empty directory. -/
def rename (d : Disk) (cwd : Place) (source target : Path) : Except OsError Disk := do
  match ← d.resolve cwd source, ← d.resolve cwd target with
  | .named a slashA, .named b slashB =>
    let move (d : Disk) : Disk :=
      { d with nodes := d.nodes.map fun e => (moved a b e.1, e.2) }
    let some node ← d.lookup a | throw .notFound
    let replaced ← d.lookup b
    match node with
    | .file .. =>
      if slashA || slashB then throw .notDirectory
      if isUnder b a then throw .notEmpty
      match replaced with
      | some .dir => throw .isDirectory
      | _ => return if a = b then d else move { d with nodes := d.nodes.erase b }
    | .dir =>
      if isUnder a b then throw .invalidArgument
      if isUnder b a then throw .notEmpty
      if a = b then return d
      match replaced with
      | some (.file ..) => throw .notDirectory
      | some .dir =>
        if d.nodes.any fun e => isUnder b e.1 then throw .notEmpty
        return move { d with nodes := d.nodes.erase b }
      | none => return move d
  | _, _ => throw .busy

/-- Puts a whole file in place, as one outside the store would. -/
def writeFile (d : Disk) (cwd : Place) (p : Path) (bs : Bytes) : Except OsError Disk :=
  (d.openFile cwd p fun _ => []).map fun r => r.2.append r.1.1 bs

end Disk
end BuildCache
