import BuildCache.Command

/-!
The command line tool. Every request of a command's program is answered by the operating system;
nothing else happens here.
-/
namespace BuildCache.Tool

/-- The cause of a refused operation. -/
def cause (e : IO.Error) : OsError :=
  match e with
  | .noFileOrDirectory .. => .notFound
  | .resourceBusy 16 _ => .busy
  | .alreadyExists _ 17 _ => .alreadyExists
  | .unsatisfiedConstraints 39 _ => .notEmpty
  | .inappropriateType _ 20 _ => .notDirectory
  | .inappropriateType _ 21 _ => .isDirectory
  | .invalidArgument _ 22 _ => .invalidArgument
  | .invalidArgument _ 36 _ => .nameTooLong
  | e => .described (toString e)

/-- The open files, by their handles. -/
abbrev Files := Array IO.FS.Handle

abbrev Run := StateT Files IO

def attempt {α : Type} (act : IO α) : Run (Except OsError α) := do
  match ← act.toBaseIO with
  | .ok a => return .ok a
  | .error e => return .error (cause e)

def readAll (p : Path) : IO Bytes := do return (← IO.FS.readBinFile p.text).toList

/-- How long a file is; a directory has a size too. -/
def sizeOf (p : Path) : Run (Except OsError Nat) := do
  match ← attempt (readAll p) with
  | .ok bs => return .ok bs.length
  | .error .isDirectory => return .ok Disk.directorySize
  | .error e => return .error e

def isDir (p : Path) : Run Bool := do
  match ← attempt (readAll p) with
  | .error .isDirectory => return true
  | _ => return false

def open? (p : Path) (mode : IO.FS.Mode) : Run (Except OsError Handle) := do
  match ← attempt (IO.FS.Handle.mk p.text mode) with
  | .error e => return .error e
  | .ok file =>
    let files ← get
    set (files.push file)
    return .ok files.size

def onFile (h : Handle) (act : IO.FS.Handle → IO Unit) : Run (Except OsError Unit) := do
  match (← get)[h]? with
  | none => return .error .notFound
  | some file => attempt (act file)

def writeAll (bs : Bytes) (file : IO.FS.Handle) : IO Unit := do
  file.write bs.toByteArray
  file.flush

def answer : (r : Request) → Run r.Reply
  | .read p => attempt (readAll p)
  | .size p => sizeOf p
  | .openJournal p => do
    match ← open? p .append with
    | .error e => return .error e
    | .ok h => return (← sizeOf p).map fun length => (h, length)
  | .create p => open? p .write
  | .append h bs => onFile h (writeAll bs)
  | .sync h => onFile h IO.FS.Handle.flush
  | .rename source target => attempt (IO.FS.rename source.text target.text)
  | .removeFile p => attempt (IO.FS.removeFile p.text)
  | .makeDir p => attempt (IO.FS.createDir p.text)
  | .isDir p => isDir p
  | .removeTree p => attempt (IO.FS.removeDirAll p.text)
  | .wallTime => do return Int.ofNat (← IO.monoNanosNow)
  | .tick => IO.monoNanosNow
  | .order _ => return []

def perform {α : Type} : Program α → Run α
  | .done a => return a
  | .ask r next => do perform (next (← answer r))

def run (args : List String) : IO UInt32 := do
  let here : Surroundings :=
    { cwd := ⟨(← IO.currentDir).toString⟩, terminal := ← (← IO.getStderr).isTty }
  let (outcome, _) ← (perform (CommandLine.run args here)).run #[]
  IO.print outcome.stdout
  IO.eprint outcome.stderr
  return outcome.code.toUInt32

end BuildCache.Tool

def main (args : List String) : IO UInt32 := BuildCache.Tool.run args
