import BuildCache.Clock
import BuildCache.Disk

/-!
Programs over files and clocks. A program is a tree of single requests to its host, each followed
by what to do with the answer; it is a value, and nothing happens until a host answers. Running on
a host with a disk and a clock is one such reading; what can go wrong between two requests, or at
one of them, is a statement about the same tree.
-/
namespace BuildCache

/-- One thing a program can ask of its host. -/
inductive Request
  | read (p : Path)
  | size (p : Path)
  /-- Opens for appending, making the file if need be; answers also how long it is. -/
  | openJournal (p : Path)
  /-- Opens for writing from the start, making or emptying the file. -/
  | create (p : Path)
  | append (h : Handle) (bs : Bytes)
  | sync (h : Handle)
  | rename (source target : Path)
  | removeFile (p : Path)
  | makeDir (p : Path)
  | isDir (p : Path)
  | removeTree (p : Path)
  | wallTime
  | tick
  /-- In which order a table of that many entries is walked. -/
  | order (count : Nat)

/-- The type of the answer to a request. -/
abbrev Request.Reply : Request → Type
  | .read _ => Except OsError Bytes
  | .size _ => Except OsError Nat
  | .openJournal _ => Except OsError (Handle × Nat)
  | .create _ => Except OsError Handle
  | .append .. | .sync _ | .rename .. | .removeFile _ | .makeDir _ | .removeTree _ =>
    Except OsError Unit
  | .isDir _ => Bool
  | .wallTime => Int
  | .tick => Nat
  | .order _ => List Nat

inductive Program (α : Type) : Type
  | done (a : α)
  | ask (r : Request) (next : r.Reply → Program α)

namespace Program
variable {α β γ : Type}

def bind : Program α → (α → Program β) → Program β
  | done a, f => f a
  | ask r next, f => ask r fun reply => bind (next reply) f

instance : Monad Program where
  pure := done
  bind := bind

@[simp] theorem pure_bind (a : α) (f : α → Program β) : (pure a : Program α) >>= f = f a := rfl

@[simp] theorem ask_bind (r : Request) (next : r.Reply → Program α) (f : α → Program β) :
    ask r next >>= f = ask r fun reply => next reply >>= f := rfl

theorem bind_done (x : Program α) : x >>= done = x := by
  induction x with
  | done a => rfl
  | ask r next ih => exact congrArg (ask r) (funext ih)

theorem bind_assoc (x : Program α) (f : α → Program β) (g : β → Program γ) :
    x >>= f >>= g = x >>= fun a => f a >>= g := by
  induction x with
  | done a => rfl
  | ask r next ih => exact congrArg (ask r) (funext ih)

/-- A single request. -/
def request (r : Request) : Program r.Reply := ask r done

/-- A list in another order: each element goes that many places into the others, once these are
arranged. Without places the order stays. -/
def arrange : List Nat → List α → List α
  | place :: places, a :: as => (arrange places as).insertIdx (min place as.length) a
  | _, as => as

/-- The entries of a table in an order of the host's choosing. -/
def walk (as : List α) : Program (List α) := do
  return arrange (← request (.order as.length)) as

/-- Makes a directory; one that is there already will do. -/
def makeDir (p : Path) : Program (Except OsError Unit) := do
  match ← request (.makeDir p) with
  | .ok () => return .ok ()
  | .error e => if ← request (.isDir p) then return .ok () else return .error e

/-- Makes a directory, its parents first where the system does not find them. The text of a
parent is shorter, so that `fuel` above the length of the text is enough. -/
def makeDirsFrom : (fuel : Nat) → Path → Program (Except OsError Unit)
  | 0, _ => return .error .notFound
  | fuel + 1, p => do
    if p.text = "" then return .ok ()
    match ← makeDir p with
    | .error .notFound =>
      match p.parent? with
      | none => return .error .notFound
      | some parent =>
        match ← makeDirsFrom fuel parent with
        | .ok () => makeDir p
        | .error e => return .error e
    | result => return result

def makeDirs (p : Path) : Program (Except OsError Unit) := makeDirsFrom (p.text.length + 1) p

end Program

/-- What answers the requests of a program. Relative paths are seen from `cwd`. -/
structure Host where
  disk : Disk
  cwd : Place
  clock : Clock
  deriving Repr

namespace Host

/-- Keeps the disk as it is when the operation was refused. -/
def change {α : Type} (h : Host) : Except OsError (α × Disk) → Except OsError α × Host
  | .ok (a, d) => (.ok a, { h with disk := d })
  | .error e => (.error e, h)

def answer (h : Host) : (r : Request) → r.Reply × Host
  | .read p => (h.disk.read h.cwd p, h)
  | .size p => (h.disk.size h.cwd p, h)
  | .openJournal p => h.change (h.disk.openFile h.cwd p id)
  | .create p => h.change ((h.disk.openFile h.cwd p fun _ => []).map fun r => (r.1.1, r.2))
  | .append f bs => (.ok (), { h with disk := h.disk.append f bs })
  | .sync _ => (.ok (), h)
  | .rename a b => h.change ((h.disk.rename h.cwd a b).map fun d => ((), d))
  | .removeFile p => h.change ((h.disk.removeFile h.cwd p).map fun d => ((), d))
  | .makeDir p => h.change ((h.disk.makeDir h.cwd p).map fun d => ((), d))
  | .isDir p => (h.disk.isDir h.cwd p, h)
  | .removeTree p => let r := h.disk.removeTree h.cwd p; (r.1, { h with disk := r.2 })
  | .wallTime => let r := h.clock.look; (r.1, { h with clock := r.2 })
  | .tick => (h.clock.tick, h)
  | .order _ => ([], h)

end Host

namespace Program
variable {α β : Type}

/-- The run on a host that answers every request. -/
def run : Program α → Host → α × Host
  | done a, h => (a, h)
  | ask r next, h => let a := h.answer r; run (next a.1) a.2

@[simp] theorem run_pure (a : α) (h : Host) : run (pure a) h = (a, h) := rfl

@[simp] theorem run_bind (x : Program α) (f : α → Program β) (h : Host) :
    run (x >>= f) h = run (f (run x h).1) (run x h).2 := by
  induction x generalizing h with
  | done a => rfl
  | ask r next ih => exact ih _ _

@[simp] theorem run_request (r : Request) (h : Host) : run (request r) h = h.answer r := rfl

end Program
end BuildCache
