/-!
Two readings of time: the wall clock, in nanoseconds from the Unix epoch and free to jump, and a
tick counter of 64 bits that says when an interval is over.
-/
namespace BuildCache

/-- The greatest tick. -/
def maxTick : Nat := UInt64.size - 1

def nanosPerMilli : Nat := 1000000

/-- Milliseconds from an earlier to a later reading of the wall clock, none if it went back. -/
def elapsedMillis (before after : Int) : Nat := (after - before).toNat / nanosPerMilli

/-- A clock that moves when it is told to. The wall moves by `wallStep` before each look at it. -/
structure Clock where
  wall : Int
  tick : Nat
  wallStep : Int
  deriving Repr

namespace Clock

/-- Both readings move on, by `maxTick` at most; the counter starts again above `maxTick`. -/
def advance (c : Clock) (nanos : Nat) : Clock :=
  { c with tick := (c.tick + min nanos maxTick) % (maxTick + 1) }

/-- The wall time is `wall` plus the ticks. -/
def look (c : Clock) : Int × Clock :=
  let c := { c with wall := c.wall + c.wallStep }
  (c.wall + c.tick, c)

end Clock

/-- Fires at most once per interval: first one interval after it was made, then one interval
after each firing. -/
structure Gate where
  interval : Nat
  due : Nat
  deriving DecidableEq, Repr

namespace Gate

/-- The tick one interval later, at most the greatest one. -/
def after (interval now : Nat) : Nat := min (now + interval) maxTick

def start (interval now : Nat) : Gate := ⟨interval, after interval now⟩

def tryFire (g : Gate) (now : Nat) : Bool × Gate :=
  if now < g.due then (false, g) else (true, { g with due := after g.interval now })

end Gate
end BuildCache
