import BuildCache.Toml.Text

/-!
Numbers and dates of a TOML document. Of a float only its form and that it is not too large are
looked at, of a date that it is on the calendar.
-/
namespace BuildCache.Toml

def isDigitOf (base : Nat) (c : Char) : Bool := (hexValue? c).any (· < base)

/-- Digits of a base with single underscores between them, as their values. -/
def digits (base : Nat) : (fuel : Nat) → Scan (List Nat)
  | 0, _ => none
  | _, [] => none
  | fuel + 1, c :: cs => do
    guard (isDigitOf base c)
    let d ← hexValue? c
    match cs with
    | '_' :: rest =>
      let (ds, rest) ← digits base fuel rest
      return (d :: ds, rest)
    | [] => return ([d], [])
    | next :: _ =>
      if isDigitOf base next then
        let (ds, rest) ← digits base fuel cs
        return (d :: ds, rest)
      else return ([d], cs)

def number (base : Nat) (ds : List Nat) : Nat := ds.foldl (fun n d => base * n + d) 0

def allDigits (base : Nat) (cs : List Char) : Option (List Nat × List Char) :=
  digits base (cs.length + 1) cs

/-- A sign, if there is one: whether it is a minus. -/
def sign : List Char → Bool × List Char
  | '+' :: cs => (false, cs)
  | '-' :: cs => (true, cs)
  | cs => (false, cs)

/-- Decimal digits that do not begin with a zero, unless it is the only one. -/
def decimalDigits : Scan (List Nat)
  | '0' :: cs => some ([0], cs)
  | cs => allDigits 10 cs

def inWord (n : Int) : Bool := -9223372036854775808 ≤ n && n < 9223372036854775808

/-- An integer of 64 bits: decimal with a sign, or in base 16, 8 or 2 without. -/
def integer : Scan Int
  | '0' :: 'x' :: cs => unsigned 16 cs
  | '0' :: 'o' :: cs => unsigned 8 cs
  | '0' :: 'b' :: cs => unsigned 2 cs
  | cs => do
    let (negative, cs) := sign cs
    let (ds, cs) ← decimalDigits cs
    let n : Int := number 10 ds
    let n := if negative then -n else n
    guard (inWord n)
    return (n, cs)
where
  unsigned (base : Nat) : Scan Int := fun cs => do
    let (ds, cs) ← allDigits base cs
    let n : Int := number base ds
    guard (inWord n)
    return (n, cs)

/-- The least number that rounds to infinity: half a unit above the greatest float. -/
def overflowBound : Nat := Nat.pow 2 1024 - Nat.pow 2 970

/-- Whether `ds` times a power of ten, given by its exponent, rounds to infinity. -/
def overflows (ds : List Nat) (exponent : Int) : Bool :=
  let ds := ds.dropWhile (· = 0)
  let magnitude := ds.length + exponent
  if ds.isEmpty || magnitude < 309 then false
  else if 309 < magnitude then true
  else if 0 ≤ exponent then overflowBound ≤ number 10 ds * Nat.pow 10 exponent.toNat
  else overflowBound * Nat.pow 10 (-exponent).toNat ≤ number 10 ds

/-- The exponent of a float, if one follows. -/
def exponent : Scan (Option Int)
  | c :: cs =>
    if c = 'e' ∨ c = 'E' then do
      let (negative, cs) := sign cs
      let (ds, cs) ← allDigits 10 cs
      let n : Int := number 10 ds
      return (some (if negative then -n else n), cs)
    else some (none, c :: cs)
  | [] => some (none, [])

/-- A number with a fraction, an exponent or both. Only positive ones can be too large. -/
def decimalFloat : Scan Unit := fun cs => do
  let (negative, cs) := sign cs
  let (whole, cs) ← decimalDigits cs
  let (fraction, cs, dot) ← match cs with
    | '.' :: cs => do
      let (ds, cs) ← allDigits 10 cs
      pure (ds, cs, true)
    | cs => pure ([], cs, false)
  let (e, cs) ← exponent cs
  guard (dot || e.isSome)
  guard (negative || !overflows (whole ++ fraction) (e.getD 0 - fraction.length))
  return ((), cs)

def specialFloat : Scan Unit := fun cs =>
  match (sign cs).2 with
  | 'i' :: 'n' :: 'f' :: cs => some ((), cs)
  | 'n' :: 'a' :: 'n' :: cs => some ((), cs)
  | _ => none

def float : Scan Unit := fun cs => (decimalFloat cs).orElse fun _ => specialFloat cs

/-- Exactly `count` decimal digits, between two bounds. -/
def fixed (count lo hi : Nat) : Scan Nat := fun cs => do
  let front := cs.take count
  guard (front.length = count)
  guard (front.all (isDigitOf 10))
  let n := number 10 (front.filterMap hexValue?)
  guard (lo ≤ n && n ≤ hi)
  return (n, cs.drop count)

def mark (c : Char) : Scan Unit
  | d :: cs => if d = c then some ((), cs) else none
  | [] => none

def isLeapYear (year : Nat) : Bool := year % 4 = 0 && (year % 100 ≠ 0 || year % 400 = 0)

def daysIn (year month : Nat) : Nat :=
  if month = 2 then (if isLeapYear year then 29 else 28)
  else if month = 4 ∨ month = 6 ∨ month = 9 ∨ month = 11 then 30
  else 31

def date : Scan Unit := fun cs => do
  let (year, cs) ← fixed 4 0 9999 cs
  let ((), cs) ← mark '-' cs
  let (month, cs) ← fixed 2 1 12 cs
  let ((), cs) ← mark '-' cs
  let (_, cs) ← fixed 2 1 (daysIn year month) cs
  return ((), cs)

/-- Hours, minutes and seconds, which may be a leap second and have a fraction. -/
def time : Scan Unit := fun cs => do
  let (_, cs) ← fixed 2 0 23 cs
  let ((), cs) ← mark ':' cs
  let (_, cs) ← fixed 2 0 59 cs
  let ((), cs) ← mark ':' cs
  let (_, cs) ← fixed 2 0 60 cs
  match cs with
  | '.' :: d :: rest => if isDigitOf 10 d then some ((), rest.dropWhile (isDigitOf 10)) else none
  | '.' :: [] => none
  | cs => some ((), cs)

/-- The distance from universal time, if one is given. -/
def offset : Scan Unit
  | 'Z' :: cs => some ((), cs)
  | 'z' :: cs => some ((), cs)
  | c :: cs =>
    if c = '+' ∨ c = '-' then do
      let (_, cs) ← fixed 2 0 23 cs
      let ((), cs) ← mark ':' cs
      let (_, cs) ← fixed 2 0 59 cs
      return ((), cs)
    else some ((), c :: cs)
  | [] => some ((), [])

/-- A date, a time, or both with or without an offset. -/
def datetime : Scan Unit := fun cs =>
  match date cs with
  | none => time cs
  | some ((), rest) =>
    match rest with
    | c :: after =>
      if c = 'T' ∨ c = 't' ∨ c = ' ' then
        match time after with
        | some ((), rest) => offset rest
        | none => some ((), rest)
      else some ((), rest)
    | [] => some ((), [])

end BuildCache.Toml
