import BuildCache.Bytes

/-!
The 128-bit XXH3 checksum with seed 0, over words of 64 bits. Inputs of up to 16, 128 and 240
bytes are mixed directly with the secret; longer ones run through eight accumulators, a stripe of
64 bytes at a time.
-/
namespace BuildCache

/-- A checksum: the low and the high word of the 128-bit value. -/
structure Checksum where
  low : UInt64
  high : UInt64
  deriving DecidableEq, Repr, Inhabited

namespace Checksum

/-- The sixteen bytes of the value, least significant first. -/
def bytes (c : Checksum) : Bytes :=
  Bytes.ofNatLE 8 c.low.toNat ++ Bytes.ofNatLE 8 c.high.toNat

def ofBytes (bs : Bytes) : Checksum :=
  ⟨UInt64.ofNat (Bytes.toNatLE (bs.take 8)), UInt64.ofNat (Bytes.toNatLE (bs.drop 8))⟩

def text (c : Checksum) : String := c.bytes.hex

def prime32x1 : UInt64 := 0x9E3779B1
def prime32x2 : UInt64 := 0x85EBCA77
def prime32x3 : UInt64 := 0xC2B2AE3D
def prime64x1 : UInt64 := 0x9E3779B185EBCA87
def prime64x2 : UInt64 := 0xC2B2AE3D27D4EB4F
def prime64x3 : UInt64 := 0x165667B19E3779F9
def prime64x4 : UInt64 := 0x85EBCA77C2B2AE63
def prime64x5 : UInt64 := 0x27D4EB2F165667C5
def mixer1 : UInt64 := 0x165667919E3779F9
def mixer2 : UInt64 := 0x9FB21C651E98DF25

/-- The 192 secret bytes that every input is mixed with. -/
def secret : Array UInt8 := #[
  0xb8, 0xfe, 0x6c, 0x39, 0x23, 0xa4, 0x4b, 0xbe, 0x7c, 0x01, 0x81, 0x2c, 0xf7, 0x21, 0xad, 0x1c,
  0xde, 0xd4, 0x6d, 0xe9, 0x83, 0x90, 0x97, 0xdb, 0x72, 0x40, 0xa4, 0xa4, 0xb7, 0xb3, 0x67, 0x1f,
  0xcb, 0x79, 0xe6, 0x4e, 0xcc, 0xc0, 0xe5, 0x78, 0x82, 0x5a, 0xd0, 0x7d, 0xcc, 0xff, 0x72, 0x21,
  0xb8, 0x08, 0x46, 0x74, 0xf7, 0x43, 0x24, 0x8e, 0xe0, 0x35, 0x90, 0xe6, 0x81, 0x3a, 0x26, 0x4c,
  0x3c, 0x28, 0x52, 0xbb, 0x91, 0xc3, 0x00, 0xcb, 0x88, 0xd0, 0x65, 0x8b, 0x1b, 0x53, 0x2e, 0xa3,
  0x71, 0x64, 0x48, 0x97, 0xa2, 0x0d, 0xf9, 0x4e, 0x38, 0x19, 0xef, 0x46, 0xa9, 0xde, 0xac, 0xd8,
  0xa8, 0xfa, 0x76, 0x3f, 0xe3, 0x9c, 0x34, 0x3f, 0xf9, 0xdc, 0xbb, 0xc7, 0xc7, 0x0b, 0x4f, 0x1d,
  0x8a, 0x51, 0xe0, 0x4b, 0xcd, 0xb4, 0x59, 0x31, 0xc8, 0x9f, 0x7e, 0xc9, 0xd9, 0x78, 0x73, 0x64,
  0xea, 0xc5, 0xac, 0x83, 0x34, 0xd3, 0xeb, 0xc3, 0xc5, 0x81, 0xa0, 0xff, 0xfa, 0x13, 0x63, 0xeb,
  0x17, 0x0d, 0xdd, 0x51, 0xb7, 0xf0, 0xda, 0x49, 0xd3, 0x16, 0x55, 0x26, 0x29, 0xd4, 0x68, 0x9e,
  0x2b, 0x16, 0xbe, 0x58, 0x7d, 0x47, 0xa1, 0xfc, 0x8f, 0xf8, 0xb8, 0xd1, 0x7a, 0xd0, 0x31, 0xce,
  0x45, 0xcb, 0x3a, 0x8f, 0x95, 0x16, 0x04, 0x28, 0xaf, 0xd7, 0xfb, 0xca, 0xbb, 0x4b, 0x40, 0x7e]

/-- The byte at `i`, zero beyond the end; every reader below stays inside. -/
def byteAt (data : Array UInt8) (i : Nat) : UInt64 := (data.getD i 0).toUInt64

/-- The 32-bit word at `i`. -/
def word32 (data : Array UInt8) (i : Nat) : UInt64 :=
  byteAt data i ||| byteAt data (i + 1) <<< 8 ||| byteAt data (i + 2) <<< 16 |||
    byteAt data (i + 3) <<< 24

/-- The 64-bit word at `i`. -/
def word64 (data : Array UInt8) (i : Nat) : UInt64 :=
  word32 data i ||| word32 data (i + 4) <<< 32

def lowHalf (x : UInt64) : UInt64 := x &&& 0xffffffff

/-- The four low bytes in opposite order. -/
def swap32 (x : UInt64) : UInt64 :=
  (x &&& 0xff) <<< 24 ||| (x >>> 8 &&& 0xff) <<< 16 ||| (x >>> 16 &&& 0xff) <<< 8 |||
    (x >>> 24 &&& 0xff)

/-- The eight bytes in opposite order. -/
def swap64 (x : UInt64) : UInt64 := swap32 x <<< 32 ||| swap32 (x >>> 32)

/-- The full product of two words, as its low and high word. -/
def wideMul (a b : UInt64) : Checksum :=
  let p := a.toNat * b.toNat
  ⟨UInt64.ofNat p, UInt64.ofNat (p / UInt64.size)⟩

def foldMul (a b : UInt64) : UInt64 :=
  let p := wideMul a b
  p.low ^^^ p.high

/-- The stronger finishing step, for inputs of at most three bytes. -/
def scramble (h : UInt64) : UInt64 :=
  let h := (h ^^^ h >>> 33) * prime64x2
  let h := (h ^^^ h >>> 29) * prime64x3
  h ^^^ h >>> 32

/-- The finishing step of all longer inputs. -/
def finish (h : UInt64) : UInt64 :=
  let h := (h ^^^ h >>> 37) * mixer1
  h ^^^ h >>> 32

def ofEmpty : Checksum :=
  ⟨scramble (word64 secret 64 ^^^ word64 secret 72),
    scramble (word64 secret 80 ^^^ word64 secret 88)⟩

def ofUpTo3 (d : Array UInt8) : Checksum :=
  let n := d.size
  let low := byteAt d 0 <<< 16 ||| byteAt d (n / 2) <<< 24 ||| byteAt d (n - 1) |||
    n.toUInt64 <<< 8
  let s := swap32 low
  let high := lowHalf (s <<< 13 ||| s >>> 19)
  ⟨scramble (low ^^^ (word32 secret 0 ^^^ word32 secret 4)),
    scramble (high ^^^ (word32 secret 8 ^^^ word32 secret 12))⟩

def ofUpTo8 (d : Array UInt8) : Checksum :=
  let n := d.size
  let both := word32 d 0 + word32 d (n - 4) <<< 32
  let keyed := both ^^^ (word64 secret 16 ^^^ word64 secret 24)
  let m := wideMul keyed (prime64x1 + n.toUInt64 <<< 2)
  let high := m.high + m.low <<< 1
  let low := m.low ^^^ high >>> 3
  let low := (low ^^^ low >>> 35) * mixer2
  ⟨low ^^^ low >>> 28, finish high⟩

def ofUpTo16 (d : Array UInt8) : Checksum :=
  let n := d.size
  let first := word64 d 0
  let last := word64 d (n - 8)
  let m := wideMul (first ^^^ last ^^^ (word64 secret 32 ^^^ word64 secret 40)) prime64x1
  let low := m.low + (n.toUInt64 - 1) <<< 54
  let last := last ^^^ (word64 secret 48 ^^^ word64 secret 56)
  let high := m.high + (last + lowHalf last * (prime32x2 - 1))
  let low := low ^^^ swap64 high
  let h := wideMul low prime64x2
  ⟨finish h.low, finish (h.high + high * prime64x2)⟩

def mix16 (d : Array UInt8) (i s : Nat) : UInt64 :=
  foldMul (word64 d i ^^^ word64 secret s) (word64 d (i + 8) ^^^ word64 secret (s + 8))

/-- Mixes the sixteen bytes at `i` and at `j` into the pair. -/
def mix32 (acc : Checksum) (d : Array UInt8) (i j s : Nat) : Checksum :=
  ⟨(acc.low + mix16 d i s) ^^^ (word64 d j + word64 d (j + 8)),
    (acc.high + mix16 d j (s + 16)) ^^^ (word64 d i + word64 d (i + 8))⟩

def finishPair (acc : Checksum) (n : Nat) : Checksum :=
  ⟨finish (acc.low + acc.high),
    0 - finish (acc.low * prime64x1 + acc.high * prime64x4 + n.toUInt64 * prime64x2)⟩

/-- From both ends towards the middle, in steps of sixteen bytes. -/
def ofUpTo128 (d : Array UInt8) : Checksum :=
  let n := d.size
  let steps := (n - 1) / 32 + 1
  let acc := (List.range steps).reverse.foldl
    (fun acc k => mix32 acc d (16 * k) (n - 16 * (k + 1)) (32 * k))
    ⟨n.toUInt64 * prime64x1, 0⟩
  finishPair acc n

def ofUpTo240 (d : Array UInt8) : Checksum :=
  let n := d.size
  let acc := (List.range 4).foldl
    (fun acc k => mix32 acc d (32 * k) (32 * k + 16) (32 * k))
    ⟨n.toUInt64 * prime64x1, 0⟩
  let acc := (List.range (n / 32 - 4)).foldl
    (fun acc k => mix32 acc d (128 + 32 * k) (144 + 32 * k) (3 + 32 * k))
    ⟨finish acc.low, finish acc.high⟩
  finishPair (mix32 acc d (n - 16) (n - 32) 103) n

/-- The eight accumulators of the stripe loop. -/
abbrev Lanes := Array UInt64

def initialLanes : Lanes :=
  #[prime32x3, prime64x1, prime64x2, prime64x3, prime64x4, prime32x2, prime64x5, prime32x1]

/-- One stripe of 64 bytes at `i`: each lane takes its neighbour's word and its own product. -/
def addStripe (acc : Lanes) (d : Array UInt8) (i s : Nat) : Lanes :=
  (Array.range 8).map fun (lane : Nat) =>
    let other := if lane % 2 = 0 then lane + 1 else lane - 1
    let keyed := word64 d (i + 8 * lane) ^^^ word64 secret (s + 8 * lane)
    acc.getD lane 0 + word64 d (i + 8 * other) + lowHalf keyed * (keyed >>> 32)

def scrambleLanes (acc : Lanes) : Lanes :=
  acc.mapIdx fun lane (x : UInt64) =>
    ((x ^^^ x >>> 47) ^^^ word64 secret (128 + 8 * lane)) * prime32x1

def addStripes (acc : Lanes) (d : Array UInt8) (start count : Nat) : Lanes :=
  (List.range count).foldl (fun acc k => addStripe acc d (start + 64 * k) (8 * k)) acc

def mergeLanes (acc : Lanes) (s : Nat) (start : UInt64) : UInt64 :=
  finish ((List.range 4).foldl (fun r k => r + foldMul
    (acc.getD (2 * k) 0 ^^^ word64 secret (s + 16 * k))
    (acc.getD (2 * k + 1) 0 ^^^ word64 secret (s + 16 * k + 8))) start)

/-- Blocks of sixteen stripes, the stripes left over, and the last 64 bytes once more. -/
def ofLong (d : Array UInt8) : Checksum :=
  let n := d.size
  let blocks := (n - 1) / 1024
  let acc := (List.range blocks).foldl
    (fun acc b => scrambleLanes (addStripes acc d (1024 * b) 16)) initialLanes
  let acc := addStripes acc d (1024 * blocks) ((n - 1 - 1024 * blocks) / 64)
  let acc := addStripe acc d (n - 64) 121
  ⟨mergeLanes acc 11 (n.toUInt64 * prime64x1),
    mergeLanes acc 117 (~~~(n.toUInt64 * prime64x2))⟩

def ofArray (d : Array UInt8) : Checksum :=
  if d.size = 0 then ofEmpty
  else if d.size ≤ 3 then ofUpTo3 d
  else if d.size ≤ 8 then ofUpTo8 d
  else if d.size ≤ 16 then ofUpTo16 d
  else if d.size ≤ 128 then ofUpTo128 d
  else if d.size ≤ 240 then ofUpTo240 d
  else ofLong d

end Checksum

/-- The checksum of a byte string. -/
def Bytes.checksum (bs : Bytes) : Checksum := Checksum.ofArray bs.toArray

end BuildCache
