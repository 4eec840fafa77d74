import BuildCache.Bytes

/-!
What the cache remembers of one action: the key and digests it ran under, the inputs it found, and
the remote metadata of each file and tree it left behind. Outputs are listed by path in ascending
order, each path once.
-/
namespace BuildCache

/-- A point in time, in nanoseconds from the Unix epoch. -/
abbrev Instant := Int

namespace Instant

def nanosPerMillisecond : Nat := 1000000

/-- Whole milliseconds since the epoch, none for earlier times. -/
def millis (t : Instant) : Nat := t.toNat / nanosPerMillisecond

def ofMillis (n : Nat) : Instant := Int.ofNat (n * nanosPerMillisecond)

/-- The last whole millisecond that a counter of 64 bits reaches; earlier times than the epoch
stay as they are. -/
def truncate (t : Instant) : Instant :=
  if t < 0 then t else ofMillis (min t.millis (UInt64.size - 1))

end Instant

/-- Values by name, in ascending order of the names. -/
structure Listing (V : Type) where
  toList : List (String × V)
  sorted : toList.Pairwise fun a b => a.1 < b.1
  deriving Repr

namespace Listing
variable {V : Type}

instance [DecidableEq V] : DecidableEq (Listing V) := fun a b =>
  if h : a.toList = b.toList then
    isTrue (by cases a; cases b; simp_all)
  else isFalse fun e => h (congrArg toList e)

def empty : Listing V := ⟨[], .nil⟩

instance : Inhabited (Listing V) := ⟨empty⟩

/-- Puts a value in its place, instead of an older one of that name. -/
def insertInto (name : String) (value : V) : List (String × V) → List (String × V)
  | [] => [(name, value)]
  | e :: es =>
    if name < e.1 then (name, value) :: e :: es
    else if name = e.1 then (name, value) :: es
    else e :: insertInto name value es

theorem mem_insertInto {name : String} {value : V} {es : List (String × V)} {x : String × V}
    (h : x ∈ insertInto name value es) : x = (name, value) ∨ x ∈ es := by
  induction es with
  | nil => simpa [insertInto] using h
  | cons e es ih =>
    simp only [insertInto] at h
    split at h
    · simpa using h
    · split at h
      · rcases List.mem_cons.1 h with h | h
        · exact .inl h
        · exact .inr (List.mem_cons_of_mem _ h)
      · rcases List.mem_cons.1 h with h | h
        · exact .inr (h ▸ List.mem_cons_self)
        · exact (ih h).imp_right (List.mem_cons_of_mem _)

theorem sorted_insertInto (name : String) (value : V) {es : List (String × V)}
    (h : es.Pairwise fun a b => a.1 < b.1) :
    (insertInto name value es).Pairwise fun a b => a.1 < b.1 := by
  induction es with
  | nil => simp [insertInto]
  | cons e es ih =>
    obtain ⟨first, rest⟩ := List.pairwise_cons.1 h
    simp only [insertInto]
    split
    · rename_i hlt
      refine List.pairwise_cons.2 ⟨fun x hx => ?_, h⟩
      rcases List.mem_cons.1 hx with rfl | hx
      · exact hlt
      · exact String.lt_trans hlt (first x hx)
    · rename_i hnlt
      split
      · rename_i heq
        exact List.pairwise_cons.2 ⟨fun x hx => heq ▸ first x hx, rest⟩
      · rename_i hne
        refine List.pairwise_cons.2 ⟨fun x hx => ?_, ih rest⟩
        rcases mem_insertInto hx with rfl | hx
        · exact Std.lt_of_le_of_ne (String.not_lt.1 hnlt) (Ne.symm hne)
        · exact first x hx

def insert (l : Listing V) (name : String) (value : V) : Listing V :=
  ⟨insertInto name value l.toList, sorted_insertInto name value l.sorted⟩

/-- A later value of a name takes the place of an earlier one. -/
def ofList (es : List (String × V)) : Listing V :=
  es.foldl (fun l e => l.insert e.1 e.2) empty

def contains (l : Listing V) (name : String) : Bool := l.toList.any fun e => e.1 = name

def isEmpty (l : Listing V) : Bool := l.toList.isEmpty

def length (l : Listing V) : Nat := l.toList.length

end Listing

/-- An output file in remote storage. -/
structure FileMetadata where
  digest : Bytes
  size : UInt64
  /-- Which of the remote locations holds the file. -/
  location : UInt32
  /-- When the remote copy may go. -/
  expiration : Option Instant
  /-- The real path of an output that was a link. -/
  resolved : Option String
  deriving DecidableEq, Repr

/-- An output directory in remote storage; its files go by their paths inside it. -/
structure TreeMetadata where
  children : Listing FileMetadata
  /-- The whole tree as one archive. -/
  archived : Option FileMetadata
  resolved : Option String
  deriving DecidableEq, Repr

structure Entry where
  key : String
  fileDigest : Bytes
  /-- The inputs found while the action ran; an action that looks for none has no list. -/
  inputs : Option (List String)
  propertiesDigest : Bytes
  files : Listing FileMetadata
  trees : Listing TreeMetadata
  deriving DecidableEq, Repr

/-- What the cache has under a key: an entry, or bytes that are none. -/
inductive Cached
  | entry (e : Entry)
  | corrupted
  deriving DecidableEq, Repr

namespace Cached

def isCorrupted : Cached → Bool
  | entry _ => false
  | corrupted => true

def entry? : Cached → Option Entry
  | entry e => some e
  | corrupted => none

end Cached
end BuildCache
