import BuildCache.Proofs.Entries
import BuildCache.Proofs.Framing

/-!
Whatever decodes has a normal form. The bytes may come from anyone: integers may be longer than they
need be, and outputs may stand in any order. The entry that they come to can be encoded under the
same names; that adds no name and takes no more bytes than were read, and the new bytes decode to the
same entry.
-/
namespace BuildCache

theorem Bytes.toNatLE_lt (bs : Bytes) : toNatLE bs < Nat.pow 256 bs.length := by
  induction bs with
  | nil => exact Nat.one_pos
  | cons b bs ih =>
    have byte := b.toNat_lt
    have more : Nat.pow 256 (bs.length + 1) = Nat.pow 256 bs.length * 256 := rfl
    rw [toNatLE, List.length_cons, more]
    omega

namespace Integer

theorem takeWord_lt {width n : Nat} {bs rest : Bytes} (h : takeWord width bs = .ok (n, rest)) :
    n < Nat.pow 256 width ∧ bs.length = width + rest.length := by
  unfold takeWord at h
  cases read : takeBytes width bs with
  | error e =>
    rw [read] at h
    cases h
  | ok r =>
    obtain ⟨front, rest⟩ := r
    rw [read] at h
    cases h
    obtain ⟨rfl, rfl⟩ := takeBytes_eq_ok read
    exact ⟨Bytes.toNatLE_lt front, List.length_append⟩

theorem length_put (n : Nat) : (put n).length =
    if n ≤ 250 then 1 else if n < UInt16.size then 3 else if n < UInt32.size then 5 else 9 := by
  unfold put
  repeat' split
  all_goals simp

/-- A number has room in the type it was read as, and its shortest form has no more bytes than the
form that was read. -/
theorem take_shrinks {type : IntType} {n : Nat} {bs rest : Bytes}
    (h : take type bs = .ok (n, rest)) :
    n < type.bound ∧ (put n).length + rest.length ≤ bs.length := by
  have sizes : Nat.pow 256 2 = UInt16.size ∧ Nat.pow 256 4 = UInt32.size ∧
      Nat.pow 256 8 = UInt64.size ∧ 250 < UInt16.size ∧ UInt16.size ≤ UInt32.size ∧
      UInt32.size ≤ UInt64.size := by
    decide
  have narrow : UInt32.size ≤ type.bound := by
    rw [IntType.bound]
    split <;> omega
  rw [length_put]
  cases bs with
  | nil => cases h
  | cons tag bs =>
    simp only [take] at h
    rw [List.length_cons]
    split at h
    · rename_i small
      cases h
      have small : tag.toNat ≤ 250 := UInt8.le_iff_toNat_le.mp small
      rw [if_pos small]
      omega
    split at h
    · obtain ⟨below, length⟩ := takeWord_lt h
      repeat' split
      all_goals omega
    split at h
    · obtain ⟨below, length⟩ := takeWord_lt h
      repeat' split
      all_goals omega
    split at h
    · split at h
      · rename_i wide
        obtain ⟨below, length⟩ := takeWord_lt h
        have whole : type.bound = UInt64.size := if_pos wide
        repeat' split
        all_goals omega
      · cases h
    · split at h <;> cases h

end Integer

namespace Field
open Reader

variable {α : Type} {bs rest : Bytes}

theorem takeInteger_shrinks {type : IntType} {n : Nat}
    (h : (takeInteger type).run bs = (.ok n, rest)) :
    n < type.bound ∧ (Integer.put n).length + rest.length ≤ bs.length := by
  rw [run_takeInteger] at h
  split at h
  · rename_i taken
    cases h
    exact Integer.take_shrinks taken
  · cases h

/-- A field that is made of one integer. -/
theorem shrinks_of_integer (type : IntType) {f : Nat → α} (put : α → Nat) {a : α}
    (inverse : ∀ n < type.bound, put (f n) = n)
    (h : (do return f (← takeInteger type) : Reader α).run bs = (.ok a, rest)) :
    (Integer.put (put a)).length + rest.length ≤ bs.length := by
  obtain ⟨n, middle, taken, last⟩ := run_bind_eq_ok h
  cases last
  obtain ⟨below, shorter⟩ := takeInteger_shrinks taken
  rwa [inverse n below]

theorem takeU32_shrinks {n : UInt32} (h : takeU32.run bs = (.ok n, rest)) :
    (putU32 n).length + rest.length ≤ bs.length :=
  shrinks_of_integer .u32 UInt32.toNat (fun _ below => UInt32.toNat_ofNat_of_lt' below) h

theorem takeU64_shrinks {n : UInt64} (h : takeU64.run bs = (.ok n, rest)) :
    (putU64 n).length + rest.length ≤ bs.length :=
  shrinks_of_integer .u64 UInt64.toNat (fun _ below => UInt64.toNat_ofNat_of_lt' below) h

theorem unzigzag_bounds {n k : Nat} (h : n < 2 * k) :
    -(k : Int) ≤ Integer.unzigzag n ∧ Integer.unzigzag n < k := by
  unfold Integer.unzigzag
  split <;> simp only [Int.ofNat_eq_natCast] <;> omega

theorem takeI32_shrinks {i : Int32} (h : takeI32.run bs = (.ok i, rest)) :
    (putI32 i).length + rest.length ≤ bs.length := by
  refine shrinks_of_integer .i32 (fun i => Integer.zigzag i.toInt) ?_ h
  intro n below
  obtain ⟨low, high⟩ := unzigzag_bounds (k := 2147483648) below
  rw [Int32.toInt_ofInt_of_le low high, Integer.zigzag_unzigzag]

theorem takeI64_shrinks {i : Int64} (h : takeI64.run bs = (.ok i, rest)) :
    (putI64 i).length + rest.length ≤ bs.length := by
  refine shrinks_of_integer .i64 (fun i => Integer.zigzag i.toInt) ?_ h
  intro n below
  obtain ⟨low, high⟩ := unzigzag_bounds (k := 9223372036854775808) below
  rw [Int64.toInt_ofInt_of_le low high, Integer.zigzag_unzigzag]

/-- An integer that is not negative stands for itself. -/
theorem ofNat_toNat_toInt {i : Int32} (positive : ¬i.toInt < 0) :
    i.toInt.toNat < lengthBound ∧ Int32.ofNat i.toInt.toNat = i := by
  have high := i.toInt_lt
  have small : i.toInt.toNat < lengthBound := by
    have : lengthBound = 2147483648 := rfl
    omega
  refine ⟨small, Int32.toInt_inj.mp ?_⟩
  rw [toInt_ofNat small]
  omega

theorem takeLength_shrinks {what : String} {n : Nat} (h : (takeLength what).run bs = (.ok n, rest))
    (what' : String) :
    ∃ ds, putLength what' n = .ok ds ∧ ds.length + rest.length ≤ bs.length := by
  obtain ⟨i, middle, taken, last⟩ := run_bind_eq_ok h
  by_cases negative : i.toInt < 0
  · rw [if_pos negative] at last
    cases last
  · rw [if_neg negative] at last
    cases last
    obtain ⟨small, same⟩ := ofNat_toNat_toInt negative
    refine ⟨putI32 i, ?_, takeI32_shrinks taken⟩
    rw [putLength, if_pos small, same]

theorem takeFlag_shrinks {what : String} {b : Bool} (h : (takeFlag what).run bs = (.ok b, rest)) :
    (putFlag b).length + rest.length ≤ bs.length := by
  cases bs with
  | nil => cases h
  | cons tag bs =>
    have length : rest.length = bs.length := by
      by_cases zero : tag = 0
      · subst zero
        cases h
        rfl
      by_cases one : tag = 1
      · subst one
        cases h
        rfl
      have refused : (takeFlag what).run (tag :: bs) = (.error (.badFlag what tag.toNat), bs) := by
        change (if tag = 0 then _ else _ : Reader Bool).run bs = _
        rw [if_neg zero, if_neg one]
        rfl
      rw [refused] at h
      cases h
    rw [length, putFlag, List.length_cons, List.length_cons]
    simp only [List.length_nil]
    omega

theorem takeBytes_shrinks {what : String} {ds : Bytes}
    (h : (takeBytes what).run bs = (.ok ds, rest)) (what' : String) :
    ∃ cs, putBytes what' ds = .ok cs ∧ cs.length + rest.length ≤ bs.length := by
  obtain ⟨n, middle, counted, last⟩ := run_bind_eq_ok h
  change (if (middle.take n).length < n then _ else _ : Reader Bytes).run middle = _ at last
  by_cases short : (middle.take n).length < n
  · rw [if_pos short] at last
    cases last
  · rw [if_neg short] at last
    cases last
    have whole : (middle.take n).length = n :=
      Nat.le_antisymm (List.length_take_le n middle) (Nat.le_of_not_lt short)
    obtain ⟨count, put, shorter⟩ := takeLength_shrinks counted what'
    refine ⟨count ++ middle.take n, ?_, ?_⟩
    · rw [putBytes, whole, put]
      rfl
    · have split := congrArg List.length (List.take_append_drop n middle)
      rw [List.length_append] at split ⊢
      omega

end Field

namespace Interning

variable {ns : Names} {m n : Nat}

/-- The encoder succeeds under the names as they are, and writes at most `n` bytes. -/
def Writes (ns : Names) (p : Interning Bytes) (n : Nat) : Prop :=
  ∃ bs, p.run ns = (.ok bs, ns) ∧ bs.length ≤ n

theorem writes_pure {bs : Bytes} (few : bs.length ≤ n) : Writes ns (pure bs) n := ⟨bs, rfl, few⟩

theorem writes_bind {p : Interning Bytes} {f : Bytes → Interning Bytes} (first : Writes ns p m)
    (next : ∀ bs, bs.length ≤ m → Writes ns (f bs) n) : Writes ns (p >>= f) n := by
  obtain ⟨bs, run, few⟩ := first
  rw [Writes, run_bind, run]
  exact next bs few

theorem writes_lift {x : Except EncodeFault Bytes} {bs : Bytes} {f : Bytes → Interning Bytes}
    (ok : x = .ok bs) (next : Writes ns (f bs) n) : Writes ns (liftM x >>= f) n := by
  subst ok
  exact next

end Interning

namespace Listing
variable {V : Type} {name : String} {value : V}

theorem length_insertInto {es : List (String × V)} (new : ∀ e ∈ es, e.1 ≠ name) :
    (insertInto name value es).length = es.length + 1 := by
  induction es with
  | nil => rfl
  | cons e es ih =>
    rw [insertInto, if_neg (Ne.symm (new e List.mem_cons_self))]
    split
    · rfl
    · rw [List.length_cons, ih fun e mem => new e (List.mem_cons_of_mem _ mem), List.length_cons]

theorem ne_of_not_contains {l : Listing V} (new : ¬l.contains name) : ∀ e ∈ l.toList, e.1 ≠ name :=
  fun e mem same => new (List.any_eq_true.mpr ⟨e, mem, decide_eq_true same⟩)

end Listing

namespace Entry
open Interning BuildCache.Field Reader

variable {α V : Type} {ns : Names} {put : α → Interning Bytes} {cut : α → α}

/-- The value is written under the names as they are, in `n` bytes at most, and the stored form has
room for all of it. -/
structure Settled (ns : Names) (put : α → Interning Bytes) (cut : α → α) (a : α) (n : Nat) :
    Prop where
  writes : Writes ns (put a) n
  whole : cut a = a

/-- What is read is settled within the bytes that it was read from. -/
def Settles (ns : Names) (take : Reader α) (put : α → Interning Bytes) (cut : α → α) : Prop :=
  ∀ bs a rest, take.run bs = (.ok a, rest) →
    ∃ n, Settled ns put cut a n ∧ n + rest.length ≤ bs.length

inductive SettledAll (ns : Names) (put : α → Interning Bytes) (cut : α → α) :
    List α → Nat → Prop
  | nil : SettledAll ns put cut [] 0
  | cons {a : α} {as : List α} {m n : Nat} (first : Settled ns put cut a m)
      (rest : SettledAll ns put cut as n) : SettledAll ns put cut (a :: as) (m + n)

namespace SettledAll

theorem writes {as : List α} {n : Nat} (all : SettledAll ns put cut as n) :
    Writes ns (putEach put as) n := by
  induction all with
  | nil => exact writes_pure (Nat.le_refl 0)
  | cons first _ ih =>
    refine writes_bind first.writes fun front few => writes_bind ih fun back few' => ?_
    exact writes_pure (List.length_append ▸ Nat.add_le_add few few')

theorem whole {as : List α} {n : Nat} (all : SettledAll ns put cut as n) : as.map cut = as := by
  induction all with
  | nil => rfl
  | cons first _ ih => rw [List.map_cons, first.whole, ih]

/-- A new name goes to its place in between, and the whole takes no more room than its parts. -/
theorem insertInto {put : String × V → Interning Bytes} {cut : String × V → String × V}
    {name : String} {value : V} {es : List (String × V)} {m n : Nat}
    (first : Settled ns put cut (name, value) m) (all : SettledAll ns put cut es n)
    (new : ∀ e ∈ es, e.1 ≠ name) :
    SettledAll ns put cut (Listing.insertInto name value es) (m + n) := by
  induction all with
  | nil => exact .cons first .nil
  | @cons e es k l head rest ih =>
    rw [Listing.insertInto, if_neg (Ne.symm (new e List.mem_cons_self))]
    split
    · exact .cons first (.cons head rest)
    · have more := SettledAll.cons head (ih fun e mem => new e (List.mem_cons_of_mem _ mem))
      rwa [Nat.add_left_comm] at more

end SettledAll

theorem settles_name (sound : ns.Sound) : Settles ns (takeName ns) putName id := by
  intro bs s rest taken
  obtain ⟨i, middle, first, last⟩ := run_bind_eq_ok taken
  cases known : ns.name? i with
  | none =>
    rw [known] at last
    cases last
  | some s' =>
    rw [known] at last
    cases last
    have same : (ExceptT.mk fun ns => ns.intern s : Interning PathId).run ns = (.ok i, ns) :=
      Names.intern_of_name? sound known
    refine ⟨(putU32 i).length, ⟨⟨putU32 i, ?_, Nat.le_refl _⟩, rfl⟩, takeU32_shrinks first⟩
    rw [putName, Interning.run_bind, same]
    rfl

theorem settles_optional {take : Reader α} (each : Settles ns take put cut) (what : String) :
    Settles ns (takeOptional what take) (putOptional put) (Option.map cut) := by
  intro bs a? rest taken
  obtain ⟨present, middle, first, last⟩ := run_bind_eq_ok taken
  have fewer := takeFlag_shrinks first
  cases present with
  | false =>
    cases last
    exact ⟨_, ⟨writes_pure (Nat.le_refl _), rfl⟩, fewer⟩
  | true =>
    obtain ⟨a, rest', second, last⟩ := run_bind_eq_ok last
    cases last
    obtain ⟨n, settled, shorter⟩ := each middle a rest second
    refine ⟨(putFlag true).length + n, ⟨?_, congrArg some settled.whole⟩, by omega⟩
    refine writes_bind settled.writes fun bs few => writes_pure ?_
    rw [List.length_append]
    omega

theorem takeExpiration_shrinks {t? : Option Instant} {bs rest : Bytes}
    (taken : takeExpiration.run bs = (.ok t?, rest)) :
    ∃ ds, putExpiration t? = .ok ds ∧ ds.length + rest.length ≤ bs.length ∧
      t?.map Instant.truncate = t? := by
  obtain ⟨i, middle, first, last⟩ := run_bind_eq_ok taken
  have fewer := takeI64_shrinks first
  by_cases never : i = noExpiration
  · rw [if_pos never] at last
    cases last
    subst never
    exact ⟨_, rfl, fewer, rfl⟩
  rw [if_neg never] at last
  by_cases negative : i.toInt < 0
  · rw [if_pos negative] at last
    cases last
  rw [if_neg negative] at last
  cases last
  have high := i.toInt_lt
  have below : i.toInt.toNat < expirationBound := by
    have : expirationBound = 9223372036854775808 := rfl
    omega
  have millis : (Instant.ofMillis i.toInt.toNat).millis = i.toInt.toNat :=
    Nat.mul_div_cancel _ (by decide)
  have notBefore : ¬Instant.ofMillis i.toInt.toNat < 0 := Int.not_lt.mpr (Int.natCast_nonneg _)
  have same : Int64.ofNat i.toInt.toNat = i := by
    refine Int64.toInt_inj.mp ?_
    rw [Int64.toInt_ofNat_of_lt below]
    omega
  refine ⟨putI64 i, ?_, fewer, ?_⟩
  · rw [putExpiration, if_neg notBefore, millis, if_neg (Nat.not_le.mpr below), same]
  · have room : i.toInt.toNat ≤ UInt64.size - 1 := by
      have : UInt64.size = 18446744073709551616 := rfl
      omega
    rw [Option.map_some, Instant.truncate, if_neg notBefore, millis, Nat.min_eq_left room]

theorem settles_metadata (sound : ns.Sound) :
    Settles ns (takeMetadata ns) putMetadata FileMetadata.truncate := by
  intro bs m rest taken
  obtain ⟨digest, rest₁, run₁, taken⟩ := run_bind_eq_ok taken
  obtain ⟨size, rest₂, run₂, taken⟩ := run_bind_eq_ok taken
  obtain ⟨location, rest₃, run₃, taken⟩ := run_bind_eq_ok taken
  obtain ⟨expiration, rest₄, run₄, taken⟩ := run_bind_eq_ok taken
  obtain ⟨resolved, rest₅, run₅, last⟩ := run_bind_eq_ok taken
  cases last
  obtain ⟨digest', digested, fewer₁⟩ := takeBytes_shrinks run₁ "file digest"
  have fewer₂ := takeU64_shrinks run₂
  have fewer₃ := takeU32_shrinks run₃
  obtain ⟨expiration', expires, fewer₄, whole⟩ := takeExpiration_shrinks run₄
  obtain ⟨n, link, fewer₅⟩ := settles_optional (settles_name sound) _ _ _ _ run₅
  refine ⟨digest'.length + (putU64 size).length + (putU32 location).length + expiration'.length + n,
    ⟨?_, by rw [FileMetadata.truncate, whole]⟩, by omega⟩
  refine writes_lift digested (writes_lift expires (writes_bind link.writes fun bs few => ?_))
  refine writes_pure ?_
  simp only [List.length_append]
  omega

theorem settles_file (sound : ns.Sound) :
    Settles ns (do return (← takeName ns, ← takeMetadata ns)) putFile
      fun e => (e.1, e.2.truncate) := by
  intro bs e rest taken
  obtain ⟨path, rest₁, run₁, taken⟩ := run_bind_eq_ok taken
  obtain ⟨m, rest₂, run₂, last⟩ := run_bind_eq_ok taken
  cases last
  obtain ⟨k, name, fewer₁⟩ := settles_name sound _ _ _ run₁
  obtain ⟨n, file, fewer₂⟩ := settles_metadata sound _ _ _ run₂
  refine ⟨k + n, ⟨?_, congrArg (path, ·) file.whole⟩, by omega⟩
  refine writes_bind name.writes fun front few => writes_bind file.writes fun back few' => ?_
  exact writes_pure (List.length_append ▸ Nat.add_le_add few few')

/-- Each name that is read goes to its place in the listing, and stays settled there. -/
theorem settles_listing {take : Reader V} {put : String × V → Interning Bytes}
    {cut : String × V → String × V} (each : Settles ns (do return (← takeName ns, ← take)) put cut)
    (what : String) {count : Nat} {l m : Listing V} {bs rest : Bytes} {n : Nat}
    (before : SettledAll ns put cut l.toList n)
    (taken : (takeListing what ns take count l).run bs = (.ok m, rest)) :
    m.length = l.length + count ∧
      ∃ n', SettledAll ns put cut m.toList n' ∧ n' + rest.length ≤ n + bs.length := by
  induction count generalizing l bs n with
  | zero =>
    cases taken
    exact ⟨rfl, n, before, Nat.le_refl _⟩
  | succ count ih =>
    obtain ⟨name, rest₁, run₁, taken⟩ := run_bind_eq_ok taken
    obtain ⟨value, rest₂, run₂, taken⟩ := run_bind_eq_ok taken
    by_cases twice : l.contains name = true
    · rw [if_pos twice] at taken
      cases taken
    rw [if_neg twice] at taken
    have pair : (do return (← takeName ns, ← take) : Reader (String × V)).run bs =
        (.ok (name, value), rest₂) := by
      rw [Reader.run_bind, run₁]
      change ((take >>= fun value => pure (name, value) : Reader (String × V)).run rest₁) = _
      rw [Reader.run_bind, run₂]
      rfl
    obtain ⟨k, first, fewer⟩ := each _ _ _ pair
    have new := Listing.ne_of_not_contains twice
    obtain ⟨length, n', all, fewer'⟩ := ih (SettledAll.insertInto first before new) taken
    refine ⟨?_, n', all, by omega⟩
    rw [length, Listing.length, Listing.insert, Listing.length_insertInto new, Listing.length]
    omega

theorem map_eq_of_settledAll {cut : V → V} {put : String × V → Interning Bytes} {l : Listing V}
    {n : Nat} (all : SettledAll ns put (fun e => (e.1, cut e.2)) l.toList n) : l.map cut = l :=
  Listing.ext all.whole

theorem settles_tree (sound : ns.Sound) :
    Settles ns (do return (← takeName ns, ← takeTree ns)) putTree
      fun e => (e.1, e.2.truncate) := by
  intro bs e rest taken
  obtain ⟨path, rest₁, run₁, taken⟩ := run_bind_eq_ok taken
  obtain ⟨t, rest₂, run₂, last⟩ := run_bind_eq_ok taken
  cases last
  obtain ⟨count, rest₃, run₃, taken⟩ := run_bind_eq_ok run₂
  obtain ⟨children, rest₄, run₄, taken⟩ := run_bind_eq_ok taken
  obtain ⟨archived, rest₅, run₅, taken⟩ := run_bind_eq_ok taken
  obtain ⟨resolved, rest₆, run₆, last⟩ := run_bind_eq_ok taken
  cases last
  obtain ⟨k, name, fewer₁⟩ := settles_name sound _ _ _ run₁
  obtain ⟨count', counted, fewer₃⟩ := takeLength_shrinks run₃ "tree child count"
  obtain ⟨length, l, files, fewer₄⟩ := settles_listing (settles_file sound) _ .nil run₄
  obtain ⟨m, archive, fewer₅⟩ := settles_optional (settles_metadata sound) _ _ _ _ run₅
  obtain ⟨n, link, fewer₆⟩ := settles_optional (settles_name sound) _ _ _ _ run₆
  have same : children.length = count := length.trans (Nat.zero_add count)
  refine ⟨k + count'.length + l + m + n, ⟨?_, ?_⟩, by omega⟩
  · refine writes_bind name.writes fun path few => ?_
    refine writes_lift (same ▸ counted) (writes_bind files.writes fun files few' => ?_)
    refine writes_bind archive.writes fun archive few'' => ?_
    refine writes_bind link.writes fun link few''' => writes_pure ?_
    simp only [List.length_append]
    omega
  · rw [TreeMetadata.truncate, map_eq_of_settledAll files, archive.whole]

theorem settles_many {take : Reader α} (each : Settles ns take put cut) {count : Nat}
    {as : List α} {bs rest : Bytes} (taken : (takeMany take count).run bs = (.ok as, rest)) :
    as.length = count ∧ ∃ n, SettledAll ns put cut as n ∧ n + rest.length ≤ bs.length := by
  induction count generalizing as bs with
  | zero =>
    cases taken
    exact ⟨rfl, 0, .nil, by omega⟩
  | succ count ih =>
    obtain ⟨a, rest₁, run₁, taken⟩ := run_bind_eq_ok taken
    obtain ⟨as, rest₂, run₂, last⟩ := run_bind_eq_ok taken
    cases last
    obtain ⟨m, first, fewer₁⟩ := each _ _ _ run₁
    obtain ⟨length, n, all, fewer₂⟩ := ih run₂
    exact ⟨congrArg (· + 1) length, m + n, .cons first all, by omega⟩

theorem settles_inputs (sound : ns.Sound) : Settles ns (takeInputs ns) putInputs id := by
  intro bs inputs rest taken
  obtain ⟨i, middle, first, last⟩ := run_bind_eq_ok taken
  have fewer := takeI32_shrinks first
  by_cases none_ : i = noInputs
  · rw [if_pos none_] at last
    cases last
    subst none_
    exact ⟨_, ⟨writes_pure (Nat.le_refl _), rfl⟩, fewer⟩
  rw [if_neg none_] at last
  by_cases negative : i.toInt < 0
  · rw [if_pos negative] at last
    cases last
  rw [if_neg negative] at last
  obtain ⟨names, rest', second, last⟩ := run_bind_eq_ok last
  cases last
  obtain ⟨length, n, all, fewer'⟩ := settles_many (settles_name sound) second
  obtain ⟨small, same⟩ := ofNat_toNat_toInt negative
  have counted : putLength "discovered input count" names.length = .ok (putI32 i) := by
    rw [length, putLength, if_pos small, same]
  refine ⟨(putI32 i).length + n, ⟨?_, rfl⟩, by omega⟩
  refine writes_lift counted (writes_bind all.writes fun bs few => writes_pure ?_)
  rw [List.length_append]
  omega

/-- Each byte of a stored key is one of its characters. -/
theorem latin1_ofLatin1 (bs : Bytes) : latin1 (ofLatin1 bs).toList = .ok bs := by
  rw [ofLatin1, String.toList_ofList]
  induction bs with
  | nil => rfl
  | cons b bs ih =>
    have byte := b.toNat_lt
    have valid : b.toNat.isValidChar := .inl (by omega)
    have value : (Char.ofNat b.toNat).toNat = b.toNat := by
      rw [Char.ofNat, dif_pos valid]
      rfl
    rw [List.map_cons, latin1, value, if_pos byte, ih, UInt8.ofNat_toNat]
    rfl

theorem finish_eq_ok {bs rest : Bytes} {u : Unit} (done : finish.run bs = (.ok u, rest)) :
    rest = bs := by
  cases bs with
  | nil =>
    cases done
    rfl
  | cons b bs => cases done

theorem settles_entry (sound : ns.Sound) : Settles ns (take ns) Entry.put truncate := by
  intro bs e rest taken
  obtain ⟨key, rest₁, run₁, taken⟩ := run_bind_eq_ok taken
  obtain ⟨fileDigest, rest₂, run₂, taken⟩ := run_bind_eq_ok taken
  obtain ⟨inputs, rest₃, run₃, taken⟩ := run_bind_eq_ok taken
  obtain ⟨propertiesDigest, rest₄, run₄, taken⟩ := run_bind_eq_ok taken
  obtain ⟨fileCount, rest₅, run₅, taken⟩ := run_bind_eq_ok taken
  obtain ⟨files, rest₆, run₆, taken⟩ := run_bind_eq_ok taken
  obtain ⟨treeCount, rest₇, run₇, taken⟩ := run_bind_eq_ok taken
  obtain ⟨trees, rest₈, run₈, taken⟩ := run_bind_eq_ok taken
  obtain ⟨_, rest₉, run₉, last⟩ := run_bind_eq_ok taken
  cases last
  obtain rfl : rest = rest₈ := finish_eq_ok run₉
  obtain ⟨key', keyed, fewer₁⟩ := takeBytes_shrinks run₁ "action key"
  obtain ⟨digest', digested, fewer₂⟩ := takeBytes_shrinks run₂ "file digest"
  obtain ⟨k, listed, fewer₃⟩ := settles_inputs sound _ _ _ run₃
  obtain ⟨properties', propertied, fewer₄⟩ := takeBytes_shrinks run₄ "properties digest"
  obtain ⟨fileCount', filesCounted, fewer₅⟩ := takeLength_shrinks run₅ "output file count"
  obtain ⟨fileLength, m, allFiles, fewer₆⟩ := settles_listing (settles_file sound) _ .nil run₆
  obtain ⟨treeCount', treesCounted, fewer₇⟩ := takeLength_shrinks run₇ "output tree count"
  obtain ⟨treeLength, n, allTrees, fewer₈⟩ := settles_listing (settles_tree sound) _ .nil run₈
  have sameFiles : files.length = fileCount := fileLength.trans (Nat.zero_add fileCount)
  have sameTrees : trees.length = treeCount := treeLength.trans (Nat.zero_add treeCount)
  refine ⟨key'.length + digest'.length + k + properties'.length + fileCount'.length + m +
    treeCount'.length + n, ⟨?_, ?_⟩, by omega⟩
  · refine writes_lift (latin1_ofLatin1 key) (writes_lift keyed (writes_lift digested ?_))
    refine writes_bind listed.writes fun inputs few => writes_lift propertied ?_
    refine writes_lift (sameFiles ▸ filesCounted) (writes_bind allFiles.writes fun files few' => ?_)
    refine writes_lift (sameTrees ▸ treesCounted) (writes_bind allTrees.writes fun trees few'' => ?_)
    refine writes_pure ?_
    simp only [List.length_append]
    omega
  · rw [truncate, map_eq_of_settledAll allFiles, map_eq_of_settledAll allTrees]

/-- Whatever decodes has a normal form: it can be encoded under the names as they are, in no more
bytes than it was read from, and these decode to it. -/
theorem exists_normal_form {bs : Bytes} {e : Entry} (sound : ns.Sound)
    (decoded : decode? ns bs = .ok e) :
    ∃ bs', e.encode ns = (.ok bs', ns) ∧ bs'.length ≤ bs.length ∧ decode? ns bs' = .ok e := by
  obtain ⟨rest, taken⟩ : ∃ rest, (take ns).run bs = (.ok e, rest) := ⟨_, Prod.ext decoded rfl⟩
  obtain ⟨n, settled, shorter⟩ := settles_entry sound _ _ _ taken
  obtain ⟨bs', encoded, few⟩ := settled.writes
  have again := decode?_encode sound encoded (.refl ns)
  rw [settled.whole] at again
  exact ⟨bs', encoded, by omega, again⟩

/-- Numbers of three bytes where one is enough, and the files in the wrong order. -/
theorem exists_normal_form_overlong : ∃ (bs bs' : Bytes) (e : Entry),
    decode? ⟨["a", "b"]⟩ bs = .ok e ∧ e.encode ⟨["a", "b"]⟩ = (.ok bs', ⟨["a", "b"]⟩) ∧
      bs'.length ≤ bs.length ∧ bs' ≠ bs ∧ decode? ⟨["a", "b"]⟩ bs' = .ok e := by
  let bs : Bytes := [251, 0, 0, 0, 1, 0, 4, 1, 0, 5, 0, 1, 0, 251, 0, 0, 0, 7, 0, 1, 0, 0]
  have sound : Names.Sound ⟨["a", "b"]⟩ := ⟨by decide, by decide⟩
  have read : (decode? ⟨["a", "b"]⟩ bs).isOk := by decide +kernel
  cases decoded : decode? ⟨["a", "b"]⟩ bs with
  | error fault =>
    rw [decoded] at read
    cases read
  | ok e =>
    obtain ⟨bs', encoded, few, again⟩ := exists_normal_form sound decoded
    refine ⟨bs, bs', e, decoded, encoded, few, ?_, again⟩
    rintro rfl
    have other : ∀ e ∈ (decode? ⟨["a", "b"]⟩ bs).toOption, (e.encode ⟨["a", "b"]⟩).1.toOption ≠
        some bs := by
      decide +kernel
    exact other e (by rw [decoded]; rfl) (by rw [encoded]; rfl)

end Entry
end BuildCache
