import BuildCache.Proofs.Interning

/-!
The stored form of an entry is read back as the entry, up to the part of its expirations below a
millisecond, under the names that its encoding left and under all that extend them. And whatever
some names decode, names that extend them decode to the same.
-/
namespace BuildCache

namespace Listing
variable {V W : Type}

/-- The listing with each value replaced. -/
def map (f : V → W) (l : Listing V) : Listing W :=
  ⟨l.toList.map fun e => (e.1, f e.2), List.pairwise_map.mpr l.sorted⟩

theorem ext {l m : Listing V} (same : l.toList = m.toList) : l = m := by
  cases l
  cases m
  cases same
  rfl

theorem insertInto_last {name : String} {value : V} {es : List (String × V)}
    (before : ∀ e ∈ es, e.1 < name) : insertInto name value es = es ++ [(name, value)] := by
  induction es with
  | nil => rfl
  | cons e es ih =>
    have first := before e List.mem_cons_self
    have notLess : ¬name < e.1 := fun less => String.lt_irrefl _ (String.lt_trans first less)
    have other : name ≠ e.1 := fun same => String.lt_irrefl _ (same ▸ first)
    rw [insertInto, if_neg notLess, if_neg other,
      ih fun e mem => before e (List.mem_cons_of_mem _ mem)]
    rfl

theorem toList_insert_last {l : Listing V} {name : String} {value : V}
    (before : ∀ e ∈ l.toList, e.1 < name) :
    (l.insert name value).toList = l.toList ++ [(name, value)] :=
  insertInto_last before

theorem contains_eq_false {l : Listing V} {name : String} (before : ∀ e ∈ l.toList, e.1 < name) :
    l.contains name = false := by
  rw [contains, List.any_eq_false]
  intro e mem same
  exact String.lt_irrefl _ (of_decide_eq_true same ▸ before e mem)

end Listing

def FileMetadata.truncate (m : FileMetadata) : FileMetadata :=
  { m with expiration := m.expiration.map Instant.truncate }

def TreeMetadata.truncate (t : TreeMetadata) : TreeMetadata :=
  { t with
    children := t.children.map FileMetadata.truncate
    archived := t.archived.map FileMetadata.truncate }

/-- The entry with each expiration cut to whole milliseconds. -/
def Entry.truncate (e : Entry) : Entry :=
  { e with
    files := e.files.map FileMetadata.truncate
    trees := e.trees.map TreeMetadata.truncate }

namespace Entry
open Interning BuildCache.Field Reader

variable {α : Type} {ns ns' ms : Names}

/-- What the encoder writes is read as `a` under the names it leaves and all that extend them. -/
def Mirrors (p : Interning Bytes) (take : Names → Reader α) (a : α) : Prop :=
  ∀ ns bs ns', ns.Sound → p.run ns = (.ok bs, ns') → ∀ ms, ns'.Prefix ms → Reads (take ms) bs a

theorem mirrors_putName (s : String) : Mirrors (putName s) takeName s := by
  intro ns bs ns' sound run ms extends_
  obtain ⟨id, ns₁, interned, last⟩ := run_bind_eq_ok run
  cases last
  have known : ns'.name? id = some s := by
    have result : ns.intern s = (.ok id, ns') := interned
    have found := Names.name?_intern sound (congrArg Prod.fst result)
    rw [result] at found
    exact found
  refine reads_bind (reads_u32 id) (y := []) ?_ (List.append_nil _).symm
  rw [extends_.name? known]
  exact reads_pure s

theorem mirrors_putOptional {β : Type} {put : α → Interning Bytes} {take : Names → Reader β}
    {f : α → β} (each : ∀ a, Mirrors (put a) take (f a)) (what : String) (a? : Option α) :
    Mirrors (putOptional put a?) (fun ms => takeOptional what (take ms)) (a?.map f) := by
  intro ns bs ns' sound run ms extends_
  cases a? with
  | none =>
    cases run
    exact reads_bind (reads_flag what false) (reads_pure none) (List.append_nil _).symm
  | some a =>
    obtain ⟨value, ns₁, first, last⟩ := run_bind_eq_ok run
    cases last
    exact reads_bind (reads_flag what true)
      (reads_map some (each a ns value _ sound first ms extends_)) rfl

theorem putExpiration_eq_ok {t : Instant} {bs : Bytes} (h : putExpiration (some t) = .ok bs) :
    0 ≤ t ∧ t.millis < expirationBound ∧ bs = putI64 (Int64.ofNat t.millis) := by
  simp only [putExpiration] at h
  split at h
  · cases h
  split at h
  · cases h
  · rename_i notBefore below
    cases h
    exact ⟨Int.not_lt.mp notBefore, Nat.lt_of_not_le below, rfl⟩

theorem reads_expiration {t? : Option Instant} {bs : Bytes} (h : putExpiration t? = .ok bs) :
    Reads takeExpiration bs (t?.map Instant.truncate) := by
  cases t? with
  | none =>
    cases h
    exact reads_bind (reads_i64 noExpiration) (reads_pure none) (List.append_nil _).symm
  | some t =>
    obtain ⟨notBefore, below, rfl⟩ := putExpiration_eq_ok h
    have value : (Int64.ofNat t.millis).toInt = t.millis := Int64.toInt_ofNat_of_lt below
    have other : Int64.ofNat t.millis ≠ noExpiration := by
      intro same
      rw [same] at value
      have : noExpiration.toInt = -1 := rfl
      omega
    have truncated : t.truncate = .ofMillis t.millis := by
      have : expirationBound ≤ UInt64.size - 1 := by decide
      rw [Instant.truncate, if_neg (Int.not_lt.mpr notBefore), Nat.min_eq_left (by omega)]
    refine reads_bind (reads_i64 _) (y := []) ?_ (List.append_nil _).symm
    rw [if_neg other, value, if_neg (by omega), Int.toNat_natCast]
    rw [Option.map_some, truncated]
    exact reads_pure _

theorem mirrors_putMetadata (m : FileMetadata) :
    Mirrors (putMetadata m) takeMetadata m.truncate := by
  intro ns bs ns' sound run ms extends_
  obtain ⟨digest, _, first, run₁⟩ := run_bind_eq_ok run
  obtain ⟨digested, rfl⟩ := run_lift_eq_ok first
  obtain ⟨expiration, _, second, run₂⟩ := run_bind_eq_ok run₁
  obtain ⟨expires, rfl⟩ := run_lift_eq_ok second
  obtain ⟨resolved, ns₁, third, last⟩ := run_bind_eq_ok run₂
  cases last
  have links := mirrors_putOptional mirrors_putName "resolved path" m.resolved _ resolved _ sound
    third ms extends_
  rw [Option.map_id'] at links
  have tail := reads_bind (reads_expiration expires)
    (f := fun expiration => do
      let resolved ← takeOptional "resolved path" (takeName ms)
      return FileMetadata.mk m.digest m.size m.location expiration resolved)
    (reads_map (fun resolved => FileMetadata.mk m.digest m.size m.location
      (m.expiration.map Instant.truncate) resolved) links) rfl
  have placed := reads_bind (reads_u32 m.location)
    (f := fun location => do
      let expiration ← takeExpiration
      let resolved ← takeOptional "resolved path" (takeName ms)
      return FileMetadata.mk m.digest m.size location expiration resolved) tail rfl
  have sized := reads_bind (reads_u64 m.size)
    (f := fun size => do
      let location ← takeU32
      let expiration ← takeExpiration
      let resolved ← takeOptional "resolved path" (takeName ms)
      return FileMetadata.mk m.digest size location expiration resolved) placed rfl
  refine reads_bind (reads_bytes digested "file digest") sized ?_
  simp only [List.append_assoc]

/-- What the encoder writes is a name and behind it what is read as the value. -/
def MirrorsNamed {V W : Type} (put : String × V → Interning Bytes) (take : Names → Reader W)
    (f : V → W) : Prop :=
  ∀ e ns bs ns', ns.Sound → (put e).run ns = (.ok bs, ns') → ∀ ms, ns'.Prefix ms →
    ∃ path rest, bs = path ++ rest ∧ Reads (takeName ms) path e.1 ∧ Reads (take ms) rest (f e.2)

/-- A listing comes back name by name, each behind the ones before. -/
theorem reads_listing {V W : Type} {put : String × V → Interning Bytes} {take : Names → Reader W}
    {f : V → W} (grows : ∀ e, Grows (put e)) (each : MirrorsNamed put take f) (what : String)
    {es : List (String × V)} (ascending : es.Pairwise fun a b => a.1 < b.1) {l : Listing W}
    (before : ∀ x ∈ l.toList, ∀ e ∈ es, x.1 < e.1) {bs : Bytes} (sound : ns.Sound)
    (run : (putEach put es).run ns = (.ok bs, ns')) (extends_ : ns'.Prefix ms) :
    ∃ m : Listing W, m.toList = l.toList ++ es.map (fun e => (e.1, f e.2)) ∧
      Reads (takeListing what ms (take ms) es.length l) bs m := by
  induction es generalizing l bs ns with
  | nil =>
    cases run
    exact ⟨l, by simp, reads_pure l⟩
  | cons e es ih =>
    obtain ⟨first, rest⟩ := List.pairwise_cons.mp ascending
    obtain ⟨piece, ns₁, run₁, run₂⟩ := run_bind_eq_ok run
    obtain ⟨pieces, ns₂, run₃, last⟩ := run_bind_eq_ok run₂
    cases last
    obtain ⟨_, sound₁⟩ := (grows e).run_eq sound run₁
    obtain ⟨more, _⟩ := (grows_putEach grows es).run_eq sound₁ run₃
    obtain ⟨path, value, rfl, named, valued⟩ :=
      each e ns _ ns₁ sound run₁ ms (more.trans extends_)
    have ahead : ∀ x ∈ l.toList, x.1 < e.1 := fun x mem => before x mem e List.mem_cons_self
    have inserted : (l.insert e.1 (f e.2)).toList = l.toList ++ [(e.1, f e.2)] :=
      Listing.toList_insert_last ahead
    have before' : ∀ x ∈ (l.insert e.1 (f e.2)).toList, ∀ e' ∈ es, x.1 < e'.1 := by
      intro x mem e' mem'
      rw [inserted] at mem
      rcases List.mem_append.mp mem with mem | mem
      · exact before x mem e' (List.mem_cons_of_mem e mem')
      · rw [List.mem_singleton.mp mem]
        exact first e' mem'
    obtain ⟨m, whole, tail⟩ := ih rest before' sound₁ run₃
    refine ⟨m, by rw [whole, inserted]; simp, ?_⟩
    refine reads_bind named (reads_bind valued (y := pieces) ?_ rfl) (List.append_assoc ..)
    rw [Listing.contains_eq_false ahead]
    exact tail

theorem mirrorsNamed_putFile : MirrorsNamed putFile takeMetadata FileMetadata.truncate := by
  intro e ns bs ns' sound run ms extends_
  obtain ⟨path, ns₁, run₁, run₂⟩ := run_bind_eq_ok run
  obtain ⟨value, ns₂, run₃, last⟩ := run_bind_eq_ok run₂
  cases last
  obtain ⟨_, sound₁⟩ := (grows_putName e.1).run_eq sound run₁
  obtain ⟨more, _⟩ := (grows_putMetadata e.2).run_eq sound₁ run₃
  exact ⟨path, value, rfl, mirrors_putName e.1 ns path ns₁ sound run₁ ms (more.trans extends_),
    mirrors_putMetadata e.2 ns₁ value _ sound₁ run₃ ms extends_⟩

theorem reads_files {l : Listing FileMetadata} (what : String) {bs : Bytes} (sound : ns.Sound)
    (run : (putEach putFile l.toList).run ns = (.ok bs, ns')) (extends_ : ns'.Prefix ms) :
    Reads (takeListing what ms (takeMetadata ms) l.length .empty) bs
      (l.map FileMetadata.truncate) := by
  obtain ⟨m, whole, reads⟩ := reads_listing grows_putFile mirrorsNamed_putFile what l.sorted
    (l := .empty) nofun sound run extends_
  have same : m = l.map FileMetadata.truncate := Listing.ext (by rw [whole]; rfl)
  rw [← same]
  exact reads

theorem mirrorsNamed_putTree : MirrorsNamed putTree takeTree TreeMetadata.truncate := by
  intro e ns bs ns' sound run ms extends_
  obtain ⟨path, ns₁, run₁, rest₁⟩ := run_bind_eq_ok run
  obtain ⟨count, _, run₂, rest₂⟩ := run_bind_eq_ok rest₁
  obtain ⟨counted, rfl⟩ := run_lift_eq_ok run₂
  obtain ⟨children, ns₃, run₃, rest₃⟩ := run_bind_eq_ok rest₂
  obtain ⟨archived, ns₄, run₄, rest₄⟩ := run_bind_eq_ok rest₃
  obtain ⟨resolved, ns₅, run₅, last⟩ := run_bind_eq_ok rest₄
  cases last
  obtain ⟨_, sound₁⟩ := (grows_putName e.1).run_eq sound run₁
  obtain ⟨more₃, sound₃⟩ := (grows_putEach grows_putFile _).run_eq sound₁ run₃
  obtain ⟨more₄, sound₄⟩ := (grows_putOptional grows_putMetadata _).run_eq sound₃ run₄
  obtain ⟨more₅, _⟩ := (grows_putOptional grows_putName _).run_eq sound₄ run₅
  have extends₄ := more₅.trans extends_
  have extends₃ := more₄.trans extends₄
  refine ⟨path, count ++ children ++ archived ++ resolved, by simp only [List.append_assoc], ?_, ?_⟩
  · exact mirrors_putName e.1 ns path _ sound run₁ ms (more₃.trans extends₃)
  have links := mirrors_putOptional mirrors_putName "tree resolved path" e.2.resolved ns₄ resolved _
    sound₄ run₅ ms extends_
  rw [Option.map_id'] at links
  have archive := mirrors_putOptional mirrors_putMetadata "archived tree" e.2.archived ns₃ archived
    _ sound₃ run₄ ms extends₄
  have files := reads_files "tree child" sound₁ run₃ extends₃
  have tail := reads_bind archive
    (f := fun archived => do
      let resolved ← takeOptional "tree resolved path" (takeName ms)
      return TreeMetadata.mk (e.2.children.map FileMetadata.truncate) archived resolved)
    (reads_map (fun resolved => TreeMetadata.mk (e.2.children.map FileMetadata.truncate)
      (e.2.archived.map FileMetadata.truncate) resolved) links) rfl
  have listed := reads_bind files
    (f := fun children => do
      let archived ← takeOptional "archived tree" (takeMetadata ms)
      let resolved ← takeOptional "tree resolved path" (takeName ms)
      return TreeMetadata.mk children archived resolved) tail rfl
  refine reads_bind (reads_length counted "tree child count") listed ?_
  simp only [List.append_assoc]

theorem reads_names {names : List String} {bs : Bytes} (sound : ns.Sound)
    (run : (putEach putName names).run ns = (.ok bs, ns')) (extends_ : ns'.Prefix ms) :
    Reads (takeMany (takeName ms) names.length) bs names := by
  induction names generalizing bs ns with
  | nil =>
    cases run
    exact reads_pure []
  | cons s names ih =>
    obtain ⟨piece, ns₁, run₁, run₂⟩ := run_bind_eq_ok run
    obtain ⟨pieces, ns₂, run₃, last⟩ := run_bind_eq_ok run₂
    cases last
    obtain ⟨_, sound₁⟩ := (grows_putName s).run_eq sound run₁
    obtain ⟨more, _⟩ := (grows_putEach grows_putName names).run_eq sound₁ run₃
    have first := mirrors_putName s ns piece ns₁ sound run₁ ms (more.trans extends_)
    exact reads_bind first (reads_map (s :: ·) (ih sound₁ run₃)) rfl

theorem mirrors_putInputs (inputs : Option (List String)) :
    Mirrors (putInputs inputs) takeInputs inputs := by
  intro ns bs ns' sound run ms extends_
  cases inputs with
  | none =>
    cases run
    exact reads_bind (reads_i32 noInputs) (reads_pure none) (List.append_nil _).symm
  | some inputs =>
    obtain ⟨count, ns₁, run₁, run₂⟩ := run_bind_eq_ok run
    obtain ⟨counted, same⟩ := run_lift_eq_ok run₁
    obtain ⟨names, ns₂, run₃, last⟩ := run_bind_eq_ok run₂
    cases last
    subst same
    obtain ⟨small, rfl⟩ := putLength_eq_ok counted
    have value := toInt_ofNat small
    have other : Int32.ofNat inputs.length ≠ noInputs := by
      intro same
      rw [same] at value
      have : noInputs.toInt = -1 := rfl
      omega
    have listed := reads_names sound run₃ extends_
    refine reads_bind (reads_i32 _) (y := names) ?_ rfl
    rw [if_neg other, value, if_neg (by omega), Int.toNat_natCast]
    exact reads_map some listed

theorem ofLatin1_latin1 {cs : List Char} {bs : Bytes} (h : latin1 cs = .ok bs) :
    ofLatin1 bs = String.ofList cs := by
  induction cs generalizing bs with
  | nil =>
    cases h
    rfl
  | cons c cs ih =>
    rw [latin1] at h
    split at h
    · rename_i byte
      cases rest : latin1 cs with
      | error e =>
        rw [rest] at h
        cases h
      | ok bs =>
        rw [rest] at h
        cases h
        have tail := String.ofList_injective (ih rest)
        have value : (UInt8.ofNat c.toNat).toNat = c.toNat := Bytes.toNat_ofNat byte
        rw [ofLatin1, List.map_cons, tail, value, Char.ofNat_toNat]
    · cases h

/-- Decoding gives back what was encoded, up to what the stored form has no room for. -/
theorem decode?_encode {e : Entry} {bs : Bytes} (sound : ns.Sound)
    (h : e.encode ns = (.ok bs, ns')) (extends_ : ns'.Prefix ms) :
    decode? ms bs = .ok e.truncate := by
  obtain ⟨latin, _, run₀, rest₀⟩ := run_bind_eq_ok h
  obtain ⟨characters, rfl⟩ := run_lift_eq_ok run₀
  obtain ⟨key, _, run₁, rest₁⟩ := run_bind_eq_ok rest₀
  obtain ⟨keyed, rfl⟩ := run_lift_eq_ok run₁
  obtain ⟨digest, _, run₂, rest₂⟩ := run_bind_eq_ok rest₁
  obtain ⟨digested, rfl⟩ := run_lift_eq_ok run₂
  obtain ⟨inputs, ns₃, run₃, rest₃⟩ := run_bind_eq_ok rest₂
  obtain ⟨properties, _, run₄, rest₄⟩ := run_bind_eq_ok rest₃
  obtain ⟨propertied, rfl⟩ := run_lift_eq_ok run₄
  obtain ⟨fileCount, _, run₅, rest₅⟩ := run_bind_eq_ok rest₄
  obtain ⟨filesCounted, rfl⟩ := run_lift_eq_ok run₅
  obtain ⟨files, ns₆, run₆, rest₆⟩ := run_bind_eq_ok rest₅
  obtain ⟨treeCount, _, run₇, rest₇⟩ := run_bind_eq_ok rest₆
  obtain ⟨treesCounted, rfl⟩ := run_lift_eq_ok run₇
  obtain ⟨trees, ns₈, run₈, last⟩ := run_bind_eq_ok rest₇
  cases last
  obtain ⟨more₃, sound₃⟩ := (grows_putInputs e.inputs).run_eq sound run₃
  obtain ⟨more₆, sound₆⟩ := (grows_putEach grows_putFile _).run_eq sound₃ run₆
  obtain ⟨more₈, _⟩ := (grows_putEach grows_putTree _).run_eq sound₆ run₈
  have extends₆ := more₈.trans extends_
  have readInputs := mirrors_putInputs e.inputs _ _ _ sound run₃ ms (more₆.trans extends₆)
  have readFiles := reads_files "output file" sound₃ run₆ extends₆
  obtain ⟨listing, whole, readTrees⟩ := reads_listing grows_putTree mirrorsNamed_putTree
    "output tree" e.trees.sorted (l := .empty) nofun sound₆ run₈ extends_
  have same : listing = e.trees.map TreeMetadata.truncate := Listing.ext (by rw [whole]; rfl)
  subst same
  change Reads (takeListing _ ms (takeTree ms) e.trees.length .empty) trees _ at readTrees
  rw [decode?, take]
  simp only [List.append_assoc]
  rw [(reads_bytes keyed "action key").run_bind, (reads_bytes digested "file digest").run_bind,
    readInputs.run_bind, (reads_bytes propertied "properties digest").run_bind,
    (reads_length filesCounted "output file count").run_bind, readFiles.run_bind,
    (reads_length treesCounted "output tree count").run_bind, ← List.append_nil trees,
    readTrees.run_bind, ofLatin1_latin1 characters, String.ofList_toList]
  rfl

/-- The stored form of an entry is worth the entry: encoding only adds names, under these and all
that extend them decoding gives the entry back, and encoding it once more writes the same bytes
and adds no name. -/
theorem encode_roundtrip {e : Entry} {bs : Bytes} (sound : ns.Sound)
    (h : e.encode ns = (.ok bs, ns')) :
    ns.Prefix ns' ∧ ns'.Sound ∧ ∀ ms, ns'.Prefix ms → decode? ms bs = .ok e.truncate ∧
      (ms.Sound → e.encode ms = (.ok bs, ms)) := by
  obtain ⟨more, sound'⟩ := (grows_put e).run_eq sound h
  refine ⟨more, sound', fun ms extends_ => ⟨decode?_encode sound h extends_, fun sound_ms => ?_⟩⟩
  exact encode_again sound h extends_ sound_ms

/-- A tree with one file, which was resolved and expires within a millisecond, and the same input
twice. -/
theorem encode_roundtrip_tree : ∃ (e : Entry) (bs : Bytes) (ms : Names),
    e.encode ⟨["in"]⟩ = (.ok bs, ⟨["in", "lib", "a", "b"]⟩) ∧
      Names.Prefix ⟨["in", "lib", "a", "b"]⟩ ms ∧ e.truncate ≠ e ∧
      decode? ms bs = .ok e.truncate ∧ e.encode ms = (.ok bs, ms) := by
  let file : FileMetadata := ⟨[7], 2, 3, some 1500001, some "b"⟩
  let tree : TreeMetadata := ⟨.ofList [("a", file)], none, none⟩
  let e : Entry := ⟨"key", [], some ["in", "in"], [9], .empty, .ofList [("lib", tree)]⟩
  have sound : Names.Sound ⟨["in"]⟩ := ⟨by decide, by decide⟩
  have later : Names.Sound ⟨["in", "lib", "a", "b", "c"]⟩ := ⟨by decide, by decide⟩
  have more : Names.Prefix ⟨["in", "lib", "a", "b"]⟩ ⟨["in", "lib", "a", "b", "c"]⟩ :=
    List.prefix_append ..
  have cut : e.truncate ≠ e := by decide +kernel
  have ok : (e.encode ⟨["in"]⟩).1.isOk := by decide +kernel
  have left : (e.encode ⟨["in"]⟩).2 = ⟨["in", "lib", "a", "b"]⟩ := by decide +kernel
  cases run : e.encode ⟨["in"]⟩ with
  | mk result ns =>
    rw [run] at ok left
    subst left
    cases result with
    | error fault => cases ok
    | ok bs =>
      obtain ⟨_, _, after⟩ := encode_roundtrip sound run
      obtain ⟨decoded, again⟩ := after _ more
      exact ⟨e, bs, _, run, more, cut, decoded, again later⟩

/-- What is read under some names is read the same under all that extend them. -/
def Stable (take : Names → Reader α) : Prop :=
  ∀ ns ms, ns.Prefix ms → ∀ bs a rest, (take ns).run bs = (.ok a, rest) →
    (take ms).run bs = (.ok a, rest)

theorem stable_const (r : Reader α) : Stable fun _ => r := fun _ _ _ _ _ _ h => h

theorem stable_bind {β : Type} {take : Names → Reader α} {next : Names → α → Reader β}
    (first : Stable take) (second : ∀ a, Stable fun ns => next ns a) :
    Stable fun ns => take ns >>= next ns := by
  intro ns ms extends_ bs b rest h
  obtain ⟨a, middle, taken, behind⟩ := Reader.run_bind_eq_ok h
  rw [Reader.run_bind, first ns ms extends_ bs a middle taken]
  exact second a ns ms extends_ middle b rest behind

theorem stable_takeName : Stable takeName := by
  refine stable_bind (stable_const takeU32) fun id ns ms extends_ bs a rest h => ?_
  dsimp only at h ⊢
  cases known : ns.name? id with
  | none =>
    rw [known] at h
    cases h
  | some s =>
    rw [known] at h
    rw [extends_.name? known]
    exact h

theorem stable_takeOptional (what : String) {take : Names → Reader α} (each : Stable take) :
    Stable fun ns => takeOptional what (take ns) := by
  refine stable_bind (stable_const (takeFlag what)) fun present => ?_
  cases present with
  | false => exact stable_const _
  | true => exact stable_bind each fun a => stable_const _

theorem stable_takeMetadata : Stable takeMetadata :=
  stable_bind (stable_const _) fun _ => stable_bind (stable_const _) fun _ =>
    stable_bind (stable_const _) fun _ => stable_bind (stable_const _) fun _ =>
      stable_bind (stable_takeOptional _ stable_takeName) fun _ => stable_const _

theorem stable_takeMany {take : Names → Reader α} (each : Stable take) (n : Nat) :
    Stable fun ns => takeMany (take ns) n := by
  induction n with
  | zero => exact stable_const _
  | succ n ih => exact stable_bind each fun a => stable_bind ih fun as => stable_const _

theorem stable_takeListing {V : Type} (what : String) {take : Names → Reader V}
    (each : Stable take) (n : Nat) (l : Listing V) :
    Stable fun ns => takeListing what ns (take ns) n l := by
  induction n generalizing l with
  | zero => exact stable_const _
  | succ n ih =>
    refine stable_bind stable_takeName fun name => stable_bind each fun value => ?_
    by_cases twice : l.contains name = true
    · simp only [twice, if_true]
      exact stable_const _
    · simp only [twice]
      exact ih (l.insert name value)

theorem stable_takeTree : Stable takeTree :=
  stable_bind (stable_const _) fun _ =>
    stable_bind (stable_takeListing _ stable_takeMetadata _ _) fun _ =>
      stable_bind (stable_takeOptional _ stable_takeMetadata) fun _ =>
        stable_bind (stable_takeOptional _ stable_takeName) fun _ => stable_const _

theorem stable_takeInputs : Stable takeInputs := by
  refine stable_bind (stable_const takeI32) fun count => ?_
  by_cases none_ : count = noInputs
  · simp only [if_pos none_]
    exact stable_const _
  · by_cases negative : count.toInt < 0
    · simp only [if_neg none_, if_pos negative]
      exact stable_const _
    · simp only [if_neg none_, if_neg negative]
      exact stable_bind (stable_takeMany stable_takeName _) fun _ => stable_const _

theorem stable_take : Stable take :=
  stable_bind (stable_const _) fun _ => stable_bind (stable_const _) fun _ =>
    stable_bind stable_takeInputs fun _ => stable_bind (stable_const _) fun _ =>
      stable_bind (stable_const _) fun _ =>
        stable_bind (stable_takeListing _ stable_takeMetadata _ _) fun _ =>
          stable_bind (stable_const _) fun _ =>
            stable_bind (stable_takeListing _ stable_takeTree _ _) fun _ =>
              stable_bind (stable_const _) fun _ => stable_const _

theorem decode?_prefix {bs : Bytes} {e : Entry} (extends_ : ns.Prefix ms)
    (h : decode? ns bs = .ok e) : decode? ms bs = .ok e := by
  cases whole : (take ns).run bs with
  | mk result rest =>
    rw [decode?, whole] at h
    rw [decode?, stable_take ns ms extends_ bs e rest (by rw [whole]; exact congrArg (·, rest) h)]

end Entry
end BuildCache
