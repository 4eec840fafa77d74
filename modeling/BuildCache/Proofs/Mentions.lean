import BuildCache.Proofs.Entries

/-!
The identities in a stored form, read off the bytes alone. The scanner goes through the fields as the
decoder does, but looks no identity up; it only collects them. They are all that a decoder needs: for
bytes that some names decode, a front of the names decodes the same exactly if it has all of them.
-/
namespace BuildCache

namespace Entry
open BuildCache.Field

def scanName : Reader (List PathId) := do return [← takeU32]

/-- One scanner behind the other. -/
def scanBoth (p q : Reader (List PathId)) : Reader (List PathId) := do return (← p) ++ (← q)

def scanOptional (what : String) (scan : Reader (List PathId)) : Reader (List PathId) := do
  if ← takeFlag what then scan else return []

def scanMany (scan : Reader (List PathId)) : Nat → Reader (List PathId)
  | 0 => return []
  | n + 1 => scanBoth scan (scanMany scan n)

/-- Each name, and behind it what stands under it. -/
def scanListing (scan : Reader (List PathId)) : Nat → Reader (List PathId)
  | 0 => return []
  | n + 1 => scanBoth scanName (scanBoth scan (scanListing scan n))

def scanMetadata : Reader (List PathId) := do
  let _ ← takeBytes "file digest"
  let _ ← takeU64
  let _ ← takeU32
  let _ ← takeExpiration
  scanOptional "resolved path" scanName

def scanTree : Reader (List PathId) := do
  let count ← takeLength "tree child count"
  scanBoth (scanListing scanMetadata count)
    (scanBoth (scanOptional "archived tree" scanMetadata)
      (scanOptional "tree resolved path" scanName))

def scanInputs : Reader (List PathId) := do
  let count ← takeI32
  if count = noInputs then return []
  else if count.toInt < 0 then throw (.negative "discovered input count" count.toInt)
  else scanMany scanName count.toInt.toNat

def scanTrees : Reader (List PathId) := do
  let count ← takeLength "output tree count"
  scanBoth (scanListing scanTree count) (do finish; return [])

def scanFiles : Reader (List PathId) := do
  let _ ← takeBytes "properties digest"
  let count ← takeLength "output file count"
  scanBoth (scanListing scanMetadata count) scanTrees

def scan : Reader (List PathId) := do
  let _ ← takeBytes "action key"
  let _ ← takeBytes "file digest"
  scanBoth scanInputs scanFiles

/-- The identities that the stored form speaks of, in order. -/
def mentioned? (bs : Bytes) : Except DecodeFault (List PathId) := (scan.run bs).1

variable {α β : Type} {ns : Names} {parse : Names → Reader α} {next : Names → α → Reader β}
  {p q : Reader (List PathId)}

/-- Where the decoder takes something, the scanner takes as many bytes, and a front of the names is
enough for the decoder exactly if it knows what the scanner has collected. -/
def Follows (parse : Names → Reader α) (scan : Reader (List PathId)) : Prop :=
  ∀ (ns : Names) bs a rest, (parse ns).run bs = (.ok a, rest) →
    ∃ ids, scan.run bs = (.ok ids, rest) ∧ ∀ ms : Names, ms.Prefix ns →
      ((parse ms).run bs = (.ok a, rest) ↔ ∀ id ∈ ids, id.toNat < ms.size)

theorem follows_pure (a : α) : Follows (fun _ => pure a) (pure []) := by
  intro ns bs b rest h
  cases h
  exact ⟨[], rfl, fun ms _ => iff_of_true rfl nofun⟩

theorem follows_throw (fault : DecodeFault) (p : Reader (List PathId)) :
    Follows (fun _ => (throw fault : Reader α)) p := by
  intro ns bs b rest h
  cases h

/-- A field that speaks of no name. -/
theorem follows_field {field : Reader α} {scan : α → Reader (List PathId)}
    (each : ∀ a, Follows (fun ns => next ns a) (scan a)) :
    Follows (fun ns => field >>= next ns) (field >>= scan) := by
  intro ns bs b rest h
  obtain ⟨a, middle, taken, behind⟩ := Reader.run_bind_eq_ok h
  obtain ⟨ids, scanned, known⟩ := each a ns middle b rest behind
  refine ⟨ids, ?_, fun ms front => ?_⟩
  · rw [Reader.run_bind, taken]
    exact scanned
  · rw [Reader.run_bind, taken]
    exact known ms front

/-- One part behind the other. -/
theorem follows_bind (stable : Stable parse) (first : Follows parse p)
    (second : ∀ a, Follows (fun ns => next ns a) q) :
    Follows (fun ns => parse ns >>= next ns) (scanBoth p q) := by
  intro ns bs b rest h
  obtain ⟨a, middle, taken, behind⟩ := Reader.run_bind_eq_ok h
  obtain ⟨ids, scanned, known⟩ := first ns bs a middle taken
  obtain ⟨ids', scanned', known'⟩ := second a ns middle b rest behind
  refine ⟨ids ++ ids', ?_, fun ms front => ?_⟩
  · rw [scanBoth, Reader.run_bind, scanned]
    dsimp only
    rw [Reader.run_bind, scanned']
    rfl
  · rw [List.forall_mem_append, ← known ms front, ← known' ms front]
    constructor
    · intro h
      obtain ⟨a', middle', taken', behind'⟩ := Reader.run_bind_eq_ok h
      -- more names decode the same
      have same := stable ms ns front bs a' middle' taken'
      rw [taken] at same
      cases same
      exact ⟨taken', behind'⟩
    · rintro ⟨taken', behind'⟩
      rw [Reader.run_bind, taken']
      exact behind'

/-- A part with nothing but a value to build behind it. -/
theorem follows_map (stable : Stable parse) (first : Follows parse p) (f : α → β) :
    Follows (fun ns => do return f (← parse ns)) p := by
  intro ns bs b rest h
  obtain ⟨a, middle, taken, behind⟩ := Reader.run_bind_eq_ok h
  cases behind
  obtain ⟨ids, scanned, known⟩ := first ns bs a _ taken
  refine ⟨ids, scanned, fun ms front => ?_⟩
  rw [← known ms front]
  constructor
  · intro h
    obtain ⟨a', middle', taken', behind'⟩ := Reader.run_bind_eq_ok h
    have same := stable ms ns front bs a' middle' taken'
    rw [taken] at same
    cases same
    exact taken'
  · intro taken'
    rw [Reader.run_bind, taken']
    rfl

theorem follows_takeName : Follows takeName scanName := by
  intro ns bs s rest h
  obtain ⟨id, middle, taken, behind⟩ := Reader.run_bind_eq_ok h
  have scanned : scanName.run bs = (.ok [id], middle) := by
    rw [scanName, Reader.run_bind, taken]
    rfl
  have looked (ms : Names) : (takeName ms).run bs =
      (ms.name? id).elim (.error (.danglingId id), middle) fun s => (.ok s, middle) := by
    rw [takeName, Reader.run_bind, taken]
    dsimp only
    cases ms.name? id <;> rfl
  rw [looked] at h
  cases known : ns.name? id with
  | none =>
    rw [known] at h
    cases h
  | some s =>
    rw [known] at h
    cases h
    refine ⟨[id], scanned, fun ms front => ?_⟩
    rw [looked, List.forall_mem_singleton]
    constructor
    · intro found
      cases here : ms.name? id with
      | none =>
        rw [here] at found
        cases found
      | some s' => exact Names.lt_size_of_name? here
    · intro small
      have here : ms.name? id = some ms.toList[id.toNat] := List.getElem?_eq_getElem small
      have same := front.name? here
      rw [known] at same
      rw [here, ← same]
      rfl

theorem follows_takeOptional (what : String) (stable : Stable parse) (each : Follows parse p) :
    Follows (fun ns => takeOptional what (parse ns)) (scanOptional what p) := by
  refine follows_field fun present => ?_
  cases present with
  | false => exact follows_pure none
  | true => exact follows_map stable each some

theorem follows_takePath (what : String) :
    Follows (fun ns => takeOptional what (takeName ns)) (scanOptional what scanName) :=
  follows_takeOptional what stable_takeName follows_takeName

theorem follows_takeMany (stable : Stable parse) (each : Follows parse p) (n : Nat) :
    Follows (fun ns => takeMany (parse ns) n) (scanMany p n) := by
  induction n with
  | zero => exact follows_pure []
  | succ n ih =>
    exact follows_bind stable each fun a => follows_map (stable_takeMany stable n) ih (a :: ·)

theorem follows_takeListing (what : String) (stable : Stable parse) (each : Follows parse p)
    (n : Nat) (l : Listing α) :
    Follows (fun ns => takeListing what ns (parse ns) n l) (scanListing p n) := by
  induction n generalizing l with
  | zero => exact follows_pure l
  | succ n ih =>
    refine follows_bind stable_takeName follows_takeName fun name =>
      follows_bind stable each fun value => ?_
    by_cases twice : l.contains name = true
    · simp only [twice, if_true]
      exact follows_throw _ _
    · simp only [twice]
      exact ih (l.insert name value)

theorem follows_takeMetadata : Follows takeMetadata scanMetadata :=
  follows_field fun digest => follows_field fun size => follows_field fun location =>
    follows_field fun expiration => follows_map (stable_takeOptional _ stable_takeName)
      (follows_takePath _) (FileMetadata.mk digest size location expiration)

theorem follows_takeTree : Follows takeTree scanTree :=
  follows_field fun count => follows_bind (stable_takeListing _ stable_takeMetadata count _)
    (follows_takeListing _ stable_takeMetadata follows_takeMetadata count _) fun children =>
      follows_bind (stable_takeOptional _ stable_takeMetadata)
        (follows_takeOptional _ stable_takeMetadata follows_takeMetadata) fun archived =>
          follows_map (stable_takeOptional _ stable_takeName) (follows_takePath _)
            (TreeMetadata.mk children archived)

theorem follows_takeInputs : Follows takeInputs scanInputs := by
  refine follows_field fun count => ?_
  by_cases none_ : count = noInputs
  · simp only [if_pos none_]
    exact follows_pure none
  · by_cases negative : count.toInt < 0
    · simp only [if_neg none_, if_pos negative]
      exact follows_throw _ _
    · simp only [if_neg none_, if_neg negative]
      exact follows_map (stable_takeMany stable_takeName _)
        (follows_takeMany stable_takeName follows_takeName _) some

theorem follows_take : Follows take scan :=
  follows_field fun key => follows_field fun fileDigest =>
    follows_bind stable_takeInputs follows_takeInputs fun inputs =>
      follows_field fun propertiesDigest => follows_field fun fileCount =>
        follows_bind (stable_takeListing _ stable_takeMetadata fileCount _)
          (follows_takeListing _ stable_takeMetadata follows_takeMetadata fileCount _) fun files =>
            follows_field fun treeCount =>
              follows_bind (stable_takeListing _ stable_takeTree treeCount _)
                (follows_takeListing _ stable_takeTree follows_takeTree treeCount _) fun trees =>
                  follows_field fun _ => follows_pure
                    (Entry.mk (ofLatin1 key) fileDigest inputs propertiesDigest files trees)

theorem run_of_decode? {bs : Bytes} {e : Entry} (h : decode? ns bs = .ok e) :
    ∃ rest, (take ns).run bs = (.ok e, rest) := by
  cases whole : (take ns).run bs with
  | mk result rest =>
    rw [decode?, whole] at h
    exact ⟨rest, congrArg (·, rest) h⟩

/-- For a stored form that some names decode, a front of them is enough exactly if it reaches behind
every identity that the bytes speak of. -/
theorem mentioned_of_decode? {bs : Bytes} {e : Entry} (h : decode? ns bs = .ok e) :
    ∃ ids, mentioned? bs = .ok ids ∧ ∀ ms : Names, ms.Prefix ns →
      (decode? ms bs = .ok e ↔ ∀ id ∈ ids, id.toNat < ms.size) := by
  obtain ⟨rest, decoded⟩ := run_of_decode? h
  obtain ⟨ids, scanned, known⟩ := follows_take ns bs e rest decoded
  refine ⟨ids, congrArg Prod.fst scanned, fun ms front => ?_⟩
  rw [← known ms front]
  constructor
  · intro h'
    obtain ⟨rest', decoded'⟩ := run_of_decode? h'
    have same := stable_take ms ns front bs e rest' decoded'
    rw [decoded] at same
    cases same
    exact decoded'
  · intro decoded'
    rw [decode?, decoded']

end Entry
end BuildCache
