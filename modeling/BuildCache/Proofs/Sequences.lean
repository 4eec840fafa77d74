import BuildCache.Field.Sequence
import BuildCache.Proofs.Extents

/-!
A sequence of fields comes back as it was written. A length or a byte string of 2 to the 31st or
more is refused and adds nothing; every other value adds its bytes behind those that are there. A
reader that asks for the accepted kinds in their order, whatever it calls them, gets the values,
takes for each the bytes that it was written as, and is at the end behind the last one only.
-/
namespace BuildCache

open Reader

namespace FieldValue
variable {what : String} {v : FieldValue} {bs : Bytes}

/-- The number that a value would be written with as its length, if it needs one. -/
def extent : FieldValue → Nat
  | length n => n
  | bytes bs => bs.length
  | i32 _ | u32 _ | i64 _ | u64 _ | flag _ => 0

/-- What the value is written as; nothing if it is refused. -/
def form (v : FieldValue) : Bytes := (v.put "").toOption.getD []

/-- Whether the format has a place for the value. -/
abbrev Writable (v : FieldValue) : Prop := v.extent < Field.lengthBound

theorem putLength_eq (what : String) (n : Nat) : Field.putLength what n =
    if n < Field.lengthBound then .ok ((length n).form) else .error (.tooLong what n) := by
  by_cases small : n < Field.lengthBound
  · simp [form, put, Field.putLength, small, Except.toOption]
  · simp [Field.putLength, small]

/-- The name of a value matters only where the value is refused. -/
theorem put_eq (what : String) (v : FieldValue) : v.put what =
    if v.Writable then .ok v.form else .error (.tooLong what v.extent) := by
  have scalar : 0 < Field.lengthBound := by decide
  cases v with
  | length n => exact putLength_eq what n
  | bytes bs =>
    by_cases small : bs.length < Field.lengthBound
    · simp [form, put, extent, Field.putBytes, Field.putLength, small, Except.map, Except.toOption]
    · simp [put, extent, Field.putBytes, Field.putLength, small, Except.map]
  | i32 i => exact (if_pos scalar).symm
  | u32 n => exact (if_pos scalar).symm
  | i64 i => exact (if_pos scalar).symm
  | u64 n => exact (if_pos scalar).symm
  | flag b => exact (if_pos scalar).symm

theorem put_of_writable (what : String) (writable : v.Writable) : v.put what = .ok v.form := by
  rw [put_eq, if_pos writable]

theorem form_of_refused (refused : ¬v.Writable) : v.form = [] := by
  rw [form, put_eq, if_neg refused]
  rfl

theorem reads_named {α β : Type} {r : Reader α} {a : α} (f : α → β) (reads : Reads r bs a) :
    Reads (f <$> r) bs (f a) := by
  rw [map_eq_pure_bind]
  exact reads_map f reads

/-- What a value was written as is read as the value, under any name and in front of anything. -/
theorem reads_of_put (written : v.put what = .ok bs) (what' : String) :
    Reads (v.kind.take what') bs v := by
  cases v with
  | length n => exact reads_named length (Field.reads_length written what')
  | bytes ds => exact reads_named bytes (Field.reads_bytes written what')
  | i32 i =>
    cases written
    exact reads_named i32 (Field.reads_i32 i)
  | u32 n =>
    cases written
    exact reads_named u32 (Field.reads_u32 n)
  | i64 i =>
    cases written
    exact reads_named i64 (Field.reads_i64 i)
  | u64 n =>
    cases written
    exact reads_named u64 (Field.reads_u64 n)
  | flag b =>
    cases written
    exact reads_named flag (Field.reads_flag what' b)

theorem reads_form (writable : v.Writable) (what : String) : Reads (v.kind.take what) v.form v :=
  reads_of_put (put_of_writable "" writable) what

theorem take_nil (what : String) (kind : FieldKind) : ((kind.take what).run []).1.isOk = false := by
  cases kind <;> rfl

/-- No value is read off nothing, so none is written as nothing. -/
theorem form_ne_nil (writable : v.Writable) : v.form ≠ [] := by
  intro nothing
  have reads := reads_form writable "" []
  rw [nothing, List.nil_append] at reads
  have fails := take_nil "" v.kind
  rw [reads] at fails
  cases fails

end FieldValue

namespace Field
open FieldValue

/-- The values of the calls that have a place in the format. -/
def accepted (calls : List (String × FieldValue)) : List FieldValue :=
  (calls.map Prod.snd).filter fun v => v.Writable

/-- What values are written as, one behind the other. -/
def forms (vs : List FieldValue) : Bytes := vs.flatMap form

/-- Each value, and what is left of the bytes once it was read. -/
def unrolled : List FieldValue → List (Except DecodeFault FieldValue × Bytes)
  | [] => []
  | v :: vs => (.ok v, forms vs) :: unrolled vs

variable {calls before after : List (String × FieldValue)} {call : String × FieldValue}
  {vs later : List FieldValue} {reads : List (String × FieldKind)}

theorem writable_of_accepted : ∀ v ∈ accepted calls, v.Writable := fun _ mem =>
  of_decide_eq_true (List.mem_filter.mp mem).2

theorem putAll_cons (call : String × FieldValue) (calls : List (String × FieldValue)) :
    putAll (call :: calls) = (call.2.form ++ (putAll calls).1,
      ((call.2.put call.1).map fun _ => ()) :: (putAll calls).2) := by
  rw [putAll, put_eq]
  by_cases writable : call.2.Writable
  · rw [if_pos writable]
    rfl
  · rw [if_neg writable, form_of_refused writable]
    rfl

theorem putAll_append (before after : List (String × FieldValue)) :
    putAll (before ++ after) =
      ((putAll before).1 ++ (putAll after).1, (putAll before).2 ++ (putAll after).2) := by
  induction before with
  | nil => rfl
  | cons call before ih =>
    rw [List.cons_append, putAll_cons, putAll_cons, ih]
    simp

theorem length_putAll (calls : List (String × FieldValue)) :
    (putAll calls).2.length = calls.length := by
  induction calls with
  | nil => rfl
  | cons call calls ih => rw [putAll_cons, List.length_cons, ih, List.length_cons]

/-- The refused values leave nothing behind. -/
theorem putAll_accepted (calls : List (String × FieldValue)) :
    (putAll calls).1 = forms (accepted calls) := by
  induction calls with
  | nil => rfl
  | cons call calls ih =>
    rw [putAll_cons, ih, accepted, accepted, List.map_cons]
    by_cases writable : call.2.Writable
    · rw [List.filter_cons_of_pos (by simpa using writable)]
      rfl
    · rw [List.filter_cons_of_neg (by simpa using writable), form_of_refused writable]
      rfl

theorem forms_eq_nil (writable : ∀ v ∈ vs, v.Writable) : forms vs = [] ↔ vs = [] := by
  cases vs with
  | nil => simp [forms]
  | cons v vs =>
    have some_ := form_ne_nil (writable v List.mem_cons_self)
    simp [forms, some_]

theorem takeAll_forms (writable : ∀ v ∈ vs, v.Writable)
    (kinds : reads.map Prod.snd = vs.map FieldValue.kind) :
    takeAll reads (forms vs) = unrolled vs := by
  induction vs generalizing reads with
  | nil =>
    rw [List.map_eq_nil_iff.mp kinds]
    rfl
  | cons v vs ih =>
    obtain ⟨⟨what, kind⟩, rest, rfl, rfl, same⟩ := List.map_eq_cons_iff.mp kinds
    have first : (v.kind.take what).run (forms (v :: vs)) = (.ok v, forms vs) :=
      reads_form (writable v List.mem_cons_self) what (forms vs)
    rw [takeAll, first, ih (fun v mem => writable v (List.mem_cons_of_mem _ mem)) same]
    rfl

/-- What one of the calls answers, and what it adds to the bytes of those before it. -/
structure Adds (before : List (String × FieldValue)) (call : String × FieldValue)
    (after : List (String × FieldValue)) : Prop where
  accepted : call.2.Writable → (putAll (before ++ call :: after)).2[before.length]? = some (.ok ()) ∧
    call.2.put call.1 = .ok call.2.form ∧
    (putAll (before ++ [call])).1 = (putAll before).1 ++ call.2.form
  refused : ¬call.2.Writable → (putAll (before ++ call :: after)).2[before.length]? =
      some (.error (.tooLong call.1 call.2.extent)) ∧
    (putAll (before ++ [call])).1 = (putAll before).1

theorem adds (before : List (String × FieldValue)) (call : String × FieldValue)
    (after : List (String × FieldValue)) : Adds before call after := by
  have answer : (putAll (before ++ call :: after)).2[before.length]? =
      some ((call.2.put call.1).map fun _ => ()) := by
    rw [putAll_append, putAll_cons, List.getElem?_append_right (Nat.le_of_eq (length_putAll _)),
      length_putAll, Nat.sub_self, List.getElem?_cons_zero]
  have added : (putAll (before ++ [call])).1 = (putAll before).1 ++ call.2.form := by
    rw [putAll_append, putAll_cons, putAll, List.append_nil]
  rw [put_eq] at answer
  constructor
  · intro writable
    rw [if_pos writable] at answer
    exact ⟨answer, put_of_writable call.1 writable, added⟩
  · intro refused
    rw [if_neg refused] at answer
    rw [form_of_refused refused, List.append_nil] at added
    exact ⟨answer, added⟩

/-- However calls that are accepted and calls that are refused follow each other, the accepted values
are read back, each from the bytes that its call added, and only behind the last one is the end. -/
theorem takeAll_putAll (calls : List (String × FieldValue)) (reads : List (String × FieldKind))
    (kinds : reads.map Prod.snd = (accepted calls).map FieldValue.kind) :
    (∀ before call after, calls = before ++ call :: after → Adds before call after) ∧
      takeAll reads (putAll calls).1 = unrolled (accepted calls) ∧
      ∀ later, later <:+ accepted calls → (finish.run (forms later)).1 =
        if later = [] then .ok () else .error (.trailing (forms later).length) := by
  refine ⟨fun before call after _ => adds before call after, ?_, fun later rest => ?_⟩
  · rw [putAll_accepted]
    exact takeAll_forms writable_of_accepted kinds
  · have writable : ∀ v ∈ later, v.Writable := fun v mem =>
      writable_of_accepted v (rest.subset mem)
    rw [run_finish]
    by_cases last : later = []
    · rw [if_pos last, if_pos ((forms_eq_nil writable).mpr last)]
    · rw [if_neg last, if_neg (mt (forms_eq_nil writable).mp last)]

/-- Numbers at the ends of their types, a length just too large between others, and the longest. -/
theorem takeAll_putAll_extremes :
    let calls : List (String × FieldValue) := [("offset", .i32 (-2147483648)),
      ("count", .length 2147483648), ("size", .u64 18446744073709551615), ("present", .flag true),
      ("name", .bytes [97, 98, 99]), ("time", .i64 (-9223372036854775808)), ("place", .u32 300),
      ("count", .length 2147483647)]
    let reads : List (String × FieldKind) := [("a", .i32), ("b", .u64), ("c", .flag), ("d", .bytes),
      ("e", .i64), ("f", .u32), ("g", .length)]
    let values : List FieldValue := [.i32 (-2147483648), .u64 18446744073709551615, .flag true,
      .bytes [97, 98, 99], .i64 (-9223372036854775808), .u32 300, .length 2147483647]
    reads.map Prod.snd = (accepted calls).map FieldValue.kind ∧ (putAll calls).1.length = 36 ∧
      takeAll reads (putAll calls).1 = unrolled values := by
  intro calls reads values
  have kept : accepted calls = values := by decide
  have kinds : reads.map Prod.snd = (accepted calls).map FieldValue.kind := by
    rw [kept]
    rfl
  refine ⟨kinds, by decide +kernel, ?_⟩
  have mirrored := (takeAll_putAll calls reads kinds).2.1
  rwa [kept] at mirrored

end Field
end BuildCache
