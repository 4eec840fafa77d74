import BuildCache.Entry.Codec
import BuildCache.Proofs.Names
import BuildCache.Proofs.Readers

/-!
Encoding gives identities to names on the way. Whatever it comes to, the names it leaves behind
are the ones before and perhaps more. Where it succeeds, it comes to the same once more under the
names it left and under all that extend them, and then adds no name.
-/
namespace BuildCache

namespace Interning
variable {α β : Type}

/-- The encoder only adds to the names, and what it has added serves it the next time. -/
structure Grows (p : Interning α) : Prop where
  adds : ∀ ns : Names, ns.Sound → ns.Prefix (p.run ns).2 ∧ (p.run ns).2.Sound
  again : ∀ (ns ns' ms : Names) (a : α), ns.Sound → p.run ns = (.ok a, ns') → ns'.Prefix ms →
    ms.Sound → p.run ms = (.ok a, ms)

theorem grows_pure (a : α) : Grows (pure a) where
  adds ns sound := ⟨.refl ns, sound⟩
  again ns ns' ms b _ run _ _ := by
    cases run
    rfl

theorem grows_lift (x : Except EncodeFault α) : Grows (liftM x) where
  adds ns sound := by cases x <;> exact ⟨.refl ns, sound⟩
  again ns ns' ms a _ run _ _ := by
    cases x with
    | error e => cases run
    | ok b =>
      cases run
      rfl

theorem run_bind (p : Interning α) (f : α → Interning β) (ns : Names) :
    (p >>= f).run ns = match p.run ns with
      | (.ok a, ns') => (f a).run ns'
      | (.error e, ns') => (.error e, ns') := by
  change ExceptT.bindCont f (p.run ns).1 (p.run ns).2 = _
  cases step : p.run ns with
  | mk result ns' => cases result <;> rfl

theorem run_bind_eq_ok {p : Interning α} {f : α → Interning β} {ns ns'' : Names} {b : β}
    (h : (p >>= f).run ns = (.ok b, ns'')) :
    ∃ a ns', p.run ns = (.ok a, ns') ∧ (f a).run ns' = (.ok b, ns'') := by
  rw [run_bind] at h
  cases step : p.run ns with
  | mk result ns' =>
    rw [step] at h
    cases result with
    | error e => cases h
    | ok a => exact ⟨a, ns', rfl, h⟩

theorem Grows.run_eq {p : Interning α} (grows : Grows p) {ns ns' : Names}
    {result : Except EncodeFault α} (sound : ns.Sound) (h : p.run ns = (result, ns')) :
    ns.Prefix ns' ∧ ns'.Sound := by
  have after := grows.adds ns sound
  rw [h] at after
  exact after

theorem grows_bind {p : Interning α} {f : α → Interning β} (first : Grows p)
    (next : ∀ a, Grows (f a)) : Grows (p >>= f) where
  adds ns sound := by
    obtain ⟨before, sound'⟩ := first.adds ns sound
    rw [run_bind]
    cases step : p.run ns with
    | mk result ns' =>
      rw [step] at before sound'
      cases result with
      | error e => exact ⟨before, sound'⟩
      | ok a =>
        obtain ⟨after, sound''⟩ := (next a).adds ns' sound'
        exact ⟨before.trans after, sound''⟩
  again ns ns'' ms b sound run extends_ sound_ms := by
    obtain ⟨a, ns', step, rest⟩ := run_bind_eq_ok run
    obtain ⟨_, sound'⟩ := first.run_eq sound step
    obtain ⟨more, _⟩ := (next a).run_eq sound' rest
    rw [run_bind, first.again ns ns' ms a sound step (more.trans extends_) sound_ms]
    exact (next a).again ns' ns'' ms b sound' rest extends_ sound_ms

theorem run_lift_eq_ok {x : Except EncodeFault α} {ns ns' : Names} {a : α}
    (h : (liftM x : Interning α).run ns = (.ok a, ns')) : x = .ok a ∧ ns' = ns := by
  cases x with
  | error e => cases h
  | ok b =>
    cases h
    exact ⟨rfl, rfl⟩

end Interning

namespace Entry
open Interning BuildCache.Field Reader

variable {α : Type} {ns ns' ms : Names}

theorem grows_intern (s : String) : Grows (ExceptT.mk fun ns => ns.intern s) where
  adds ns sound := ⟨Names.prefix_intern ns s, sound.intern s⟩
  again ns ns' ms id sound run extends_ sound_ms := by
    have interned : ns.intern s = (.ok id, ns') := run
    have known := Names.name?_intern sound (congrArg Prod.fst interned)
    rw [interned] at known
    exact Names.intern_of_name? sound_ms (extends_.name? known)

theorem grows_putName (s : String) : Grows (putName s) :=
  grows_bind (grows_intern s) fun _ => grows_pure _

theorem grows_putEach {put : α → Interning Bytes} (each : ∀ a, Grows (put a)) (as : List α) :
    Grows (putEach put as) := by
  induction as with
  | nil => exact grows_pure []
  | cons a as ih => exact grows_bind (each a) fun _ => grows_bind ih fun _ => grows_pure _

theorem grows_putOptional {put : α → Interning Bytes} (each : ∀ a, Grows (put a))
    (a? : Option α) : Grows (putOptional put a?) := by
  cases a? with
  | none => exact grows_pure _
  | some a => exact grows_bind (each a) fun _ => grows_pure _

theorem grows_putMetadata (m : FileMetadata) : Grows (putMetadata m) :=
  grows_bind (grows_lift _) fun _ => grows_bind (grows_lift _) fun _ =>
    grows_bind (grows_putOptional grows_putName m.resolved) fun _ => grows_pure _

theorem grows_putFile (f : String × FileMetadata) : Grows (putFile f) :=
  grows_bind (grows_putName f.1) fun _ => grows_bind (grows_putMetadata f.2) fun _ => grows_pure _

theorem grows_putTree (t : String × TreeMetadata) : Grows (putTree t) :=
  grows_bind (grows_putName t.1) fun _ => grows_bind (grows_lift _) fun _ =>
    grows_bind (grows_putEach grows_putFile _) fun _ =>
      grows_bind (grows_putOptional grows_putMetadata _) fun _ =>
        grows_bind (grows_putOptional grows_putName _) fun _ => grows_pure _

theorem grows_putInputs (inputs : Option (List String)) : Grows (putInputs inputs) := by
  cases inputs with
  | none => exact grows_pure _
  | some inputs =>
    exact grows_bind (grows_lift _) fun _ =>
      grows_bind (grows_putEach grows_putName inputs) fun _ => grows_pure _

theorem grows_put (e : Entry) : Grows (put e) :=
  grows_bind (grows_lift _) fun _ => grows_bind (grows_lift _) fun _ =>
    grows_bind (grows_lift _) fun _ => grows_bind (grows_putInputs e.inputs) fun _ =>
      grows_bind (grows_lift _) fun _ => grows_bind (grows_lift _) fun _ =>
        grows_bind (grows_putEach grows_putFile _) fun _ => grows_bind (grows_lift _) fun _ =>
          grows_bind (grows_putEach grows_putTree _) fun _ => grows_pure _

/-- Encoding an entry only adds to the names, also where it fails. -/
theorem prefix_encode (e : Entry) (sound : ns.Sound) :
    ns.Prefix (e.encode ns).2 ∧ (e.encode ns).2.Sound :=
  (grows_put e).adds ns sound

/-- An entry that was encoded is encoded the same again, and no name is new then. -/
theorem encode_again {e : Entry} {bs : Bytes} (sound : ns.Sound) (h : e.encode ns = (.ok bs, ns'))
    (extends_ : ns'.Prefix ms) (sound_ms : ms.Sound) : e.encode ms = (.ok bs, ms) :=
  (grows_put e).again ns ns' ms bs sound h extends_ sound_ms

end Entry
end BuildCache
