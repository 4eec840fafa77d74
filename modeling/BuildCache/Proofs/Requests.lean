import BuildCache.Proofs.Places
import BuildCache.Proofs.Runs

/-!
The possible replies to each request about a place that a path leads to, and what they leave on the
disk.
-/
namespace BuildCache

open Disk Program

variable {faults : Faults} {cwd : Place} {d d' : Disk} {path : Path} {p : Place}

theorem answers_read {reply : Except OsError Bytes}
    (answer : d.Answers faults cwd (.read path) reply d') :
    d' = d ∧ (reply = d.read cwd path ∨ faults.refusals ∧ ∃ e, e ≠ .notFound ∧ reply = .error e) := by
  cases answer with
  | served clock => exact ⟨rfl, .inl rfl⟩
  | refused _ e _ may other refusal =>
    cases refusal
    exact ⟨rfl, .inr ⟨may, e, other, rfl⟩⟩

theorem answers_size {reply : Except OsError Nat}
    (answer : d.Answers faults cwd (.size path) reply d') :
    d' = d ∧ (reply = d.size cwd path ∨ faults.refusals ∧ ∃ e, e ≠ .notFound ∧ reply = .error e) := by
  cases answer with
  | served clock => exact ⟨rfl, .inl rfl⟩
  | refused _ e _ may other refusal =>
    cases refusal
    exact ⟨rfl, .inr ⟨may, e, other, rfl⟩⟩

theorem answers_sync {h : Handle} {reply : Except OsError Unit}
    (answer : d.Answers faults cwd (.sync h) reply d') :
    d' = d ∧ (reply = .ok () ∨ faults.refusals ∧ ∃ e, e ≠ .notFound ∧ reply = .error e) := by
  cases answer with
  | served clock => exact ⟨rfl, .inl rfl⟩
  | refused _ e _ may other refusal =>
    cases refusal
    exact ⟨rfl, .inr ⟨may, e, other, rfl⟩⟩

theorem answers_tick {now : Nat} (answer : d.Answers faults cwd .tick now d') : d' = d := by
  cases answer with
  | served clock => rfl
  | refused _ e _ may other refusal => cases refusal

theorem answers_wallTime {now : Int} (answer : d.Answers faults cwd .wallTime now d') :
    d' = d := by
  cases answer with
  | served clock => rfl
  | refused _ e _ may other refusal => cases refusal

/-- Asking a clock changes nothing on the disk. -/
theorem always_tick : Always faults cwd (request .tick) d fun _ d' => d' = d :=
  always_request.mpr fun _ _ answer => answers_tick answer

theorem always_wallTime : Always faults cwd (request .wallTime) d fun _ d' => d' = d :=
  always_request.mpr fun _ _ answer => answers_wallTime answer

theorem answers_order {count : Nat} {places : List Nat}
    (answer : d.Answers faults cwd (.order count) places d') : d' = d := by
  cases answer with
  | served clock => rfl
  | walked => rfl
  | refused _ e _ may other refusal => cases refusal

theorem answers_isDir {is : Bool} (answer : d.Answers faults cwd (.isDir path) is d') :
    d' = d ∧ is = d.isDir cwd path := by
  cases answer with
  | served clock => exact ⟨rfl, rfl⟩
  | refused _ e _ may other refusal => cases refusal

theorem answers_openJournal {reply : Except OsError (Handle × Nat)} (sound : d.Sound)
    (leads : d.Leads cwd path p) (answer : d.Answers faults cwd (.openJournal path) reply d') :
    (∃ h, reply = .ok (h, (d.content p).length) ∧ Touches [p] d d' ∧
      d'.file? p = some (h, d.content p)) ∨
    d' = d ∧ faults.refusals ∧ ∃ e, e ≠ .notFound ∧ reply = .error e := by
  cases answer with
  | served clock =>
    obtain ⟨h, made, opened, touches, file⟩ := leads.openFile sound id rfl
    refine .inl ⟨h, ?_⟩
    simp only [Host.answer, opened, Host.change]
    exact ⟨rfl, touches, file⟩
  | refused _ e _ may other refusal =>
    cases refusal
    exact .inr ⟨rfl, may, e, other, rfl⟩

theorem answers_create {reply : Except OsError Handle} (sound : d.Sound)
    (leads : d.Leads cwd path p) (answer : d.Answers faults cwd (.create path) reply d') :
    (∃ h, reply = .ok h ∧ Touches [p] d d' ∧ d'.file? p = some (h, [])) ∨
    d' = d ∧ faults.refusals ∧ ∃ e, e ≠ .notFound ∧ reply = .error e := by
  cases answer with
  | served clock =>
    obtain ⟨h, made, opened, touches, file⟩ := leads.openFile sound (fun _ => []) rfl
    refine .inl ⟨h, ?_⟩
    simp only [Host.answer, opened, Except.map, Host.change]
    exact ⟨trivial, touches, file⟩
  | refused _ e _ may other refusal =>
    cases refusal
    exact .inr ⟨rfl, may, e, other, rfl⟩

/-- An append to an open file adds all its bytes, or fails and adds none or a front of them. -/
theorem answers_append {h : Handle} {bs c : Bytes} {reply : Except OsError Unit} (sound : d.Sound)
    (file : d.file? p = some (h, c)) (answer : d.Answers faults cwd (.append h bs) reply d') :
    (reply = .ok () ∧ Touches [p] d d' ∧ d'.file? p = some (h, c ++ bs)) ∨
    (∃ e, reply = .error e) ∧ (d' = d ∧ faults.refusals ∨
      faults.tears ∧ Touches [p] d d' ∧
        ∃ front, front <+: bs ∧ d'.file? p = some (h, c ++ front)) := by
  cases answer with
  | served clock => exact .inl ⟨rfl, append_eq sound file bs⟩
  | refused _ e _ may other refusal =>
    cases refusal
    exact .inr ⟨⟨e, rfl⟩, .inl ⟨rfl, may⟩⟩
  | torn _ _ front e may part =>
    obtain ⟨touches, file'⟩ := append_eq sound file front
    exact .inr ⟨⟨e, rfl⟩, .inr ⟨may, touches, front, part, file'⟩⟩

theorem answers_removeFile {reply : Except OsError Unit} (sound : d.Sound)
    (leads : d.Leads cwd path p) (answer : d.Answers faults cwd (.removeFile path) reply d') :
    (reply = .ok () ∧ Touches [p] d d' ∧ d'.file? p = none) ∨
    (d' = d ∧ reply = .error .notFound ∧ d.file? p = none) ∨
    d' = d ∧ faults.refusals ∧ ∃ e, e ≠ .notFound ∧ reply = .error e := by
  cases answer with
  | served clock =>
    rcases leads.removeFile sound with ⟨absent, refused⟩ | ⟨made, removed, touches, absent⟩
    · simp only [Host.answer, refused, Except.map, Host.change]
      exact .inr (.inl ⟨trivial, trivial, absent⟩)
    · simp only [Host.answer, removed, Except.map, Host.change]
      exact .inl ⟨trivial, touches, absent⟩
  | refused _ e _ may other refusal =>
    cases refusal
    exact .inr (.inr ⟨rfl, may, e, other, rfl⟩)

theorem answers_rename {source target : Path} {a b : Place} {h : Handle} {c : Bytes}
    {reply : Except OsError Unit} (sound : d.Sound) (before : d.Leads cwd source a)
    (after : d.Leads cwd target b) (file : d.file? a = some (h, c)) (other : a ≠ b)
    (level : a.length = b.length) (answer : d.Answers faults cwd (.rename source target) reply d') :
    (reply = .ok () ∧ Touches [a, b] d d' ∧ d'.file? b = some (h, c)) ∨
    d' = d ∧ faults.refusals ∧ ∃ e, e ≠ .notFound ∧ reply = .error e := by
  cases answer with
  | served clock =>
    obtain ⟨made, moved, touches, _, file'⟩ := before.rename after sound file other level
    simp only [Host.answer, moved, Except.map, Host.change]
    exact .inl ⟨trivial, touches, file'⟩
  | refused _ e _ may other refusal =>
    cases refusal
    exact .inr ⟨rfl, may, e, other, rfl⟩

end BuildCache
