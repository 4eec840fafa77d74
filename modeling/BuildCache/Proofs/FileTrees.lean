import BuildCache.Proofs.Resets

/-!
Whatever is asked of a file tree, it stays one: nodes lie in directories, and a handle means one
file. This holds for all paths and under all faults, so it needs no knowledge of where a program's
paths lead.
-/
namespace BuildCache

open Disk Program

variable {faults : Faults} {cwd : Place} {d d' : Disk} {path : Path}

namespace Disk

/-- What can be opened as a file has a place for one. -/
theorem leads_of_openFile {keep : Bytes → Bytes} {res : (Handle × Nat) × Disk}
    (done : d.openFile cwd path keep = .ok res) : d.Leads cwd path (goal cwd path) := by
  rw [openFile] at done
  obtain ⟨t, leads, done⟩ := bind_eq_ok.mp done
  obtain ⟨at_, named, _⟩ := resolve_goal leads
  cases t with
  | onTheWay place refusal => cases done
  | named place slash =>
    obtain rfl : place = goal cwd path := at_
    obtain ⟨_, parent⟩ := named _ _ rfl
    cases slash with
    | true => cases done
    | false =>
      obtain ⟨node, found, done⟩ := bind_eq_ok.mp done
      obtain ⟨short, rfl⟩ := lookup_eq_ok found
      refine ⟨leads, short, parent, fun dir => ?_⟩
      rw [dir] at done
      cases done

theorem leads_of_removeFile (done : d.removeFile cwd path = .ok d') :
    d.Leads cwd path (goal cwd path) := by
  rw [Disk.removeFile] at done
  obtain ⟨t, leads, done⟩ := bind_eq_ok.mp done
  obtain ⟨at_, named, _⟩ := resolve_goal leads
  cases t with
  | onTheWay place refusal => cases done
  | named place slash =>
    obtain rfl : place = goal cwd path := at_
    obtain ⟨_, parent⟩ := named _ _ rfl
    obtain ⟨node, found, done⟩ := bind_eq_ok.mp done
    obtain ⟨short, here⟩ := lookup_eq_ok found
    cases node with
    | none => cases done
    | some n =>
      cases n with
      | dir => cases done
      | file h c =>
        cases slash with
        | true => cases done
        | false =>
          refine ⟨leads, short, parent, fun dir => ?_⟩
          rw [here] at dir
          cases dir

theorem touches_of_openFile (sound : d.Sound) {keep : Bytes → Bytes} (nothing : keep [] = [])
    {h : Handle} {n : Nat} (done : d.openFile cwd path keep = .ok ((h, n), d')) :
    Touches [goal cwd path] d d' ∧ ∃ c, d'.file? (goal cwd path) = some (h, c) := by
  obtain ⟨h', made, opened, touches, file⟩ := (leads_of_openFile done).openFile sound keep nothing
  rw [done] at opened
  cases opened
  exact ⟨touches, _, file⟩

theorem touches_of_removeFile (sound : d.Sound) (done : d.removeFile cwd path = .ok d') :
    Touches [goal cwd path] d d' ∧ d'.file? (goal cwd path) = none := by
  rcases (leads_of_removeFile done).removeFile sound with ⟨_, refused⟩ | ⟨made, removed, h⟩
  · rw [done] at refused
    cases refused
  · rw [done] at removed
    cases removed
    exact h

theorem find_of_removeFile (missing : d.removeFile cwd path = .error .notFound) :
    d.find cwd path = .error .notFound := by
  rw [Disk.removeFile] at missing
  rw [find]
  cases leads : d.resolve cwd path with
  | error e =>
    rw [leads] at missing
    cases missing
    rfl
  | ok t =>
    rw [leads] at missing
    cases t with
    | onTheWay place refusal => cases missing
    | named place slash =>
      simp only [Bind.bind, Except.bind] at missing ⊢
      cases found : d.lookup place with
      | error e =>
        rw [found] at missing
        cases missing
        rfl
      | ok node =>
        rw [found] at missing
        cases node with
        | none => rfl
        | some n =>
          cases n with
          | dir => cases missing
          | file h c => cases slash <;> cases missing

theorem sound_append (sound : d.Sound) (h : Handle) (bs : Bytes) : (d.append h bs).Sound := by
  have dirs (p : Place) (dir : d.node? p = some .dir) : (d.append h bs).node? p = some .dir := by
    rw [node?_append, dir]
  have known (p : Place) (h' : Handle) (c : Bytes) (file : (d.append h bs).file? p = some (h', c)) :
      ∃ c', d.file? p = some (h', c') := by
    rw [file?_eq_some, node?_append] at file
    split at file
    · rename_i node
      cases file
      exact ⟨_, file?_eq_some.mpr node⟩
    · exact ⟨c, file?_eq_some.mpr file⟩
  refine ⟨fun p node => dirs _ (sound.tree p fun absent => node ?_), ?_, ?_⟩
  · rw [node?_append, absent]
  · intro p q h' c c' fp fq
    obtain ⟨x, fp⟩ := known p h' c fp
    obtain ⟨y, fq⟩ := known q h' c' fq
    exact sound.single p q h' x y fp fq
  · intro p h' c fp
    obtain ⟨x, fp⟩ := known p h' c fp
    exact sound.fresh p h' x fp

end Disk

namespace Program
variable {α : Type}

theorem answers_create_any {reply : Except OsError Handle} (sound : d.Sound)
    (answer : d.Answers faults cwd (.create path) reply d') :
    Touches [goal cwd path] d d' ∧
      ∀ h, reply = .ok h → ∃ c, d'.file? (goal cwd path) = some (h, c) := by
  cases answer with
  | refused _ e _ may other refusal =>
    cases refusal
    exact ⟨.refl sound, nofun⟩
  | served clock =>
    cases done : d.openFile cwd path fun _ => [] with
    | error e =>
      simp only [Host.answer, Host.change, done, Except.map]
      exact ⟨.refl sound, nofun⟩
    | ok res =>
      obtain ⟨touches, file⟩ := touches_of_openFile sound rfl done
      simp only [Host.answer, Host.change, done, Except.map]
      refine ⟨touches, ?_⟩
      rintro h ⟨⟩
      exact file

theorem answers_openJournal_any {reply : Except OsError (Handle × Nat)} (sound : d.Sound)
    (answer : d.Answers faults cwd (.openJournal path) reply d') :
    Touches [goal cwd path] d d' := by
  cases answer with
  | refused => exact .refl sound
  | served clock =>
    cases done : d.openFile cwd path id with
    | error e => simpa only [Host.answer, Host.change, done] using .refl sound
    | ok res =>
      simpa only [Host.answer, Host.change, done] using (touches_of_openFile sound rfl done).1

/-- A file that was removed, or is reported missing, cannot be found. -/
theorem answers_removeFile_any {reply : Except OsError Unit} (sound : d.Sound)
    (answer : d.Answers faults cwd (.removeFile path) reply d') :
    Touches [goal cwd path] d d' ∧ (reply = .ok () ∨ reply = .error .notFound →
      d'.find cwd path = .error .notFound) := by
  cases answer with
  | refused _ e _ may other refusal =>
    cases refusal
    refine ⟨.refl sound, ?_⟩
    rintro (done | missing)
    · cases done
    · exact absurd (Except.error.inj missing) other
  | served clock =>
    cases done : d.removeFile cwd path with
    | error e =>
      simp only [Host.answer, Host.change, done, Except.map]
      refine ⟨.refl sound, ?_⟩
      rintro (ok | missing)
      · cases ok
      · cases missing
        exact find_of_removeFile done
    | ok d' =>
      obtain ⟨touches, absent⟩ := touches_of_removeFile sound done
      simp only [Host.answer, Host.change, done, Except.map]
      refine ⟨touches, fun _ => ?_⟩
      rw [((leads_of_removeFile done).touches touches).find, absent]

theorem answers_rename_any {source target : Path} {reply : Except OsError Unit} (sound : d.Sound)
    (answer : d.Answers faults cwd (.rename source target) reply d') :
    d' = d ∨ Shifted (goal cwd source) (goal cwd target) d d' := by
  cases answer with
  | refused => exact .inl rfl
  | served clock =>
    cases done : d.rename cwd source target with
    | error e => exact .inl (by simp only [Host.answer, Host.change, done, Except.map])
    | ok d' =>
      simp only [Host.answer, Host.change, done, Except.map]
      exact (rename_shifts sound done).imp And.right And.right

/-- No request makes a file tree into anything else. -/
theorem sound_of_answers {r : Request} {reply : r.Reply} (sound : d.Sound)
    (answer : d.Answers faults cwd r reply d') : d'.Sound := by
  cases r with
  | read => exact (answers_read answer).1 ▸ sound
  | size => exact (answers_size answer).1 ▸ sound
  | sync => exact (answers_sync answer).1 ▸ sound
  | isDir => exact (answers_isDir answer).1 ▸ sound
  | wallTime => exact answers_wallTime answer ▸ sound
  | tick => exact answers_tick answer ▸ sound
  | order => exact answers_order answer ▸ sound
  | openJournal => exact (answers_openJournal_any sound answer).sound
  | create => exact (answers_create_any sound answer).1.sound
  | removeFile => exact (answers_removeFile_any sound answer).1.sound
  | makeDir => exact (answers_makeDir sound answer).1.sound
  | removeTree => exact (answers_removeTree sound answer).1.sound
  | append h bs =>
    cases answer with
    | refused => exact sound
    | served => exact sound_append sound h bs
    | torn _ _ front => exact sound_append sound h front
  | rename =>
    rcases answers_rename_any sound answer with rfl | shifted
    · exact sound
    · exact shifted.sound

theorem sound_of_runs {p : Program α} {a : α} (sound : d.Sound)
    (run : Runs faults cwd p d a d') : d'.Sound := by
  induction run with
  | done => exact sound
  | ask answer _ ih => exact ih (sound_of_answers sound answer)

theorem always_sound (sound : d.Sound) (p : Program α) :
    Always faults cwd p d fun _ d' => d'.Sound :=
  fun _ _ run => sound_of_runs sound run

theorem sound_of_stops {p : Program α} (sound : d.Sound) (stop : Stops faults cwd p d d') :
    d'.Sound := by
  induction stop with
  | here => exact sound
  | later answer _ ih => exact ih (sound_of_answers sound answer)

end Program
end BuildCache
