import BuildCache.Proofs.Requests
import BuildCache.Proofs.StoredFiles

/-!
The file operations of a log, each as a whole: what it answers and what it leaves on the disk,
whatever goes wrong in it.
-/
namespace BuildCache

open Disk Program

/-- Where the files of a log are. -/
structure Shelf where
  snapshot : Place
  journal : Place
  temporary : Place

namespace Shelf

def places (shelf : Shelf) : List Place := [shelf.snapshot, shelf.journal, shelf.temporary]

/-- The paths of the files lead there, seen from `cwd`. -/
structure Holds (shelf : Shelf) (files : LogFiles) (cwd : Place) (d : Disk) : Prop where
  sound : d.Sound
  snapshot : d.Leads cwd files.snapshot shelf.snapshot
  journal : d.Leads cwd files.journal shelf.journal
  temporary : d.Leads cwd (Log.temporary files.snapshot) shelf.temporary
  distinct : shelf.places.Nodup
  level : shelf.temporary.length = shelf.snapshot.length

theorem Holds.touches {shelf : Shelf} {files : LogFiles} {cwd : Place} {d d' : Disk}
    {at_ : List Place} (h : shelf.Holds files cwd d) (touches : Touches at_ d d') :
    shelf.Holds files cwd d' where
  sound := touches.sound
  snapshot := h.snapshot.touches touches
  journal := h.journal.touches touches
  temporary := h.temporary.touches touches
  distinct := h.distinct
  level := h.level

end Shelf

/-- The files at these places are as they were. -/
def SameAt (places : List Place) (d d' : Disk) : Prop :=
  ∀ p ∈ places, d'.content p = d.content p

instance (places : List Place) (d d' : Disk) : Decidable (SameAt places d d') :=
  inferInstanceAs (Decidable (∀ p ∈ places, _))

theorem SameAt.refl (places : List Place) (d : Disk) : SameAt places d d := fun _ _ => rfl

theorem Disk.Touches.sameAt {at_ places : List Place} {d d' : Disk} (touches : Touches at_ d d')
    (apart : ∀ p ∈ places, p ∉ at_) : SameAt places d d' :=
  fun p mem => touches.content (apart p mem)

namespace Log
variable {faults : Faults} {cwd : Place} {d : Disk} {path : Path} {p : Place}

theorem always_content (leads : d.Leads cwd path p) :
    Always faults cwd (content path) d fun r d' => d' = d ∧
      (r = .ok (d.content p) ∨ faults.possible ∧ ∃ e, r = .error e) := by
  refine Always.bind (P := fun r d' => d' = d ∧ (r = d.read cwd path ∨
    faults.refusals ∧ ∃ e, e ≠ .notFound ∧ r = .error e)) ?_ ?_
  · exact always_request.mpr fun reply d' answer => answers_read answer
  rintro r d' ⟨rfl, rfl | ⟨may, e, other, rfl⟩⟩
  · refine always_pure.mpr ⟨rfl, .inl ?_⟩
    rw [leads.read, Disk.content]
    cases file : d'.file? p <;> rfl
  · refine always_pure.mpr ⟨rfl, .inr ⟨.inl may, ?_⟩⟩
    cases e <;> first | exact absurd rfl other | exact ⟨_, rfl⟩

theorem always_fileSize (leads : d.Leads cwd path p) :
    Always faults cwd (fileSize path) d fun r d' => d' = d ∧
      (r = .ok (d.content p).length ∨ faults.possible ∧ ∃ e, r = .error e) := by
  refine Always.bind (P := fun r d' => d' = d ∧ (r = d.size cwd path ∨
    faults.refusals ∧ ∃ e, e ≠ .notFound ∧ r = .error e)) ?_ ?_
  · exact always_request.mpr fun reply d' answer => answers_size answer
  rintro r d' ⟨rfl, rfl | ⟨may, e, other, rfl⟩⟩
  · refine always_pure.mpr ⟨rfl, .inl ?_⟩
    rw [leads.size, Disk.content]
    cases file : d'.file? p <;> rfl
  · refine always_pure.mpr ⟨rfl, .inr ⟨.inl may, ?_⟩⟩
    cases e <;> first | exact absurd rfl other | exact ⟨_, rfl⟩

theorem always_removeIfExists (sound : d.Sound) (leads : d.Leads cwd path p) :
    Always faults cwd (removeIfExists path) d fun r d' => Touches [p] d d' ∧
      (r = .ok () ∧ d'.file? p = none ∨ d' = d ∧ faults.possible ∧ ∃ e, r = .error e) := by
  refine Always.bind (always_request.mpr fun reply d' answer =>
    answers_removeFile sound leads answer) ?_
  rintro r d' (⟨rfl, touches, absent⟩ | ⟨rfl, rfl, absent⟩ | ⟨rfl, may, e, other, rfl⟩)
  · exact always_pure.mpr ⟨touches, .inl ⟨rfl, absent⟩⟩
  · exact always_pure.mpr ⟨.refl sound, .inl ⟨rfl, absent⟩⟩
  · refine always_pure.mpr ⟨.refl sound, .inr ⟨rfl, .inl may, ?_⟩⟩
    cases e <;> first | exact absurd rfl other | exact ⟨_, rfl⟩

theorem always_writeTo (sound : d.Sound) {h : Handle} {c : Bytes} (file : d.file? p = some (h, c))
    (pieces : List Bytes) :
    Always faults cwd (writeNew.writeTo h pieces) d fun r d' => Touches [p] d d' ∧
      (r = .ok () ∧ d'.file? p = some (h, c ++ pieces.flatten) ∨
        faults.possible ∧ ∃ e, r = .error e) := by
  induction pieces generalizing d c with
  | nil =>
    refine always_request.mpr fun reply d' answer => ?_
    obtain ⟨rfl, rfl | ⟨may, e, other, rfl⟩⟩ := answers_sync answer
    · exact ⟨.refl sound, .inl ⟨rfl, by simpa using file⟩⟩
    · exact ⟨.refl sound, .inr ⟨.inl may, e, rfl⟩⟩
  | cons piece pieces ih =>
    refine Always.bind (always_request.mpr fun reply d' answer =>
      answers_append sound file answer) ?_
    rintro r d' (⟨rfl, touches, file'⟩ | ⟨⟨e, rfl⟩, ⟨rfl, may⟩ | ⟨may, touches, _⟩⟩)
    · refine (ih touches.sound file').mono ?_
      rintro r d'' ⟨later, ok | failed⟩
      · rw [List.append_assoc, ← List.flatten_cons] at ok
        exact ⟨touches.trans later, .inl ok⟩
      · exact ⟨touches.trans later, .inr failed⟩
    · exact always_pure.mpr ⟨.refl sound, .inr ⟨.inl may, e, rfl⟩⟩
    · exact always_pure.mpr ⟨touches, .inr ⟨.inr may, e, rfl⟩⟩

theorem always_writeNew (sound : d.Sound) (leads : d.Leads cwd path p) (pieces : List Bytes) :
    Always faults cwd (writeNew path pieces) d fun r d' => Touches [p] d d' ∧
      (r = .ok () ∧ (∃ h, d'.file? p = some (h, pieces.flatten)) ∨
        faults.possible ∧ ∃ e, r = .error e) := by
  refine Always.bind (always_request.mpr fun reply d' answer =>
    answers_create sound leads answer) ?_
  rintro r d' (⟨h, rfl, touches, file⟩ | ⟨rfl, may, e, other, rfl⟩)
  · refine (always_writeTo touches.sound file pieces).mono ?_
    rintro r d'' ⟨later, ⟨rfl, file'⟩ | failed⟩
    · exact ⟨touches.trans later, .inl ⟨rfl, h, file'⟩⟩
    · exact ⟨touches.trans later, .inr failed⟩
  · exact always_pure.mpr ⟨.refl sound, .inr ⟨.inl may, e, rfl⟩⟩

variable {shelf : Shelf} {files : LogFiles}

/-- A file is replaced as a whole, or stays as it is. -/
theorem always_replaceFile (holds : shelf.Holds files cwd d) (pieces : List Bytes) :
    Always faults cwd (replaceFile files.snapshot pieces) d fun r d' =>
      Touches [shelf.snapshot, shelf.temporary] d d' ∧
      (r = .ok () ∧ d'.content shelf.snapshot = pieces.flatten ∨
        faults.possible ∧ (∃ e, r = .error e) ∧
          d'.content shelf.snapshot = d.content shelf.snapshot) := by
  obtain ⟨sj, st⟩ : shelf.snapshot ≠ shelf.journal ∧ shelf.snapshot ≠ shelf.temporary := by
    simpa [Shelf.places] using (List.nodup_cons.mp holds.distinct).1
  have away : shelf.snapshot ∉ [shelf.temporary] := by simpa using st
  have sub : [shelf.temporary] ⊆ [shelf.snapshot, shelf.temporary] := by simp
  refine Always.bind (always_writeNew holds.sound holds.temporary pieces) ?_
  rintro r d' ⟨touches, ⟨rfl, h, file⟩ | ⟨may, e, rfl⟩⟩
  · refine Always.bind (always_request.mpr fun reply d'' answer =>
      answers_rename touches.sound (holds.temporary.touches touches)
        (holds.snapshot.touches touches) file (Ne.symm st) holds.level answer) ?_
    rintro r d'' (⟨rfl, later, moved⟩ | ⟨rfl, may, e, other, rfl⟩)
    · refine always_pure.mpr ⟨(touches.mono sub).trans (later.mono (by simp)), .inl ⟨rfl, ?_⟩⟩
      exact content_of_file? moved
    · exact always_pure.mpr ⟨touches.mono sub, .inr ⟨.inl may, ⟨_, rfl⟩, touches.content away⟩⟩
  · refine Always.bind (always_request.mpr fun reply d'' answer =>
      answers_removeFile touches.sound (holds.temporary.touches touches) answer) ?_
    have same := touches.content away
    rintro r d'' (⟨rfl, later, _⟩ | ⟨rfl, rfl, _⟩ | ⟨rfl, _⟩)
    · refine always_pure.mpr ⟨(touches.trans later).mono sub, .inr ⟨may, ⟨_, rfl⟩, ?_⟩⟩
      exact (later.content away).trans same
    · exact always_pure.mpr ⟨touches.mono sub, .inr ⟨may, ⟨_, rfl⟩, same⟩⟩
    · exact always_pure.mpr ⟨touches.mono sub, .inr ⟨may, ⟨_, rfl⟩, same⟩⟩

/-- A header was begun where nothing was, and broke off. -/
structure HeaderBroke (faults : Faults) (format : StoreFormat) (p : Place) (d d' : Disk) : Prop where
  may : faults.tears
  before : d.content p = []
  after : d'.content p <+: StoreFile.journalFront format

/-- Opening a journal gives it its header if it has nothing yet. -/
theorem always_openJournal (holds : shelf.Holds files cwd d) (format : StoreFormat) :
    Always faults cwd (openJournal files.journal format) d fun r d' =>
      Touches [shelf.journal] d d' ∧
      ((∃ h, r = .ok h ∧
          d'.file? shelf.journal = some (h, StoreFile.opened format (d.content shelf.journal))) ∨
        faults.possible ∧ (∃ e, r = .error e) ∧
          (d'.content shelf.journal = d.content shelf.journal ∨
            HeaderBroke faults format shelf.journal d d')) := by
  refine Always.bind (always_request.mpr fun reply d' answer =>
    answers_openJournal holds.sound holds.journal answer) ?_
  rintro r d' (⟨h, rfl, touches, file⟩ | ⟨rfl, may, e, other, rfl⟩)
  · dsimp only
    by_cases fresh : d.content shelf.journal = []
    · rw [if_pos (by rw [fresh]; rfl)]
      refine Always.bind (always_request.mpr fun reply d'' answer =>
        answers_append touches.sound file answer) ?_
      rintro r d'' (⟨rfl, later, file'⟩ | ⟨⟨e, rfl⟩, ⟨rfl, may⟩ | ⟨may, later, front, part, file'⟩⟩)
      · refine always_pure.mpr ⟨touches.trans later, .inl ⟨h, rfl, ?_⟩⟩
        rw [file', StoreFile.opened, if_pos fresh, fresh]
        rfl
      · exact always_pure.mpr ⟨touches, .inr ⟨.inl may, ⟨_, rfl⟩, .inl (content_of_file? file)⟩⟩
      · have content : d''.content shelf.journal = front := by
          rw [content_of_file? file', fresh, List.nil_append]
        exact always_pure.mpr ⟨touches.trans later,
          .inr ⟨.inr may, ⟨_, rfl⟩, .inr ⟨may, fresh, content ▸ part⟩⟩⟩
    · rw [if_neg (by simpa using fresh)]
      refine always_pure.mpr ⟨touches, .inl ⟨h, rfl, ?_⟩⟩
      rw [file, StoreFile.opened, if_neg fresh]
  · exact always_pure.mpr ⟨.refl holds.sound, .inr ⟨.inl may, ⟨_, rfl⟩, .inl rfl⟩⟩

end Log
end BuildCache
