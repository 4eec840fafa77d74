import BuildCache.Proofs.Shelves

/-!
What the operations of a log can come to, told by cases: a write of the journal had nothing to
write, appended a batch, or failed; a save left a clean log alone, kept the journal, compacted
everything, or failed. All that is said of logs later on is said of these cases.
-/
namespace BuildCache

open Disk Program

namespace Program
variable {α : Type} {faults : Faults} {cwd : Place} {d : Disk}

theorem arrange_perm (places : List Nat) (as : List α) : (arrange places as).Perm as := by
  induction as generalizing places with
  | nil => cases places <;> exact .refl _
  | cons a as ih =>
    cases places with
    | nil => exact .refl _
    | cons place places =>
      have rest := ih places
      have inside : min place as.length ≤ (arrange places as).length := by
        rw [rest.length_eq]
        exact Nat.min_le_right ..
      exact (List.perm_insertIdx a _ inside).trans (rest.cons a)

theorem always_walk (as : List α) :
    Always faults cwd (walk as) d fun bs d' => d' = d ∧ bs.Perm as := by
  refine Always.bind (always_request.mpr fun reply d' answer => answers_order answer) ?_
  rintro places d' rfl
  exact always_pure.mpr ⟨rfl, arrange_perm places as⟩

theorem insertIdx_length_append (front rest : List α) (a : α) :
    (front ++ rest).insertIdx front.length a = front ++ a :: rest := by
  induction front with
  | nil => rfl
  | cons b front ih => exact congrArg (b :: ·) ih

theorem exists_arrange {as bs : List α} (perm : bs.Perm as) : ∃ places, arrange places as = bs := by
  induction as generalizing bs with
  | nil => exact ⟨[], perm.eq_nil.symm⟩
  | cons a as ih =>
    obtain ⟨front, rest, rfl⟩ := List.append_of_mem (perm.mem_iff.mpr List.mem_cons_self)
    have others : (front ++ rest).Perm as := (List.perm_middle.symm.trans perm).cons_inv
    obtain ⟨places, arranged⟩ := ih others
    have inside : min front.length as.length = front.length := by
      rw [← others.length_eq, List.length_append]
      omega
    refine ⟨front.length :: places, ?_⟩
    rw [arrange, arranged, inside]
    exact insertIdx_length_append front rest a

/-- A table may be walked in any order. -/
theorem runs_walk {as bs : List α} (perm : bs.Perm as) : Runs faults cwd (walk as) d bs d := by
  obtain ⟨places, rfl⟩ := exists_arrange perm
  exact .ask (.walked as.length places) (.done _ d)

end Program

namespace Log
variable {K V : Type} {faults : Faults} {cwd : Place} {shelf : Shelf} {d d' : Disk}

/-- The log's paths lead to its shelf, and its open journal is the file there, with a header. -/
structure Stands (log : Log K V) (shelf : Shelf) (cwd : Place) (d : Disk) : Prop where
  holds : shelf.Holds log.files cwd d
  attached : ∀ h, log.journal = some h → ∃ c, c ≠ [] ∧ d.file? shelf.journal = some (h, c)

variable [Stored K] [Stored V] {log : Log K V}

/-- The cases of a write of the journal. -/
inductive Wrote (faults : Faults) (log : Log K V) (shelf : Shelf) (d : Disk) :
    Except StoreError Nat × Log K V → Disk → Prop
  | idle (nothing : log.pending = []) : Wrote faults log shelf d (.ok 0, log) d
  | appended (batch : Table K (Option V)) (h : Handle) (d' : Disk) (some_ : log.pending ≠ [])
      (perm : batch.Perm log.pending)
      (snapshot : d'.content shelf.snapshot = d.content shelf.snapshot)
      (content : d'.content shelf.journal = StoreFile.opened log.format (d.content shelf.journal) ++
        StoreFile.journalBatch (batch.map fun e => Record.of e.1 e.2)) :
    Wrote faults log shelf d
      (.ok (StoreFile.journalBatch (batch.map fun e => Record.of e.1 e.2)).length,
        { log with pending := [], journal := some h }) d'
  | failed (e : StoreError) (after : Log K V) (d' : Disk) (may : faults.possible)
      (log_ : after = log ∨ after = { log with pending := [], journal := none })
      (snapshot : d'.content shelf.snapshot = d.content shelf.snapshot)
      (content : ¬faults.tears → d'.content shelf.journal = d.content shelf.journal ∨
        d'.content shelf.journal = StoreFile.opened log.format (d.content shelf.journal)) :
    Wrote faults log shelf d (.error e, after) d'

omit [Stored K] [Stored V] in
theorem Stands.of_touches {places : List Place} (stands : log.Stands shelf cwd d)
    (touches : Touches places d d') (away : shelf.journal ∉ places) : log.Stands shelf cwd d' where
  holds := stands.holds.touches touches
  attached h open_ := by
    obtain ⟨c, nonempty, file⟩ := stands.attached h open_
    exact ⟨c, nonempty, (touches.elsewhere _ away).trans file⟩

omit [Stored K] [Stored V] in
/-- The journal is ready for a batch, with its header. -/
theorem always_ensureJournal (stands : log.Stands shelf cwd d) :
    Always faults cwd log.ensureJournal d fun r d' =>
      Touches [shelf.journal] d d' ∧
      ((∃ h, r = .ok h ∧ d'.file? shelf.journal =
          some (h, StoreFile.opened log.format (d.content shelf.journal))) ∨
        faults.possible ∧ (∃ e, r = .error e) ∧ log.journal = none ∧
          (d'.content shelf.journal = d.content shelf.journal ∨
            HeaderBroke faults log.format shelf.journal d d')) := by
  unfold ensureJournal
  cases open_ : log.journal with
  | none =>
    refine (always_openJournal stands.holds log.format).mono ?_
    rintro r d' ⟨touches, ok | ⟨may, failed, same⟩⟩
    · exact ⟨touches, .inl ok⟩
    · exact ⟨touches, .inr ⟨may, failed, rfl, same⟩⟩
  | some h =>
    obtain ⟨c, nonempty, file⟩ := stands.attached h open_
    refine always_pure.mpr ⟨.refl stands.holds.sound, .inl ⟨h, rfl, ?_⟩⟩
    rw [content_of_file? file, StoreFile.opened, if_neg nonempty]
    exact file

omit [Stored K] [Stored V] in
theorem opened_ne_nil (format : StoreFormat) (bs : Bytes) : StoreFile.opened format bs ≠ [] := by
  unfold StoreFile.opened
  split
  · exact StoreFile.front_ne_nil _
  · assumption

theorem writeJournal_of_nil (nothing : log.pending = []) :
    log.writeJournal = pure (.ok 0, log) := by
  unfold writeJournal
  rw [nothing]
  rfl

theorem always_writeJournal (stands : log.Stands shelf cwd d) :
    Always faults cwd log.writeJournal d fun r d' =>
      Touches [shelf.journal] d d' ∧ r.2.Stands shelf cwd d' ∧ Wrote faults log shelf d r d' := by
  have away : shelf.snapshot ∉ [shelf.journal] := by
    have distinct := stands.holds.distinct
    simp only [Shelf.places, List.nodup_cons, List.mem_cons, not_or] at distinct
    simpa using distinct.1.1
  by_cases nothing : log.pending = []
  · rw [writeJournal_of_nil nothing]
    exact always_pure.mpr ⟨.refl stands.holds.sound, stands, .idle nothing⟩
  unfold writeJournal
  rw [if_neg (by simpa using nothing)]
  refine Always.bind (always_ensureJournal stands) ?_
  rintro r d' ⟨touches, ⟨h, rfl, file⟩ | ⟨may, ⟨e, rfl⟩, closed, same⟩⟩
  · refine Always.bind (always_walk log.pending) ?_
    rintro batch d' ⟨rfl, perm⟩
    refine Always.bind (always_request.mpr fun reply d'' answer =>
      answers_append touches.sound file answer) ?_
    have same := content_of_file? file
    rintro r d'' (⟨rfl, later, file'⟩ | ⟨⟨e, rfl⟩, ⟨rfl, may⟩ | ⟨may, later, _⟩⟩)
    · refine always_pure.mpr ⟨touches.trans later, ?_, ?_⟩
      · refine ⟨stands.holds.touches (touches.trans later), fun h' open_ => ?_⟩
        cases open_
        exact ⟨_, List.append_ne_nil_of_left_ne_nil (opened_ne_nil _ _) _, file'⟩
      · exact .appended batch h d'' nothing perm ((touches.trans later).content away)
          (content_of_file? file')
    · refine always_pure.mpr ⟨touches, ?_, ?_⟩
      · exact ⟨stands.holds.touches touches, fun h open_ => by cases open_⟩
      · exact .failed _ _ _ (.inl may) (.inr rfl) (touches.content away) fun _ => .inr same
    · refine always_pure.mpr ⟨touches.trans later, ?_, ?_⟩
      · exact ⟨stands.holds.touches (touches.trans later), fun h open_ => by cases open_⟩
      · exact .failed _ _ _ (.inr may) (.inr rfl) ((touches.trans later).content away)
          fun not => absurd may not
  · refine always_pure.mpr ⟨touches, ?_, ?_⟩
    · exact ⟨stands.holds.touches touches, fun h open_ => by rw [closed] at open_; cases open_⟩
    · exact .failed e log d' may (.inl rfl) (touches.content away) fun not =>
        .inl (same.resolve_right fun broke => not broke.may)

/-- A write that failed and has taken nothing has added nothing but a part of a header. -/
theorem always_writeJournal_header (stands : log.Stands shelf cwd d) :
    Always faults cwd log.writeJournal d fun r d' => r.1.isOk = false → r.2.pending ≠ [] →
      d'.content shelf.journal = d.content shelf.journal ∨
        HeaderBroke faults log.format shelf.journal d d' := by
  by_cases nothing : log.pending = []
  · rw [writeJournal_of_nil nothing]
    exact always_pure.mpr nofun
  unfold writeJournal
  rw [if_neg (by simpa using nothing)]
  refine Always.bind (always_ensureJournal stands) ?_
  rintro r d' ⟨_, ⟨h, rfl, _⟩ | ⟨_, ⟨e, rfl⟩, _, same⟩⟩
  · refine Always.bind (always_walk log.pending) fun batch d' _ => ?_
    refine Always.bind (always_request.mpr fun _ _ _ => trivial) fun reply d'' _ => ?_
    cases reply with
    | ok => exact always_pure.mpr nofun
    | error e => exact always_pure.mpr fun _ some_ => absurd rfl some_
  · exact always_pure.mpr fun _ _ => same

omit [Stored K] [Stored V] in
theorem always_syncJournal (log : Log K V) (d : Disk) :
    Always faults cwd log.syncJournal d fun r d' =>
      d' = d ∧ (r = .ok () ∨ faults.possible ∧ ∃ e, r = .error e) := by
  unfold syncJournal
  cases log.journal with
  | none => exact always_pure.mpr ⟨rfl, .inl rfl⟩
  | some h =>
    refine Always.bind (always_request.mpr fun reply d' answer => answers_sync answer) ?_
    rintro r d' ⟨rfl, rfl | ⟨may, e, _, rfl⟩⟩
    · exact always_pure.mpr ⟨rfl, .inl rfl⟩
    · exact always_pure.mpr ⟨rfl, .inr ⟨.inl may, _, rfl⟩⟩

theorem always_flush (stands : log.Stands shelf cwd d) :
    Always faults cwd log.flush d fun r d' =>
      Touches [shelf.journal] d d' ∧ r.2.Stands shelf cwd d' ∧
      ∃ wrote, Wrote faults log shelf d (wrote, r.2) d' ∧
        (r.1 = .ok () ∧ wrote.isOk ∨ faults.possible ∧ ∃ e, r.1 = .error e) := by
  refine Always.bind (always_writeJournal stands) ?_
  rintro ⟨wrote, after⟩ d' ⟨touches, stands', cases_⟩
  cases wrote with
  | error e =>
    have may : faults.possible := by
      cases cases_
      assumption
    exact always_pure.mpr ⟨touches, stands', _, cases_, .inr ⟨may, e, rfl⟩⟩
  | ok n =>
    refine Always.bind (always_syncJournal after d') ?_
    rintro r d'' ⟨rfl, rfl | ⟨may, e, rfl⟩⟩
    · exact always_pure.mpr ⟨touches, stands', _, cases_, .inl ⟨rfl, rfl⟩⟩
    · exact always_pure.mpr ⟨touches, stands', _, cases_, .inr ⟨may, e, rfl⟩⟩

theorem always_record [DecidableEq K] (stands : log.Stands shelf cwd d) (key : K)
    (value : Option V) (journalNow : Bool) :
    Always faults cwd (log.record key value journalNow) d fun after d' =>
      Touches [shelf.journal] d d' ∧ after.Stands shelf cwd d' ∧
      (journalNow = false ∧ after = log.noted key value ∧ d' = d ∨
        journalNow = true ∧ ∃ wrote, Wrote faults (log.noted key value) shelf d wrote d' ∧
          after = (settle wrote).2) := by
  have noted : (log.noted key value).Stands shelf cwd d := ⟨stands.holds, stands.attached⟩
  cases journalNow with
  | false => exact always_pure.mpr ⟨.refl stands.holds.sound, noted, .inl ⟨rfl, rfl, rfl⟩⟩
  | true =>
    refine Always.bind (always_writeJournal noted) ?_
    rintro ⟨wrote, after⟩ d' ⟨touches, stands', cases_⟩
    cases wrote with
    | ok n => exact always_pure.mpr ⟨touches, stands', .inr ⟨rfl, _, cases_, rfl⟩⟩
    | error e =>
      exact always_pure.mpr ⟨touches, ⟨stands'.holds, stands'.attached⟩,
        .inr ⟨rfl, _, cases_, rfl⟩⟩

/-- The cases of a compaction. -/
inductive Compacted (faults : Faults) (log : Log K V) (entries : Table K V) (shelf : Shelf)
    (d : Disk) : Except StoreError Nat × Log K V → Disk → Prop
  | done (n : Nat) (es : Table K V) (d' : Disk) (perm : es.Perm entries)
      (snapshot : d'.content shelf.snapshot = StoreFile.snapshot log.format es)
      (journal : d'.content shelf.journal = []) :
    Compacted faults log entries shelf d
      (.ok n, { log with journal := none, needsSnapshot := false }) d'
  /-- The new snapshot is not there. -/
  | early (e : StoreError) (d' : Disk) (may : faults.possible)
      (snapshot : d'.content shelf.snapshot = d.content shelf.snapshot)
      (journal : d'.content shelf.journal = d.content shelf.journal) :
    Compacted faults log entries shelf d (.error e, log) d'
  /-- The new snapshot is there, but so is the old journal. -/
  | late (e : StoreError) (es : Table K V) (d' : Disk) (may : faults.possible)
      (perm : es.Perm entries)
      (snapshot : d'.content shelf.snapshot = StoreFile.snapshot log.format es)
      (journal : d'.content shelf.journal = d.content shelf.journal) :
    Compacted faults log entries shelf d (.error e, { log with journal := none }) d'

theorem always_compact (stands : log.Stands shelf cwd d) (entries : Table K V) (appended : Nat) :
    Always faults cwd (log.compact entries appended) d fun r d' =>
      Touches shelf.places d d' ∧ r.2.Stands shelf cwd d' ∧
        Compacted faults log entries shelf d r d' := by
  obtain ⟨⟨sj, st⟩, jt⟩ : (shelf.snapshot ≠ shelf.journal ∧ shelf.snapshot ≠ shelf.temporary) ∧
      shelf.journal ≠ shelf.temporary := by
    simpa [Shelf.places] using stands.holds.distinct
  have away : shelf.journal ∉ [shelf.snapshot, shelf.temporary] := by
    simp [Ne.symm sj, jt]
  have away' : shelf.snapshot ∉ [shelf.journal] := by simpa using sj
  have sub : [shelf.snapshot, shelf.temporary] ⊆ shelf.places := by simp [Shelf.places]
  have sub' : [shelf.journal] ⊆ shelf.places := by simp [Shelf.places]
  refine Always.bind (always_walk entries) ?_
  rintro es d' ⟨rfl, perm⟩
  refine Always.bind (always_replaceFile stands.holds _) ?_
  rintro r d' ⟨touches, ⟨rfl, snapshot⟩ | ⟨may, ⟨e, rfl⟩, snapshot⟩⟩
  · have written : d'.content shelf.snapshot = StoreFile.snapshot log.format es := by
      rw [snapshot, StoreFile.snapshot]
      simp
    have kept := touches.content away
    have holds := stands.holds.touches touches
    refine Always.bind (always_removeIfExists touches.sound holds.journal) ?_
    rintro r d'' ⟨later, ⟨rfl, absent⟩ | ⟨rfl, may, e, rfl⟩⟩
    · refine always_pure.mpr ⟨(touches.mono sub).trans (later.mono sub'), ?_, ?_⟩
      · exact ⟨holds.touches later, fun h open_ => by cases open_⟩
      · exact .done _ es d'' perm ((later.content away').trans written) (content_of_absent absent)
    · refine always_pure.mpr ⟨touches.mono sub, ⟨holds, fun h open_ => by cases open_⟩, ?_⟩
      exact .late e es _ may perm written kept
  · refine always_pure.mpr ⟨touches.mono sub, stands.of_touches touches away, ?_⟩
    exact .early e d' may snapshot (touches.content away)

omit [Stored K] [Stored V] in
theorem always_mayKeep (stands : log.Stands shelf cwd d) (keep : Nat → Nat → Bool) :
    Always faults cwd (log.mayKeep keep) d fun r d' => d' = d ∧
      (r = .ok (!log.needsSnapshot &&
          keep (d.content shelf.journal).length (d.content shelf.snapshot).length) ∨
        faults.possible ∧ ∃ e, r = .error e) := by
  unfold mayKeep
  cases log.needsSnapshot with
  | true => exact always_pure.mpr ⟨rfl, .inl rfl⟩
  | false =>
    refine Always.bind (always_fileSize stands.holds.journal) ?_
    rintro r d' ⟨rfl, rfl | ⟨may, e, rfl⟩⟩
    · refine Always.bind (always_fileSize stands.holds.snapshot) ?_
      rintro r d' ⟨rfl, rfl | ⟨may, e, rfl⟩⟩
      · exact always_pure.mpr ⟨rfl, .inl rfl⟩
      · exact always_pure.mpr ⟨rfl, .inr ⟨may, e, rfl⟩⟩
    · exact always_pure.mpr ⟨rfl, .inr ⟨may, e, rfl⟩⟩

/-- The cases of the save of a log that has changed, behind its write of the journal. -/
inductive Brought (faults : Faults) (log : Log K V) (entries : Table K V)
    (keep : Nat → Nat → Bool) (shelf : Shelf) (d : Disk) :
    Except StoreError Nat × Log K V → Disk → Prop
  | kept (n : Nat) (whole : log.needsSnapshot = false)
      (small : keep (d.content shelf.journal).length (d.content shelf.snapshot).length = true) :
    Brought faults log entries keep shelf d (.ok n, log) d
  | compacted (r : Except StoreError Nat × Log K V) (d' : Disk)
      (cases_ : Compacted faults log entries shelf d r d') :
    Brought faults log entries keep shelf d r d'
  | failed (e : StoreError) (may : faults.possible) :
    Brought faults log entries keep shelf d (.error e, log) d

omit [Stored K] [Stored V] in
theorem Stands.settle {wrote : Except StoreError Nat × Log K V}
    (stands : wrote.2.Stands shelf cwd d) : (settle wrote).2.Stands shelf cwd d := by
  obtain ⟨r, log⟩ := wrote
  cases r with
  | ok n => exact stands
  | error e => exact ⟨stands.holds, stands.attached⟩

/-- What the save of a log that has changed does behind its write of the journal. -/
def bring (log : Log K V) (entries : Table K V) (keep : Nat → Nat → Bool) (appended : Nat) :
    Program (Except StoreError Nat × Log K V) := do
  match ← log.mayKeep keep with
  | .error e => return (.error e, log)
  | .ok true =>
    match ← log.syncJournal with
    | .error e => return (.error e, log)
    | .ok () => return (.ok appended, log)
  | .ok false => log.compact entries appended

theorem saveChanged_eq (log : Log K V) (entries : Table K V) (keep : Nat → Nat → Bool) :
    log.saveChanged entries keep =
      log.writeJournal >>= fun wrote => (settle wrote).2.bring entries keep (settle wrote).1 :=
  rfl

theorem always_bring (stands : log.Stands shelf cwd d) (entries : Table K V)
    (keep : Nat → Nat → Bool) (appended : Nat) :
    Always faults cwd (log.bring entries keep appended) d fun r d' =>
      Touches shelf.places d d' ∧ r.2.Stands shelf cwd d' ∧
        Brought faults log entries keep shelf d r d' := by
  have nothing : Touches shelf.places d d := .refl stands.holds.sound
  refine Always.bind (always_mayKeep stands keep) ?_
  rintro r d' ⟨rfl, rfl | ⟨may, e, rfl⟩⟩
  · cases may : !log.needsSnapshot && keep (d'.content shelf.journal).length
        (d'.content shelf.snapshot).length with
    | true =>
      obtain ⟨whole, small⟩ := (Bool.and_eq_true ..).mp may
      refine Always.bind (always_syncJournal _ d') ?_
      rintro r d'' ⟨rfl, rfl | ⟨may, e, rfl⟩⟩
      · exact always_pure.mpr ⟨nothing, stands, .kept _ (by simpa using whole) small⟩
      · exact always_pure.mpr ⟨nothing, stands, .failed e may⟩
    | false =>
      refine (always_compact stands entries _).mono ?_
      rintro r d'' ⟨touches, stands', compacted⟩
      exact ⟨touches, stands', .compacted r d'' compacted⟩
  · exact always_pure.mpr ⟨nothing, stands, .failed e may⟩

theorem always_saveChanged (stands : log.Stands shelf cwd d) (entries : Table K V)
    (keep : Nat → Nat → Bool) :
    Always faults cwd (log.saveChanged entries keep) d fun r d' =>
      Touches shelf.places d d' ∧ r.2.Stands shelf cwd d' ∧
        ∃ wrote d₁, Wrote faults log shelf d wrote d₁ ∧
          Brought faults (settle wrote).2 entries keep shelf d₁ r d' := by
  have sub : [shelf.journal] ⊆ shelf.places := by simp [Shelf.places]
  rw [saveChanged_eq]
  refine Always.bind (always_writeJournal stands) ?_
  rintro wrote d₁ ⟨touches, stands₁, cases_⟩
  refine (always_bring stands₁.settle entries keep _).mono ?_
  rintro r d' ⟨later, stands₂, brought⟩
  exact ⟨(touches.mono sub).trans later, stands₂, wrote, d₁, cases_, brought⟩

/-- The cases of a save. -/
inductive Saved (faults : Faults) (log : Log K V) (entries : Table K V)
    (keep : Nat → Nat → Bool) (shelf : Shelf) (d : Disk) :
    Except StoreError Nat × Log K V → Disk → Prop
  | unchanged (clean : log.dirty = false) : Saved faults log entries keep shelf d (.ok 0, log) d
  | done (n : Nat) (wrote : Except StoreError Nat × Log K V) (after : Log K V) (d₁ d' : Disk)
      (changed : log.dirty = true) (first : Wrote faults { log with dirty := false } shelf d wrote d₁)
      (rest : Brought faults (settle wrote).2 entries keep shelf d₁ (.ok n, after) d') :
    Saved faults log entries keep shelf d (.ok n, after) d'
  | failed (e : StoreError) (wrote : Except StoreError Nat × Log K V) (after : Log K V)
      (d₁ d' : Disk) (changed : log.dirty = true)
      (first : Wrote faults { log with dirty := false } shelf d wrote d₁)
      (rest : Brought faults (settle wrote).2 entries keep shelf d₁ (.error e, after) d') :
    Saved faults log entries keep shelf d (.error e, { after with dirty := true }) d'

theorem always_save (stands : log.Stands shelf cwd d) (entries : Table K V)
    (keep : Nat → Nat → Bool) :
    Always faults cwd (log.save entries keep) d fun r d' =>
      Touches shelf.places d d' ∧ r.2.Stands shelf cwd d' ∧
        Saved faults log entries keep shelf d r d' := by
  unfold save
  cases changed : log.dirty with
  | false => exact always_pure.mpr ⟨.refl stands.holds.sound, stands, .unchanged changed⟩
  | true =>
    have stands₀ : { log with dirty := false }.Stands shelf cwd d := ⟨stands.holds, stands.attached⟩
    refine Always.bind (always_saveChanged stands₀ entries keep) ?_
    rintro ⟨r, after⟩ d' ⟨touches, stands', wrote, d₁, first, rest⟩
    cases r with
    | ok n => exact always_pure.mpr ⟨touches, stands', .done n wrote after d₁ d' changed first rest⟩
    | error e =>
      exact always_pure.mpr ⟨touches, ⟨stands'.holds, stands'.attached⟩,
        .failed e wrote after d₁ d' changed first rest⟩

variable {after : Log K V}

/-- Behind a write of the journal nothing is pending, unless a snapshot is due. -/
theorem Wrote.pending_settle {r : Except StoreError Nat × Log K V}
    (wrote : Wrote faults log shelf d r d') (whole : (settle r).2.needsSnapshot = false) :
    (settle r).2.pending = [] := by
  cases wrote with
  | idle nothing => exact nothing
  | appended => rfl
  | failed => cases whole

theorem Wrote.dirty_settle {r : Except StoreError Nat × Log K V}
    (wrote : Wrote faults log shelf d r d') : (settle r).2.dirty = log.dirty := by
  cases wrote with
  | idle => rfl
  | appended => rfl
  | failed _ _ _ _ log_ => rcases log_ with rfl | rfl <;> rfl

/-- A mutation was noted, and perhaps the journal was written right after that. -/
inductive Recorded [DecidableEq K] (faults : Faults) (log : Log K V) (shelf : Shelf) (d : Disk)
    (key : K) (value : Option V) : Log K V → Disk → Prop
  | noted : Recorded faults log shelf d key value (log.noted key value) d
  | journaled {wrote : Except StoreError Nat × Log K V} {d' : Disk}
      (cases_ : Wrote faults (log.noted key value) shelf d wrote d') :
    Recorded faults log shelf d key value (settle wrote).2 d'

theorem Wrote.format {r : Except StoreError Nat × Log K V} (wrote : Wrote faults log shelf d r d') :
    r.2.format = log.format := by
  cases wrote with
  | idle => rfl
  | appended => rfl
  | failed _ _ _ _ log_ => rcases log_ with rfl | rfl <;> rfl

omit [Stored K] [Stored V] in
theorem format_settle (r : Except StoreError Nat × Log K V) : (settle r).2.format = r.2.format := by
  obtain ⟨r, log⟩ := r
  cases r <;> rfl

omit [Stored K] [Stored V] in
theorem pending_settle (r : Except StoreError Nat × Log K V) :
    (settle r).2.pending = r.2.pending := by
  obtain ⟨r, log⟩ := r
  cases r <;> rfl

theorem Recorded.format [DecidableEq K] {key : K} {value : Option V}
    (recorded : Recorded faults log shelf d key value after d') : after.format = log.format := by
  cases recorded with
  | noted => rfl
  | journaled cases_ => rw [format_settle, cases_.format]; rfl

theorem Recorded.dirty [DecidableEq K] {key : K} {value : Option V}
    (recorded : Recorded faults log shelf d key value after d') : after.dirty = true := by
  cases recorded with
  | noted => rfl
  | journaled cases_ => rw [cases_.dirty_settle]; rfl

theorem Wrote.isOk {r : Except StoreError Nat × Log K V} (wrote : Wrote faults log shelf d r d')
    (calm : ¬faults.possible) : r.1.isOk := by
  cases wrote with
  | idle => rfl
  | appended => rfl
  | failed _ _ _ may => exact absurd may calm

theorem Saved.isOk {entries : Table K V} {keep : Nat → Nat → Bool}
    {r : Except StoreError Nat × Log K V} (saved : Saved faults log entries keep shelf d r d')
    (calm : ¬faults.possible) : r.1.isOk := by
  cases saved with
  | unchanged => rfl
  | done => rfl
  | failed e wrote after d₁ d' changed first rest =>
    cases rest with
    | failed e may => exact absurd may calm
    | compacted r d' compacted =>
      cases compacted with
      | early e d' may => exact absurd may calm
      | late e es d' may => exact absurd may calm

omit [Stored K] [Stored V] in
theorem pending_noted_ne [DecidableEq K] (log : Log K V) (key : K) (value : Option V) :
    (log.noted key value).pending ≠ [] := by
  unfold noted
  cases log.pending with
  | nil => exact List.cons_ne_nil _ _
  | cons e rest =>
    rw [Table.insert]
    split <;> exact List.cons_ne_nil _ _

theorem journalBatch_ne_nil {batch pending : Table K (Option V)} (perm : batch.Perm pending)
    (some_ : pending ≠ []) :
    StoreFile.journalBatch (batch.map fun e => Record.of e.1 e.2) ≠ [] := by
  obtain ⟨e, rest, rfl⟩ : ∃ e rest, batch = e :: rest := by
    refine List.exists_cons_of_ne_nil fun nothing => some_ ?_
    rw [nothing] at perm
    exact perm.symm.eq_nil
  simp [StoreFile.journalBatch, Tangible.put_ne_nil]

/-- A write that had something to write shows in the journal. -/
theorem Wrote.journal_ne {r : Except StoreError Nat × Log K V}
    (wrote : Wrote faults log shelf d r d') (calm : ¬faults.possible) (some_ : log.pending ≠ []) :
    d'.content shelf.journal ≠ d.content shelf.journal := by
  cases wrote with
  | idle nothing => exact absurd nothing some_
  | failed _ _ _ may => exact absurd may calm
  | appended batch h d' _ perm snapshot content =>
    have written := journalBatch_ne_nil perm some_
    rw [content]
    intro same
    have lengths := congrArg List.length same
    rw [List.length_append] at lengths
    have positive := List.length_pos_iff.mpr written
    unfold StoreFile.opened at lengths
    split at lengths
    · rename_i nothing
      rw [nothing, List.length_nil] at lengths
      omega
    · omega

omit [Stored K] [Stored V] in
theorem settle_of_isOk {r : Except StoreError Nat × Log K V} (ok : r.1.isOk) :
    (settle r).2 = r.2 := by
  obtain ⟨r, log⟩ := r
  cases r with
  | ok n => rfl
  | error e => cases ok

/-- What is pending behind a write was pending before. -/
theorem Wrote.pending_sub {r : Except StoreError Nat × Log K V}
    (wrote : Wrote faults log shelf d r d') : r.2.pending ⊆ log.pending := by
  cases wrote with
  | idle => exact fun _ mem => mem
  | appended => exact List.nil_subset _
  | failed _ _ _ _ log_ =>
    rcases log_ with rfl | rfl
    · exact fun _ mem => mem
    · exact List.nil_subset _

theorem Recorded.pending_sub [DecidableEq K] {key : K} {value : Option V}
    (recorded : Recorded faults log shelf d key value after d') :
    after.pending ⊆ (log.noted key value).pending := by
  cases recorded with
  | noted => exact fun _ mem => mem
  | journaled cases_ =>
    rw [pending_settle]
    exact cases_.pending_sub

variable {entries : Table K V} {keep : Nat → Nat → Bool}

theorem Brought.same {r : Except StoreError Nat × Log K V}
    (brought : Brought faults log entries keep shelf d r d') :
    r.2.pending = log.pending ∧ r.2.format = log.format := by
  cases brought with
  | kept => exact ⟨rfl, rfl⟩
  | failed => exact ⟨rfl, rfl⟩
  | compacted r d' compacted => cases compacted <;> exact ⟨rfl, rfl⟩

theorem Saved.same {r : Except StoreError Nat × Log K V}
    (saved : Saved faults log entries keep shelf d r d') :
    r.2.pending ⊆ log.pending ∧ r.2.format = log.format := by
  have behind {log after : Log K V} {wrote : Except StoreError Nat × Log K V} {r d d₁ d'}
      (first : Wrote faults log shelf d wrote d₁)
      (rest : Brought faults (settle wrote).2 entries keep shelf d₁ (r, after) d') :
      after.pending ⊆ log.pending ∧ after.format = log.format := by
    obtain ⟨pending, format⟩ := rest.same
    rw [pending_settle] at pending
    rw [format_settle, first.format] at format
    exact ⟨pending ▸ first.pending_sub, format⟩
  cases saved with
  | unchanged => exact ⟨fun _ mem => mem, rfl⟩
  | done n wrote after d₁ d' changed first rest =>
    have same := behind first rest
    exact same
  | failed e wrote after d₁ d' changed first rest =>
    have same := behind first rest
    exact same

end Log
end BuildCache
