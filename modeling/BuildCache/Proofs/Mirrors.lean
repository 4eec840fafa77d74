import BuildCache.Proofs.Framing
import BuildCache.Proofs.Replays
import BuildCache.Proofs.Verdicts

/-!
What the files of a log have, told by what is read from them: a session may find files that another
program, or an append that broke off, has left behind. A log that was opened on them mirrors its
table from then on, whatever goes wrong, unless it knows that its files have to be written anew.
-/
namespace BuildCache

open Disk Program

variable {K V : Type} [Stored K] [Stored V]

namespace StoreFile

/-- The content of a snapshot file that is read as these pairs, or was written for them. -/
def Rendered (path : Path) (format : StoreFormat) (pairs : List (K × V)) (raw : Bytes) : Prop :=
  readSnapshot path format raw = .ok pairs ∨ raw = snapshot format pairs

/-- The content of a journal file that was read as the first of these records, and that the others
were appended to since. -/
def Grown (path : Path) (format : StoreFormat) (records : List (Record K V)) (raw : Bytes) : Prop :=
  ∃ old before added, readJournal path format old = .ok before ∧ records = before ++ added ∧
    (raw = old ∧ added = [] ∨ raw = opened format old ++ journalBatch added)

variable {path : Path} {format : StoreFormat} {raw : Bytes} {pairs : List (K × V)}
  {records : List (Record K V)}

theorem Grown.append (grown : Grown path format records raw) (batch : List (Record K V)) :
    Grown path format (records ++ batch) (opened format raw ++ journalBatch batch) := by
  obtain ⟨old, before, added, read, rfl, ⟨rfl, rfl⟩ | rfl⟩ := grown
  · exact ⟨raw, before, batch, read, by rw [List.append_nil], .inr rfl⟩
  · have some_ : opened format old ++ journalBatch added ≠ [] :=
      List.append_ne_nil_of_left_ne_nil (Log.opened_ne_nil format old) _
    refine ⟨old, before, added ++ batch, read, List.append_assoc .., .inr ?_⟩
    rw [opened, if_neg some_, journalBatch, journalBatch, journalBatch, List.flatMap_append,
      List.append_assoc]

variable [Metered K] [Metered V]

theorem readJournal_opened {before : List (Record K V)}
    (read : readJournal path format raw = .ok before) :
    readJournal path format (opened format raw) = .ok before := by
  by_cases nothing : raw = []
  · rw [readJournal, if_pos nothing] at read
    cases read
    refine readJournal_eq path (.inr ?_) fun r mem => absurd mem List.not_mem_nil
    rw [opened, if_pos nothing, journal, journalBatch, List.flatMap_nil, List.append_nil]
  · rw [opened, if_neg nothing]
    exact read

variable [Framed K] [Framed V]

theorem Grown.readJournal_eq (grown : Grown path format records raw) (fit : ∀ r ∈ records, Fits r) :
    readJournal path format raw = .ok records := by
  obtain ⟨old, before, added, read, rfl, ⟨rfl, rfl⟩ | rfl⟩ := grown
  · rw [List.append_nil]
    exact read
  · exact readJournal_append (Log.opened_ne_nil format old) (readJournal_opened read)
      fun r mem => fit r (List.mem_append_right _ mem)

theorem Grown.eq_of_readJournal (grown : Grown path format records raw)
    (sized : ∀ r ∈ records, Metered.Sized r) {read : List (Record K V)}
    (done : readJournal path format raw = .ok read) : read = records := by
  obtain ⟨old, before, added, first, rfl, ⟨rfl, rfl⟩ | rfl⟩ := grown
  · rw [List.append_nil]
    exact Except.ok.inj (done.symm.trans first)
  · exact eq_of_readJournal_append (Log.opened_ne_nil format old) (readJournal_opened first)
      (fun r mem => sized r (List.mem_append_right _ mem)) done

variable [Tangible K]

omit [Framed K] [Framed V] in
theorem Rendered.readSnapshot_eq (rendered : Rendered path format pairs raw)
    (fit : ∀ e ∈ pairs, Fits e) : readSnapshot path format raw = .ok pairs := by
  rcases rendered with read | rfl
  · exact read
  · exact StoreFile.readSnapshot_eq path (.inr rfl) fit

omit [Framed K] [Framed V] in
theorem Rendered.eq_of_readSnapshot (rendered : Rendered path format pairs raw)
    (sized : ∀ e ∈ pairs, Metered.Sized e) {read : List (K × V)}
    (done : readSnapshot path format raw = .ok read) : read = pairs := by
  rcases rendered with first | rfl
  · exact Except.ok.inj (done.symm.trans first)
  · exact StoreFile.eq_of_readSnapshot (.inr rfl) sized done

omit [Metered K] [Metered V] [Framed K] [Framed V] [Tangible K] in
/-- What the store has written or taken in is never taken for a file of another version. -/
theorem Rendered.readSnapshot_other {e : StoreError} (rendered : Rendered path format pairs raw)
    (refused : readSnapshot (K := K) (V := V) path format raw = .error e) : ¬e.isIncompatible := by
  rcases rendered with read | written
  · rw [read] at refused
    cases refused
  · exact StoreFile.readSnapshot_other (.inr written) refused

omit [Framed K] [Framed V] [Tangible K] in
theorem Grown.readJournal_other {e : StoreError} (grown : Grown path format records raw)
    (refused : readJournal (K := K) (V := V) path format raw = .error e) : ¬e.isIncompatible := by
  obtain ⟨old, before, added, read, rfl, ⟨rfl, rfl⟩ | rfl⟩ := grown
  · rw [read] at refused
    cases refused
  · have some_ := Log.opened_ne_nil format old
    obtain ⟨body, found, _⟩ := (readJournal_eq_ok some_).mp (readJournal_opened read)
    obtain ⟨head, same, again⟩ := payload_eq_ok found
    unfold readJournal at refused
    rw [if_neg (List.append_ne_nil_of_left_ne_nil some_ _), same, List.append_assoc, again] at refused
    exact decodeAll_other refused

end StoreFile

namespace Log
variable [Metered K] [Metered V] {P : Record K V → Prop} {faults : Faults} {cwd : Place}
  {shelf : Shelf} {files : LogFiles} {format : StoreFormat} {d d' : Disk} {log after : Log K V}
  {pairs : Table K V} {records_ : List (Record K V)} {t : Table K V} {keep : Nat → Nat → Bool}

/-- The files have these pairs and these records. What was there from the start is within the limit,
and `P` holds of what was written since. -/
structure Yields (P : Record K V → Prop) (shelf : Shelf) (files : LogFiles) (format : StoreFormat)
    (d : Disk) (pairs : Table K V) (records : List (Record K V)) : Prop where
  snapshot : StoreFile.Rendered files.snapshot format pairs (d.content shelf.snapshot)
  journal : StoreFile.Grown files.journal format records (d.content shelf.journal)
  eachPair : ∀ e ∈ pairs, Fits e ∨ P (.put e.1 e.2)
  eachRecord : ∀ r ∈ records, Fits r ∨ P r

theorem Yields.mono {Q : Record K V → Prop} (yields : Yields P shelf files format d pairs records_)
    (imp : ∀ r, P r → Q r) : Yields Q shelf files format d pairs records_ where
  snapshot := yields.snapshot
  journal := yields.journal
  eachPair e mem := (yields.eachPair e mem).imp_right (imp _)
  eachRecord r mem := (yields.eachRecord r mem).imp_right (imp r)

theorem Yields.same_content (yields : Yields P shelf files format d pairs records_)
    (snapshot : d'.content shelf.snapshot = d.content shelf.snapshot)
    (journal : d'.content shelf.journal = d.content shelf.journal) :
    Yields P shelf files format d' pairs records_ where
  snapshot := snapshot ▸ yields.snapshot
  journal := journal ▸ yields.journal
  eachPair := yields.eachPair
  eachRecord := yields.eachRecord

theorem Yields.sameAt (yields : Yields P shelf files format d pairs records_)
    (same : SameAt shelf.places d d') : Yields P shelf files format d' pairs records_ :=
  yields.same_content (same _ (by simp [Shelf.places])) (same _ (by simp [Shelf.places]))

theorem Yields.append (yields : Yields P shelf files format d pairs records_)
    {batch : List (Record K V)} (each : ∀ r ∈ batch, P r)
    (snapshot : d'.content shelf.snapshot = d.content shelf.snapshot)
    (journal : d'.content shelf.journal =
      StoreFile.opened format (d.content shelf.journal) ++ StoreFile.journalBatch batch) :
    Yields P shelf files format d' pairs (records_ ++ batch) where
  snapshot := snapshot ▸ yields.snapshot
  journal := journal ▸ yields.journal.append batch
  eachPair := yields.eachPair
  eachRecord r mem := by
    rcases List.mem_append.mp mem with mem | mem
    · exact yields.eachRecord r mem
    · exact .inr (each r mem)

/-- A journal that was only opened has the records it had. -/
theorem Yields.opened (yields : Yields P shelf files format d pairs records_)
    (snapshot : d'.content shelf.snapshot = d.content shelf.snapshot)
    (journal : d'.content shelf.journal = d.content shelf.journal ∨
      d'.content shelf.journal = StoreFile.opened format (d.content shelf.journal)) :
    Yields P shelf files format d' pairs records_ := by
  rcases journal with same | opened
  · exact yields.same_content snapshot same
  · rw [← List.append_nil records_]
    refine yields.append nofun snapshot ?_
    rw [opened, StoreFile.journalBatch, List.flatMap_nil, List.append_nil]

/-- A new snapshot in front of the journal as it was. -/
theorem Yields.late {es : Table K V} (yields : Yields P shelf files format d pairs records_)
    (each : ∀ e ∈ es, Fits e ∨ P (.put e.1 e.2))
    (snapshot : d'.content shelf.snapshot = StoreFile.snapshot format es)
    (journal : d'.content shelf.journal = d.content shelf.journal) :
    Yields P shelf files format d' es records_ where
  snapshot := .inr snapshot
  journal := journal ▸ yields.journal
  eachPair := each
  eachRecord := yields.eachRecord

theorem yields_snapshot {es : Table K V} (each : ∀ e ∈ es, Fits e ∨ P (.put e.1 e.2))
    (snapshot : d.content shelf.snapshot = StoreFile.snapshot format es)
    (journal : d.content shelf.journal = []) : Yields P shelf files format d es [] where
  snapshot := .inr snapshot
  journal := ⟨[], [], [], rfl, rfl, .inl ⟨journal, rfl⟩⟩
  eachPair := each
  eachRecord := nofun

omit [Metered K] [Metered V] in
/-- Reading the files is reading the two of them. -/
theorem verdict_eq_ok (holds : shelf.Holds files cwd d) {told : List (Record K V)} :
    verdict files format cwd d = .ok told ↔ ∃ pairs records,
      StoreFile.readSnapshot files.snapshot format (d.content shelf.snapshot) = .ok pairs ∧
      StoreFile.readJournal files.journal format (d.content shelf.journal) = .ok records ∧
      told = Record.puts pairs ++ records := by
  unfold verdict
  rw [holds.snapshot.contentAt, holds.journal.contentAt]
  simp only [Bind.bind, Except.bind]
  cases first : StoreFile.readSnapshot (K := K) (V := V) files.snapshot format
      (d.content shelf.snapshot) with
  | error e => exact ⟨nofun, nofun⟩
  | ok pairs =>
    cases second : StoreFile.readJournal (K := K) (V := V) files.journal format
        (d.content shelf.journal) with
    | error e => exact ⟨nofun, nofun⟩
    | ok records =>
      constructor
      · exact fun read => ⟨pairs, records, rfl, rfl, (Except.ok.inj read).symm⟩
      · rintro ⟨_, _, ⟨⟩, ⟨⟩, rfl⟩
        rfl

section Reading
variable [Framed K] [Framed V] [Tangible K] {told : List (Record K V)}

/-- What is read from the files is what they have. -/
theorem exists_yields_of_verdict (holds : shelf.Holds files cwd d)
    (read : verdict files format cwd d = .ok told) : ∃ pairs records,
      told = Record.puts pairs ++ records ∧ Yields P shelf files format d pairs records := by
  obtain ⟨pairs, records, first, second, rfl⟩ := (verdict_eq_ok holds).mp read
  refine ⟨pairs, records, rfl, .inl first, ?_, ?_, ?_⟩
  · exact ⟨_, records, [], second, (List.append_nil _).symm, .inl ⟨rfl, rfl⟩⟩
  · exact fun e mem => .inl (StoreFile.fits_of_readSnapshot first e mem)
  · exact fun r mem => .inl (StoreFile.fits_of_readJournal second r mem)

/-- Nothing that was put into the files is read if it is too long. -/
theorem fits_of_verdict {k : K} {v : V} (holds : shelf.Holds files cwd d)
    (read : verdict files format cwd d = .ok told) (mem : .put k v ∈ told) : Fits (k, v) := by
  obtain ⟨pairs, records, first, second, rfl⟩ := (verdict_eq_ok holds).mp read
  rcases List.mem_append.mp mem with mem | mem
  · obtain ⟨e, inside, same⟩ := List.mem_map.mp mem
    cases same
    exact StoreFile.fits_of_readSnapshot first e inside
  · exact Fits.pair (StoreFile.fits_of_readJournal second _ mem)

/-- Within the limit, all that the files have is read. -/
theorem Yields.verdict_eq (yields : Yields Fits shelf files format d pairs records_)
    (holds : shelf.Holds files cwd d) :
    verdict files format cwd d = .ok (Record.puts pairs ++ records_) :=
  (verdict_eq_ok holds).mpr ⟨pairs, records_,
    yields.snapshot.readSnapshot_eq fun e mem => (yields.eachPair e mem).elim id Fits.pair,
    yields.journal.readJournal_eq fun r mem => (yields.eachRecord r mem).elim id id, rfl⟩

/-- Whatever the size of what the files have, nothing else is read. -/
theorem Yields.eq_of_verdict (yields : Yields Metered.Sized shelf files format d pairs records_)
    (holds : shelf.Holds files cwd d) (read : verdict files format cwd d = .ok told) :
    told = Record.puts pairs ++ records_ := by
  obtain ⟨pairs', records', first, second, rfl⟩ := (verdict_eq_ok holds).mp read
  have samePairs := yields.snapshot.eq_of_readSnapshot
    (fun e mem => (yields.eachPair e mem).elim Fits.sized id) first
  have sameRecords := yields.journal.eq_of_readJournal
    (fun r mem => (yields.eachRecord r mem).elim Fits.sized id) second
  rw [samePairs, sameRecords]

/-- Either all that the files have is read, or they are refused, and not for their version. -/
theorem Yields.verdict_or_refused
    (yields : Yields Metered.Sized shelf files format d pairs records_)
    (holds : shelf.Holds files cwd d) :
    verdict files format cwd d = .ok (Record.puts pairs ++ records_) ∨
      ∃ e, verdict (K := K) (V := V) files format cwd d = .error e ∧ ¬e.isIncompatible := by
  cases read : verdict (K := K) (V := V) files format cwd d with
  | ok told => exact .inl (congrArg Except.ok (yields.eq_of_verdict holds read))
  | error e =>
    refine .inr ⟨e, rfl, ?_⟩
    unfold verdict at read
    rw [holds.snapshot.contentAt, holds.journal.contentAt] at read
    simp only [Bind.bind, Except.bind] at read
    cases first : StoreFile.readSnapshot (K := K) (V := V) files.snapshot format
        (d.content shelf.snapshot) with
    | error e' =>
      rw [first] at read
      cases read
      exact yields.snapshot.readSnapshot_other first
    | ok read_ =>
      cases second : StoreFile.readJournal (K := K) (V := V) files.journal format
          (d.content shelf.journal) with
      | error e' =>
        rw [first, second] at read
        cases read
        exact yields.journal.readJournal_other second
      | ok records' =>
        rw [first, second] at read
        cases read

end Reading

omit [Metered K] [Metered V] in
theorem Wrote.same_files {r : Except StoreError Nat × Log K V}
    (wrote : Wrote faults log shelf d r d') : (settle r).2.files = log.files := by
  cases wrote with
  | idle => rfl
  | appended => rfl
  | failed _ _ _ _ log_ => rcases log_ with rfl | rfl <;> rfl

omit [Metered K] [Metered V] in
theorem Brought.same_files {r : Except StoreError Nat × Log K V}
    (brought : Brought faults log t keep shelf d r d') : r.2.files = log.files := by
  cases brought with
  | kept => rfl
  | failed => rfl
  | compacted r d' compacted => cases compacted <;> rfl

omit [Metered K] [Metered V] in
theorem Saved.same_files {r : Except StoreError Nat × Log K V}
    (saved : Saved faults log t keep shelf d r d') : r.2.files = log.files := by
  cases saved with
  | unchanged => rfl
  | done n wrote after d₁ d' changed first rest =>
    have same := rest.same_files.trans first.same_files
    exact same
  | failed e wrote after d₁ d' changed first rest =>
    have same := rest.same_files.trans first.same_files
    exact same

omit [Metered K] [Metered V] in
theorem Recorded.same_files [DecidableEq K] {key : K} {value : Option V}
    (recorded : Recorded faults log shelf d key value after d') : after.files = log.files := by
  cases recorded with
  | noted => rfl
  | journaled cases_ => exact cases_.same_files

section Overlay
variable [DecidableEq K]

/-- The files alone have the whole table. -/
def Complete (P : Record K V → Prop) (log : Log K V) (shelf : Shelf) (d : Disk) (t : Table K V) :
    Prop :=
  ∃ pairs records, Yields P shelf log.files log.format d pairs records ∧
    Covers (Record.puts pairs ++ records) [] t

/-- The log mirrors the table: its files with the pending mutations over them have all of it,
unless they have to be written anew. -/
structure Mirrors (P : Record K V → Prop) (log : Log K V) (shelf : Shelf) (d : Disk)
    (t : Table K V) : Prop where
  distinct : t.keys.Nodup
  pendingDistinct : log.pending.keys.Nodup
  agrees : ∀ k v?, log.pending.get? k = some v? → t.get? k = v?
  each : ∀ e ∈ t, Fits e ∨ P (.put e.1 e.2)
  pendingEach : ∀ r ∈ records log.pending, P r
  replays : log.needsSnapshot = false →
    ∃ pairs records, Yields P shelf log.files log.format d pairs records ∧
      Covers (Record.puts pairs ++ records) log.pending t

/-- A log that is not dirty vouches for its files. -/
structure Vouches (P : Record K V → Prop) (log : Log K V) (shelf : Shelf) (d : Disk)
    (t : Table K V) : Prop extends Mirrors P log shelf d t where
  clean : log.dirty = false → Complete P log shelf d t

theorem Mirrors.mono {Q : Record K V → Prop} (mirrors : Mirrors P log shelf d t)
    (imp : ∀ r, P r → Q r) : Mirrors Q log shelf d t where
  distinct := mirrors.distinct
  pendingDistinct := mirrors.pendingDistinct
  agrees := mirrors.agrees
  each e mem := (mirrors.each e mem).imp_right (imp _)
  pendingEach r mem := imp r (mirrors.pendingEach r mem)
  replays whole := by
    obtain ⟨pairs, records, yields, covers⟩ := mirrors.replays whole
    exact ⟨pairs, records, yields.mono imp, covers⟩

theorem Mirrors.noted (mirrors : Mirrors P log shelf d t) {key : K} {value : Option V}
    {t' : Table K V} (distinct : t'.keys.Nodup) (new : P (.of key value))
    (update : ∀ k, t'.get? k = if key = k then value else t.get? k) :
    Mirrors P (log.noted key value) shelf d t' where
  distinct := distinct
  pendingDistinct := Table.nodup_keys_insert mirrors.pendingDistinct key value
  agrees := agrees_noted update mirrors.agrees
  each := by
    refine Table.forall_mem_of_update distinct update ?_ mirrors.each
    rintro v rfl
    exact .inr new
  pendingEach := each_pending_noted mirrors.pendingEach new
  replays whole := by
    obtain ⟨pairs, records, yields, covers⟩ := mirrors.replays whole
    exact ⟨pairs, records, yields, covers.note update⟩

theorem Mirrors.same_content (mirrors : Mirrors P log shelf d t)
    (snapshot : d'.content shelf.snapshot = d.content shelf.snapshot)
    (journal : d'.content shelf.journal = d.content shelf.journal) : Mirrors P log shelf d' t where
  distinct := mirrors.distinct
  pendingDistinct := mirrors.pendingDistinct
  agrees := mirrors.agrees
  each := mirrors.each
  pendingEach := mirrors.pendingEach
  replays whole := by
    obtain ⟨pairs, records, yields, covers⟩ := mirrors.replays whole
    exact ⟨pairs, records, yields.same_content snapshot journal, covers⟩

/-- A write of the journal, however it ends, is followed by a log that knows whether its files are
still good. -/
theorem Mirrors.wrote {r : Except StoreError Nat × Log K V} (mirrors : Mirrors P log shelf d t)
    (wrote : Wrote faults log shelf d r d') : Mirrors P (settle r).2 shelf d' t := by
  cases wrote with
  | idle nothing => exact mirrors
  | appended batch h d' some_ perm snapshot content =>
    refine ⟨mirrors.distinct, List.nodup_nil, nofun, mirrors.each, nofun, fun whole => ?_⟩
    obtain ⟨pairs, records, yields, covers⟩ := mirrors.replays whole
    refine ⟨pairs, _, yields.append (each_records perm mirrors.pendingEach) snapshot content, ?_⟩
    rw [← List.append_assoc]
    exact covers.write mirrors.pendingDistinct perm
  | failed e after d' may log_ snapshot content =>
    rcases log_ with rfl | rfl
    · exact ⟨mirrors.distinct, mirrors.pendingDistinct, mirrors.agrees, mirrors.each,
        mirrors.pendingEach, nofun⟩
    · exact ⟨mirrors.distinct, List.nodup_nil, nofun, mirrors.each, nofun, nofun⟩

theorem Mirrors.brought {r : Except StoreError Nat × Log K V} (mirrors : Mirrors P log shelf d t)
    (brought : Brought faults log t keep shelf d r d')
    (written : log.needsSnapshot = false → log.pending = []) :
    Mirrors P r.2 shelf d' t ∧ (r.1.isOk → Complete P r.2 shelf d' t) := by
  cases brought with
  | kept n whole small =>
    obtain ⟨pairs, records, yields, covers⟩ := mirrors.replays whole
    rw [written whole] at covers
    exact ⟨mirrors, fun _ => ⟨pairs, records, yields, covers⟩⟩
  | failed e may => exact ⟨mirrors, nofun⟩
  | compacted r d' compacted =>
    have eachOf {es : Table K V} (perm : es.Perm t) : ∀ e ∈ es, Fits e ∨ P (.put e.1 e.2) :=
      fun e mem => mirrors.each e (perm.mem_iff.mp mem)
    cases compacted with
    | done n es d' perm snapshot journal =>
      have covers := covers_snapshot mirrors.distinct perm
      rw [← List.append_nil (Record.puts es)] at covers
      refine ⟨⟨mirrors.distinct, mirrors.pendingDistinct, mirrors.agrees, mirrors.each,
        mirrors.pendingEach, fun _ => ?_⟩, fun _ => ?_⟩
      · exact ⟨es, [], yields_snapshot (eachOf perm) snapshot journal,
          covers.pending mirrors.agrees⟩
      · exact ⟨es, [], yields_snapshot (eachOf perm) snapshot journal, covers⟩
    | early e d' may snapshot journal => exact ⟨mirrors.same_content snapshot journal, nofun⟩
    | late e es d' may perm snapshot journal =>
      refine ⟨⟨mirrors.distinct, mirrors.pendingDistinct, mirrors.agrees, mirrors.each,
        mirrors.pendingEach, fun whole => ?_⟩, nofun⟩
      obtain ⟨pairs, records, yields, covers⟩ := mirrors.replays whole
      have nothing := written whole
      rw [nothing] at covers
      have later := covers.late mirrors.distinct perm (List.suffix_append ..)
      exact ⟨es, records, yields.late (eachOf perm) snapshot journal, nothing ▸ later⟩

theorem Mirrors.of_flags {other : Log K V} (mirrors : Mirrors P log shelf d t)
    (files : other.files = log.files) (format : other.format = log.format)
    (pending : other.pending = log.pending)
    (needs : other.needsSnapshot = log.needsSnapshot) : Mirrors P other shelf d t where
  distinct := mirrors.distinct
  pendingDistinct := pending ▸ mirrors.pendingDistinct
  agrees := pending ▸ mirrors.agrees
  each := mirrors.each
  pendingEach := pending ▸ mirrors.pendingEach
  replays := by
    rw [files, format, pending, needs]
    exact mirrors.replays

/-- A mutation is noted, and perhaps journaled at once. -/
theorem Vouches.recorded {key : K} {value : Option V} {t' : Table K V}
    (vouches : Vouches P log shelf d t) (distinct : t'.keys.Nodup) (new : P (.of key value))
    (update : ∀ k, t'.get? k = if key = k then value else t.get? k)
    (recorded : Recorded faults log shelf d key value after d') : Vouches P after shelf d' t' := by
  have noted := vouches.toMirrors.noted distinct new update
  cases recorded with
  | noted => exact ⟨noted, nofun⟩
  | journaled cases_ =>
    refine ⟨noted.wrote cases_, fun clean => ?_⟩
    rw [cases_.dirty_settle] at clean
    cases clean

/-- However a save ends, the log vouches on; and if it is done, the files alone have the table. -/
theorem Vouches.saved {r : Except StoreError Nat × Log K V} (vouches : Vouches P log shelf d t)
    (saved : Saved faults log t keep shelf d r d') :
    Vouches P r.2 shelf d' t ∧ (r.1.isOk → Complete P r.2 shelf d' t) := by
  have start : Mirrors P { log with dirty := false } shelf d t :=
    vouches.toMirrors.of_flags rfl rfl rfl rfl
  cases saved with
  | unchanged clean => exact ⟨vouches, fun _ => vouches.clean clean⟩
  | done n wrote after d₁ d' changed first rest =>
    have ⟨mirrors, complete⟩ := (start.wrote first).brought rest first.pending_settle
    exact ⟨⟨mirrors, fun _ => complete rfl⟩, fun _ => complete rfl⟩
  | failed e wrote after d₁ d' changed first rest =>
    have ⟨mirrors, _⟩ := (start.wrote first).brought rest first.pending_settle
    exact ⟨⟨mirrors.of_flags rfl rfl rfl rfl, nofun⟩, nofun⟩

/-- A log that is cleared starts over and remembers that its files are out of date. -/
theorem vouches_clear (log : Log K V) (shelf : Shelf) (d : Disk) :
    Vouches P log.clear shelf d [] where
  distinct := List.nodup_nil
  pendingDistinct := List.nodup_nil
  agrees := nofun
  each := nofun
  pendingEach := nofun
  replays := nofun
  clean := nofun

theorem Vouches.sameAt (vouches : Vouches P log shelf d t) (same : SameAt shelf.places d d') :
    Vouches P log shelf d' t where
  toMirrors := vouches.toMirrors.same_content (same _ (by simp [Shelf.places]))
    (same _ (by simp [Shelf.places]))
  clean clean := by
    obtain ⟨pairs, records, yields, covers⟩ := vouches.clean clean
    exact ⟨pairs, records, yields.sameAt same, covers⟩

/-- A log that was just opened vouches for what it has read, whoever wrote it. -/
theorem vouches_of_verdict [Framed K] [Framed V] [Tangible K] {told : List (Record K V)}
    (holds : shelf.Holds files cwd d) (read : verdict files format cwd d = .ok told) :
    Vouches P { files, format } shelf d (DurableMap.replay told) := by
  obtain ⟨pairs, records, rfl, yields⟩ := exists_yields_of_verdict (P := P) holds read
  have distinct := DurableMap.nodup_keys_replay (Record.puts pairs ++ records)
  have covers := covers_replay (Record.puts pairs ++ records)
  refine ⟨⟨distinct, List.nodup_nil, nofun, ?_, nofun, fun _ => ?_⟩, fun _ => ?_⟩
  · rintro ⟨k, v⟩ mem
    rcases List.mem_append.mp
      (DurableMap.mem_of_get?_replay (Table.get?_of_mem distinct mem)) with mem | mem
    · obtain ⟨e, inside, same⟩ := List.mem_map.mp mem
      cases same
      exact yields.eachPair e inside
    · exact (yields.eachRecord _ mem).imp_left Fits.pair
  · exact ⟨pairs, records, yields, covers⟩
  · exact ⟨pairs, records, yields, covers⟩

end Overlay
end Log

end BuildCache
