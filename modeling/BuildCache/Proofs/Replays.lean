import BuildCache.Proofs.Logs
import BuildCache.Proofs.Tables

/-!
What the files of a log tell a reader, and that the log never loses track of it: the records in
the files with the pending mutations over them are the table in memory, unless the log knows that
its files have to be written anew.
-/
namespace BuildCache

open Disk Program

namespace Log
variable {K V : Type} [Stored K] [Stored V] {P Q : Record K V → Prop} {faults : Faults}
  {cwd : Place} {shelf : Shelf} {d d' : Disk} {log after : Log K V} {told : List (Record K V)}
  {t entries : Table K V} {keep : Nat → Nat → Bool}

/-- The files were written for these records, the snapshot's first, and `P` holds of each. -/
structure Tells (P : Record K V → Prop) (shelf : Shelf) (format : StoreFormat) (d : Disk)
    (told : List (Record K V)) : Prop where
  written : ∃ pairs records, StoreFile.IsSnapshot format pairs (d.content shelf.snapshot) ∧
    StoreFile.IsJournal format records (d.content shelf.journal) ∧
    told = Record.puts pairs ++ records
  each : ∀ r ∈ told, P r

/-- The mutations as records. -/
def records {K V : Type} (batch : Table K (Option V)) : List (Record K V) :=
  batch.map fun e => Record.of e.1 e.2

@[simp] theorem records_nil {K V : Type} : records ([] : Table K (Option V)) = [] := rfl

theorem Tells.mono {format : StoreFormat} (tells : Tells P shelf format d told)
    (imp : ∀ r, P r → Q r) : Tells Q shelf format d told :=
  ⟨tells.written, fun r mem => imp r (tells.each r mem)⟩

theorem Tells.same_content {format : StoreFormat} (tells : Tells P shelf format d told)
    (snapshot : d'.content shelf.snapshot = d.content shelf.snapshot)
    (journal : d'.content shelf.journal = d.content shelf.journal) :
    Tells P shelf format d' told := by
  obtain ⟨⟨pairs, rs, isSnapshot, isJournal, eq⟩, fit⟩ := tells
  exact ⟨⟨pairs, rs, snapshot ▸ isSnapshot, journal ▸ isJournal, eq⟩, fit⟩

theorem Tells.sameAt {format : StoreFormat} (tells : Tells P shelf format d told)
    (same : SameAt shelf.places d d') : Tells P shelf format d' told :=
  tells.same_content (same _ (by simp [Shelf.places])) (same _ (by simp [Shelf.places]))

theorem tells_of_absent {format : StoreFormat} (snapshot : d.content shelf.snapshot = [])
    (journal : d.content shelf.journal = []) :
    Tells P shelf format d ([] : List (Record K V)) :=
  ⟨⟨[], [], .inl ⟨snapshot, rfl⟩, .inl ⟨journal, rfl⟩, rfl⟩, nofun⟩

theorem Tells.append {format : StoreFormat} (tells : Tells P shelf format d told)
    {batch : List (Record K V)} (each : ∀ r ∈ batch, P r)
    (snapshot : d'.content shelf.snapshot = d.content shelf.snapshot)
    (journal : d'.content shelf.journal =
      StoreFile.opened format (d.content shelf.journal) ++ StoreFile.journalBatch batch) :
    Tells P shelf format d' (told ++ batch) := by
  obtain ⟨⟨pairs, rs, isSnapshot, isJournal, rfl⟩, before⟩ := tells
  refine ⟨⟨pairs, rs ++ batch, snapshot ▸ isSnapshot, .inr ?_, by rw [List.append_assoc]⟩, ?_⟩
  · rw [journal, isJournal.opened, StoreFile.journal_append]
  · intro r mem
    rcases List.mem_append.mp mem with mem | mem
    · exact before r mem
    · exact each r mem

theorem tells_snapshot {format : StoreFormat} {es : Table K V} (perm : es.Perm entries)
    (each : ∀ e ∈ entries, P (.put e.1 e.2))
    (snapshot : d.content shelf.snapshot = StoreFile.snapshot format es)
    (journal : d.content shelf.journal = []) : Tells P shelf format d (Record.puts es) := by
  refine ⟨⟨es, [], .inr snapshot, .inl ⟨journal, rfl⟩, (List.append_nil _).symm⟩, ?_⟩
  intro r mem
  obtain ⟨e, inside, rfl⟩ := List.mem_map.mp mem
  exact each e (perm.mem_iff.mp inside)

/-- A new snapshot in front of the old journal. -/
theorem Tells.late {format : StoreFormat} {es : Table K V} (tells : Tells P shelf format d told)
    (perm : es.Perm entries) (each : ∀ e ∈ entries, P (.put e.1 e.2))
    (snapshot : d'.content shelf.snapshot = StoreFile.snapshot format es)
    (journal : d'.content shelf.journal = d.content shelf.journal) :
    ∃ rest, rest <:+ told ∧ Tells P shelf format d' (Record.puts es ++ rest) := by
  obtain ⟨⟨pairs, rs, isSnapshot, isJournal, rfl⟩, before⟩ := tells
  refine ⟨rs, List.suffix_append .., ⟨es, rs, .inr snapshot, journal ▸ isJournal, rfl⟩, ?_⟩
  intro r mem
  rcases List.mem_append.mp mem with mem | mem
  · obtain ⟨e, inside, rfl⟩ := List.mem_map.mp mem
    exact each e (perm.mem_iff.mp inside)
  · exact before r (List.mem_append_right _ mem)

omit [Stored K] [Stored V] in
theorem each_records {pending batch : Table K (Option V)} (perm : batch.Perm pending)
    (each : ∀ r ∈ records pending, P r) : ∀ r ∈ records batch, P r :=
  fun r mem => each r ((perm.map _).mem_iff.mp mem)

/-- A write adds a batch, or nothing, and then it has failed or there was nothing to add. -/
theorem Wrote.tells {r : Except StoreError Nat × Log K V} (wrote : Wrote faults log shelf d r d')
    (whole : r.1.isOk ∨ ¬faults.tears) (each : ∀ r ∈ records log.pending, P r)
    (tells : Tells P shelf log.format d told) :
    ∃ batch, Tells P shelf log.format d' (told ++ records batch) ∧
      (batch.Perm log.pending ∧ r.2.pending = [] ∨
        batch = [] ∧ r.1.isOk = false ∧ (r.2.pending = log.pending ∨ r.2.pending = [])) := by
  cases wrote with
  | idle nothing =>
    refine ⟨[], ?_, .inl ⟨by rw [nothing], nothing⟩⟩
    rw [records_nil, List.append_nil]
    exact tells
  | appended batch h d' some_ perm snapshot content =>
    exact ⟨batch, tells.append (each_records perm each) snapshot content, .inl ⟨perm, rfl⟩⟩
  | failed e after d' may log_ snapshot content =>
    have whole : ¬faults.tears := by
      rcases whole with ok | whole
      · cases ok
      · exact whole
    refine ⟨[], ?_, .inr ⟨rfl, rfl, ?_⟩⟩
    · rcases content whole with same | same
      · rw [records_nil, List.append_nil]
        exact tells.same_content snapshot same
      · refine tells.append nofun snapshot ?_
        rw [same, records, List.map_nil, StoreFile.journalBatch, List.flatMap_nil, List.append_nil]
    · rcases log_ with rfl | rfl
      · exact .inl rfl
      · exact .inr rfl

/-- A write that is done adds everything that was pending. -/
theorem Wrote.tells_of_isOk {r : Except StoreError Nat × Log K V}
    (wrote : Wrote faults log shelf d r d') (ok : r.1.isOk) (each : ∀ r ∈ records log.pending, P r)
    (tells : Tells P shelf log.format d told) :
    ∃ batch, batch.Perm log.pending ∧ r.2.pending = [] ∧
      Tells P shelf log.format d' (told ++ records batch) := by
  obtain ⟨batch, tells', ⟨perm, nothing⟩ | ⟨_, failed, _⟩⟩ := wrote.tells (.inl ok) each tells
  · exact ⟨batch, perm, nothing, tells'⟩
  · rw [ok] at failed
    cases failed

theorem Brought.tells {r : Except StoreError Nat × Log K V}
    (brought : Brought faults log entries keep shelf d r d')
    (each : ∀ e ∈ entries, P (.put e.1 e.2)) (tells : Tells P shelf log.format d told) :
    ∃ told', Tells P shelf r.2.format d' told' ∧ (told ⊆ told' ∨ Record.puts entries ⊆ told') := by
  cases brought with
  | kept => exact ⟨told, tells, .inl fun _ => id⟩
  | failed => exact ⟨told, tells, .inl fun _ => id⟩
  | compacted r d' compacted =>
    cases compacted with
    | early e d' may snapshot journal =>
      exact ⟨told, tells.same_content snapshot journal, .inl fun _ => id⟩
    | done n es d' perm snapshot journal =>
      have sub : Record.puts entries ⊆ Record.puts es := List.map_subset _ perm.symm.subset
      exact ⟨_, tells_snapshot perm each snapshot journal, .inr sub⟩
    | late e es d' may perm snapshot journal =>
      obtain ⟨rest, _, tells'⟩ := tells.late perm each snapshot journal
      have sub : Record.puts entries ⊆ Record.puts es := List.map_subset _ perm.symm.subset
      exact ⟨_, tells', .inr (List.Subset.trans sub (List.subset_append_left ..))⟩

/-- However a save ends, its files tell what they told before and more, or all of the table. -/
theorem Saved.tells {r : Except StoreError Nat × Log K V}
    (saved : Saved faults log entries keep shelf d r d') (whole : ¬faults.tears)
    (each : ∀ e ∈ entries, P (.put e.1 e.2)) (pending : ∀ r ∈ records log.pending, P r)
    (tells : Tells P shelf log.format d told) :
    ∃ told', Tells P shelf r.2.format d' told' ∧ (told ⊆ told' ∨ Record.puts entries ⊆ told') := by
  have behind {wrote : Except StoreError Nat × Log K V} {r : Except StoreError Nat × Log K V}
      {d₁ d' : Disk} (first : Wrote faults { log with dirty := false } shelf d wrote d₁)
      (rest : Brought faults (settle wrote).2 entries keep shelf d₁ r d') :
      ∃ told', Tells P shelf r.2.format d' told' ∧
        (told ⊆ told' ∨ Record.puts entries ⊆ told') := by
    obtain ⟨batch, tells₁, _⟩ := first.tells (.inr whole) pending tells
    rw [← first.format, ← format_settle] at tells₁
    obtain ⟨told', tells', sub⟩ := rest.tells each tells₁
    exact ⟨told', tells', sub.imp_left fun sub => List.Subset.trans (List.subset_append_left ..) sub⟩
  cases saved with
  | unchanged => exact ⟨told, tells, .inl fun _ => id⟩
  | done n wrote after d₁ d' changed first rest =>
    have told' := behind first rest
    exact told'
  | failed e wrote after d₁ d' changed first rest =>
    have told' := behind first rest
    exact told'

/-- Opening a log reads back the records that its files were written for. -/
theorem always_open [Metered K] [Metered V] [Tangible K] {files : LogFiles} {format : StoreFormat}
    (holds : shelf.Holds files cwd d) (tells : Tells Fits shelf format d told) :
    Always faults cwd (Log.open files format) d fun r d' => d' = d ∧
      (r = .ok (({ files, format } : Log K V), told) ∨ faults.possible ∧ ∃ e, r = .error e) := by
  obtain ⟨⟨pairs, rs, isSnapshot, isJournal, rfl⟩, fit⟩ := tells
  have fitPairs : ∀ e ∈ pairs, Fits e := fun e mem =>
    Fits.pair (fit (.put e.1 e.2) (List.mem_append_left _ (List.mem_map_of_mem mem)))
  have fitRecords : ∀ r ∈ rs, Fits r := fun r mem => fit r (List.mem_append_right _ mem)
  refine Always.bind (always_content holds.snapshot) ?_
  rintro r d' ⟨rfl, rfl | ⟨may, e, rfl⟩⟩
  · dsimp only
    rw [StoreFile.readSnapshot_eq files.snapshot isSnapshot fitPairs]
    refine Always.bind (always_content holds.journal) ?_
    rintro r d' ⟨rfl, rfl | ⟨may, e, rfl⟩⟩
    · dsimp only
      rw [StoreFile.readJournal_eq files.journal isJournal fitRecords]
      exact always_pure.mpr ⟨rfl, .inl rfl⟩
    · exact always_pure.mpr ⟨rfl, .inr ⟨may, e, rfl⟩⟩
  · exact always_pure.mpr ⟨rfl, .inr ⟨may, e, rfl⟩⟩

/-- Whatever their size, nothing is read back but the records that the files were written for. -/
theorem always_open_sized [Metered K] [Metered V] [Tangible K] {files : LogFiles}
    {format : StoreFormat} (holds : shelf.Holds files cwd d)
    (tells : Tells Metered.Sized shelf format d told) :
    Always faults cwd (Log.open files format) d fun r d' => d' = d ∧
      ∀ opened, r = .ok opened → opened = (({ files, format } : Log K V), told) := by
  obtain ⟨⟨pairs, rs, isSnapshot, isJournal, rfl⟩, sized⟩ := tells
  have sizedPairs : ∀ e ∈ pairs, Metered.Sized e := fun e mem =>
    sized (.put e.1 e.2) (List.mem_append_left _ (List.mem_map_of_mem mem))
  have sizedRecords : ∀ r ∈ rs, Metered.Sized r :=
    fun r mem => sized r (List.mem_append_right _ mem)
  refine Always.bind (always_content holds.snapshot) ?_
  rintro r d' ⟨rfl, rfl | ⟨_, e, rfl⟩⟩
  · cases first : StoreFile.readSnapshot (K := K) (V := V) files.snapshot format
        (d'.content shelf.snapshot) with
    | error e =>
      dsimp only
      rw [first]
      exact always_pure.mpr ⟨rfl, nofun⟩
    | ok read =>
      dsimp only
      rw [first, StoreFile.eq_of_readSnapshot isSnapshot sizedPairs first]
      refine Always.bind (always_content holds.journal) ?_
      rintro r d' ⟨rfl, rfl | ⟨_, e, rfl⟩⟩
      · cases second : StoreFile.readJournal (K := K) (V := V) files.journal format
            (d'.content shelf.journal) with
        | error e =>
          dsimp only
          rw [second]
          exact always_pure.mpr ⟨rfl, nofun⟩
        | ok read =>
          dsimp only
          rw [second, StoreFile.eq_of_readJournal isJournal sizedRecords second]
          refine always_pure.mpr ⟨rfl, ?_⟩
          rintro opened ⟨⟩
          rfl
      · exact always_pure.mpr ⟨rfl, nofun⟩
  · exact always_pure.mpr ⟨rfl, nofun⟩

section Overlay
variable [DecidableEq K]

/-- The records with the pending mutations over them are the table. -/
def Covers (told : List (Record K V)) (pending : Table K (Option V)) (t : Table K V) : Prop :=
  ∀ k, ((pending.get? k).or (Record.latest told k)).join = t.get? k

omit [Stored K] [Stored V] in
theorem covers_replay (told : List (Record K V)) : Covers told [] (DurableMap.replay told) := by
  intro k
  rw [DurableMap.get?_replay]
  rfl

omit [Stored K] [Stored V] in
theorem Covers.get?_replay (covers : Covers told [] t) (k : K) :
    (DurableMap.replay told).get? k = t.get? k := by
  rw [DurableMap.get?_replay]
  exact covers k

omit [Stored K] [Stored V] in
theorem Covers.write {pending batch : Table K (Option V)} (covers : Covers told pending t)
    (distinct : pending.keys.Nodup) (perm : batch.Perm pending) :
    Covers (told ++ records batch) [] t := by
  intro k
  have distinct' : batch.keys.Nodup := (perm.map Prod.fst).symm.nodup distinct
  rw [Record.latest_append, records, Record.latest_map_of distinct',
    Table.get?_perm distinct' perm]
  exact covers k

omit [Stored K] [Stored V] in
theorem Covers.note {pending : Table K (Option V)} {t' : Table K V} (covers : Covers told pending t)
    {key : K} {value : Option V}
    (update : ∀ k, t'.get? k = if key = k then value else t.get? k) :
    Covers told (pending.insert key value) t' := by
  intro k
  rw [Table.get?_insert, update k]
  by_cases same : key = k
  · rw [if_pos same, if_pos same]
    rfl
  · rw [if_neg same, if_neg same]
    exact covers k

omit [Stored K] [Stored V] in
theorem covers_snapshot {es : Table K V} (distinct : t.keys.Nodup) (perm : es.Perm t) :
    Covers (Record.puts es) [] t := by
  intro k
  have distinct' : es.keys.Nodup := (perm.map Prod.fst).symm.nodup distinct
  rw [Record.latest_puts distinct', Table.get?_perm distinct' perm]
  cases t.get? k <;> rfl

omit [Stored K] [Stored V] in
/-- Records that were in the journal before may follow a new snapshot: they say nothing else. -/
theorem Covers.late {es : Table K V} {rest : List (Record K V)} (covers : Covers told [] t)
    (distinct : t.keys.Nodup) (perm : es.Perm t) (suffix : rest <:+ told) :
    Covers (Record.puts es ++ rest) [] t := by
  intro k
  obtain ⟨front, rfl⟩ := suffix
  have before := covers k
  have snapshot := covers_snapshot distinct perm k
  rw [Record.latest_append] at before ⊢
  cases latest : Record.latest rest k with
  | none => exact snapshot
  | some v? =>
    rw [latest] at before
    exact before

omit [Stored K] [Stored V] in
/-- Pending mutations that say what the table says may be there or not. -/
theorem Covers.pending {pending : Table K (Option V)} (covers : Covers told [] t)
    (agrees : ∀ k v?, pending.get? k = some v? → t.get? k = v?) : Covers told pending t := by
  intro k
  cases found : pending.get? k with
  | none => exact covers k
  | some v? => exact (agrees k v? found).symm

section Noted
variable {log : Log K V} {key : K} {value : Option V} {t t' : Table K V}

omit [Stored K] [Stored V] in
/-- What is pending and the table take up a mutation alike. -/
theorem agrees_noted (update : ∀ k, t'.get? k = if key = k then value else t.get? k)
    (agrees : ∀ k v?, log.pending.get? k = some v? → t.get? k = v?) (k : K) (v? : Option V)
    (found : (log.noted key value).pending.get? k = some v?) : t'.get? k = v? := by
  rw [noted, Table.get?_insert] at found
  rw [update k]
  split at found
  · rename_i same
    rw [if_pos same]
    exact Option.some.inj found
  · rename_i other
    rw [if_neg other]
    exact agrees k v? found

omit [Stored K] [Stored V] in
theorem each_pending_noted (each : ∀ r ∈ records log.pending, P r) (new : P (.of key value)) :
    ∀ r ∈ records (log.noted key value).pending, P r := by
  intro r mem
  obtain ⟨e, inside, rfl⟩ := List.mem_map.mp mem
  rcases Table.mem_insert inside with rfl | inside
  · exact new
  · exact each _ (List.mem_map_of_mem inside)

end Noted

/-- The log keeps track of the table `t`, whatever has gone wrong so far. -/
structure Tracks (P : Record K V → Prop) (log : Log K V) (shelf : Shelf) (d : Disk)
    (t : Table K V) : Prop where
  distinct : t.keys.Nodup
  pendingDistinct : log.pending.keys.Nodup
  agrees : ∀ k v?, log.pending.get? k = some v? → t.get? k = v?
  each : ∀ e ∈ t, P (.put e.1 e.2)
  pendingEach : ∀ r ∈ records log.pending, P r
  /-- The files say the rest, unless they have to be written anew. -/
  replays : log.needsSnapshot = false → ∃ told, Tells P shelf log.format d told ∧
    Covers told log.pending t

/-- The files alone tell the whole table. -/
def Holds (P : Record K V → Prop) (format : StoreFormat) (shelf : Shelf) (d : Disk)
    (t : Table K V) : Prop :=
  ∃ told, Tells P shelf format d told ∧ Covers told [] t

/-- A log that is not dirty has its whole table in its files. Some of it may still be pending: a
save may have to do without the journal, and leaves then pending what the snapshot says too. -/
structure Faithful (P : Record K V → Prop) (log : Log K V) (shelf : Shelf) (d : Disk)
    (t : Table K V) : Prop extends Tracks P log shelf d t where
  clean : log.dirty = false → Holds P log.format shelf d t

theorem Tracks.mono (tracks : Tracks P log shelf d t) (imp : ∀ r, P r → Q r) :
    Tracks Q log shelf d t where
  distinct := tracks.distinct
  pendingDistinct := tracks.pendingDistinct
  agrees := tracks.agrees
  each e mem := imp _ (tracks.each e mem)
  pendingEach r mem := imp r (tracks.pendingEach r mem)
  replays whole := by
    obtain ⟨told, tells, covers⟩ := tracks.replays whole
    exact ⟨told, tells.mono imp, covers⟩

theorem Faithful.mono (faithful : Faithful P log shelf d t) (imp : ∀ r, P r → Q r) :
    Faithful Q log shelf d t where
  toTracks := faithful.toTracks.mono imp
  clean clean := by
    obtain ⟨told, tells, covers⟩ := faithful.clean clean
    exact ⟨told, tells.mono imp, covers⟩

theorem Tracks.noted (tracks : Tracks P log shelf d t) {key : K} {value : Option V}
    {t' : Table K V} (distinct : t'.keys.Nodup) (new : P (.of key value))
    (update : ∀ k, t'.get? k = if key = k then value else t.get? k) :
    Tracks P (log.noted key value) shelf d t' where
  distinct := distinct
  pendingDistinct := Table.nodup_keys_insert tracks.pendingDistinct key value
  agrees := agrees_noted update tracks.agrees
  each := by
    refine Table.forall_mem_of_update distinct update ?_ tracks.each
    rintro v rfl
    exact new
  pendingEach := each_pending_noted tracks.pendingEach new
  replays whole := by
    obtain ⟨told, tells, covers⟩ := tracks.replays whole
    exact ⟨told, tells, covers.note update⟩

theorem Tracks.same_content (tracks : Tracks P log shelf d t)
    (snapshot : d'.content shelf.snapshot = d.content shelf.snapshot)
    (journal : d'.content shelf.journal = d.content shelf.journal) : Tracks P log shelf d' t where
  distinct := tracks.distinct
  pendingDistinct := tracks.pendingDistinct
  agrees := tracks.agrees
  each := tracks.each
  pendingEach := tracks.pendingEach
  replays whole := by
    obtain ⟨told, tells, covers⟩ := tracks.replays whole
    exact ⟨told, tells.same_content snapshot journal, covers⟩

theorem Tracks.wrote {r : Except StoreError Nat × Log K V} (tracks : Tracks P log shelf d t)
    (wrote : Wrote faults log shelf d r d') : Tracks P (settle r).2 shelf d' t := by
  cases wrote with
  | idle nothing => exact tracks
  | appended batch h d' some_ perm snapshot content =>
    refine ⟨tracks.distinct, List.nodup_nil, nofun, tracks.each, nofun, fun whole => ?_⟩
    obtain ⟨told, tells, covers⟩ := tracks.replays whole
    exact ⟨_, tells.append (each_records perm tracks.pendingEach) snapshot content,
      covers.write tracks.pendingDistinct perm⟩
  | failed e after d' may log_ snapshot content =>
    rcases log_ with rfl | rfl
    · exact ⟨tracks.distinct, tracks.pendingDistinct, tracks.agrees, tracks.each,
        tracks.pendingEach, nofun⟩
    · exact ⟨tracks.distinct, List.nodup_nil, nofun, tracks.each, nofun, nofun⟩

theorem Tracks.brought {r : Except StoreError Nat × Log K V} (tracks : Tracks P log shelf d t)
    (brought : Brought faults log t keep shelf d r d')
    (written : log.needsSnapshot = false → log.pending = []) :
    Tracks P r.2 shelf d' t ∧ (r.1.isOk → Holds P r.2.format shelf d' t) := by
  cases brought with
  | kept n whole small =>
    obtain ⟨told, tells, covers⟩ := tracks.replays whole
    rw [written whole] at covers
    exact ⟨tracks, fun _ => ⟨told, tells, covers⟩⟩
  | failed e may => exact ⟨tracks, nofun⟩
  | compacted r d' compacted =>
    cases compacted with
    | done n es d' perm snapshot journal =>
      have tells := tells_snapshot perm tracks.each snapshot journal
      have covers := covers_snapshot tracks.distinct perm
      refine ⟨⟨tracks.distinct, tracks.pendingDistinct, tracks.agrees, tracks.each,
        tracks.pendingEach, fun _ => ?_⟩, fun _ => ?_⟩
      · exact ⟨_, tells, covers.pending tracks.agrees⟩
      · exact ⟨_, tells, covers⟩
    | early e d' may snapshot journal => exact ⟨tracks.same_content snapshot journal, nofun⟩
    | late e es d' may perm snapshot journal =>
      refine ⟨⟨tracks.distinct, tracks.pendingDistinct, tracks.agrees, tracks.each,
        tracks.pendingEach, fun whole => ?_⟩, nofun⟩
      obtain ⟨told, tells, covers⟩ := tracks.replays whole
      have nothing := written whole
      rw [nothing] at covers
      obtain ⟨rest, suffix, tells'⟩ := tells.late perm tracks.each snapshot journal
      refine ⟨_, tells', ?_⟩
      have later := covers.late tracks.distinct perm suffix
      exact nothing ▸ later

theorem Tracks.of_flags {other : Log K V} (tracks : Tracks P log shelf d t)
    (format : other.format = log.format) (pending : other.pending = log.pending)
    (needs : other.needsSnapshot = log.needsSnapshot) : Tracks P other shelf d t where
  distinct := tracks.distinct
  pendingDistinct := by
    rw [pending]
    exact tracks.pendingDistinct
  agrees := by
    rw [pending]
    exact tracks.agrees
  each := tracks.each
  pendingEach := by
    rw [pending]
    exact tracks.pendingEach
  replays := by
    rw [format, pending, needs]
    exact tracks.replays

/-- A mutation is noted, and perhaps journaled at once. -/
theorem Faithful.recorded {key : K} {value : Option V} {t' : Table K V}
    (faithful : Faithful P log shelf d t) (distinct : t'.keys.Nodup) (new : P (.of key value))
    (update : ∀ k, t'.get? k = if key = k then value else t.get? k)
    (recorded : Recorded faults log shelf d key value after d') : Faithful P after shelf d' t' := by
  have noted := faithful.toTracks.noted distinct new update
  cases recorded with
  | noted => exact ⟨noted, nofun⟩
  | journaled cases_ =>
    refine ⟨noted.wrote cases_, fun clean => ?_⟩
    rw [cases_.dirty_settle] at clean
    cases clean

/-- A save keeps track, and if it is done, the files alone tell the table. -/
theorem Faithful.saved {r : Except StoreError Nat × Log K V} (faithful : Faithful P log shelf d t)
    (saved : Saved faults log t keep shelf d r d') :
    Faithful P r.2 shelf d' t ∧ (r.1.isOk → Holds P r.2.format shelf d' t) := by
  cases saved with
  | unchanged clean => exact ⟨faithful, fun _ => faithful.clean clean⟩
  | done n wrote after d₁ d' changed first rest =>
    have start : Tracks P { log with dirty := false } shelf d t :=
      faithful.toTracks.of_flags rfl rfl rfl
    have ⟨tracks, holds⟩ := (start.wrote first).brought rest first.pending_settle
    exact ⟨⟨tracks, fun _ => holds rfl⟩, fun _ => holds rfl⟩
  | failed e wrote after d₁ d' changed first rest =>
    have start : Tracks P { log with dirty := false } shelf d t :=
      faithful.toTracks.of_flags rfl rfl rfl
    have ⟨tracks, _⟩ := (start.wrote first).brought rest first.pending_settle
    exact ⟨⟨tracks.of_flags rfl rfl rfl, nofun⟩, nofun⟩

/-- A log that is cleared starts over and remembers that its files are out of date. -/
theorem faithful_clear (log : Log K V) (shelf : Shelf) (d : Disk) :
    Faithful P log.clear shelf d [] where
  distinct := List.nodup_nil
  pendingDistinct := List.nodup_nil
  agrees := nofun
  each := nofun
  pendingEach := nofun
  replays := nofun
  clean := nofun

theorem Faithful.sameAt (faithful : Faithful P log shelf d t)
    (same : SameAt shelf.places d d') : Faithful P log shelf d' t where
  toTracks := faithful.toTracks.same_content (same _ (by simp [Shelf.places]))
    (same _ (by simp [Shelf.places]))
  clean clean := by
    obtain ⟨told, tells, covers⟩ := faithful.clean clean
    exact ⟨told, tells.sameAt same, covers⟩

end Overlay
end Log
end BuildCache
