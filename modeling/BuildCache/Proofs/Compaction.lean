import BuildCache.Proofs.FileTrees
import BuildCache.Proofs.Filing
import BuildCache.Proofs.Rehearsals

/-!
How large a journal can become. Behind a save that was done and had something to bring to disk, the
map's journal is gone or below its share of the snapshot, and the index's journal is gone. Nothing
is asked of the disk for that but that it is a file tree, and nothing of what the files hold or of
how often a write has failed before: the save looks at the sizes itself, last of all.
-/
namespace BuildCache

open Disk Program

namespace Cache
variable {percent journal snapshot : Nat}

/-- A journal that is kept is below its share, although both products may have stopped at the
largest word. -/
theorem lt_of_keepJournal (kept : keepJournal percent journal snapshot = true) :
    100 * journal < percent * snapshot := by
  rw [keepJournal, decide_eq_true_eq, Nat.mul_comm snapshot] at kept
  generalize percent * snapshot = share at kept ⊢
  omega

/-- A journal below its share is kept while its product is a word of 64 bits. The largest word is
not itself a multiple of a hundred. -/
theorem keepJournal_of_lt (small : 100 * journal < UInt64.size)
    (below : 100 * journal < percent * snapshot) : keepJournal percent journal snapshot = true := by
  rw [keepJournal, decide_eq_true_eq, Nat.mul_comm snapshot]
  generalize percent * snapshot = share at below ⊢
  have word : UInt64.size = 18446744073709551616 := rfl
  rw [largestWord]
  omega

end Cache

variable {faults : Faults} {cwd q : Place} {d d' d'' : Disk} {path : Path}

namespace Disk

/-- The path leads to nothing. -/
def Missing (d : Disk) (cwd : Place) (path : Path) : Prop := ∀ node, d.find cwd path ≠ .ok node

/-- Neither has a directory been made, nor anything at the place. -/
structure Unmade (q : Place) (d d' : Disk) : Prop where
  sound : d'.Sound
  dirs : ∀ p, d'.node? p = some .dir → d.node? p = some .dir
  absent : d.node? q = none → d'.node? q = none

namespace Unmade

theorem refl (sound : d.Sound) : Unmade q d d := ⟨sound, fun _ => id, id⟩

theorem trans (first : Unmade q d d') (next : Unmade q d' d'') : Unmade q d d'' where
  sound := next.sound
  dirs p dir := first.dirs p (next.dirs p dir)
  absent nothing := next.absent (first.absent nothing)

theorem of_touches {p : Place} (touches : Touches [p] d d') (other : p ≠ q) : Unmade q d d' where
  sound := touches.sound
  dirs p := (touches.dirs p).mp
  absent nothing := by
    refine node?_eq_none ?_ fun dir => ?_
    · rw [touches.elsewhere q (by simpa using Ne.symm other), file?, nothing]
    · rw [(touches.dirs q).mp dir] at nothing
      cases nothing

theorem of_append (sound : d.Sound) (h : Handle) (bs : Bytes) : Unmade q d (d.append h bs) where
  sound := sound_append sound h bs
  dirs p dir := by
    rw [node?_append] at dir
    split at dir
    · cases dir
    · exact dir
  absent nothing := by rw [node?_append, nothing]

/-- A file takes nothing along when it moves. -/
theorem of_shifted {a b : Place} {h : Handle} {c : Bytes} (sound : d.Sound)
    (file : d.file? a = some (h, c)) (away : ¬ b <+: q) (shifted : Shifted a b d d') :
    Unmade q d d' where
  sound := shifted.sound
  dirs p dir := by
    have node := file?_eq_some.mp file
    rw [shifted.nodes] at dir
    split at dir
    · by_cases top : p.drop b.length = []
      · rw [top, List.append_nil, node] at dir
        cases dir
      · have above := sound.node?_prefix a _ top (by rw [dir]; exact nofun)
        rw [node] at above
        cases above
    split at dir
    · cases dir
    · exact dir
  absent nothing := by
    rw [shifted.nodes, if_neg away, nothing]
    split <;> rfl

/-- What could not be found is still not there. -/
theorem missing (unmade : Unmade (goal cwd path) d d')
    (lost : d.find cwd path = .error .notFound) : d'.Missing cwd path := by
  intro node found
  rw [find] at lost found
  obtain ⟨t, leads, found⟩ := bind_eq_ok.mp found
  have before := resolve_mono unmade.dirs leads
  obtain ⟨at_, _⟩ := resolve_goal leads
  rw [before] at lost
  cases t with
  | onTheWay place refusal => cases lost
  | named place slash =>
    obtain rfl : place = goal cwd path := at_
    obtain ⟨n, looked, found⟩ := bind_eq_ok.mp found
    obtain ⟨short, rfl⟩ := lookup_eq_ok looked
    simp only [Bind.bind, Except.bind] at lost
    rw [lookup_of_short short] at lost
    cases here : d.node? (goal cwd path) with
    | some n =>
      rw [here] at lost
      cases n with
      | dir => cases lost
      | file h c => cases slash <;> cases lost
    | none =>
      rw [unmade.absent here] at found
      cases found

end Unmade
end Disk

namespace Program
variable {α β : Type}

/-- The program makes no directory, and nothing at the place. -/
def Shuns (faults : Faults) (cwd q : Place) (p : Program α) : Prop :=
  ∀ d, d.Sound → Always faults cwd p d fun _ d' => Unmade q d d'

theorem shuns_pure (a : α) : Shuns faults cwd q (pure a) :=
  fun _ sound => always_pure.mpr (.refl sound)

theorem Shuns.bind {x : Program α} {f : α → Program β} (first : Shuns faults cwd q x)
    (next : ∀ a, Shuns faults cwd q (f a)) : Shuns faults cwd q (x >>= f) := by
  intro d sound
  refine Always.bind (first d sound) fun a d' unmade => ?_
  exact (next a d' unmade.sound).mono fun b d'' later => unmade.trans later

theorem shuns_request {r : Request}
    (each : ∀ d, d.Sound → ∀ reply d', d.Answers faults cwd r reply d' → Unmade q d d') :
    Shuns faults cwd q (request r) :=
  fun d sound => always_request.mpr (each d sound)

theorem shuns_append (h : Handle) (bs : Bytes) : Shuns faults cwd q (request (.append h bs)) := by
  refine shuns_request fun d sound reply d' answer => ?_
  cases answer with
  | refused => exact .refl sound
  | served => exact .of_append sound h bs
  | torn _ _ front => exact .of_append sound h front

/-- A request that leaves the disk as it is. -/
theorem shuns_idle {r : Request}
    (idle : ∀ (d : Disk) reply d', d.Answers faults cwd r reply d' → d' = d) :
    Shuns faults cwd q (request r) := by
  refine shuns_request fun d sound reply d' answer => ?_
  rw [idle d reply d' answer]
  exact .refl sound

theorem shuns_walk (as : List α) : Shuns faults cwd q (walk as) :=
  (shuns_idle fun _ _ _ answer => answers_order answer).bind fun _ => shuns_pure _

end Program

namespace Log

/-- The place is neither where the log keeps its files nor under one of them. -/
structure Beside (files : LogFiles) (cwd q : Place) : Prop where
  snapshot : ¬ goal cwd files.snapshot <+: q
  journal : ¬ goal cwd files.journal <+: q
  temporary : ¬ goal cwd (temporary files.snapshot) <+: q

variable {K V : Type} [Stored K] [Stored V] {log : Log K V} {files : LogFiles}

theorem ne_of_away {p : Place} (away : ¬ p <+: q) : p ≠ q := fun same =>
  away (same ▸ List.prefix_refl p)

theorem shuns_openJournal (away : ¬ goal cwd path <+: q) (format : StoreFormat) :
    Shuns faults cwd q (openJournal path format) := by
  refine Shuns.bind (shuns_request fun d sound reply d' answer =>
    .of_touches (answers_openJournal_any sound answer) (ne_of_away away)) fun opened => ?_
  cases opened with
  | error e => exact shuns_pure _
  | ok r =>
    dsimp only
    split
    · exact Shuns.bind (shuns_append _ _) fun _ => shuns_pure _
    · exact shuns_pure _

theorem shuns_removeIfExists (away : ¬ goal cwd path <+: q) :
    Shuns faults cwd q (removeIfExists path) :=
  Shuns.bind (shuns_request fun _ sound _ _ answer =>
    .of_touches (answers_removeFile_any sound answer).1 (ne_of_away away)) fun _ => shuns_pure _

theorem always_writeNew_any (sound : d.Sound) (pieces : List Bytes) :
    Always faults cwd (writeNew path pieces) d fun r d' => Touches [goal cwd path] d d' ∧
      (r = .ok () → ∃ h c, d'.file? (goal cwd path) = some (h, c)) := by
  refine Always.bind (always_request.mpr fun reply d' answer =>
    answers_create_any sound answer) ?_
  rintro reply d' ⟨touches, made⟩
  cases reply with
  | error e => exact always_pure.mpr ⟨touches, nofun⟩
  | ok h =>
    obtain ⟨c, file⟩ := made h rfl
    refine (always_writeTo touches.sound file pieces).mono ?_
    rintro r d'' ⟨later, ⟨_, file'⟩ | ⟨_, e, rfl⟩⟩
    · exact ⟨touches.trans later, fun _ => ⟨h, _, file'⟩⟩
    · exact ⟨touches.trans later, nofun⟩

theorem shuns_replaceFile (beside : Beside files cwd q) (pieces : List Bytes) :
    Shuns faults cwd q (replaceFile files.snapshot pieces) := by
  intro d sound
  have other := ne_of_away beside.temporary
  refine Always.bind (always_writeNew_any sound pieces) ?_
  rintro written d' ⟨touches, made⟩
  have unmade : Unmade q d d' := .of_touches touches other
  cases written with
  | error e =>
    refine Always.bind (always_request.mpr fun reply d'' answer =>
      (answers_removeFile_any touches.sound answer).1) ?_
    rintro reply d'' later
    exact always_pure.mpr (unmade.trans (.of_touches later other))
  | ok u =>
    obtain ⟨h, c, file⟩ := made rfl
    refine Always.bind (always_request.mpr fun reply d'' answer =>
      answers_rename_any touches.sound answer) ?_
    rintro reply d'' (rfl | shifted)
    · exact always_pure.mpr unmade
    · exact always_pure.mpr
        (unmade.trans (.of_shifted touches.sound file beside.snapshot shifted))

theorem shuns_writeJournal (beside : Beside log.files cwd q) :
    Shuns faults cwd q log.writeJournal := by
  unfold writeJournal
  split
  · exact shuns_pure _
  refine Shuns.bind ?_ fun ready => ?_
  · unfold ensureJournal
    split
    · exact shuns_pure _
    · exact shuns_openJournal beside.journal _
  cases ready with
  | error e => exact shuns_pure _
  | ok h =>
    refine (shuns_walk _).bind fun pending => (shuns_append h _).bind fun written => ?_
    cases written <;> exact shuns_pure _

theorem shuns_fileSize (path : Path) : Shuns faults cwd q (fileSize path) :=
  (shuns_idle fun _ _ _ answer => (answers_size answer).1).bind fun _ => shuns_pure _

omit [Stored K] [Stored V] in
theorem shuns_mayKeep (log : Log K V) (keep : Nat → Nat → Bool) :
    Shuns faults cwd q (log.mayKeep keep) := by
  unfold mayKeep
  split
  · exact shuns_pure _
  refine (shuns_fileSize _).bind fun journal => ?_
  cases journal with
  | error e => exact shuns_pure _
  | ok journal =>
    refine (shuns_fileSize _).bind fun snapshot => ?_
    cases snapshot <;> exact shuns_pure _

omit [Stored K] [Stored V] in
theorem shuns_syncJournal (log : Log K V) : Shuns faults cwd q log.syncJournal := by
  unfold syncJournal
  split
  · exact shuns_pure _
  · exact (shuns_idle fun _ _ _ answer => (answers_sync answer).1).bind fun _ => shuns_pure _

theorem shuns_bring (beside : Beside log.files cwd q) (entries : Table K V)
    (keep : Nat → Nat → Bool) (appended : Nat) :
    Shuns faults cwd q (log.bring entries keep appended) := by
  refine (shuns_mayKeep log keep).bind fun may => ?_
  cases may with
  | error e => exact shuns_pure _
  | ok kept =>
    cases kept with
    | true =>
      refine (shuns_syncJournal log).bind fun synced => ?_
      cases synced <;> exact shuns_pure _
    | false =>
      refine (shuns_walk entries).bind fun es => (shuns_replaceFile beside _).bind fun replaced => ?_
      cases replaced with
      | error e => exact shuns_pure _
      | ok u =>
        refine (shuns_removeIfExists beside.journal).bind fun removed => ?_
        cases removed <;> exact shuns_pure _

/-- A save makes nothing but the log's own files. -/
theorem shuns_save (beside : Beside log.files cwd q) (entries : Table K V)
    (keep : Nat → Nat → Bool) : Shuns faults cwd q (log.save entries keep) := by
  have changed : Shuns faults cwd q ({ log with dirty := false }.saveChanged entries keep) := by
    rw [saveChanged_eq]
    intro d sound
    have clean : Beside { log with dirty := false }.files cwd q := beside
    have written : Always faults cwd { log with dirty := false }.writeJournal d
        fun wrote d' => wrote.2.files = log.files ∧ Unmade q d d' :=
      fun wrote d' run => ⟨(delivers_writeJournal { log with dirty := false }).of_runs run,
        shuns_writeJournal clean d sound wrote d' run⟩
    refine Always.bind written ?_
    rintro wrote d' ⟨same, unmade⟩
    have beside' : Beside (settle wrote).2.files cwd q := by rwa [files_settle, same]
    exact (shuns_bring beside' entries keep _ d' unmade.sound).mono
      fun _ _ later => unmade.trans later
  unfold save
  split
  · exact shuns_pure _
  refine changed.bind ?_
  rintro ⟨saved, after⟩
  cases saved <;> exact shuns_pure _

/-- The journal is gone, or what was kept of it is what the owner agreed to keep. -/
def Slim (files : LogFiles) (keep : Nat → Nat → Bool) (cwd : Place) (d : Disk) : Prop :=
  d.find cwd files.journal = .error .notFound ∨ ∃ journal snapshot,
    d.size cwd files.journal = .ok journal ∧
      orMissing 0 (d.size cwd files.snapshot) = .ok snapshot ∧ keep journal snapshot = true

theorem find_of_size (missing : d.size cwd path = .error .notFound) :
    d.find cwd path = .error .notFound := by
  rw [Disk.size] at missing
  cases found : d.find cwd path with
  | error e =>
    rw [found] at missing
    cases missing
    rfl
  | ok node =>
    rw [found] at missing
    cases node <;> cases missing

theorem atPath_orMissing_eq_ok {α : Type} {default a : α} {x : Except OsError α} {path : Path}
    (ok : atPath path (orMissing default x) = .ok a) :
    x = .ok a ∨ x = .error .notFound ∧ a = default := by
  cases x with
  | ok b =>
    cases ok
    exact .inl rfl
  | error e =>
    cases e <;> cases ok
    exact .inr ⟨rfl, rfl⟩

theorem always_fileSize_any : Always faults cwd (fileSize path) d fun r d' => d' = d ∧
    ∀ n, r = .ok n → orMissing 0 (d.size cwd path) = .ok n := by
  refine Always.bind (always_request.mpr fun reply d' answer => answers_size answer) ?_
  rintro reply d' ⟨rfl, cases_⟩
  refine always_pure.mpr ⟨rfl, fun n ok => ?_⟩
  rcases cases_ with rfl | ⟨_, e, other, rfl⟩
  · rcases atPath_orMissing_eq_ok ok with same | ⟨same, rfl⟩ <;> rw [same] <;> rfl
  · rcases atPath_orMissing_eq_ok ok with same | ⟨same, _⟩
    · cases same
    · exact absurd (Except.error.inj same) other

theorem always_removeIfExists_any (sound : d.Sound) :
    Always faults cwd (removeIfExists path) d fun r d' =>
      r = .ok () → d'.find cwd path = .error .notFound := by
  refine Always.bind (always_request.mpr fun reply d' answer =>
    answers_removeFile_any sound answer) ?_
  rintro reply d' ⟨_, gone⟩
  refine always_pure.mpr fun ok => ?_
  rcases atPath_orMissing_eq_ok ok with same | ⟨same, _⟩
  · exact gone (.inl same)
  · exact gone (.inr same)

omit [Stored K] [Stored V] in
theorem always_mayKeep_any (log : Log K V) (keep : Nat → Nat → Bool) :
    Always faults cwd (log.mayKeep keep) d fun r d' => d' = d ∧
      (r = .ok true → Slim log.files keep cwd d) := by
  unfold mayKeep
  split
  · exact always_pure.mpr ⟨rfl, nofun⟩
  refine Always.bind always_fileSize_any ?_
  rintro journal d' ⟨rfl, first⟩
  cases journal with
  | error e => exact always_pure.mpr ⟨rfl, nofun⟩
  | ok journal =>
    refine Always.bind always_fileSize_any ?_
    rintro snapshot d' ⟨rfl, second⟩
    cases snapshot with
    | error e => exact always_pure.mpr ⟨rfl, nofun⟩
    | ok snapshot =>
      refine always_pure.mpr ⟨rfl, fun kept => ?_⟩
      cases size : d'.size cwd log.files.journal with
      | ok n =>
        have same := first journal rfl
        rw [size] at same
        cases same
        exact .inr ⟨journal, snapshot, size, second snapshot rfl, Except.ok.inj kept⟩
      | error e =>
        have same := first journal rfl
        rw [size] at same
        cases e <;> cases same
        exact .inl (find_of_size size)

theorem always_bring_any (sound : d.Sound) (entries : Table K V) (keep : Nat → Nat → Bool)
    (appended : Nat) : Always faults cwd (log.bring entries keep appended) d fun r d' =>
      r.1.isOk → Slim log.files keep cwd d' := by
  refine Always.bind (always_mayKeep_any log keep) ?_
  rintro may d' ⟨rfl, slim⟩
  cases may with
  | error e => exact always_pure.mpr nofun
  | ok kept =>
    cases kept with
    | true =>
      refine Always.bind (always_syncJournal log d') ?_
      rintro synced d'' ⟨rfl, _⟩
      cases synced with
      | error e => exact always_pure.mpr nofun
      | ok u => exact always_pure.mpr fun _ => slim rfl
    | false =>
      refine Always.bind (always_walk entries) ?_
      rintro es d₁ ⟨rfl, _⟩
      refine Always.bind (always_sound sound (replaceFile log.files.snapshot _)) ?_
      intro replaced d₂ sound₂
      cases replaced with
      | error e => exact always_pure.mpr nofun
      | ok u =>
        refine Always.bind (always_removeIfExists_any sound₂) ?_
        intro removed d₃ gone
        cases removed with
        | error e => exact always_pure.mpr nofun
        | ok u => exact always_pure.mpr fun _ => .inl (gone rfl)

/-- A save that is done has looked at the journal last of all. -/
theorem always_slim (sound : d.Sound) (changed : log.dirty = true) (entries : Table K V)
    (keep : Nat → Nat → Bool) :
    Always faults cwd (log.save entries keep) d fun r d' =>
      r.1.isOk → Slim log.files keep cwd d' := by
  unfold save
  rw [changed]
  have brought : Always faults cwd ({ log with dirty := false }.saveChanged entries keep) d
      fun r d' => r.1.isOk → Slim log.files keep cwd d' := by
    rw [saveChanged_eq]
    have written : Always faults cwd { log with dirty := false }.writeJournal d
        fun wrote d' => wrote.2.files = log.files ∧ d'.Sound :=
      fun wrote d' run => ⟨(delivers_writeJournal { log with dirty := false }).of_runs run,
        sound_of_runs sound run⟩
    refine Always.bind written ?_
    rintro wrote d₁ ⟨same, sound₁⟩
    have rest : Always faults cwd ((settle wrote).2.bring entries keep (settle wrote).1) d₁
        fun r d' => r.1.isOk → Slim (settle wrote).2.files keep cwd d' :=
      always_bring_any sound₁ entries keep _
    rwa [files_settle, same] at rest
  refine Always.bind brought ?_
  rintro ⟨saved, after⟩ d' slim
  cases saved with
  | error e => exact always_pure.mpr nofun
  | ok n => exact always_pure.mpr slim

end Log

theorem DurableMap.shuns_save {K V : Type} [Stored K] [Stored V] {m : DurableMap K V}
    (beside : Log.Beside m.log.files cwd q) (keep : Nat → Nat → Bool) :
    Shuns faults cwd q (m.save keep) :=
  (Log.shuns_save beside m.entries keep).bind fun _ => shuns_pure _

theorem DurableMap.always_slim {K V : Type} [Stored K] [Stored V] {m : DurableMap K V}
    (sound : d.Sound) (changed : m.log.dirty = true) (keep : Nat → Nat → Bool) :
    Always faults cwd (m.save keep) d fun r d' =>
      r.1.isOk → Log.Slim m.log.files keep cwd d' :=
  Always.bind (Log.always_slim sound changed m.entries keep) fun _ _ slim => always_pure.mpr slim

theorem Index.always_slim {index : Index} (sound : d.Sound) (changed : index.log.dirty = true) :
    Always faults cwd index.save d fun r d' =>
      r.1.isOk → Log.Slim index.log.files keepJournal cwd d' :=
  Always.bind (Log.always_slim sound changed _ keepJournal) fun _ _ slim => always_pure.mpr slim

namespace Layout
variable {layout : Layout}

theorem goal_of_ends {base : Path} {name : String} (plain : Path.Plain name)
    (ends : path.Ends base.isAbsolute (Path.moves base.segments) name) :
    goal cwd path = goal cwd base ++ [name] := by
  obtain ⟨ss, segments, same⟩ := ends.segments_eq
  have front : follow (origin cwd path) ss = goal cwd base := by
    rw [← follow_moves, same, follow_moves, origin, ends.absolute_eq]
    rfl
  rw [goal, segments, follow_plain plain, front]

/-- The map's files are not in the way of the index's. -/
theorem beside_indexJournal (layout : Layout) (cwd : Place) :
    Log.Beside layout.mapFiles cwd (goal cwd layout.indexJournalFile) := by
  have plain (name : String) (mem : name ∈ names) := plain_of_mem mem
  have here (name : String) (mem : name ∈ names) :
      goal cwd (layout.root.join ⟨name⟩) = goal cwd layout.root ++ [name] :=
    goal_of_ends (plain name mem) (Path.ends_join layout.root (plain name mem))
  have known : goal cwd layout.indexJournalFile =
      goal cwd layout.root ++ ["filename_index_journal.bin"] := here _ (by decide)
  refine ⟨?_, ?_, ?_⟩
  · rw [known, show goal cwd layout.mapFiles.snapshot = _ from here "action_cache.bin" (by decide)]
    exact (parted_names _ (by decide)).outside
  · rw [known, show goal cwd layout.mapFiles.journal = _ from here "action_journal.bin" (by decide)]
    exact (parted_names _ (by decide)).outside
  · have ends := Path.ends_temporary (plain "action_cache.bin" (by decide)) (plain _ (by decide))
      (Path.ends_join layout.root (plain _ (by decide)))
    rw [known, show goal cwd (Log.temporary layout.mapFiles.snapshot) = _ from
      goal_of_ends (plain _ (by decide)) ends]
    exact (parted_names _ (by decide)).outside

end Layout

namespace Cache
variable {layout : Layout} {c : Cache}

theorem always_slim (filed : c.Filed layout) (sound : d.Sound) :
    Always faults cwd c.save d fun r d' => r.1.isOk →
      (c.map.log.dirty = true → Log.Slim layout.mapFiles
        (keepJournal c.options.compactionPercent) cwd d') ∧
      (c.index.log.dirty = true → d'.Missing cwd layout.indexJournalFile) := by
  have index : Always faults cwd c.index.save d fun r d₁ => d₁.Sound ∧ (r.1.isOk →
      c.index.log.dirty = true → d₁.find cwd layout.indexJournalFile = .error .notFound) := by
    refine fun r d₁ run => ⟨sound_of_runs sound run, fun ok changed => ?_⟩
    have slim := Index.always_slim sound changed r d₁ run ok
    rw [filed.index] at slim
    rcases slim with gone | ⟨_, _, _, _, kept⟩
    · exact gone
    · cases kept
  refine always_save_of index (fun _ _ _ _ => nofun) fun n index d₁ ⟨sound₁, gone⟩ => ?_
  have beside : Log.Beside c.map.log.files cwd (goal cwd layout.indexJournalFile) := by
    rw [filed.map]
    exact layout.beside_indexJournal cwd
  refine fun r d₂ run => ⟨fun _ _ => nofun, fun n' done _ _ => ?_⟩
  have ok : r.1.isOk := by
    rw [done]
    rfl
  have unmade := DurableMap.shuns_save beside _ d₁ sound₁ r d₂ run
  refine ⟨fun changed => ?_, fun changed => unmade.missing (gone rfl changed)⟩
  rw [← filed.map]
  exact DurableMap.always_slim sound₁ changed _ r d₂ run ok

end Cache

section Runs
variable {rules : Rules} {layout : Layout} {home : Home} {start : Disk} {s s' : Situation}
  {c : Cache}

/-- The disk is a file tree, and the cache writes the files of the layout. -/
structure Situation.Filed (s : Situation) (layout : Layout) : Prop where
  sound : s.disk.Sound
  cache : s.cache.Filed layout

theorem Situation.filed_of_open {options : Options} {messages : List Diagnostic} {stored : Stores}
    {past : List Memory} (sound : d.Sound)
    (opening : Runs .none cwd (Cache.open layout options) d (.ok c, messages) d') :
    (Situation.opened stored past c d').Filed layout :=
  ⟨sound_of_runs sound opening, ((Cache.delivers_open layout options).of_runs opening c rfl).filed⟩

theorem Changes.filed {changes : List Change} (changes_ : Changes faults cwd home changes s s')
    (filed : s.Filed layout) : s'.Filed layout := by
  induction changes_ with
  | done => exact filed
  | @next change changes s s' c d run rest ih =>
    exact ih ⟨sound_of_runs filed.sound run, (Cache.delivers_change filed.cache change).of_runs run⟩

theorem Run.filed (sound : start.Sound) (run : Run rules layout cwd home start s) :
    s.Filed layout := by
  induction run with
  | opened opening => exact Situation.filed_of_open sound opening
  | put key e run changes ih => exact changes.filed ⟨ih.sound, ih.cache⟩
  | remove key run changes ih => exact changes.filed ih
  | removeIf p slots run perm changes ih => exact changes.filed ih
  | clear run may ih => exact ⟨ih.sound, ih.cache.clear⟩
  | saved run save ih =>
    exact ⟨sound_of_runs ih.sound save, (Cache.delivers_save ih.cache).of_runs save⟩
  | unsaved run save ih =>
    exact ⟨sound_of_runs ih.sound save, (Cache.delivers_save ih.cache).of_runs save⟩
  | reopened run may opening ih => exact Situation.filed_of_open ih.sound opening
  | stopped run may stop ends opening ih =>
    exact Situation.filed_of_open (sound_of_stops ih.sound stop) opening

/-- In every run, whatever has failed or was stopped in it and whatever the disk held at its start: a
save that is done and had changes of the map to bring to disk leaves no journal of the map or one
below its share of the snapshot; one that had changes of the index leaves no journal of it. And a
journal below its share is kept, as long as a hundred times its size is a word of 64 bits. -/
theorem bounded_of_save (sound : start.Sound) (run : Run rules layout cwd home start s) {n : Nat}
    (save : Runs faults cwd s.cache.save s.disk (.ok n, c) d) :
    (s.cache.map.log.dirty = true → d.Missing cwd layout.journalFile ∨ ∃ journal snapshot,
      d.size cwd layout.journalFile = .ok journal ∧ d.size cwd layout.cacheFile = .ok snapshot ∧
        100 * journal < s.cache.options.compactionPercent * snapshot) ∧
    (s.cache.index.log.dirty = true → d.Missing cwd layout.indexJournalFile) ∧
    ∀ percent journal snapshot, 100 * journal < UInt64.size →
      100 * journal < percent * snapshot → Cache.keepJournal percent journal snapshot = true := by
  have filed := run.filed sound
  obtain ⟨map, index⟩ := Cache.always_slim filed.cache filed.sound (.ok n, c) d save rfl
  refine ⟨fun changed => ?_, index, fun _ _ _ => Cache.keepJournal_of_lt⟩
  rcases map changed with gone | ⟨journal, snapshot, size, size', kept⟩
  · refine .inl fun node found => ?_
    rw [show d.find cwd layout.journalFile = _ from gone] at found
    cases found
  · have below := Cache.lt_of_keepJournal kept
    refine .inr ⟨journal, snapshot, size, ?_, below⟩
    cases present : d.size cwd layout.cacheFile with
    | ok m =>
      rw [show d.size cwd layout.mapFiles.snapshot = _ from present] at size'
      cases size'
      rfl
    | error e =>
      rw [show d.size cwd layout.mapFiles.snapshot = _ from present] at size'
      cases e <;> cases size'
      rw [Nat.mul_zero] at below
      exact absurd below (Nat.not_lt_zero _)

/-- Whatever may happen. -/
def Rules.wild : Rules where
  changes := .any
  saves := .any
  clears := True
  stops := True
  ends _ := True

/-- One entry saved, another one stored and removed again, without a pause between the writes of the
journal. The save behind that keeps the journal of the map and removes the one of the index. -/
theorem bounded_of_save_kept : ∃ s n c d journal snapshot,
    Run .wild .sample [] (Layout.home ["cache"]) .sample s ∧
      Runs .any [] s.cache.save s.disk (.ok n, c) d ∧
      d.size [] Layout.sample.journalFile = .ok journal ∧
      d.size [] Layout.sample.cacheFile = .ok snapshot ∧
      100 * journal < 150 * snapshot ∧ d.Missing [] Layout.sample.indexJournalFile := by
  obtain ⟨s, ⟨res, c⟩, d, run, save, found⟩ :=
    Situation.exists_runs_sample .wild .any ⟨0, 150⟩
      [.put "a" (.sample "a" none), .save, .put "b" (.sample "b" (some ["p"])), .remove "b"]
      (fun s => s.cache.save)
      (fun s r d => (s.cache.map.log.dirty, s.cache.index.log.dirty, r.1.isOk,
        s.cache.options.compactionPercent, (d.size [] Layout.sample.journalFile).isOk))
      (true, true, true, 150, true) (by simp [Rules.Permits]) (by decide +kernel)
  simp only [Prod.mk.injEq] at found
  obtain ⟨mapChanged, indexChanged, ok, percent, kept⟩ := found
  cases res with
  | error e => cases ok
  | ok n =>
    obtain ⟨map, index, _⟩ := bounded_of_save Disk.sound_sample run save
    rcases map mapChanged with gone | ⟨journal, snapshot, size, size', below⟩
    · exfalso
      cases found : d.find [] Layout.sample.journalFile with
      | ok node => exact gone node found
      | error e =>
        rw [Disk.size, found] at kept
        cases kept
    · exact ⟨s, n, c, d, journal, snapshot, run, save, size, size', percent ▸ below,
        index indexChanged⟩

end Runs
end BuildCache
