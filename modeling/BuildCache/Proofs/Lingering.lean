import BuildCache.Proofs.Sessions

/-!
Records that linger. What was once written to a journal stays there until a snapshot takes its
place, whatever memory has given up since, and a save that keeps the journal leaves it as it is. So
a record that is too long for a reader had better be removed before the journal is written.
-/
namespace BuildCache

open Disk Program

variable {faults : Faults} {cwd : Place} {d d' : Disk}

namespace Log
variable {K V : Type} [Stored K] [Stored V] {shelf : Shelf} {log after : Log K V} {key : K}
  {value : Option V} {t : Table K V} {keep : Nat → Nat → Bool}

section Carrying
variable [Metered K] [Metered V] {P : Record K V → Prop} {files : LogFiles} {format : StoreFormat}
  {pairs : Table K V} {records_ : List (Record K V)} {rec : Record K V}

/-- The journal has the record, among others of any length. -/
def Carries (rec : Record K V) (shelf : Shelf) (files : LogFiles) (format : StoreFormat)
    (d : Disk) : Prop :=
  ∃ pairs records, Yields Metered.Sized shelf files format d pairs records ∧ rec ∈ records

theorem Carries.sameAt (carries : Carries rec shelf files format d)
    (same : SameAt shelf.places d d') : Carries rec shelf files format d' := by
  obtain ⟨pairs, records, yields, mem⟩ := carries
  exact ⟨pairs, records, yields.sameAt same, mem⟩

/-- Files that are read carry nothing that is too long. -/
theorem Carries.fits [Framed K] [Framed V] [Tangible K] {told : List (Record K V)}
    (carries : Carries rec shelf files format d) (holds : shelf.Holds files cwd d)
    (read : verdict files format cwd d = .ok told) : Fits rec := by
  obtain ⟨pairs, records, yields, mem⟩ := carries
  obtain ⟨_, records', _, second, _⟩ := (verdict_eq_ok holds).mp read
  have same := yields.journal.eq_of_readJournal
    (fun r mem => (yields.eachRecord r mem).elim Fits.sized id) second
  exact StoreFile.fits_of_readJournal second rec (same ▸ mem)

/-- A mutation only adds to the journal, and where nothing is pending behind it, all that was pending
has got there. -/
theorem Recorded.exists_yields [DecidableEq K]
    (recorded : Recorded faults log shelf d key value after d') (whole : ¬faults.tears)
    (each : ∀ r ∈ records (log.noted key value).pending, P r)
    (yields : Yields P shelf files log.format d pairs records_) :
    ∃ added, Yields P shelf files log.format d' pairs (records_ ++ added) ∧
      (¬faults.possible → after.pending = [] →
        ∀ r ∈ records (log.noted key value).pending, r ∈ added) := by
  have some_ := pending_noted_ne log key value
  cases recorded with
  | noted =>
    refine ⟨[], ?_, fun _ nothing => absurd nothing some_⟩
    rwa [List.append_nil]
  | journaled cases_ =>
    cases cases_ with
    | idle nothing => exact absurd nothing some_
    | appended batch h d' _ perm snapshot content =>
      refine ⟨records batch, yields.append (each_records perm each) snapshot content, ?_⟩
      exact fun _ _ r mem => (perm.map _).mem_iff.mpr mem
    | failed e after d' may log_ snapshot content =>
      refine ⟨[], ?_, fun calm => absurd may calm⟩
      rw [List.append_nil]
      exact yields.opened snapshot (content whole)

omit [Metered K] [Metered V] in
/-- What is still pending has not been journaled. -/
theorem Recorded.eq_noted [DecidableEq K]
    (recorded : Recorded faults log shelf d key value after d') (calm : ¬faults.possible)
    (waits : after.pending ≠ []) : after = log.noted key value := by
  cases recorded with
  | noted => rfl
  | journaled cases_ =>
    cases cases_ with
    | idle nothing => exact absurd nothing (pending_noted_ne log key value)
    | appended => exact absurd rfl waits
    | failed e after d' may => exact absurd may calm

theorem Recorded.carries [DecidableEq K]
    (recorded : Recorded faults log shelf d key value after d') (whole : ¬faults.tears)
    (each : ∀ r ∈ records (log.noted key value).pending, Metered.Sized r)
    (carries : Carries rec shelf files log.format d) :
    Carries rec shelf files log.format d' := by
  obtain ⟨pairs, records, yields, mem⟩ := carries
  obtain ⟨added, yields', _⟩ := recorded.exists_yields whole each yields
  exact ⟨pairs, _, yields', List.mem_append_left _ mem⟩

end Carrying

section Growth

/-- How long the journal is with all that is pending behind it. -/
def bulk (log : Log K V) (shelf : Shelf) (d : Disk) : Nat :=
  (d.content shelf.journal).length + (StoreFile.journalBatch (records log.pending)).length

theorem length_batch_insert_le [DecidableEq K] (pending : Table K (Option V)) (key : K)
    (value : Option V) : (StoreFile.journalBatch (records (pending.insert key value))).length ≤
      (StoreFile.journalBatch (records pending)).length + (Stored.put (Record.of key value)).length := by
  induction pending with
  | nil => simp [Table.insert, records, StoreFile.journalBatch]
  | cons e pending ih =>
    simp only [records, StoreFile.journalBatch] at ih
    rw [Table.insert]
    split
    · simp only [records, StoreFile.journalBatch, List.map_cons, List.flatMap_cons,
        List.length_append]
      omega
    · simp only [records, StoreFile.journalBatch, List.map_cons, List.flatMap_cons,
        List.length_append]
      omega

theorem length_opened_le (format : StoreFormat) (raw : Bytes) :
    (StoreFile.opened format raw).length ≤ raw.length + (StoreFile.journalFront format).length := by
  unfold StoreFile.opened
  split
  · omega
  · omega

/-- A mutation adds its record and at most a header, whether it is journaled or not. -/
theorem Recorded.bulk_le [DecidableEq K] (recorded : Recorded faults log shelf d key value after d')
    (whole : ¬faults.tears) : after.bulk shelf d' ≤ log.bulk shelf d +
      ((StoreFile.journalFront log.format).length + (Stored.put (Record.of key value)).length) := by
  have noted : (log.noted key value).bulk shelf d ≤
      log.bulk shelf d + (Stored.put (Record.of key value)).length := by
    have more := length_batch_insert_le log.pending key value
    unfold bulk Log.noted
    dsimp only
    omega
  cases recorded with
  | noted => omega
  | journaled cases_ =>
    cases cases_ with
    | idle nothing => exact absurd nothing (pending_noted_ne log key value)
    | appended batch h d' _ perm snapshot content =>
      have lengths : (StoreFile.journalBatch (records batch)).length =
          (StoreFile.journalBatch (records (log.noted key value).pending)).length :=
        ((perm.map _).flatMap_right Stored.put).length_eq
      have opened := length_opened_le log.format (d.content shelf.journal)
      have written := congrArg List.length content
      rw [List.length_append] at written
      unfold bulk at noted ⊢
      change (d'.content shelf.journal).length + 0 ≤ _
      change _ = (StoreFile.opened log.format _).length +
        (StoreFile.journalBatch (records batch)).length at written
      omega
    | failed e after d' may log_ snapshot content =>
      have opened := length_opened_le log.format (d.content shelf.journal)
      have grown : (d'.content shelf.journal).length ≤
          (d.content shelf.journal).length + (StoreFile.journalFront log.format).length := by
        rcases content whole with same | same
        · rw [same]
          omega
        · rw [same]
          exact opened
      have left : (StoreFile.journalBatch (records after.pending)).length ≤
          (StoreFile.journalBatch (records (log.noted key value).pending)).length := by
        rcases log_ with rfl | rfl
        · exact Nat.le_refl _
        · exact Nat.zero_le _
      unfold bulk at noted ⊢
      rw [pending_settle]
      dsimp only
      omega

end Growth

/-- Where nothing is pending and the journal is small enough, a save changes nothing in the files. -/
theorem always_save_kept (stands : log.Stands shelf cwd d) (nothing : log.pending = [])
    (good : log.needsSnapshot = false)
    (small : keep (d.content shelf.journal).length (d.content shelf.snapshot).length = true) :
    Always faults cwd (log.save t keep) d fun _ d' => d' = d := by
  unfold save
  cases log.dirty with
  | false => exact always_pure.mpr rfl
  | true =>
    rw [if_neg (by decide), saveChanged_eq]
    have kept : Always faults cwd ({ log with dirty := false }.bring t keep 0) d
        fun _ d' => d' = d := by
      refine Always.bind (always_mayKeep ⟨stands.holds, stands.attached⟩ keep) ?_
      rintro r d' ⟨rfl, rfl | ⟨_, e, rfl⟩⟩
      · rw [good, small]
        refine Always.bind (always_syncJournal _ d') ?_
        rintro r d'' ⟨rfl, rfl | ⟨_, e, rfl⟩⟩
        · exact always_pure.mpr rfl
        · exact always_pure.mpr rfl
      · exact always_pure.mpr rfl
    have idle : { log with dirty := false }.writeJournal = _ := writeJournal_of_nil nothing
    rw [idle, pure_bind]
    refine Always.bind kept ?_
    rintro ⟨r, log'⟩ d' rfl
    cases r <;> exact always_pure.mpr rfl

end Log

theorem Fits.length_le {slot : Slot} {bytes : Bytes} (fits : Fits (Record.put slot bytes)) :
    8 + bytes.length ≤ recordLimit := by
  change 4 + (Metered.charge slot + (8 + bytes.length)) ≤ recordLimit at fits
  omega

theorem Change.of_inj {slot slot' : Slot} {bytes? bytes?' : Option Bytes}
    (same : Change.of slot bytes? = .of slot' bytes?') : slot = slot' ∧ bytes? = bytes?' := by
  cases bytes? <;> cases bytes?' <;> cases same <;> exact ⟨rfl, rfl⟩

/-- How much longer a change makes a journal, at most. -/
def Change.bulk : Change → Nat
  | .learn _ => 0
  | .put _ bytes => 64 + bytes.length
  | .remove _ => 64

def Change.bulkAll : List Change → Nat
  | [] => 0
  | change :: changes => change.bulk + bulkAll changes

theorem Change.bulk_of (slot : Slot) (bytes? : Option Bytes) :
    (StoreFile.journalFront Cache.format).length + (Stored.put (Record.of slot bytes?)).length ≤
      (Change.of slot bytes?).bulk := by
  have front : (StoreFile.journalFront Cache.format).length = 11 := by decide
  have key : (Stored.put slot).length ≤ 18 := by
    cases slot with
    | validation => exact Nat.le_trans (Integer.length_put_le 0) (by decide)
    | entry id =>
      have variant := Integer.length_put_le 1
      have word := Integer.length_put_le id.toNat
      change (Integer.put 1 ++ Integer.put id.toNat).length ≤ 18
      rw [List.length_append]
      omega
  cases bytes? with
  | none =>
    have variant := Integer.length_put_le 1
    change _ + (Integer.put 1 ++ Stored.put slot).length ≤ 64
    rw [List.length_append]
    omega
  | some bytes =>
    have variant := Integer.length_put_le 0
    have size := Integer.length_put_le bytes.length
    change _ + (Integer.put 0 ++ Stored.put slot ++ (Integer.put bytes.length ++ bytes)).length ≤
      64 + bytes.length
    rw [List.length_append, List.length_append, List.length_append]
    omega

namespace Cache
variable {home : Home} {layout : Layout} {r : Place} {c c' : Cache} {change : Change} {slot : Slot}
  {bytes? : Option Bytes} {stored : Stores} {rec : Record Slot Bytes}

/-- What a change of a slot is to the map's log. -/
theorem Changed.recorded (changed : c.Changed faults home d (.of slot bytes?) c' d') :
    (bytes? = none ∧ c' = c ∧ d' = d) ∨ ∃ d₁, SameAt home.map.places d d₁ ∧
      Log.Recorded faults c.map.log home.map d₁ slot bytes? c'.map.log d' := by
  generalize same : Change.of slot bytes? = change at changed
  cases changed with
  | learned => cases bytes? <;> cases same
  | absent slot' absent =>
    obtain ⟨rfl, rfl⟩ : slot = slot' ∧ bytes? = none := Change.of_inj same
    exact .inl ⟨rfl, rfl, rfl⟩
  | quiet slot' bytes?' gate =>
    obtain ⟨rfl, rfl⟩ := Change.of_inj same
    exact .inr ⟨d, .refl _ d, .noted⟩
  | unflushed slot' bytes?' gate n log d' may wrote kept =>
    obtain ⟨rfl, rfl⟩ := Change.of_inj same
    exact .inr ⟨d', kept, .noted⟩
  | journaled slot' bytes?' gate n log res d₁ d' flushed kept wrote =>
    obtain ⟨rfl, rfl⟩ := Change.of_inj same
    exact .inr ⟨d₁, kept, .journaled wrote⟩

theorem Changed.bulk_le (changed : c.Changed faults home d change c' d') (whole : ¬faults.tears)
    (format_ : c.map.log.format = format) :
    c'.map.log.bulk home.map d' ≤ c.map.log.bulk home.map d + change.bulk := by
  have journal : home.map.journal ∈ home.map.places := by simp [Shelf.places]
  have mutated {slot : Slot} {bytes? : Option Bytes}
      (changed : c.Changed faults home d (.of slot bytes?) c' d') :
      c'.map.log.bulk home.map d' ≤ c.map.log.bulk home.map d + (Change.of slot bytes?).bulk := by
    rcases changed.recorded with ⟨_, rfl, rfl⟩ | ⟨d₁, same, recorded⟩
    · omega
    · have grown := recorded.bulk_le whole
      have small := Change.bulk_of slot bytes?
      have before : c.map.log.bulk home.map d₁ = c.map.log.bulk home.map d := by
        unfold Log.bulk
        rw [same _ journal]
      rw [format_] at grown
      omega
  cases changed with
  | learned names log gate d' learned same =>
    unfold Log.bulk
    rw [same _ journal]
    exact Nat.le_refl _
  | absent slot absent => exact Nat.le_add_right _ _
  | quiet slot bytes? gate => exact mutated (.quiet slot bytes? gate)
  | unflushed slot bytes? gate n log d' may wrote same =>
    exact mutated (.unflushed slot bytes? gate n log d' may wrote same)
  | journaled slot bytes? gate n log res d₁ d' flushed same wrote kept =>
    exact mutated (.journaled slot bytes? gate n log res d₁ d' flushed same wrote kept)

/-- Changes make the journal longer by what they bring, in whichever batches it is written. -/
theorem always_bulk_changeAll {changes : List Change} (stands : c.Stands home cwd d)
    (whole : ¬faults.tears) (before : Option Change)
    (allowed : c.memory.AllowsAll stored before changes) :
    Always faults cwd (c.changeAll changes) d fun c' d' => c'.map.log.bulk home.map d' ≤
      c.map.log.bulk home.map d + Change.bulkAll changes := by
  induction changes generalizing c d before with
  | nil => exact always_pure.mpr (Nat.le_refl _)
  | cons change changes ih =>
    have grows : ∀ names, change = .learn names →
        c.index.names.Prefix names ∧ names.Sound := by
      rintro names rfl
      exact allowed.1
    refine Always.bind (always_change stands change grows) ?_
    rintro c₁ d₁ ⟨_, stands₁, changed⟩
    have rest : c₁.memory.AllowsAll stored (some change) changes := by
      rw [changed.memory]
      exact allowed.2.2
    refine (ih stands₁ _ rest).mono fun c' d' later => ?_
    have first := changed.bulk_le whole stands.mapFormat
    rw [Change.bulkAll]
    omega

/-- What one entry that is stored makes of the journal. -/
theorem bulk_of_put {key : String} {e : Entry} {names : Names} {id : PathId} {bytes : Bytes}
    (stands : c.Stands home cwd d) (whole : ¬faults.tears) (sound : c.memory.names.Sound)
    (storing : c.memory.Storing key e names id bytes)
    (run : Runs faults cwd (c.put key e) d c' d') :
    c'.map.log.bulk home.map d' ≤ c.map.log.bulk home.map d + (132 + bytes.length) := by
  have allowed : c.memory.AllowsAll [(key, e)] none _ :=
    Memory.allowsAll_putting sound List.mem_cons_self
  have grown := always_bulk_changeAll stands whole none allowed _ _ run
  have record : (validationRecord names.size).length = 4 := Bytes.length_ofNatBE 4 _
  rw [storing.changes] at grown
  simp only [Change.bulkAll, Change.bulk] at grown
  omega

/-- Where the journal is complete and small enough, a save changes nothing in the map's files. -/
theorem always_save_kept (stands : c.Stands home cwd d) (nothing : c.map.log.pending = [])
    (good : c.map.log.needsSnapshot = false)
    (small : keepJournal c.options.compactionPercent (d.content home.map.journal).length
      (d.content home.map.snapshot).length = true) :
    Always faults cwd c.save d fun _ d' => SameAt home.map.places d d' := by
  have apart : ∀ p ∈ home.map.places, p ∉ home.index.places :=
    fun p mem mem' => stands.apart p mem' mem
  have journal : home.map.journal ∈ home.map.places := by simp [Shelf.places]
  have snapshot : home.map.snapshot ∈ home.map.places := by simp [Shelf.places]
  have index : Always faults cwd c.index.save d fun _ d₁ => Touches home.index.places d d₁ :=
    (Index.always_save stands.index).mono fun _ _ saved => saved.1
  refine always_save_of index (fun _ _ _ first => first.sameAt apart) fun _ _ d₁ first => ?_
  have same : SameAt home.map.places d d₁ := first.sameAt apart
  have map_ : c.map.log.Stands home.map cwd d₁ := stands.map.of_touches first (apart _ journal)
  rw [← same _ journal, ← same _ snapshot] at small
  refine Always.bind (Log.always_save_kept map_ nothing good small) ?_
  rintro ⟨r, log⟩ d₂ rfl
  exact always_pure.mpr ⟨fun _ _ => same, fun _ _ _ => same⟩

variable {key : Slot} {bytes : Bytes} {m : Memory}

/-- A put whose entry is still pending behind it. -/
theorem pending_of_put {key : String} {e : Entry} {names : Names} {id : PathId}
    (stands : c.Stands home cwd d) (storing : c.memory.Storing key e names id bytes)
    (run : Runs .none cwd (c.put key e) d c' d') (waits : c'.map.log.pending ≠ []) :
    c'.map.log.pending.get? (.entry id) = some (some bytes) := by
  rw [put, storing.changes] at run
  obtain ⟨c₁, d₁, first, rest⟩ := runs_bind.mp run
  obtain ⟨c₂, d₂, second, rest⟩ := runs_bind.mp rest
  obtain ⟨c₃, d₃, third, last⟩ := runs_bind.mp rest
  cases last
  have grows : ∀ names', Change.learn names = .learn names' →
      c.index.names.Prefix names' ∧ names'.Sound := by
    rintro _ ⟨⟩
    exact ⟨storing.more, storing.sound⟩
  obtain ⟨_, stands₁, _⟩ := always_change stands _ grows _ _ first
  obtain ⟨_, stands₂, _⟩ := always_change stands₁ (.put _ _) nofun _ _ second
  have changed : c₂.Changed .none home d₂ (.of (.entry id) (some bytes)) c' d' :=
    (always_change stands₂ (.put _ _) nofun _ _ third).2.2
  rcases changed.recorded with ⟨removed, _⟩ | ⟨_, _, recorded⟩
  · cases removed
  · rw [recorded.eq_noted Faults.not_possible_none waits, Log.noted, Table.get?_insert, if_pos rfl]

/-- A removal that brings the journal up to date brings all there that was pending before. -/
theorem Upheld.carries_of_written (upheld : c.Upheld .words layout cwd r d)
    (good : c.map.log.needsSnapshot = false)
    (waits : c.map.log.pending.get? key = some (some bytes)) (other : slot ≠ key)
    (run : Runs .none cwd (c.change (.remove slot)) d c' d') (written : c'.map.log.pending = []) :
    Log.Carries (.put key bytes) (Layout.home r).map layout.mapFiles format d' := by
  have changed : c.Changed .none (Layout.home r) d (.of slot none) c' d' :=
    (always_change upheld.stands (.remove slot) nofun c' d' run).2.2
  rcases changed.recorded with ⟨_, rfl, rfl⟩ | ⟨d₁, same, recorded⟩
  · rw [written] at waits
    cases waits
  · obtain ⟨pairs, records, yields, _⟩ := upheld.map.replays good
    rw [upheld.filed.map] at yields
    have new : Measure.words.slots (.of slot none) := trivial
    have each := Log.each_pending_noted upheld.map.pendingEach new
    obtain ⟨added, yields', all⟩ := recorded.exists_yields id each (yields.sameAt same)
    rw [upheld.stands.mapFormat] at yields'
    have still : (c.map.log.noted slot none).pending.get? key = some (some bytes) := by
      rw [Log.noted, Table.get?_insert, if_neg other]
      exact waits
    have mem := all Faults.not_possible_none written _
      (List.mem_map_of_mem (Table.mem_of_get? still))
    exact ⟨pairs, _, yields', List.mem_append_right _ mem⟩

theorem Upheld.carries (upheld : c.Upheld .words layout cwd r d) (whole : ¬faults.tears)
    (carries : Log.Carries rec (Layout.home r).map layout.mapFiles format d)
    (run : Runs faults cwd (c.change (.remove slot)) d c' d') :
    Log.Carries rec (Layout.home r).map layout.mapFiles format d' := by
  have changed : c.Changed faults (Layout.home r) d (.of slot none) c' d' :=
    (always_change upheld.stands (.remove slot) nofun c' d' run).2.2
  rcases changed.recorded with ⟨_, rfl, rfl⟩ | ⟨d₁, same, recorded⟩
  · exact carries
  · have new : Measure.words.slots (.of slot none) := trivial
    have each := Log.each_pending_noted upheld.map.pendingEach new
    have carries₁ := carries.sameAt same
    rw [← upheld.stands.mapFormat] at carries₁ ⊢
    exact recorded.carries whole each carries₁

theorem not_recalls_of_carries (lives : layout.Lives cwd r d) (long : ¬Fits rec)
    (carries : Log.Carries rec (Layout.home r).map layout.mapFiles format d) :
    ¬layout.Recalls cwd d m := by
  intro recalls
  obtain ⟨records, verdict, _⟩ := Layout.verdict_of_recalls lives.sound recalls
  obtain ⟨told, _, read, _⟩ := Layout.verdict_eq_ok.mp verdict
  exact long (carries.fits lives.map read)

/-- Where the policy keeps every journal, only one that is absurdly long is not kept. -/
theorem keepJournal_largestWord {journal snapshot : Nat} (short : journal * 100 < largestWord)
    (some_ : 0 < snapshot) : keepJournal largestWord journal snapshot = true := by
  have large : largestWord ≤ snapshot * largestWord := Nat.le_mul_of_pos_left _ some_
  rw [keepJournal, decide_eq_true_iff, Nat.min_eq_right large, Nat.min_eq_left (Nat.le_of_lt short)]
  exact short

end Cache

/-- A save that keeps a journal with a record that is too long loses the cache. -/
theorem Session.loses_of_carries {layout : Layout} {r : Place} {made : List Change} {c c' : Cache}
    {rec : Record Slot Bytes} {n : Nat} (session : Session faults layout cwd r made c d)
    (whole : ¬faults.tears) (clear : layout.Clear cwd)
    (words : ∀ change ∈ made, change.Within .words) (long : ¬Fits rec)
    (carries : Log.Carries rec (Layout.home r).map layout.mapFiles Cache.format d)
    (nothing : c.map.log.pending = []) (good : c.map.log.needsSnapshot = false)
    (small : Cache.keepJournal c.options.compactionPercent
      (d.content (Layout.home r).map.journal).length
      (d.content (Layout.home r).map.snapshot).length = true)
    (save : Runs faults cwd c.save d (.ok n, c') d') : layout.Loses cwd d' := by
  have upheld := session.upheld whole words
  have kept := Cache.always_save_kept upheld.stands nothing good small _ _ save
  have after := (upheld.saved save).2.1
  rcases session.returns whole clear words n c' d' save with recalls | ⟨_, loses⟩
  · exact absurd recalls (Cache.not_recalls_of_carries after.lives long (carries.sameAt kept))
  · exact loses

/-- A long record whose removal comes too late. It was pending when the removal of another one brought
the journal up to date, and now it is not there any more, but the save keeps the journal. -/
theorem Session.loses_of_late {layout : Layout} {r : Place} {made : List Change}
    {c c₁ c₂ c' : Cache} {d₁ d₂ : Disk} {slot key : Slot} {bytes : Bytes} {n : Nat}
    (session : Session .none layout cwd r made c d) (clear : layout.Clear cwd)
    (words : ∀ change ∈ made, change.Within .words) (long : ¬Fits (Record.put key bytes))
    (waits : c.map.log.pending.get? key = some (some bytes))
    (good : c.map.log.needsSnapshot = false) (other : slot ≠ key) (entry : slot ≠ .validation)
    (first : Runs .none cwd (c.change (.remove slot)) d c₁ d₁)
    (written : c₁.map.log.pending = [])
    (second : Runs .none cwd (c₁.change (.remove key)) d₁ c₂ d₂)
    (session₂ : Session .none layout cwd r made c₂ d₂) (written₂ : c₂.map.log.pending = [])
    (good₂ : c₂.map.log.needsSnapshot = false)
    (small : Cache.keepJournal c₂.options.compactionPercent
      (d₂.content (Layout.home r).map.journal).length
      (d₂.content (Layout.home r).map.snapshot).length = true)
    (save : Runs .none cwd c₂.save d₂ (.ok n, c') d') : layout.Loses cwd d' := by
  have upheld := session.upheld id words
  have carries₁ := upheld.carries_of_written good waits other first written
  have allowed : c.memory.Allows [] (.remove slot) := entry
  have upheld₁ := upheld.changed id allowed trivial first
  have carries₂ := upheld₁.carries id carries₁ second
  exact session₂.loses_of_carries id clear words long carries₂ written₂ good₂ small save

end BuildCache
