import BuildCache.Proofs.Checking
import BuildCache.Proofs.Durability
import BuildCache.Proofs.Identities
import BuildCache.Proofs.Outgrowing

/-!
One session of a cache, over whatever its directory held when it was opened: entries of another
program, entries that do not decode, entries under identities that the index does not know. What the
logs have to do with their files does not depend on any of that, so that a save that is done is found
again, or the cache is lost, and then something that was stored in the session is too long to be read.
-/
namespace BuildCache

open Disk Program

variable {faults : Faults} {cwd r : Place} {d d' : Disk} {ns ms : Names}

namespace Index
variable {F : Record PathId String → Prop} {shelf : Shelf} {files : LogFiles}
  {log after : Log PathId String}

/-- The files alone spell all names. -/
def Complete (F : Record PathId String → Prop) (ns : Names) (log : Log PathId String)
    (shelf : Shelf) (d : Disk) : Prop :=
  ∃ pairs records, Log.Yields F shelf log.files log.format d pairs records ∧
    Names.Spells (Record.puts pairs ++ records) ns

/-- What is pending is true of the names, and a log that is not dirty has all of them in its files,
whoever wrote those. -/
structure Vouches (F : Record PathId String → Prop) (ns : Names) (log : Log PathId String)
    (shelf : Shelf) (d : Disk) : Prop where
  pending : ∀ r ∈ Log.records log.pending, ns.Tells r ∧ F r
  clean : log.dirty = false → Complete F ns log shelf d

theorem Complete.sameAt (complete : Complete F ns log shelf d) (same : SameAt shelf.places d d') :
    Complete F ns log shelf d' := by
  obtain ⟨pairs, records, yields, spells⟩ := complete
  exact ⟨pairs, records, yields.sameAt same, spells⟩

theorem Vouches.sameAt (vouches : Vouches F ns log shelf d) (same : SameAt shelf.places d d') :
    Vouches F ns log shelf d' :=
  ⟨vouches.pending, fun clean => (vouches.clean clean).sameAt same⟩

theorem vouches_clear (log : Log PathId String) (shelf : Shelf) (d : Disk) :
    Vouches F .empty log.clear shelf d := ⟨nofun, nofun⟩

theorem vouches_of_verdict (holds : shelf.Holds files cwd d)
    (read : verdict files cwd d = .ok ns) : Vouches F ns { files, format } shelf d := by
  obtain ⟨told, records, spells, _⟩ := verdict_eq_ok.mp read
  obtain ⟨pairs, rs, rfl, yields⟩ := Log.exists_yields_of_verdict (P := F) holds records
  exact ⟨nofun, fun _ => ⟨pairs, rs, yields, spells⟩⟩

/-- New names, whatever becomes of the journal on the way. -/
theorem Vouches.learned (vouches : Vouches F ns log shelf d)
    (learned : Learned faults shelf ns log d ms after d')
    (new : ∀ id s, ms.name? id = some s → F (.put id s)) : Vouches F ms after shelf d' := by
  refine learned.keeps (Q := fun ns log d => Vouches F ns log shelf d) ?_ vouches
  intro ns s log d after d' sound more recorded vouches
  refine ⟨fun rec mem => ?_, fun clean => ?_⟩
  · exact each_noted vouches.pending sound (new _ _ (more.name? (name?_next sound))) rec
      (List.map_subset _ recorded.pending_sub mem)
  · rw [recorded.dirty] at clean
    cases clean

/-- A write without a torn append adds to the files what is true, or nothing. -/
theorem Vouches.wrote {res : Except StoreError Nat × Log PathId String}
    (vouches : Vouches F ns log shelf d) (whole : ¬faults.tears)
    (wrote : Log.Wrote faults log shelf d res d') : Vouches F ns res.2 shelf d' := by
  refine ⟨fun rec mem => vouches.pending rec (List.map_subset _ wrote.pending_sub mem), ?_⟩
  cases wrote with
  | idle nothing => exact vouches.clean
  | appended batch h d' some_ perm snapshot content =>
    intro clean
    obtain ⟨pairs, records, yields, spells⟩ := vouches.clean clean
    have each := Log.each_records perm vouches.pending
    refine ⟨pairs, _, yields.append (fun rec mem => (each rec mem).2) snapshot content, ?_⟩
    rw [← List.append_assoc]
    refine ⟨fun rec mem => ?_, fun i below => ?_⟩
    · rcases List.mem_append.mp mem with mem | mem
      · exact spells.tells rec mem
      · exact (each rec mem).1
    · obtain ⟨rec, mem, key⟩ := spells.dense i below
      exact ⟨rec, List.mem_append_left _ mem, key⟩
  | failed e after d' may log_ snapshot content =>
    intro clean
    have before : log.dirty = false := by
      rcases log_ with rfl | rfl <;> exact clean
    obtain ⟨pairs, records, yields, spells⟩ := vouches.clean before
    have yields' := yields.opened snapshot (content whole)
    rcases log_ with rfl | rfl <;> exact ⟨pairs, records, yields', spells⟩

/-- A save that is done has written a snapshot of all names, or there was nothing to do. -/
theorem Vouches.saved {res : Except StoreError Nat × Log PathId String}
    (vouches : Vouches F ns log shelf d) (sound : ns.Sound)
    (new : ∀ id s, ns.name? id = some s → Fits (id, s) ∨ F (.put id s))
    (saved : Log.Saved faults log ns.mappings keepJournal shelf d res d') :
    Vouches F ns res.2 shelf d' ∧ (res.1.isOk → Complete F ns res.2 shelf d') := by
  have pending : ∀ rec ∈ Log.records res.2.pending, ns.Tells rec ∧ F rec :=
    fun rec mem => vouches.pending rec (List.map_subset _ saved.same.1 mem)
  cases saved with
  | unchanged clean => exact ⟨vouches, fun _ => vouches.clean clean⟩
  | failed e wrote after d₁ d' changed first rest => exact ⟨⟨pending, nofun⟩, nofun⟩
  | done n wrote after d₁ d' changed first rest =>
    have complete : Complete F ns after shelf d' := by
      cases rest with
      -- An index never keeps its journal.
      | kept _ _ small => cases small
      | compacted res d' compacted =>
        cases compacted with
        | done n es d' perm snapshot journal =>
          have each : ∀ e ∈ es, Fits e ∨ F (.put e.1 e.2) := fun e mem =>
            new e.1 e.2 ((mem_mappings sound).mp (perm.mem_iff.mp mem))
          refine ⟨es, [], Log.yields_snapshot each snapshot journal, ?_⟩
          rw [List.append_nil]
          exact spells_puts sound perm
    exact ⟨⟨pending, fun _ => complete⟩, fun _ => complete⟩

end Index

/-- No bound but that of a machine word. -/
def Measure.words : Measure :=
  ⟨Metered.Sized, Metered.Sized, fun _ => True, fun _ => trivial⟩

theorem Change.Within.words {change : Change} (within : change.Within .sized) :
    change.Within .words := by
  cases change with
  | learn names => exact ⟨within.1, trivial⟩
  | put slot bytes => exact within
  | remove slot => trivial

theorem Change.Within.of {μ : Measure} {slot : Slot} {bytes? : Option Bytes}
    (within : (Change.of slot bytes?).Within μ) : μ.slots (.of slot bytes?) := by
  cases bytes? with
  | none => exact μ.removes slot
  | some bytes => exact within

namespace Cache
variable {μ : Measure} {layout : Layout} {c c' : Cache} {change : Change} {stored : Stores}

/-- What is true of a cache and its files at any time: the cache is at home, and its logs vouch for
what is in memory. -/
structure Upheld (μ : Measure) (layout : Layout) (cwd r : Place) (c : Cache) (d : Disk) : Prop where
  lives : layout.Lives cwd r d
  stands : c.Stands (Layout.home r) cwd d
  filed : c.Filed layout
  sound : c.index.names.Sound
  validated : c.memory.Validated
  names : ∀ id s, c.index.names.name? id = some s → Fits (id, s) ∨ μ.names (.put id s)
  index : Index.Vouches μ.names c.index.names c.index.log (Layout.home r).index d
  map : Log.Vouches μ.slots c.map.log (Layout.home r).map d c.map.entries

namespace Upheld

theorem cleared (upheld : c.Upheld μ layout cwd r d) : c.clear.Upheld μ layout cwd r d where
  lives := upheld.lives
  stands :=
    ⟨⟨upheld.stands.index.holds, upheld.stands.index.attached⟩,
      ⟨upheld.stands.map.holds, upheld.stands.map.attached⟩, upheld.stands.apart,
      upheld.stands.indexFormat, upheld.stands.mapFormat⟩
  filed := upheld.filed.clear
  sound := Names.sound_empty
  validated nonempty := absurd rfl nonempty
  names := nofun
  index := Index.vouches_clear ..
  map := Log.vouches_clear ..

/-- The map's log goes on to vouch for the map, its journal written or not. -/
theorem recorded {slot : Slot} {bytes? : Option Bytes} {log : Log Slot Bytes} {d₁ : Disk}
    (upheld : c.Upheld μ layout cwd r d) (within : (Change.of slot bytes?).Within μ)
    (same : SameAt (Layout.home r).map.places d d₁)
    (recorded : Log.Recorded faults c.map.log (Layout.home r).map d₁ slot bytes? log d') :
    Log.Vouches μ.slots log (Layout.home r).map d'
      (DurableMap.apply c.map.entries (.of slot bytes?)) := by
  have distinct := DurableMap.nodup_keys_apply upheld.map.distinct (.of slot bytes?)
  refine (upheld.map.sameAt same).recorded distinct within.of (fun k => ?_) recorded
  rw [DurableMap.get?_apply, Record.key_of, Record.value?_of]

theorem changed (upheld : c.Upheld μ layout cwd r d) (whole : ¬faults.tears)
    (allowed : c.memory.Allows stored change) (within : change.Within μ)
    (run : Runs faults cwd (c.change change) d c' d') : c'.Upheld μ layout cwd r d' := by
  have grows : ∀ names, change = .learn names →
      c.index.names.Prefix names ∧ names.Sound := by
    rintro names rfl
    exact allowed
  have filed := (delivers_change upheld.filed change).of_runs run
  obtain ⟨touches, stands, changed⟩ := always_change upheld.stands change grows c' d' run
  have lives := upheld.lives.touches touches
  have validated := upheld.validated.after allowed
  rw [← changed.memory] at validated
  cases changed with
  | learned names log gate d' learned same =>
    refine ⟨lives, stands, filed, allowed.2, validated, fun id s known => ?_, ?_, ?_⟩
    · exact .inr (within.1 id s known)
    · exact upheld.index.learned learned within.1
    · exact upheld.map.sameAt same
  | absent => exact upheld
  | quiet slot bytes? gate =>
    have map := upheld.recorded within (SameAt.refl _ d)
      (.noted : Log.Recorded faults c.map.log _ d slot bytes? _ d)
    exact ⟨lives, stands, filed, upheld.sound, validated, upheld.names, upheld.index, map⟩
  | unflushed slot bytes? gate n log d' may wrote same =>
    have map := upheld.recorded within same
      (.noted : Log.Recorded faults c.map.log _ d' slot bytes? _ d')
    exact ⟨lives, stands, filed, upheld.sound, validated, upheld.names,
      upheld.index.wrote whole wrote, map⟩
  | journaled slot bytes? gate n log res d₁ d' flushed same wrote kept =>
    have map := upheld.recorded within same (.journaled wrote)
    exact ⟨lives, stands, filed, upheld.sound, validated, upheld.names,
      (upheld.index.wrote whole flushed).sameAt kept, map⟩

theorem changedAll {changes : List Change} (upheld : c.Upheld μ layout cwd r d)
    (whole : ¬faults.tears) (before : Option Change)
    (allowed : c.memory.AllowsAll stored before changes)
    (within : ∀ change ∈ changes, change.Within μ)
    (run : Runs faults cwd (c.changeAll changes) d c' d') : c'.Upheld μ layout cwd r d' := by
  induction changes generalizing c d before with
  | nil =>
    cases run
    exact upheld
  | cons change changes ih =>
    obtain ⟨c₁, d₁, first, rest⟩ := runs_bind.mp run
    have memory := always_memory_change c change c₁ d₁ first
    refine ih (upheld.changed whole allowed.1 (within _ List.mem_cons_self) first)
      (some change) ?_
      (fun change mem => within change (List.mem_cons_of_mem _ mem)) rest
    rw [memory]
    exact allowed.2.2

theorem removed {key : String} (upheld : c.Upheld μ layout cwd r d) (whole : ¬faults.tears)
    (run : Runs faults cwd (c.remove key) d c' d') : c'.Upheld μ layout cwd r d' := by
  have allowed : c.memory.AllowsAll [] none _ := Memory.allowsAll_removing c.memory key
  refine upheld.changedAll whole none allowed ?_ run
  intro change mem
  unfold Memory.removing at mem
  split at mem
  · cases mem
  · rw [List.mem_singleton.mp mem]
    trivial

theorem removedIf {p : Cached → Bool} {n : Nat} (upheld : c.Upheld μ layout cwd r d)
    (whole : ¬faults.tears) (run : Runs faults cwd (c.removeIf p) d (n, c') d') :
    c'.Upheld μ layout cwd r d' := by
  obtain ⟨slots, d₁, walked, rest⟩ := runs_bind.mp run
  obtain ⟨rfl, perm⟩ := always_walk (c.memory.doomed p) slots d₁ walked
  obtain ⟨c₁, d₂, removed, last⟩ := runs_bind.mp rest
  cases last
  have entries : ∀ slot ∈ slots, slot ≠ .validation :=
    fun slot mem => Memory.entry_of_mem_doomed (perm.mem_iff.mp mem)
  have allowed : c.memory.AllowsAll [] none _ := Memory.allowsAll_removes none slots entries
  refine upheld.changedAll whole none allowed ?_ removed
  intro change mem
  obtain ⟨slot, _, rfl⟩ := List.mem_map.mp mem
  trivial

/-- Using the index beside the cache. -/
theorem flushed {res : Except StoreError Unit} {index : Index} (upheld : c.Upheld μ layout cwd r d)
    (whole : ¬faults.tears) (run : Runs faults cwd c.index.flush d (res, index) d') :
    Upheld μ layout cwd r { c with index } d' := by
  have filed : index.log.files = c.index.log.files := c.index.delivers_flush.of_runs run
  obtain ⟨touches, stands, wrote, log, rfl, cases_, _⟩ :=
    Index.always_flush upheld.stands.index _ _ run
  have stands := upheld.stands.index_touched c.gate c.index.names c.index.gate touches stands
    cases_.format
  refine ⟨upheld.lives.touches touches, stands, ⟨filed.trans upheld.filed.index, upheld.filed.map⟩,
    upheld.sound, upheld.validated, upheld.names, upheld.index.wrote whole cases_, ?_⟩
  exact upheld.map.sameAt (touches.sameAt upheld.stands.index_journal)

theorem saved {res : Except StoreError Nat} (upheld : c.Upheld μ layout cwd r d)
    (run : Runs faults cwd c.save d (res, c') d') :
    c'.memory = c.memory ∧ c'.Upheld μ layout cwd r d' ∧ (res.isOk →
      Index.Complete μ.names c'.index.names c'.index.log (Layout.home r).index d' ∧
        Log.Complete μ.slots c'.map.log (Layout.home r).map d' c'.map.entries) := by
  have filed := (delivers_save upheld.filed).of_runs run
  obtain ⟨touches, stands, saved⟩ := always_save upheld.stands _ _ run
  have lives := upheld.lives.touches touches
  refine ⟨saved.memory, ?_⟩
  have sound := upheld.sound
  cases saved with
  | early e log d' index same =>
    obtain ⟨vouches, _⟩ := upheld.index.saved sound upheld.names index
    exact ⟨⟨lives, stands, filed, sound, upheld.validated, upheld.names, vouches,
      upheld.map.sameAt same⟩, nofun⟩
  | late n log d₁ e log' d' index same map kept =>
    obtain ⟨vouches, _⟩ := upheld.index.saved sound upheld.names index
    obtain ⟨vouches', _⟩ := (upheld.map.sameAt same).saved map
    exact ⟨⟨lives, stands, filed, sound, upheld.validated, upheld.names, vouches.sameAt kept,
      vouches'⟩, nofun⟩
  | done n log d₁ n' log' d' saveMillis index same map kept =>
    obtain ⟨vouches, complete⟩ := upheld.index.saved sound upheld.names index
    obtain ⟨vouches', complete'⟩ := (upheld.map.sameAt same).saved map
    exact ⟨⟨lives, stands, filed, sound, upheld.validated, upheld.names, vouches.sameAt kept,
      vouches'⟩, fun _ => ⟨(complete rfl).sameAt kept, complete' rfl⟩⟩

end Upheld

end Cache

namespace Layout
variable {layout : Layout} {m : Memory}

/-- Files that are loaded tell the names and the records, and these belong together. -/
theorem verdict_eq_ok : layout.verdict cwd d = .ok m ↔ ∃ told,
    Index.verdict layout.indexFiles cwd d = .ok m.names ∧
      Log.verdict layout.mapFiles Cache.format cwd d = .ok told ∧
      m.records = DurableMap.replay told ∧ m.Validated := by
  obtain ⟨names, records⟩ := m
  unfold verdict
  cases Index.verdict layout.indexFiles cwd d with
  | error e => exact ⟨nofun, nofun⟩
  | ok ns =>
    cases Log.verdict (K := Slot) (V := Bytes) layout.mapFiles Cache.format cwd d with
    | error e => exact ⟨nofun, nofun⟩
    | ok told =>
      change Memory.judged ⟨ns, DurableMap.replay told⟩ = _ ↔ _
      by_cases validated : Memory.Validated ⟨ns, DurableMap.replay told⟩
      · rw [Memory.judged_of_validated validated]
        constructor
        · rintro ⟨⟩
          exact ⟨told, rfl, rfl, rfl, validated⟩
        · rintro ⟨_, ⟨⟩, ⟨⟩, rfl, _⟩
          rfl
      · obtain ⟨e, refused, _⟩ := Memory.judged_of_not_validated validated
        rw [refused]
        constructor
        · exact nofun
        · rintro ⟨_, ⟨⟩, ⟨⟩, rfl, validated'⟩
          exact absurd validated' validated

/-- Opening the files gives what is in memory, without a message, and changes nothing. -/
def Recalls (layout : Layout) (cwd : Place) (d : Disk) (m : Memory) : Prop :=
  ∀ options res d', Runs .none cwd (Cache.open layout options) d res d' →
    d' = d ∧ ∃ c, res = (.ok c, []) ∧ c.index.names = m.names ∧ c.map.entries.Perm m.records

theorem recalls_of_verdict {records : Table Slot Bytes} (clear : layout.Clear cwd)
    (there : layout.There cwd d) (verdict : layout.verdict cwd d = .ok ⟨m.names, records⟩)
    (perm : records.Perm m.records) : layout.Recalls cwd d m := by
  intro options res d' opening
  obtain ⟨same, c, rfl, found⟩ := Cache.always_loaded clear there verdict options res d' opening
  have entries : c.map.entries = records := congrArg Memory.records found
  exact ⟨same, c, rfl, congrArg Memory.names found, entries.symm ▸ perm⟩

theorem verdict_of_recalls (sound : d.Sound) (recalls : layout.Recalls cwd d m) :
    ∃ records, layout.verdict cwd d = .ok ⟨m.names, records⟩ ∧ records.Perm m.records := by
  obtain ⟨res, d', opening⟩ := exists_runs .none cwd (Cache.open layout {}) d
  obtain ⟨rfl, c, rfl, names, perm⟩ := recalls {} res d' opening
  obtain ⟨_, _, loaded⟩ := Cache.always_checked sound _ _ opening c rfl
  exact ⟨c.map.entries, names ▸ loaded, perm⟩

/-- Whoever opens the files finds the cache lost. -/
def Loses (layout : Layout) (cwd : Place) (d : Disk) : Prop :=
  ∀ options res d', Runs .none cwd (Cache.open layout options) d res d' →
    Cache.Lost layout cwd d res d'

end Layout

namespace Cache
variable {μ : Measure} {layout : Layout} {c c' : Cache} {options : Options} {before : Disk}
  {messages : List Diagnostic}

theorem upheld_of_open (sound : before.Sound) (lives : layout.Lives cwd r d)
    (opening : Runs .none cwd (Cache.open layout options) before (.ok c, messages) d) :
    c.Upheld μ layout cwd r d := by
  have begun := (delivers_open layout options).of_runs opening c rfl
  obtain ⟨_, _, loaded⟩ := always_checked sound _ _ opening c rfl
  obtain ⟨told, names, records, replayed, validated⟩ := Layout.verdict_eq_ok.mp loaded
  obtain ⟨_, _, _, known⟩ := Index.verdict_eq_ok.mp names
  refine ⟨lives, begun.stands lives, begun.filed, known, validated, fun id s known => ?_, ?_, ?_⟩
  · exact .inl (Index.fits_of_verdict lives.index names id s known)
  · rw [begun.index]
    exact Index.vouches_of_verdict lives.index names
  · have entries : c.map.entries = DurableMap.replay told := replayed
    rw [begun.map, entries]
    exact Log.vouches_of_verdict lives.map records

/-- Files that tell the names and the entries of a cache hold its memory. -/
theorem Upheld.verdict_of_told {told : List (Record PathId String)}
    {told' : List (Record Slot Bytes)} (upheld : c.Upheld μ layout cwd r d)
    (index : Log.verdict layout.indexFiles Index.format cwd d = .ok told)
    (spells : Names.Spells told c.index.names)
    (map : Log.verdict layout.mapFiles format cwd d = .ok told')
    (covers : Log.Covers told' [] c.map.entries) :
    ∃ records, layout.verdict cwd d = .ok ⟨c.index.names, records⟩ ∧
      records.Perm c.map.entries := by
  have validated := upheld.validated.of_same (Nat.le_refl _) covers.get?_replay
  have names := Index.verdict_eq_ok.mpr ⟨told, index, spells, upheld.sound⟩
  exact ⟨_, Layout.verdict_eq_ok.mpr ⟨told', names, map, rfl, validated⟩,
    DurableMap.perm_of_covers covers upheld.map.distinct⟩

/-- Within the limit, complete files hold what is in memory. -/
theorem Upheld.verdict_of_fits (upheld : c.Upheld .fits layout cwd r d)
    (index : Index.Complete Fits c.index.names c.index.log (Layout.home r).index d)
    (map : Log.Complete Fits c.map.log (Layout.home r).map d c.map.entries) :
    ∃ records, layout.verdict cwd d = .ok ⟨c.index.names, records⟩ ∧
      records.Perm c.map.entries := by
  obtain ⟨pairs, rs, yields, spells⟩ := index
  obtain ⟨pairs', rs', yields', covers⟩ := map
  rw [upheld.filed.index, upheld.stands.indexFormat] at yields
  rw [upheld.filed.map, upheld.stands.mapFormat] at yields'
  exact upheld.verdict_of_told (yields.verdict_eq upheld.lives.index) spells
    (yields'.verdict_eq upheld.lives.map) covers

/-- Whatever the length of what is in memory, complete files hold it, or they are refused. -/
theorem Upheld.verdict_of_words (upheld : c.Upheld .words layout cwd r d)
    (index : Index.Complete Metered.Sized c.index.names c.index.log (Layout.home r).index d)
    (map : Log.Complete Metered.Sized c.map.log (Layout.home r).map d c.map.entries) :
    (∃ records, layout.verdict cwd d = .ok ⟨c.index.names, records⟩ ∧
      records.Perm c.map.entries) ∨ ∃ e, layout.verdict cwd d = .error e ∧ ¬e.isIncompatible := by
  obtain ⟨pairs, rs, yields, spells⟩ := index
  obtain ⟨pairs', rs', yields', covers⟩ := map
  rw [upheld.filed.index, upheld.stands.indexFormat] at yields
  rw [upheld.filed.map, upheld.stands.mapFormat] at yields'
  rcases yields.verdict_or_refused upheld.lives.index with read | ⟨e, refused, other⟩
  · rcases yields'.verdict_or_refused upheld.lives.map with read' | ⟨e, refused, other⟩
    · exact .inl (upheld.verdict_of_told read spells read' covers)
    · have names := Index.verdict_eq_ok.mpr ⟨_, read, spells, upheld.sound⟩
      unfold Layout.verdict
      rw [names, refused]
      exact .inr ⟨_, rfl, other⟩
  · unfold Layout.verdict Index.verdict
    rw [refused]
    exact .inr ⟨_, rfl, other⟩

end Cache

/-- A cache was opened on some directory, and then used; its index may be used beside it. What was
put into memory on the way is listed, the latest first. -/
inductive Session (faults : Faults) (layout : Layout) (cwd r : Place) :
    List Change → Cache → Disk → Prop
  | opened {options : Options} {before d : Disk} {c : Cache} {messages : List Diagnostic}
      (sound : before.Sound) (lives : layout.Lives cwd r d)
      (opening : Runs .none cwd (Cache.open layout options) before (.ok c, messages) d) :
    Session faults layout cwd r [] c d
  | put {made : List Change} {c c' : Cache} {d d' : Disk} (key : String) (e : Entry)
      (session : Session faults layout cwd r made c d)
      (run : Runs faults cwd (c.put key e) d c' d') :
    Session faults layout cwd r (c.memory.putting key e ++ made) c' d'
  | remove {made : List Change} {c c' : Cache} {d d' : Disk} (key : String)
      (session : Session faults layout cwd r made c d)
      (run : Runs faults cwd (c.remove key) d c' d') : Session faults layout cwd r made c' d'
  | removeIf {made : List Change} {c c' : Cache} {d d' : Disk} {n : Nat} (p : Cached → Bool)
      (session : Session faults layout cwd r made c d)
      (run : Runs faults cwd (c.removeIf p) d (n, c') d') : Session faults layout cwd r made c' d'
  | clear {made : List Change} {c : Cache} {d : Disk}
      (session : Session faults layout cwd r made c d) :
    Session faults layout cwd r made c.clear d
  | save {made : List Change} {c c' : Cache} {d d' : Disk} {res : Except StoreError Nat}
      (session : Session faults layout cwd r made c d)
      (run : Runs faults cwd c.save d (res, c') d') : Session faults layout cwd r made c' d'
  | intern {made : List Change} {c : Cache} {index : Index} {d d' : Disk}
      {res : Except EncodeFault PathId} (name : String)
      (session : Session faults layout cwd r made c d)
      (run : Runs faults cwd (c.index.intern name) d (res, index) d') :
    Session faults layout cwd r (.learn (c.index.names.intern name).2 :: made)
      { c with index } d'
  | flush {made : List Change} {c : Cache} {index : Index} {d d' : Disk}
      {res : Except StoreError Unit} (session : Session faults layout cwd r made c d)
      (run : Runs faults cwd c.index.flush d (res, index) d') :
    Session faults layout cwd r made { c with index } d'

namespace Session
variable {μ : Measure} {layout : Layout} {made : List Change} {c c' : Cache}

/-- Behind any save that is done the files hold `m`. Or the cache is lost, and one of the changes that
were made has something that is too long for a record. -/
def Returns (faults : Faults) (layout : Layout) (cwd : Place) (made : List Change) (c : Cache)
    (d : Disk) (m : Memory) : Prop :=
  ∀ n c' d', Runs faults cwd c.save d (.ok n, c') d' → layout.Recalls cwd d' m ∨
    (∃ change ∈ made, ¬change.Within .fits) ∧ layout.Loses cwd d'

/-- Whatever is refused in a session, the logs vouch for the cache. -/
theorem upheld (session : Session faults layout cwd r made c d) (whole : ¬faults.tears)
    (within : ∀ change ∈ made, change.Within μ) : c.Upheld μ layout cwd r d := by
  induction session with
  | opened sound lives opening => exact Cache.upheld_of_open sound lives opening
  | @put made c c' d d' key e session run ih =>
    have before := ih fun change mem => within change (List.mem_append_right _ mem)
    have allowed : c.memory.AllowsAll [(key, e)] none _ :=
      Memory.allowsAll_putting before.sound List.mem_cons_self
    exact before.changedAll whole none allowed
      (fun change mem => within change (List.mem_append_left _ mem)) run
  | remove key session run ih => exact (ih within).removed whole run
  | removeIf p session run ih => exact (ih within).removedIf whole run
  | clear session ih => exact (ih within).cleared
  | save session run ih => exact ((ih within).saved run).2.1
  | @intern made c index d d' res name session run ih =>
    have before := ih fun change mem => within change (List.mem_cons_of_mem _ mem)
    obtain ⟨index, d₁, adopted, last⟩ := runs_bind.mp run
    cases last
    have allowed : c.memory.Allows [] (.learn (c.index.names.intern name).2) :=
      ⟨Names.prefix_intern .., before.sound.intern name⟩
    exact before.changed whole allowed (within _ List.mem_cons_self)
      (runs_bind.mpr ⟨index, _, adopted, .done _ _⟩)
  | flush session run ih => exact (ih within).flushed whole run

/-- A save that is done is found again, whatever was in the directory at first. Or the cache is lost,
and something that was put into memory in the session is too long for a record. -/
theorem returns (session : Session faults layout cwd r made c d) (whole : ¬faults.tears)
    (clear : layout.Clear cwd) (words : ∀ change ∈ made, change.Within .words) :
    Returns faults layout cwd made c d c.memory := by
  intro n c' d' save
  obtain ⟨memory, after, complete⟩ := (session.upheld whole words).saved save
  obtain ⟨index, map⟩ := complete rfl
  have recalled : (∃ records, layout.verdict cwd d' = .ok ⟨c'.index.names, records⟩ ∧
      records.Perm c'.map.entries) → layout.Recalls cwd d' c.memory := by
    rintro ⟨records, verdict, perm⟩
    rw [← memory]
    exact Layout.recalls_of_verdict clear after.lives.there verdict perm
  rcases after.verdict_of_words index map with read | ⟨e, verdict, other⟩
  · exact .inl (recalled read)
  by_cases long : ∃ change ∈ made, ¬change.Within .fits
  · exact .inr ⟨long, fun options =>
      Cache.always_lost clear after.lives.there verdict other options⟩
  · have fits : ∀ change ∈ made, change.Within .fits := fun change mem =>
      Classical.byContradiction fun excess => long ⟨change, mem, excess⟩
    obtain ⟨_, after, complete⟩ := (session.upheld whole fits).saved save
    obtain ⟨index, map⟩ := complete rfl
    exact .inl (recalled (after.verdict_of_fits index map))

/-- One opening without a message tells that the save is found again. -/
theorem recalls_of_quiet {n : Nat} {options : Options} {d'' : Disk}
    {res : Except StoreError Cache × List Diagnostic}
    (session : Session faults layout cwd r made c d) (whole : ¬faults.tears)
    (clear : layout.Clear cwd) (words : ∀ change ∈ made, change.Within .words)
    (save : Runs faults cwd c.save d (.ok n, c') d')
    (opening : Runs .none cwd (Cache.open layout options) d' res d'') (opens : res.1.isOk)
    (quiet : res.2 = []) : layout.Recalls cwd d' c.memory := by
  rcases session.returns whole clear words n c' d' save with recalls | ⟨_, loses⟩
  · exact recalls
  · cases loses options res d'' opening with
    | moved => cases quiet
    | kept => cases opens

/-- Where nothing is refused, a save is done. -/
theorem exists_save (session : Session .none layout cwd r made c d)
    (words : ∀ change ∈ made, change.Within .words) :
    ∃ n c' d', Runs .none cwd c.save d (.ok n, c') d' :=
  Cache.exists_save (session.upheld id words).stands

end Session

section Runs
variable {layout : Layout} {start : Disk} {s s' : Situation} {changes : List Change} {home : Home}

theorem Changes.runs (run : Changes faults cwd home changes s s') :
    Runs faults cwd (s.cache.changeAll changes) s.disk s'.cache s'.disk := by
  induction run with
  | done s => exact .done _ _
  | next run _ ih => exact runs_bind.mpr ⟨_, _, run, ih⟩

/-- A change shows in what memory holds right after it. -/
theorem Changes.shown (run : Changes faults cwd home changes s s') :
    ∀ change ∈ changes, ∃ m : Memory, m.after change ∈ s'.past := by
  induction run with
  | done => exact nofun
  | @next change changes s s' c d step rest ih =>
    refine List.forall_mem_cons.mpr ⟨⟨s.cache.memory, rest.past ?_⟩, ih⟩
    rw [← Cache.always_memory_change s.cache change c d step]
    exact List.mem_cons_self

theorem Change.within_of_after {μ : Measure} {m : Memory} {change : Change}
    (within : (m.after change).Within μ) : change.Within μ := by
  cases change with
  | learn names => exact ⟨within.names, within.count⟩
  | remove slot => trivial
  | put slot bytes =>
    refine within.records slot bytes ?_
    rw [Memory.after, Table.get?_insert, if_pos rfl]

theorem Change.within_of_shown {μ : Measure} {past : List Memory}
    (shown : ∀ change ∈ changes, ∃ m : Memory, m.after change ∈ past)
    (within : ∀ m ∈ past, m.Within μ) : ∀ change ∈ changes, change.Within μ := by
  intro change mem
  obtain ⟨m, after⟩ := shown change mem
  exact within_of_after (within _ after)

/-- A run of one session that starts in an empty directory is such a session. -/
theorem Run.exists_session (run : Run (.session faults) layout cwd (Layout.home r) start s)
    (empty : layout.Empty cwd r start) : ∃ made, Session faults layout cwd r made s.cache s.disk ∧
      ∀ change ∈ made, ∃ m : Memory, m.after change ∈ s.past := by
  induction run with
  | opened opening =>
    obtain ⟨rfl, _⟩ := regular_of_empty (μ := .fits) empty opening
    exact ⟨[], .opened empty.sound empty.lives opening, nofun⟩
  | @put s s' key e run changes ih =>
    obtain ⟨made, session, shown⟩ := ih
    refine ⟨_, session.put key e changes.runs, fun change mem => ?_⟩
    rcases List.mem_append.mp mem with mem | mem
    · exact changes.shown change mem
    · exact (shown change mem).imp fun _ past => changes.past past
  | remove key run changes ih =>
    obtain ⟨made, session, shown⟩ := ih
    exact ⟨made, session.remove key changes.runs,
      fun change mem => (shown change mem).imp fun _ past => changes.past past⟩
  | @removeIf s s' p slots run perm changes ih =>
    obtain ⟨made, session, shown⟩ := ih
    have removed : Runs faults cwd (s.cache.removeIf p) s.disk (slots.length, s'.cache) s'.disk :=
      runs_bind.mpr ⟨slots, s.disk, runs_walk perm,
        runs_bind.mpr ⟨s'.cache, s'.disk, changes.runs, .done _ _⟩⟩
    exact ⟨made, session.removeIf p removed,
      fun change mem => (shown change mem).imp fun _ past => changes.past past⟩
  | clear run may ih =>
    obtain ⟨made, session, shown⟩ := ih
    exact ⟨made, session.clear,
      fun change mem => (shown change mem).imp fun _ past => List.mem_cons_of_mem _ past⟩
  | saved run save ih =>
    obtain ⟨made, session, shown⟩ := ih
    exact ⟨made, session.save save, shown⟩
  | unsaved run save ih =>
    obtain ⟨made, session, shown⟩ := ih
    exact ⟨made, session.save save, shown⟩
  | reopened run may => exact may.elim
  | stopped run may => exact may.elim

end Runs
end BuildCache
