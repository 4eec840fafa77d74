import BuildCache.Proofs.Guarding

/-!
Whether the names that the map's records refer to are in the files of the index. The index is
flushed before each write of the map's journal, and saved before the map. So at every moment the
files of the index define each identity that a record in the files of the map refers to, whichever
operations were refused, but for one gap: a write of the index's journal lets go of its names before
it appends them. If that append is refused, the next flush finds nothing to do, and says that all is
well.
-/
namespace BuildCache

open Disk Program Situation

variable {stored : Stores} {layout : Layout} {home : Home} {cwd r : Place} {start d d' d'' : Disk}
  {s s' : Situation} {c : Cache} {ns ms : Names} {log log' : Log PathId String} {faults : Faults}
  {P Q : PathId → Prop}

/-- `P` holds of each identity that the record refers to, its own and those in its bytes. -/
def Record.RefersOnly (P : PathId → Prop) : Record Slot Bytes → Prop
  | .put .validation _ | .remove .validation => True
  | .put (.entry id) bytes =>
    P id ∧ ∃ ids, Entry.mentioned? bytes = .ok ids ∧ ∀ other ∈ ids, P other
  | .remove (.entry id) => P id

theorem Record.RefersOnly.mono {rec : Record Slot Bytes} (refers : rec.RefersOnly P)
    (imp : ∀ id, P id → Q id) : rec.RefersOnly Q := by
  cases rec with
  | put slot bytes =>
    cases slot with
    | validation => trivial
    | entry id =>
      obtain ⟨own, ids, scanned, each⟩ := refers
      exact ⟨imp id own, ids, scanned, fun other mem => imp other (each other mem)⟩
  | remove slot =>
    cases slot with
    | validation => trivial
    | entry id => exact imp id refers

/-- An entry refers only to names that there are. -/
theorem refersOnly_of_authentic {slot : Slot} {bytes : Bytes}
    (authentic : Authentic stored ns (.put slot bytes)) :
    (Record.put slot bytes).RefersOnly (·.toNat < ns.size) := by
  cases slot with
  | validation => trivial
  | entry id => exact Memory.mentioned_of_genuine authentic

namespace Home

/-- A record that the files of the index were written for gives the identity a name. -/
def Defines (home : Home) (d : Disk) (id : PathId) : Prop :=
  ∃ (told : List (Record PathId String)) (name : String),
    Log.Tells (fun _ => True) home.index Index.format d told ∧ .put id name ∈ told

/-- Whatever the records in the files of the map refer to, the files of the index define. -/
def Resolves (home : Home) (d : Disk) : Prop :=
  ∃ told, Log.Tells (Record.RefersOnly (home.Defines d)) home.map Cache.format d told

theorem Defines.sameAt {id : PathId} (defines : home.Defines d id)
    (same : SameAt home.index.places d d') : home.Defines d' id := by
  obtain ⟨told, name, tells, mem⟩ := defines
  exact ⟨told, name, tells.sameAt same, mem⟩

/-- Files of an index that were opened and got nothing define nothing. -/
theorem not_defines_of_bare (snapshot : d.content home.index.snapshot = [])
    (journal : d.content home.index.journal = StoreFile.journalFront Index.format) (id : PathId) :
    ¬home.Defines d id := by
  rintro ⟨_, name, ⟨⟨pairs, records, isSnapshot, isJournal, rfl⟩, _⟩, mem⟩
  rw [snapshot] at isSnapshot
  rw [journal] at isJournal
  rw [StoreFile.eq_nil_of_isSnapshot isSnapshot, StoreFile.eq_nil_of_isJournal isJournal] at mem
  cases mem

/-- Whatever a reader finds in the journal of the map is defined, too. -/
theorem Resolves.read {path : Path} {records : List (Record Slot Bytes)}
    (resolves : home.Resolves d) (short : (d.content home.map.journal).length < UInt64.size)
    (read : StoreFile.readJournal path Cache.format (d.content home.map.journal) = .ok records) :
    ∀ rec ∈ records, rec.RefersOnly (home.Defines d) := by
  obtain ⟨_, ⟨pairs, written, _, isJournal, rfl⟩, each⟩ := resolves
  have sized := StoreFile.sized_of_isJournal isJournal short
  rw [StoreFile.eq_of_readJournal isJournal sized read]
  exact fun rec mem => each rec (List.mem_append_right _ mem)

end Home

/-- A measure that everything is within. -/
def Measure.any : Measure :=
  ⟨fun _ => True, fun _ => True, fun _ => True, fun _ => trivial⟩

theorem Memory.within_any (m : Memory) : m.Within .any :=
  ⟨fun _ _ _ => trivial, fun _ _ _ => trivial, trivial⟩

/-! ### The index -/

namespace Index

/-- The files of the index go on to tell of the names what they told before, and no name that was
there comes to be pending again. -/
structure Onward (shelf : Shelf) (ns : Names) (log : Log PathId String) (d : Disk)
    (log' : Log PathId String) (d' : Disk) : Prop where
  tells : ∀ told : List (Record PathId String), Log.Tells (fun _ => True) shelf format d told →
    ∃ told' : List (Record PathId String), Log.Tells (fun _ => True) shelf format d' told' ∧
      ∀ (id : PathId) name, id.toNat < ns.size → .put id name ∈ told →
        ∃ name', .put id name' ∈ told'
  pending : ∀ id : PathId, id.toNat < ns.size → log.pending.get? id = none →
    log'.pending.get? id = none

variable {shelf : Shelf} {told : List (Record PathId String)}

theorem Onward.refl (shelf : Shelf) (ns : Names) (log : Log PathId String) (d : Disk) :
    Onward shelf ns log d log d where
  tells told tells := ⟨told, tells, fun _ name _ mem => ⟨name, mem⟩⟩
  pending _ _ nothing := nothing

theorem Onward.defines {id : PathId} (onward : Onward home.index ns log d log' d')
    (known : id.toNat < ns.size) (defines : home.Defines d id) : home.Defines d' id := by
  obtain ⟨told, name, tells, mem⟩ := defines
  obtain ⟨told', tells', kept⟩ := onward.tells told tells
  obtain ⟨name', mem'⟩ := kept id name known mem
  exact ⟨told', name', tells', mem'⟩

theorem Onward.sameAt (onward : Onward shelf ns log d log' d') (same : SameAt shelf.places d' d'') :
    Onward shelf ns log d log' d'' where
  tells told tells := by
    obtain ⟨told', tells', kept⟩ := onward.tells told tells
    exact ⟨told', tells'.sameAt same, kept⟩
  pending := onward.pending

theorem onward_of_wrote {res : Except StoreError Nat × Log PathId String}
    (wrote : Log.Wrote faults log shelf d res d') (whole : ¬faults.tears)
    (format_ : log.format = format) (ns : Names) : Onward shelf ns log d res.2 d' where
  tells told tells := by
    rw [← format_] at tells ⊢
    obtain ⟨batch, tells', _⟩ := wrote.tells (.inr whole) (fun _ _ => trivial) tells
    exact ⟨_, tells', fun id name _ mem => ⟨name, List.mem_append_left _ mem⟩⟩
  pending id _ nothing := Table.get?_none_of_subset wrote.pending_sub nothing

/-- A write that is done defines what was pending. -/
theorem defines_of_wrote {res : Except StoreError Nat × Log PathId String} {id : PathId}
    (wrote : Log.Wrote faults log home.index d res d') (ok : res.1.isOk)
    (format_ : log.format = format) (each : ∀ rec ∈ Log.records log.pending, ns.Tells rec)
    (tells : Log.Tells (fun _ => True) home.index format d told)
    (pending : log.pending.get? id ≠ none) : home.Defines d' id := by
  rw [← format_] at tells
  obtain ⟨batch, perm, _, tells'⟩ := wrote.tells_of_isOk ok (fun _ _ => trivial) tells
  rw [format_] at tells'
  obtain ⟨name?, found⟩ := Option.ne_none_iff_exists'.mp pending
  have mem := Table.mem_of_get? found
  have said := each _ (List.mem_map_of_mem mem)
  cases name? with
  | none => exact said.elim
  | some name =>
    refine ⟨_, name, tells', List.mem_append_right _ ?_⟩
    exact List.mem_map.mpr ⟨(id, some name), perm.mem_iff.mpr mem, rfl⟩

theorem onward_of_learned (learned : Learned faults shelf ns log d ms log' d')
    (whole : ¬faults.tears) (format_ : log.format = format) : Onward shelf ns log d log' d' := by
  have both := learned.keeps (Q := fun ns' log' d' => ns.size ≤ ns'.size ∧ log'.format = format ∧
    Onward shelf ns log d log' d') ?_ ⟨Nat.le_refl _, format_, .refl shelf ns log d⟩
  · exact both.2.2
  intro ns' s log₁ d₁ log₂ d₂ sound _ recorded ⟨le, format₁, onward⟩
  have few : ns'.size < UInt32.size := by
    have := sound.room
    simp only [Names.size, List.length_append, List.length_singleton] at this
    exact this
  have noted (id : PathId) (known : id.toNat < ns.size) (nothing : log.pending.get? id = none) :
      (log₁.noted (UInt32.ofNat ns'.size) (some s)).pending.get? id = none := by
    rw [Log.noted, Table.get?_insert, if_neg]
    · exact onward.pending id known nothing
    · rintro rfl
      rw [UInt32.toNat_ofNat_of_lt' few] at known
      omega
  refine ⟨?_, recorded.format.trans format₁, ?_⟩
  · simp only [Names.size, List.length_append] at le ⊢
    omega
  cases recorded with
  | noted => exact ⟨onward.tells, noted⟩
  | journaled wrote =>
    have next := onward_of_wrote wrote whole format₁ ns
    constructor
    · intro told tells
      obtain ⟨told₁, tells₁, kept₁⟩ := onward.tells told tells
      obtain ⟨told₂, tells₂, kept₂⟩ := next.tells told₁ tells₁
      refine ⟨told₂, tells₂, fun id name known mem => ?_⟩
      obtain ⟨name₁, mem₁⟩ := kept₁ id name known mem
      exact kept₂ id name₁ known mem₁
    · intro id known nothing
      rw [Log.pending_settle]
      exact next.pending id known (noted id known nothing)

theorem onward_of_saved {res : Except StoreError Nat × Log PathId String}
    (saved : Log.Saved faults log ns.mappings keepJournal shelf d res d') (whole : ¬faults.tears)
    (format_ : log.format = format) (sound : ns.Sound) : Onward shelf ns log d res.2 d' where
  tells told tells := by
    rw [← format_] at tells
    obtain ⟨told', tells', sub⟩ :=
      saved.tells whole (fun _ _ => trivial) (fun _ _ => trivial) tells
    rw [saved.same.2, format_] at tells'
    refine ⟨told', tells', fun id name known mem => ?_⟩
    rcases sub with sub | all
    · exact ⟨name, sub mem⟩
    · have here : ns.name? id = some ns.toList[id.toNat] := List.getElem?_eq_getElem known
      exact ⟨_, all (List.mem_map_of_mem ((mem_mappings sound).mpr here))⟩
  pending id _ nothing := Table.get?_none_of_subset saved.same.1 nothing

/-- A save that is done defines all names. -/
theorem defines_of_saved {n : Nat}
    (saved : Log.Saved faults log ns.mappings keepJournal home.index d (.ok n, log') d')
    (follows : Follows (fun _ => True) ns log home.index d) (format_ : log.format = format)
    (sound : ns.Sound) {id : PathId} (known : id.toNat < ns.size) : home.Defines d' id := by
  obtain ⟨told, tells, spells⟩ := (follows.saved sound (fun _ _ _ => trivial) saved).2 rfl
  rw [format_] at tells
  have here : ns.name? id = some ns.toList[id.toNat] := List.getElem?_eq_getElem known
  exact ⟨told, _, tells.mono fun _ _ => trivial, spells.toldBy id _ here⟩

end Index

/-! ### The cache -/

namespace Situation

/-- The name of the identity is in the files of the index, or pending there. -/
def Keeps (home : Home) (s : Situation) (id : PathId) : Prop :=
  s.cache.index.log.pending.get? id ≠ none ∨ home.Defines s.disk id

/-- Where something that has set out from the situation has come to the disk `d`: the records in the
files of the map refer to names that the situation knows, and those of them that it keeps are
defined. -/
def Carries (home : Home) (s : Situation) (d : Disk) : Prop :=
  ∃ told, Log.Tells (Record.RefersOnly fun id =>
    id.toNat < s.cache.index.names.size ∧ (s.Keeps home id → home.Defines d id))
    home.map Cache.format d told

structure Charted (home : Home) (s : Situation) : Prop where
  index : ∃ told : List (Record PathId String),
    Log.Tells (fun _ => True) home.index Index.format s.disk told
  map : s.Carries home s.disk
  pending : ∀ rec ∈ Log.records s.cache.map.log.pending,
    rec.RefersOnly (·.toNat < s.cache.index.names.size)

theorem Carries.resolves (carries : s.Carries home d)
    (kept : ∀ id : PathId, id.toNat < s.cache.index.names.size → s.Keeps home id) :
    home.Resolves d := by
  obtain ⟨told, tells⟩ := carries
  exact ⟨told, tells.mono fun rec refers => refers.mono fun id known => known.2 (kept id known.1)⟩

theorem Charted.handed {more : Stores} (charted : s.Charted home) :
    Charted home { s with stored := more } :=
  ⟨charted.index, charted.map, charted.pending⟩

/-- The files of the map are as they were, and the index has gone on. -/
theorem Charted.carries_same (charted : s.Charted home)
    (onward : Index.Onward home.index s.cache.index.names s.cache.index.log s.disk log' d)
    (same : SameAt home.map.places s.disk d) : s.Carries home d := by
  obtain ⟨told, tells⟩ := charted.map
  refine ⟨told, (tells.sameAt same).mono fun rec refers => refers.mono fun id known => ?_⟩
  exact ⟨known.1, fun keeps => onward.defines known.1 (known.2 keeps)⟩

/-- The situation behind a change or a save, of which it is known what it has left on the disk. -/
theorem Charted.next (charted : s.Charted home) (carries : s.Carries home s'.disk)
    (onward : Index.Onward home.index s.cache.index.names s.cache.index.log s.disk
      s'.cache.index.log s'.disk)
    (more : s.cache.index.names.size ≤ s'.cache.index.names.size)
    (pending : ∀ rec ∈ Log.records s'.cache.map.log.pending,
      rec.RefersOnly (·.toNat < s'.cache.index.names.size)) : s'.Charted home where
  index := by
    obtain ⟨told, tells⟩ := charted.index
    obtain ⟨told', tells', _⟩ := onward.tells told tells
    exact ⟨told', tells'⟩
  map := by
    obtain ⟨told, tells⟩ := carries
    refine ⟨told, tells.mono fun rec refers => refers.mono fun id ⟨known, keeps⟩ => ?_⟩
    refine ⟨Nat.lt_of_lt_of_le known more, fun keeps' => ?_⟩
    rcases keeps' with pending' | defines
    · exact keeps (.inl (mt (onward.pending id known) pending'))
    · exact defines
  pending := pending

/-- Where `Q` holds of all names, it holds of those that the files of the map refer to. -/
theorem Charted.tells_of_forall (charted : s.Charted home) (same : SameAt home.map.places s.disk d)
    (all : ∀ id : PathId, id.toNat < s.cache.index.names.size → Q id) :
    ∃ told, Log.Tells (Record.RefersOnly fun id => id.toNat < s.cache.index.names.size ∧ Q id)
      home.map Cache.format d told := by
  obtain ⟨told, tells⟩ := charted.map
  refine ⟨told, (tells.sameAt same).mono fun rec refers => refers.mono fun id known => ?_⟩
  exact ⟨known.1, all id known.1⟩

variable {change : Change}

/-- Each change writes the map's journal only behind a flush of the index. -/
theorem Charted.changed (charted : s.Charted home) (stands : s.cache.Stands home cwd s.disk)
    (follows : Index.Follows (fun _ => True) s.cache.index.names s.cache.index.log home.index
      s.disk)
    (refers : ∀ slot bytes?, change = .of slot bytes? →
      (Record.of slot bytes?).RefersOnly (·.toNat < s.cache.index.names.size))
    (whole : ¬faults.tears) (changed : s.cache.Changed faults home s.disk change c d) :
    s.Carries home d ∧ (s.changed home c d).Charted home := by
  have format := stands.indexFormat
  have noted {slot : Slot} {bytes? : Option Bytes} (same : change = .of slot bytes?) :
      ∀ rec ∈ Log.records (s.cache.map.log.noted slot bytes?).pending,
        rec.RefersOnly (·.toNat < s.cache.index.names.size) := by
    intro rec mem
    obtain ⟨e, inside, rfl⟩ := List.mem_map.mp mem
    rcases Table.mem_insert inside with rfl | inside
    · exact refers _ _ same
    · exact charted.pending _ (List.mem_map_of_mem inside)
  cases changed with
  | learned names log gate d learned same =>
    have onward := Index.onward_of_learned learned whole format
    have more := learned.prefix_.size_le
    have carries := charted.carries_same onward same
    refine ⟨carries, charted.next carries onward more fun rec mem => ?_⟩
    exact (charted.pending rec mem).mono fun id known => Nat.lt_of_lt_of_le known more
  | absent slot absent =>
    exact ⟨charted.map, charted.next charted.map (.refl ..) (Nat.le_refl _) charted.pending⟩
  | quiet slot bytes? gate =>
    exact ⟨charted.map, charted.next charted.map (.refl ..) (Nat.le_refl _) (noted rfl)⟩
  | unflushed slot bytes? gate n log d may wrote same =>
    have onward := Index.onward_of_wrote wrote whole format s.cache.index.names
    have carries := charted.carries_same onward same
    exact ⟨carries, charted.next carries onward (Nat.le_refl _) (noted rfl)⟩
  | journaled slot bytes? gate n log res d₁ d flushed same wrote kept =>
    have onward := (Index.onward_of_wrote flushed whole format s.cache.index.names).sameAt kept
    -- the flush was done, so that every name which was kept is defined now
    have all (id : PathId) (known : id.toNat < s.cache.index.names.size)
        (keeps : s.Keeps home id) : home.Defines d id := by
      rcases keeps with pending | defines
      · obtain ⟨told, tells⟩ := charted.index
        exact (Index.defines_of_wrote flushed rfl format
          (fun rec mem => (follows.pending rec mem).1) tells pending).sameAt kept
      · exact onward.defines known defines
    obtain ⟨told, before⟩ := charted.tells_of_forall same all
    rw [← stands.mapFormat] at before
    obtain ⟨batch, tells', _⟩ := wrote.tells (.inr whole)
      (fun rec mem => (noted rfl rec mem).mono fun id known => ⟨known, all id known⟩) before
    rw [Log.noted, stands.mapFormat] at tells'
    have carries : s.Carries home d := ⟨_, tells'⟩
    refine ⟨carries, charted.next carries onward (Nat.le_refl _) fun rec mem => ?_⟩
    change rec ∈ Log.records (Log.settle res).2.pending at mem
    rw [Log.pending_settle] at mem
    exact noted rfl rec (List.map_subset _ wrote.pending_sub mem)

theorem refersOnly_of_coherent {m : Memory} (coherent : m.Coherent stored) :
    ∀ e ∈ m.records, (Record.put e.1 e.2).RefersOnly (·.toNat < m.names.size) := by
  rintro ⟨slot, bytes⟩ mem
  have found := Table.get?_of_mem coherent.distinct mem
  cases slot with
  | validation => trivial
  | entry id => exact refersOnly_of_authentic (coherent.genuine id bytes found)

/-- However the save of the map ends that follows a save of the index, all names are defined. -/
theorem Charted.map_saved {d₁ : Disk} {keep : Nat → Nat → Bool}
    {wrote : Except StoreError Nat × Log Slot Bytes} (charted : s.Charted home)
    (stands : s.cache.Stands home cwd s.disk) (coherent : s.cache.memory.Coherent stored)
    (whole : ¬faults.tears) (same : SameAt home.map.places s.disk d₁)
    (saved : Log.Saved faults s.cache.map.log s.cache.map.entries keep home.map d₁ wrote d)
    (all : ∀ id : PathId, id.toNat < s.cache.index.names.size → home.Defines d id) :
    ∃ told, Log.Tells (Record.RefersOnly fun id =>
      id.toNat < s.cache.index.names.size ∧ home.Defines d id) home.map Cache.format d told := by
  obtain ⟨told, before⟩ := charted.tells_of_forall same all
  rw [← stands.mapFormat] at before
  have entries := refersOnly_of_coherent coherent
  obtain ⟨told', tells', _⟩ := saved.tells whole
    (fun e mem => (entries e mem).mono fun id known => ⟨known, all id known⟩)
    (fun rec mem => (charted.pending rec mem).mono fun id known => ⟨known, all id known⟩) before
  rw [saved.same.2, stands.mapFormat] at tells'
  exact ⟨told', tells'⟩

/-- A save writes the files of the map only behind a save of the index. -/
theorem Charted.carries_saved {res : Except StoreError Nat} (charted : s.Charted home)
    (stands : s.cache.Stands home cwd s.disk) (coherent : s.cache.memory.Coherent stored)
    (follows : Index.Follows (fun _ => True) s.cache.index.names s.cache.index.log home.index
      s.disk)
    (whole : ¬faults.tears) (saved : s.cache.Saved faults home s.disk (res, c) d) :
    Index.Onward home.index s.cache.index.names s.cache.index.log s.disk c.index.log d ∧
      c.map.log.pending ⊆ s.cache.map.log.pending ∧ s.Carries home d ∧
      (res.isOk → home.Resolves d) := by
  have sound := coherent.sound
  have format := stands.indexFormat
  cases saved with
  | early e log d index same =>
    have onward := Index.onward_of_saved index whole format sound
    exact ⟨onward, fun _ mem => mem, charted.carries_same onward same, nofun⟩
  | late n log d₁ e log' d index same map kept =>
    have onward := (Index.onward_of_saved index whole format sound).sameAt kept
    obtain ⟨told, tells⟩ := charted.map_saved stands coherent whole same map fun id known =>
      (Index.defines_of_saved index follows format sound known).sameAt kept
    refine ⟨onward, map.same.1, ⟨told, ?_⟩, nofun⟩
    exact tells.mono fun rec refers => refers.mono fun id known => ⟨known.1, fun _ => known.2⟩
  | done n log d₁ n' log' d saveMillis index same map kept =>
    have onward := (Index.onward_of_saved index whole format sound).sameAt kept
    obtain ⟨told, tells⟩ := charted.map_saved stands coherent whole same map fun id known =>
      (Index.defines_of_saved index follows format sound known).sameAt kept
    refine ⟨onward, map.same.1, ⟨told, ?_⟩, fun _ => ⟨told, ?_⟩⟩
    · exact tells.mono fun rec refers => refers.mono fun id known => ⟨known.1, fun _ => known.2⟩
    · exact tells.mono fun rec refers => refers.mono fun id known => known.2

theorem Charted.saved {res : Except StoreError Nat} (charted : s.Charted home)
    (stands : s.cache.Stands home cwd s.disk) (coherent : s.cache.memory.Coherent stored)
    (follows : Index.Follows (fun _ => True) s.cache.index.names s.cache.index.log home.index
      s.disk)
    (whole : ¬faults.tears) (saved : s.cache.Saved faults home s.disk (res, c) d) :
    s.Carries home d ∧ (s.saved c d).Charted home ∧ (s.unsaved home c d).Charted home ∧
      (res.isOk → home.Resolves d) := by
  obtain ⟨onward, sub, carries, resolves⟩ :=
    charted.carries_saved stands coherent follows whole saved
  have names : c.index.names = s.cache.index.names := congrArg Memory.names saved.memory
  have more := Nat.le_of_eq (congrArg Names.size names.symm)
  have pending : ∀ rec ∈ Log.records c.map.log.pending,
      rec.RefersOnly (·.toNat < c.index.names.size) := by
    rw [names]
    exact fun rec mem => charted.pending rec (List.map_subset _ sub mem)
  exact ⟨carries, charted.next carries onward more pending,
    charted.next carries onward more pending, resolves⟩

/-- A change of the map that is not idle speaks only of names that there are. -/
theorem refersOnly_of_change (coherent : s.cache.memory.Coherent stored)
    (allowed : s.cache.memory.Allows stored change)
    (run : Runs faults cwd (s.cache.change change) s.disk c d) :
    c = s.cache ∧ d = s.disk ∨ ∀ slot bytes?, change = .of slot bytes? →
      (Record.of slot bytes?).RefersOnly (·.toNat < s.cache.index.names.size) := by
  by_cases idle : ∃ slot, change = .remove slot ∧ s.cache.map.get? slot = none
  · obtain ⟨slot, rfl, absent⟩ := idle
    have run : Runs faults cwd (s.cache.removeRecord slot) s.disk c d := run
    unfold Cache.removeRecord at run
    rw [if_pos (by rw [absent]; rfl)] at run
    cases run
    exact .inl ⟨rfl, rfl⟩
  · refine .inr ?_
    rintro slot bytes? rfl
    cases bytes? with
    | some bytes => exact refersOnly_of_authentic (Memory.authentic_of_allows allowed)
    | none =>
      cases slot with
      | validation => trivial
      | entry id =>
        cases found : s.cache.map.get? (.entry id) with
        | none => exact absurd ⟨_, rfl, found⟩ idle
        | some bytes => exact (Memory.mentioned_of_genuine (coherent.genuine id bytes found)).1

theorem Charted.step (charted : s.Charted (Layout.home r)) (regular : s.Regular .any layout cwd r)
    (whole : ¬faults.tears) (allowed : s.cache.memory.Allows s.stored change)
    (run : Runs faults cwd (s.cache.change change) s.disk c d) :
    s.Carries (Layout.home r) d ∧ (s.changed (Layout.home r) c d).Charted (Layout.home r) := by
  rcases refersOnly_of_change regular.consistent.coherent allowed run with ⟨rfl, rfl⟩ | refers
  · exact ⟨charted.map, charted.next charted.map (.refl ..) (Nat.le_refl _) charted.pending⟩
  · obtain ⟨changed, _⟩ := regular.changed whole allowed run
    exact charted.changed regular.stands regular.consistent.index refers whole changed

theorem charted_opened {options : Options} (empty : layout.Empty cwd r d)
    (opened : c.Opened layout options .empty) :
    (Situation.opened [] [] c d).Charted (Layout.home r) where
  index := ⟨[], Log.tells_of_absent (empty.content _) (empty.content _)⟩
  map := ⟨[], Log.tells_of_absent (empty.content _) (empty.content _)⟩
  pending := by
    change ∀ rec ∈ Log.records c.map.log.pending, _
    rw [opened.map]
    exact fun rec mem => absurd mem List.not_mem_nil

end Situation

end BuildCache
