import BuildCache.Index
import BuildCache.Proofs.Interning
import BuildCache.Proofs.Replays

/-!
How an index follows its names onto the disk. New names are noted one by one in the order of their
identities, and between any two of them the journal may be written. Whatever else goes wrong, what
is pending and what a clean log has in its files is true of the names.
-/
namespace BuildCache

open Disk Program

namespace Index
variable {faults : Faults} {cwd : Place} {shelf : Shelf} {d d' : Disk} {ns ms : Names}
  {log after : Log PathId String}

/-- New names are noted one after the other, each with the next identity. -/
inductive Learned (faults : Faults) (shelf : Shelf) :
    Names → Log PathId String → Disk → Names → Log PathId String → Disk → Prop
  | done (ns : Names) (log : Log PathId String) (d : Disk) : Learned faults shelf ns log d ns log d
  | next {ns ms : Names} {s : String} {log log' log'' : Log PathId String} {d d' d'' : Disk}
      (sound : Names.Sound ⟨ns.toList ++ [s]⟩)
      (recorded : Log.Recorded faults log shelf d (UInt32.ofNat ns.size) (some s) log' d')
      (rest : Learned faults shelf ⟨ns.toList ++ [s]⟩ log' d' ms log'' d'') :
    Learned faults shelf ns log d ms log'' d''

theorem Learned.prefix_ {log' : Log PathId String}
    (learned : Learned faults shelf ns log d ms log' d') : ns.Prefix ms := by
  induction learned with
  | done ns log d => exact .refl ns
  | next sound recorded rest ih => exact Names.Prefix.trans (List.prefix_append ..) ih

/-- What each new name keeps, all of them keep. -/
theorem Learned.keeps {Q : Names → Log PathId String → Disk → Prop} {log' : Log PathId String}
    (learned : Learned faults shelf ns log d ms log' d')
    (step : ∀ ns s log d log' d', Names.Sound ⟨ns.toList ++ [s]⟩ →
      Names.Prefix ⟨ns.toList ++ [s]⟩ ms →
      Log.Recorded faults log shelf d (UInt32.ofNat ns.size) (some s) log' d' →
      Q ns log d → Q ⟨ns.toList ++ [s]⟩ log' d')
    (start : Q ns log d) : Q ms log' d' := by
  induction learned with
  | done ns log d => exact start
  | next sound recorded rest ih =>
    exact ih step (step _ _ _ _ _ _ sound rest.prefix_ recorded start)

theorem name?_next {s : String} (room : Names.Sound ⟨ns.toList ++ [s]⟩) :
    Names.name? ⟨ns.toList ++ [s]⟩ (UInt32.ofNat ns.size) = some s := by
  have size : ns.size < UInt32.size := by
    have := room.room
    simp only [Names.size, List.length_append, List.length_singleton] at this
    exact this
  rw [Names.name?, UInt32.toNat_ofNat_of_lt' size]
  simp [Names.size]

theorem always_noteAll (index : Index) (stands : index.log.Stands shelf cwd d)
    (sound : index.names.Sound) (ss : List String) (whole : index.names.toList = ns.toList ++ ss) :
    Always faults cwd (index.noteAll (ss.mapIdx fun i s => (UInt32.ofNat (ns.size + i), s))) d
      fun index' d' => Touches [shelf.journal] d d' ∧ index'.log.Stands shelf cwd d' ∧
        index'.names = index.names ∧
        Learned faults shelf ns index.log d index.names index'.log d' := by
  induction ss generalizing ns index d with
  | nil =>
    rw [List.append_nil] at whole
    have same : index.names = ns := congrArg Names.mk whole
    refine always_pure.mpr ⟨.refl stands.holds.sound, stands, rfl, ?_⟩
    rw [same]
    exact .done ns index.log d
  | cons s ss ih =>
    have whole' : index.names.toList = (ns.toList ++ [s]) ++ ss := by
      rw [whole, List.append_assoc]
      rfl
    have more : Names.Prefix ⟨ns.toList ++ [s]⟩ index.names := ⟨ss, whole'.symm⟩
    have sound' := more.sound sound
    have later : (ss.mapIdx fun i s => (UInt32.ofNat (ns.size + (i + 1)), s)) =
        ss.mapIdx fun i t => (UInt32.ofNat (Names.size ⟨ns.toList ++ [s]⟩ + i), t) := by
      congr 1
      funext i t
      simp [Names.size, Nat.add_comm, Nat.add_left_comm]
    rw [List.mapIdx_cons, later, Nat.add_zero]
    refine Always.bind always_tick ?_
    rintro now d' rfl
    refine Always.bind (Log.always_record stands _ _ _) ?_
    rintro log d'' ⟨touches, stands', recorded⟩
    have recorded : Log.Recorded faults index.log shelf d' (UInt32.ofNat ns.size) (some s)
        log d'' := by
      rcases recorded with ⟨_, rfl, rfl⟩ | ⟨_, wrote, cases_, rfl⟩
      · exact .noted
      · exact .journaled cases_
    refine (ih { index with log, gate := _ } stands' sound whole').mono ?_
    rintro index' d₃ ⟨later, stands'', names, rest⟩
    exact ⟨touches.trans later, stands'', names, .next sound' recorded rest⟩

/-- The index takes over names that extend its own. -/
theorem always_adopt {index : Index} (stands : index.log.Stands shelf cwd d)
    (more : index.names.Prefix ms) (sound : ms.Sound) :
    Always faults cwd (index.adopt ms) d fun index' d' => Touches [shelf.journal] d d' ∧
      index'.log.Stands shelf cwd d' ∧ index'.names = ms ∧
      Learned faults shelf index.names index.log d ms index'.log d' := by
  obtain ⟨ss, whole⟩ := more
  have rest : ms.toList.drop index.names.size = ss := by
    rw [← whole, Names.size, List.drop_left]
  unfold adopt Names.mappingsFrom
  rw [rest]
  exact always_noteAll { index with names := ms } stands sound ss whole.symm

theorem always_flush {index : Index} (stands : index.log.Stands shelf cwd d) :
    Always faults cwd index.flush d fun r d' => Touches [shelf.journal] d d' ∧
      r.2.log.Stands shelf cwd d' ∧ ∃ wrote log, r.2 = { index with log } ∧
      Log.Wrote faults index.log shelf d (wrote, log) d' ∧
      (r.1 = .ok () ∧ wrote.isOk ∨ faults.possible ∧ ∃ e, r.1 = .error e) := by
  refine Always.bind (Log.always_flush stands) ?_
  rintro ⟨flushed, log⟩ d' ⟨touches, stands', wrote, cases_, done⟩
  exact always_pure.mpr ⟨touches, stands', wrote, log, rfl, cases_, done⟩

theorem always_save {index : Index} (stands : index.log.Stands shelf cwd d) :
    Always faults cwd index.save d fun r d' => Touches shelf.places d d' ∧
      r.2.log.Stands shelf cwd d' ∧ ∃ log, r.2 = { index with log } ∧
      Log.Saved faults index.log index.names.mappings keepJournal shelf d (r.1, log) d' := by
  refine Always.bind (Log.always_save stands _ _) ?_
  rintro ⟨r, log⟩ d' ⟨touches, stands', saved⟩
  exact always_pure.mpr ⟨touches, stands', log, rfl, saved⟩

/-- What the log says is true of the names, and a clean log has told them all. `F` is what is asked
of its records besides. -/
structure Follows (F : Record PathId String → Prop) (ns : Names) (log : Log PathId String)
    (shelf : Shelf) (d : Disk) : Prop where
  pending : ∀ r ∈ Log.records log.pending, ns.Tells r ∧ F r
  clean : log.dirty = false → ∃ told,
    Log.Tells (fun r => ns.Tells r ∧ F r) shelf log.format d told ∧ Names.Spells told ns

variable {F : Record PathId String → Prop}

theorem follows_clear (log : Log PathId String) (shelf : Shelf) (d : Disk) :
    Follows F .empty log.clear shelf d where
  pending := nofun
  clean := nofun

theorem Follows.sameAt (follows : Follows F ns log shelf d) (same : SameAt shelf.places d d') :
    Follows F ns log shelf d' where
  pending := follows.pending
  clean clean := by
    obtain ⟨told, tells, spells⟩ := follows.clean clean
    exact ⟨told, tells.sameAt same, spells⟩

/-- One more name that is noted is true of the names with it, and so is what was noted before. -/
theorem each_noted {s : String} (pending : ∀ r ∈ Log.records log.pending, ns.Tells r ∧ F r)
    (sound : Names.Sound ⟨ns.toList ++ [s]⟩) (new : F (.put (UInt32.ofNat ns.size) s)) :
    ∀ r ∈ Log.records (log.noted (UInt32.ofNat ns.size) (some s)).pending,
      Names.Tells ⟨ns.toList ++ [s]⟩ r ∧ F r := by
  refine Log.each_pending_noted (fun r mem => ?_) ⟨name?_next sound, new⟩
  obtain ⟨tells, fits⟩ := pending r mem
  exact ⟨tells.of_front (List.prefix_append ..), fits⟩

theorem Follows.recorded {s : String} {after : Log PathId String} (follows : Follows F ns log shelf d)
    (sound : Names.Sound ⟨ns.toList ++ [s]⟩) (new : F (.put (UInt32.ofNat ns.size) s))
    (recorded : Log.Recorded faults log shelf d (UInt32.ofNat ns.size) (some s) after d') :
    Follows F ⟨ns.toList ++ [s]⟩ after shelf d' where
  pending r mem :=
    each_noted follows.pending sound new r (List.map_subset _ recorded.pending_sub mem)
  clean clean := by
    rw [recorded.dirty] at clean
    cases clean

theorem Follows.learned {log' : Log PathId String} (follows : Follows F ns log shelf d)
    (learned : Learned faults shelf ns log d ms log' d')
    (new : ∀ id s, ms.name? id = some s → F (.put id s)) : Follows F ms log' shelf d' := by
  refine learned.keeps (Q := fun ns log d => Follows F ns log shelf d) ?_ follows
  intro ns s log d log' d' sound more recorded follows
  exact follows.recorded sound (new _ _ (more.name? (name?_next sound))) recorded

/-- A write without a torn append keeps to what is true. -/
theorem Follows.wrote {r : Except StoreError Nat × Log PathId String}
    (follows : Follows F ns log shelf d) (whole : ¬faults.tears)
    (wrote : Log.Wrote faults log shelf d r d') : Follows F ns r.2 shelf d' where
  pending r mem := follows.pending r (List.map_subset _ wrote.pending_sub mem)
  clean clean := by
    have before : log.dirty = false := by
      rw [← wrote.dirty_settle]
      obtain ⟨r, after⟩ := r
      cases r <;> exact clean
    obtain ⟨told, tells, spells⟩ := follows.clean before
    obtain ⟨batch, tells', added⟩ := wrote.tells (.inr whole) follows.pending tells
    rw [← wrote.format] at tells'
    refine ⟨_, tells', ⟨fun r mem => (tells'.each r mem).1, fun i hi => ?_⟩⟩
    obtain ⟨r, mem, key⟩ := spells.dense i hi
    exact ⟨r, List.mem_append_left _ mem, key⟩

theorem mem_mappings (sound : ns.Sound) {id : PathId} {s : String} :
    (id, s) ∈ ns.mappings ↔ ns.name? id = some s := by
  rw [Names.mappings_eq, Names.mem_mappingsFrom sound.room]
  exact ⟨fun h => h.2, fun h => ⟨Nat.zero_le _, h⟩⟩

theorem spells_puts {es : Table PathId String} (sound : ns.Sound) (perm : es.Perm ns.mappings) :
    Names.Spells (Record.puts es) ns := by
  refine Names.spells_of_put sound.room (fun rec mem => ?_) fun id s known => ?_
  · obtain ⟨e, inside, rfl⟩ := List.mem_map.mp mem
    exact (mem_mappings sound).mp (perm.mem_iff.mp inside)
  · exact List.mem_map_of_mem (perm.mem_iff.mpr ((mem_mappings sound).mpr known))

theorem each_mapping (sound : ns.Sound) (new : ∀ id s, ns.name? id = some s → F (.put id s)) :
    ∀ e ∈ ns.mappings, ns.Tells (.put e.1 e.2) ∧ F (.put e.1 e.2) := by
  rintro ⟨id, s⟩ mem
  have known := (mem_mappings sound).mp mem
  exact ⟨known, new id s known⟩

/-- A save that is done leaves files that spell the names. -/
theorem Follows.saved {r : Except StoreError Nat × Log PathId String}
    (follows : Follows F ns log shelf d) (sound : ns.Sound)
    (new : ∀ id s, ns.name? id = some s → F (.put id s))
    (saved : Log.Saved faults log ns.mappings keepJournal shelf d r d') :
    Follows F ns r.2 shelf d' ∧ (r.1.isOk → ∃ told,
      Log.Tells (fun r => ns.Tells r ∧ F r) shelf log.format d' told ∧ Names.Spells told ns) := by
  obtain ⟨sub, format⟩ := saved.same
  have pending : ∀ e ∈ Log.records r.2.pending, ns.Tells e ∧ F e :=
    fun e mem => follows.pending e (List.map_subset _ sub mem)
  cases saved with
  | unchanged clean => exact ⟨follows, fun _ => follows.clean clean⟩
  | done n wrote after d₁ d' changed first rest =>
    have told : ∃ told, Log.Tells (fun r => ns.Tells r ∧ F r) shelf log.format d' told ∧
        Names.Spells told ns := by
      cases rest with
      | kept _ _ small => cases small
      | compacted r d' compacted =>
        cases compacted with
        | done n es d' perm snapshot journal =>
          rw [Log.format_settle, first.format] at snapshot
          have tells := Log.tells_snapshot (P := fun r => ns.Tells r ∧ F r) perm
            (each_mapping sound new) snapshot journal
          exact ⟨_, tells, spells_puts sound perm⟩
    refine ⟨⟨pending, fun _ => ?_⟩, fun _ => told⟩
    rw [format]
    exact told
  | failed e wrote after d₁ d' changed first rest => exact ⟨⟨pending, nofun⟩, nofun⟩

/-- Each name is told by the records already, or pending. -/
def Noted (ns : Names) (log : Log PathId String) (told : List (Record PathId String)) : Prop :=
  ∀ id s, ns.name? id = some s → .put id s ∈ told ∨ log.pending.get? id = some (some s)

variable {told : List (Record PathId String)}

theorem Noted.of_toldBy (toldBy : ns.ToldBy told) : Noted ns log told :=
  fun id s known => .inl (toldBy id s known)

theorem Noted.next {s : String} (noted : Noted ns log told)
    (sound : Names.Sound ⟨ns.toList ++ [s]⟩) :
    Noted ⟨ns.toList ++ [s]⟩ (log.noted (UInt32.ofNat ns.size) (some s)) told := by
  intro id s' known
  rw [Log.noted, Table.get?_insert]
  by_cases new : UInt32.ofNat ns.size = id
  · rw [if_pos new]
    rw [← new, name?_next sound] at known
    exact .inr (congrArg some known)
  · rw [if_neg new]
    refine noted id s' ?_
    have below : id.toNat < ns.size := by
      have bound := Names.lt_size_of_name? known
      simp only [Names.size, List.length_append, List.length_singleton] at bound
      have other : id.toNat ≠ ns.size := fun same => new (by rw [← same, UInt32.ofNat_toNat])
      simp only [Names.size] at other ⊢
      omega
    rw [Names.name?] at known ⊢
    rwa [List.getElem?_append_left below] at known

theorem Noted.wrote {batch : Table PathId (Option String)} (noted : Noted ns log told)
    (perm : batch.Perm log.pending) : ns.ToldBy (told ++ Log.records batch) := by
  intro id s known
  rcases noted id s known with old | new
  · exact List.mem_append_left _ old
  · refine List.mem_append_right _ (List.mem_map.mpr ⟨(id, some s), ?_, rfl⟩)
    exact perm.mem_iff.mpr (Table.mem_of_get? new)

variable {P : Names → Record PathId String → Prop}

/-- A write that is done tells what was noted. -/
theorem tells_wrote {r : Except StoreError Nat × Log PathId String}
    (tells : Log.Tells (P ns) shelf log.format d told)
    (pending : ∀ rec ∈ Log.records log.pending, P ns rec)
    (wrote : Log.Wrote faults log shelf d r d') (ok : r.1.isOk) :
    ∃ told', told ⊆ told' ∧ Log.Tells (P ns) shelf r.2.format d' told' ∧
      (Noted ns log told → ns.ToldBy told') := by
  obtain ⟨batch, perm, _, tells'⟩ := wrote.tells_of_isOk ok pending tells
  rw [← wrote.format] at tells'
  exact ⟨_, List.subset_append_left .., tells', fun noted => noted.wrote perm⟩

/-- New names, nothing refused: whatever was told or noted stays so, and the new names are, too. -/
theorem tells_learned {log' : Log PathId String}
    (mono : ∀ {ns ms rec}, ns.Prefix ms → P ns rec → P ms rec)
    (said : ∀ {ns rec}, ns.Tells rec → F rec → P ns rec)
    (tells : Log.Tells (P ns) shelf log.format d told) (follows : Follows F ns log shelf d)
    (learned : Learned .none shelf ns log d ms log' d')
    (new : ∀ id s, ms.name? id = some s → F (.put id s)) :
    ∃ told', told ⊆ told' ∧ Log.Tells (P ms) shelf log'.format d' told' ∧
      (Noted ns log told → Noted ms log' told') := by
  have both := learned.keeps (Q := fun ns' log' d' => Follows F ns' log' shelf d' ∧
    ∃ told', told ⊆ told' ∧ Log.Tells (P ns') shelf log'.format d' told' ∧
      (Noted ns log told → Noted ns' log' told')) ?_
    ⟨follows, told, fun _ mem => mem, tells, id⟩
  · exact both.2
  intro ns' s log' d' log'' d'' sound more recorded ⟨follows, told', sub, tells, noted⟩
  have fits := new _ _ (more.name? (name?_next sound))
  have front : ns'.Prefix ⟨ns'.toList ++ [s]⟩ := List.prefix_append ..
  have tells := tells.mono fun _ => mono front
  refine ⟨follows.recorded sound fits recorded, ?_⟩
  cases recorded with
  | noted => exact ⟨told', sub, tells, fun h => (noted h).next sound⟩
  | journaled wrote =>
    have ok := wrote.isOk Faults.not_possible_none
    have pending := (follows.recorded sound fits (Log.Recorded.noted : Log.Recorded .none log' shelf
      d' (UInt32.ofNat ns'.size) (some s) _ d')).pending
    have before : Log.Tells (P ⟨ns'.toList ++ [s]⟩) shelf
        (log'.noted (UInt32.ofNat ns'.size) (some s)).format d' told' := tells
    obtain ⟨told'', sub', tells', toldBy⟩ := tells_wrote before
      (fun rec mem => said (pending rec mem).1 (pending rec mem).2) wrote ok
    rw [Log.settle_of_isOk ok]
    exact ⟨told'', List.Subset.trans sub sub', tells',
      fun h => .of_toldBy (toldBy ((noted h).next sound))⟩

end Index
end BuildCache
