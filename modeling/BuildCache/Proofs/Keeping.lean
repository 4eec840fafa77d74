import BuildCache.Proofs.Regularity

/-!
What the files hold while nothing is refused. They hold one moment of memory as a whole: the moment
at which the map's journal was last written, a save was done or the cache was opened. The index may
be ahead of it, never behind. What has happened since is pending in the logs, unless the cache was
cleared, and then the files keep that moment until one of them changes.
-/
namespace BuildCache

open Disk Program

namespace Index
variable {F : Record PathId String → Prop} {shelf : Shelf} {d d' : Disk} {low ns ms : Names}
  {log after : Log PathId String}

/-- The files spell a front of the names, at least `low`, and the rest is pending. -/
def Ahead (F : Record PathId String → Prop) (low ns : Names) (log : Log PathId String)
    (shelf : Shelf) (d : Disk) : Prop :=
  ∃ told ms, Log.Tells (fun rec => ns.Tells rec ∧ F rec) shelf log.format d told ∧
    Names.Spells told ms ∧ ms.Prefix ns ∧ low.Prefix ms ∧ Noted ns log told

theorem Ahead.sameAt (ahead : Ahead F low ns log shelf d) (same : SameAt shelf.places d d') :
    Ahead F low ns log shelf d' := by
  obtain ⟨told, ms, tells, rest⟩ := ahead
  exact ⟨told, ms, tells.sameAt same, rest⟩

theorem Ahead.lower {lower : Names} (ahead : Ahead F low ns log shelf d) (less : lower.Prefix low) :
    Ahead F lower ns log shelf d := by
  obtain ⟨told, ms, tells, spells, front, above, rest⟩ := ahead
  exact ⟨told, ms, tells, spells, front, less.trans above, rest⟩

/-- The files may spell the names to the end, whatever is still pending. -/
theorem ahead_of_spells {told : List (Record PathId String)}
    (tells : Log.Tells (fun rec => ns.Tells rec ∧ F rec) shelf log.format d told)
    (spells : Names.Spells told ns) : Ahead F ns ns log shelf d :=
  ⟨told, ns, tells, spells, .refl ns, .refl ns, .of_toldBy spells.toldBy⟩

theorem Ahead.above (ahead : Ahead F low ns log shelf d) : low.Prefix ns := by
  obtain ⟨_, _, _, _, front, above, _⟩ := ahead
  exact above.trans front

/-- A write that is done leaves files that spell all names. -/
theorem Ahead.wrote {faults : Faults} {r : Except StoreError Nat × Log PathId String}
    (ahead : Ahead F low ns log shelf d) (follows : Follows F ns log shelf d) (sound : ns.Sound)
    (wrote : Log.Wrote faults log shelf d r d') (ok : r.1.isOk) : Ahead F ns ns r.2 shelf d' := by
  obtain ⟨told, ms, tells, _, _, _, noted⟩ := ahead
  obtain ⟨told', _, tells', toldBy⟩ :=
    tells_wrote (P := fun ns rec => ns.Tells rec ∧ F rec) tells follows.pending wrote ok
  exact ahead_of_spells tells' (Names.spells_of_put sound.room
    (fun rec mem => (tells'.each rec mem).1) (toldBy noted))

theorem Ahead.noted {s : String} (ahead : Ahead F low ns log shelf d)
    (sound : Names.Sound ⟨ns.toList ++ [s]⟩) :
    Ahead F low ⟨ns.toList ++ [s]⟩ (log.noted (UInt32.ofNat ns.size) (some s)) shelf d := by
  obtain ⟨told, ms, tells, spells, front, above, noted⟩ := ahead
  have more : ns.Prefix ⟨ns.toList ++ [s]⟩ := List.prefix_append ..
  exact ⟨told, ms, tells.mono fun rec h => ⟨h.1.of_front more, h.2⟩, spells, front.trans more,
    above, noted.next sound⟩

/-- New names, nothing refused: the files still spell a front, perhaps a longer one. -/
theorem Ahead.learned {log' : Log PathId String} (ahead : Ahead F low ns log shelf d)
    (follows : Follows F ns log shelf d) (learned : Learned .none shelf ns log d ms log' d')
    (new : ∀ id s, ms.name? id = some s → F (.put id s)) : Ahead F low ms log' shelf d' := by
  have both := learned.keeps (Q := fun ns log d => Follows F ns log shelf d ∧
    Ahead F low ns log shelf d) ?_ ⟨follows, ahead⟩
  · exact both.2
  intro ns s log d log' d' sound more recorded ⟨follows, ahead⟩
  have fits := new _ _ (more.name? (name?_next sound))
  refine ⟨follows.recorded sound fits recorded, ?_⟩
  have noted := ahead.noted sound
  cases recorded with
  | noted => exact noted
  | journaled wrote =>
    have ok := wrote.isOk Faults.not_possible_none
    have follows := follows.recorded sound fits (Log.Recorded.noted : Log.Recorded .none log shelf d
      (UInt32.ofNat ns.size) (some s) _ d)
    rw [Log.settle_of_isOk ok]
    exact (noted.wrote follows sound wrote ok).lower noted.above

end Index

variable {μ : Measure} {stored more : Stores} {home : Home} {c c' : Cache} {d d' : Disk}
  {m : Memory} {ns : Names} {change : Change}

/-- The files hold this memory, and the index spells `ns`, which may be more names than it has. -/
structure Kept (μ : Measure) (stored : Stores) (home : Home) (d : Disk) (m : Memory) (ns : Names) :
    Prop where
  coherent : m.Coherent stored
  sound : ns.Sound
  above : m.names.Prefix ns
  index : ∃ told, Log.Tells μ.names home.index Index.format d told ∧ Names.Spells told ns
  map : Log.Holds (Cache.Says μ stored m.names) Cache.format home.map d m.records

theorem Kept.mono (kept : Kept μ stored home d m ns) (sub : stored ⊆ more) :
    Kept μ more home d m ns where
  coherent := kept.coherent.mono sub
  sound := kept.sound
  above := kept.above
  index := kept.index
  map := by
    obtain ⟨told, tells, covers⟩ := kept.map
    exact ⟨told, tells.mono fun _ said => ⟨said.1, said.2.mono sub⟩, covers⟩

theorem Kept.sameAt (kept : Kept μ stored home d m ns) (same : SameAt home.files d d') :
    Kept μ stored home d' m ns where
  coherent := kept.coherent
  sound := kept.sound
  above := kept.above
  index := by
    obtain ⟨told, tells, spells⟩ := kept.index
    exact ⟨told, tells.same_content (same _ (by simp [Home.files]))
      (same _ (by simp [Home.files])), spells⟩
  map := by
    obtain ⟨told, tells, covers⟩ := kept.map
    exact ⟨told, tells.same_content (same _ (by simp [Home.files]))
      (same _ (by simp [Home.files])), covers⟩

/-- The files hold this memory, and whatever the cache has besides is pending in its logs. -/
structure Pending (μ : Measure) (stored : Stores) (home : Home) (c : Cache) (d : Disk)
    (m : Memory) : Prop where
  coherent : m.Coherent stored
  index : Index.Ahead μ.names m.names c.index.names c.index.log home.index d
  map : ∃ told, Log.Tells (Cache.Says μ stored m.names) home.map Cache.format d told ∧
    Log.Covers told [] m.records ∧ Log.Covers told c.map.log.pending c.map.entries

namespace Pending

theorem kept (pending : Pending μ stored home c d m) (format : c.index.log.format = Index.format)
    (sound : c.index.names.Sound) :
    ∃ ns, Kept μ stored home d m ns ∧ ns.Prefix c.index.names := by
  obtain ⟨told, ns, tells, spells, front, above, _⟩ := pending.index
  obtain ⟨told', tells', covers, _⟩ := pending.map
  rw [format] at tells
  have index := tells.mono fun _ h => h.2
  exact ⟨ns, ⟨pending.coherent, front.sound sound, above, ⟨told, index, spells⟩,
    ⟨told', tells', covers⟩⟩, front⟩

theorem mono (pending : Pending μ stored home c d m) (sub : stored ⊆ more) :
    Pending μ more home c d m where
  coherent := pending.coherent.mono sub
  index := pending.index
  map := by
    obtain ⟨told, tells, covers⟩ := pending.map
    exact ⟨told, tells.mono fun _ said => ⟨said.1, said.2.mono sub⟩, covers⟩

/-- Where nothing is refused, a change is pending behind what the files hold, or the journal of the
map has grown, and the files hold what is now in memory. -/
theorem changed {cwd : Place} (pending : Pending μ stored home c d m)
    (stands : c.Stands home cwd d) (consistent : c.Consistent μ stored home d)
    (allowed : c.memory.Allows stored change) (within : c'.memory.Within μ)
    (changed : c.Changed .none home d change c' d') :
    d'.content home.map.journal = d.content home.map.journal ∧ Pending μ stored home c' d' m ∨
      d'.content home.map.journal ≠ d.content home.map.journal ∧
        Pending μ stored home c' d' c'.memory := by
  have calm := Faults.not_possible_none
  have coherent := consistent.coherent.after allowed
  rw [← changed.memory] at coherent
  have memory := changed.memory
  obtain ⟨told, tells, covers, pends⟩ := pending.map
  have journal : home.map.journal ∈ home.map.places := by simp [Shelf.places]
  cases changed with
  | absent => exact .inl ⟨rfl, pending⟩
  | unflushed _ _ _ _ _ _ may => exact absurd may calm
  | learned names log gate d' learned same =>
    refine .inl ⟨same _ journal, pending.coherent, ?_, told, tells.sameAt same, covers, pends⟩
    exact pending.index.learned consistent.index learned within.names
  | quiet slot bytes? gate =>
    refine .inl ⟨rfl, pending.coherent, pending.index, told, tells, covers, pends.note ?_⟩
    intro k
    rw [DurableMap.get?_apply, Record.key_of, Record.value?_of]
  | journaled slot bytes? gate n log r d₁ d' flushed same wrote kept =>
    have recorded : Log.Recorded .none c.map.log home.map d₁ slot bytes?
        (c.map.log.noted slot bytes?) d₁ := .noted
    rw [memory] at within
    have noted := consistent.recorded allowed within same recorded
    have ok := wrote.isOk calm
    obtain ⟨log', after⟩ := r
    have shown := wrote.journal_ne calm (Log.pending_noted_ne c.map.log slot bytes?)
    rw [same _ journal] at shown
    have names := pending.index.above
    have tells₁ : Log.Tells (Cache.Says μ stored c.index.names) home.map
        (c.map.log.noted slot bytes?).format d₁ told := by
      rw [Log.noted, stands.mapFormat]
      exact (tells.mono fun _ said => ⟨said.1, said.2.prefix_ names⟩).sameAt same
    obtain ⟨batch, perm, nothing, tells'⟩ := wrote.tells_of_isOk ok noted.pendingEach tells₁
    have pends' : Log.Covers (told ++ Log.records batch) []
        (DurableMap.apply c.map.entries (.of slot bytes?)) := by
      refine Log.Covers.write (pends.note fun k => ?_) noted.pendingDistinct perm
      rw [DurableMap.get?_apply, Record.key_of, Record.value?_of]
    rw [Log.noted, stands.mapFormat] at tells'
    refine .inr ⟨shown, coherent, ?_, _, tells', pends', ?_⟩
    · exact (pending.index.wrote consistent.index consistent.coherent.sound flushed rfl).sameAt kept
    · rw [Log.settle_of_isOk ok]
      exact nothing ▸ pends'

end Pending

/-- Files that hold what is in memory, whatever is left pending over them. -/
theorem Cache.Settled.pending (settled : c.Settled μ stored home d)
    (consistent : c.Consistent μ stored home d) (stands : c.index.log.format = Index.format) :
    Pending μ stored home c d c.memory where
  coherent := consistent.coherent
  index := by
    obtain ⟨told, tells, spells⟩ := settled.index
    rw [← stands] at tells
    exact Index.ahead_of_spells tells spells
  map := by
    obtain ⟨told, tells, covers⟩ := settled.map
    exact ⟨told, tells, covers, covers.pending consistent.map.agrees⟩

end BuildCache
