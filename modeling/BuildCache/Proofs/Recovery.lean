import BuildCache.Proofs.Resets
import BuildCache.Proofs.Verdicts

/-!
The steps of a recovery, whatever lies under the root and whatever is refused. A root that is moved
away becomes the quarantine as it is, or stays where it is; one that is deleted leaves nothing
behind; and in the place of either an empty directory can be made, which loads. Only a refusal comes
between.

For all that the two directories must lie apart, and the ways there must not lead through them: a
way that leads through the root is made again with it.
-/
namespace BuildCache

open Disk Program

variable {cwd r p : Place} {d d' d'' : Disk} {path : Path}

namespace Disk

/-- A walk still arrives if the directories on its way stay. -/
theorem walk_along {here there : Place} {ss : List String} (arrives : d.walk here ss = .ok there)
    (dirs : ∀ ts, ts <+: ss → d.node? (follow here ts) = some .dir →
      d'.node? (follow here ts) = some .dir) : d'.walk here ss = .ok there := by
  have behind {here next : Place} {s : String} {ss : List String}
      (step : ∀ ts, follow here (s :: ts) = follow next ts)
      (dirs : ∀ ts, ts <+: s :: ss → d.node? (follow here ts) = some .dir →
        d'.node? (follow here ts) = some .dir) :
      ∀ ts, ts <+: ss → d.node? (follow next ts) = some .dir →
        d'.node? (follow next ts) = some .dir := by
    intro ts front
    rw [← step]
    exact dirs (s :: ts) (List.prefix_cons_inj s |>.mpr front)
  rw [walk_eq_ok] at arrives ⊢
  induction arrives with
  | done here => exact .done here
  | idle idle _ ih => exact .idle idle (ih (behind (fun ts => by rw [follow, if_pos idle]) dirs))
  | up _ ih =>
    exact .up (ih (behind (fun ts => by rw [follow, if_neg (by decide), if_pos rfl]) dirs))
  | @into here there s ss notIdle notUp found _ ih =>
    have step (ts : List String) : follow here (s :: ts) = follow (here ++ [s]) ts := by
      rw [follow, if_neg notIdle, if_neg notUp]
    have next := dirs [s] (List.prefix_append [s] ss)
    rw [step [], follow] at next
    exact .into notIdle notUp (lookup_mono next found) (ih (behind step dirs))

/-- The stops on a way before its end. -/
def Stop (cwd : Place) (path : Path) (p : Place) : Prop :=
  ∃ ss, ss <+: Path.moves path.segments ∧ ss ≠ Path.moves path.segments ∧
    p = follow (origin cwd path) ss

theorem moves_shape {front : List String} {name : String}
    (shape : solid path.segments = front ++ [name]) :
    Path.moves path.segments = Path.moves front ++ Path.moves [name] := by
  rw [← moves_solid, shape, Path.moves, List.filter_append]
  rfl

theorem moves_front {front ts : List String} {name : String}
    (shape : solid path.segments = front ++ [name]) (before : ts <+: front) :
    Path.moves ts <+: Path.moves path.segments := by
  rw [moves_shape shape]
  exact (before.filter _).trans (List.prefix_append ..)

/-- A path means the same if the directories on its way and at its end stay. -/
theorem resolve_stays {t : Target} (leads : d.resolve cwd path = .ok t)
    (dirs : ∀ q, Station cwd path q → d.node? q = some .dir → d'.node? q = some .dir) :
    d'.resolve cwd path = .ok t := by
  obtain ⟨text, valid, denotes⟩ := resolve_eq_ok.mp leads
  have station {front ts : List String} {name : String}
      (shape : solid path.segments = front ++ [name]) (before : ts <+: front) :
      Station cwd path (follow (origin cwd path) ts) :=
    ⟨text, Path.moves ts, moves_front shape before, (follow_moves ..).symm⟩
  have walks {front : List String} {parent : Place} {name : String}
      (shape : solid path.segments = front ++ [name])
      (arrives : d.walk (origin cwd path) front = .ok parent) :
      d'.walk (origin cwd path) front = .ok parent :=
    walk_along arrives fun ts before => dirs _ (station shape before)
  refine resolve_eq_ok.mpr ⟨text, valid, ?_⟩
  cases denotes with
  | top nameless => exact .top nameless
  | here shape arrives => exact .here shape (walks shape arrives)
  | up shape arrives => exact .up shape (walks shape arrives)
  | named shape notHere notUp arrives dir =>
    have stays := dirs _ (station shape (List.prefix_refl _))
    rw [← eq_follow arrives] at stays
    exact .named shape notHere notUp (walks shape arrives) (stays dir)

/-- A path to a name still leads there if the directories before it stay. -/
theorem resolve_along {slash : Bool} (leads : d.resolve cwd path = .ok (.named p slash))
    (dirs : ∀ q, Stop cwd path q → d.node? q = some .dir → d'.node? q = some .dir) :
    d'.resolve cwd path = .ok (.named p slash) := by
  obtain ⟨text, valid, denotes⟩ := resolve_eq_ok.mp leads
  cases denotes with
  | @named front parent name shape notHere notUp arrives dir =>
    have named : name ≠ "" := by
      apply ne_of_getLast?_solid
      rw [shape, List.getLast?_concat]
    have moves : Path.moves [name] = [name] := by simp [Path.moves, Path.isIdle, named, notHere]
    have stop {ts : List String} (before : ts <+: front) :
        Stop cwd path (follow (origin cwd path) ts) := by
      refine ⟨Path.moves ts, moves_front shape before, ?_, (follow_moves ..).symm⟩
      intro same
      have sub : Path.moves ts <+: Path.moves front := before.filter _
      have := sub.length_le
      rw [same, moves_shape shape, moves, List.length_append, List.length_singleton] at this
      omega
    have walks := walk_along arrives fun ts before => dirs _ (stop before)
    have stays := dirs _ (stop (List.prefix_refl front))
    rw [← eq_follow arrives] at stays
    exact resolve_eq_ok.mpr ⟨text, valid, .named shape notHere notUp walks (stays dir)⟩

end Disk

theorem Station.cases (station : Station cwd path p) : p = goal cwd path ∨ Stop cwd path p := by
  obtain ⟨_, ss, front, rfl⟩ := station
  by_cases whole : ss = Path.moves path.segments
  · rw [whole, follow_moves, goal]
    exact .inl rfl
  · exact .inr ⟨ss, front, whole, rfl⟩

namespace Disk

/-- A directory that is removed is gone itself, if the way there does not lead through it. -/
theorem removeTree_done (isDir : d.isDir cwd path = true)
    (way : ∀ q, Stop cwd path q → ¬ goal cwd path <+: q)
    (done : (d.removeTree cwd path).1 = .ok ()) :
    (∃ slash, d.resolve cwd path = .ok (.named (goal cwd path) slash)) ∧
      (d.removeTree cwd path).2.node? (goal cwd path) = none := by
  have found := find_of_isDir isDir
  obtain ⟨t, leads⟩ := exists_resolve found
  obtain ⟨place, named, _⟩ := resolve_goal leads
  have stays : (d.dropWhere (isUnder t.place)).resolve cwd path = .ok t := by
    refine resolve_stays leads fun q station dir => ?_
    rw [node?_dropWhere d (by simp [isUnder]), if_neg, dir]
    intro under
    rw [place] at under
    rcases Station.cases station with rfl | stop
    · simp [isUnder] at under
    · exact way q stop (isUnder_iff.mp under).1
  simp only [removeTree, leads, found, stays] at done ⊢
  cases t with
  | onTheWay q refusal => cases done
  | named q slash =>
    obtain rfl : q = goal cwd path := place
    obtain ⟨notRoot, _⟩ := named _ slash rfl
    exact ⟨⟨slash, rfl⟩, (node?_erase _ notRoot _).trans (if_pos rfl)⟩

/-- Every name on a walk is one that the system takes, unless the walk only goes up. -/
theorem walk_short {here there : Place} {ss : List String} (arrives : d.walk here ss = .ok there) :
    there <+: here ∨ ∀ s ∈ there, s.utf8ByteSize ≤ nameLimit := by
  rw [walk_eq_ok] at arrives
  induction arrives with
  | done => exact .inl (List.prefix_refl _)
  | idle _ _ ih => exact ih
  | up _ ih => exact ih.imp_left fun front => front.trans (List.dropLast_prefix _)
  | into _ _ found _ ih =>
    refine .inr ?_
    rcases ih with front | short
    · exact fun s mem => (lookup_eq_ok found).1 s (front.mem mem)
    · exact short

theorem valid_of_isDir (isDir : d.isDir cwd path = true) : path.text ≠ "" ∧ Valid path := by
  obtain ⟨t, leads⟩ := exists_resolve (find_of_isDir isDir)
  obtain ⟨text, valid, _⟩ := resolve_eq_ok.mp leads
  exact ⟨text, valid⟩

end Disk

namespace Layout

/-- The two directories lie apart, and the ways there lead through neither. -/
structure Direct (l : Layout) (cwd : Place) : Prop where
  outside : ¬ goal cwd l.root <+: goal cwd l.corruptedRoot
  inside : ¬ goal cwd l.corruptedRoot <+: goal cwd l.root
  start : ¬ goal cwd l.root <+: origin cwd l.root
  way : ∀ p, Stop cwd l.root p →
    ¬ goal cwd l.root <+: p ∧ ¬ goal cwd l.corruptedRoot <+: p
  quarantineWay : ∀ parent, l.corruptedRoot.parent? = some parent → ∀ p, Station cwd parent p →
    ¬ isUnder (goal cwd l.root) p

/-- The system takes the paths of the files as well. -/
structure Clear (l : Layout) (cwd : Place) : Prop extends l.Direct cwd where
  short : ∀ file ∈ [l.indexFile, l.indexJournalFile, l.cacheFile, l.journalFile],
    file.text.utf8ByteSize ≤ pathLimit

variable {l : Layout}

/-- The root is a directory. -/
structure There (l : Layout) (cwd : Place) (d : Disk) : Prop where
  sound : d.Sound
  start : d.node? (origin cwd l.root) = some .dir
  isDir : d.isDir cwd l.root = true

/-- The root is an empty directory. -/
structure Bare (l : Layout) (cwd : Place) (d : Disk) : Prop extends l.There cwd d where
  bare : ∀ p, isUnder (goal cwd l.root) p → d.node? p = none

theorem There.arrives (there : l.There cwd d) : d.Arrives cwd l.root (goal cwd l.root) := by
  obtain ⟨text, valid⟩ := valid_of_isDir there.isDir
  obtain ⟨r, arrives⟩ := (isDir_iff there.sound there.start text valid).mp there.isDir
  have same : r = goal cwd l.root := Arrives.eq_goal arrives
  exact same ▸ arrives

theorem There.dir (there : l.There cwd d) : d.node? (goal cwd l.root) = some .dir :=
  there.arrives.dir there.sound there.start

theorem There.short (there : l.There cwd d) (direct : l.Direct cwd) :
    ∀ s ∈ goal cwd l.root, s.utf8ByteSize ≤ nameLimit := by
  rcases walk_short there.arrives with front | short
  · exact absurd front direct.start
  · exact short

theorem noNul_join {base : Path} {name : String} (valid : Valid base)
    (noNul : '\x00' ∉ name.toList) : '\x00' ∉ (base.join ⟨name⟩).text.toList := by
  have before := valid.noNul
  unfold Path.join
  split
  · exact noNul
  split
  · simp [before, noNul]
  · simp [before, noNul]

theorem Bare.contentAt (bare : l.Bare cwd d) (clear : l.Clear cwd) (name : String)
    (mem : name ∈ names) (noNul : '\x00' ∉ name.toList)
    (short : (l.root.join ⟨name⟩).text.utf8ByteSize ≤ pathLimit) :
    d.contentAt cwd (l.root.join ⟨name⟩) = .ok [] := by
  have absent : d.node? (goal cwd l.root ++ [name]) = none :=
    bare.bare _ (isUnder_append (List.cons_ne_nil _ _))
  have valid := (valid_of_isDir bare.isDir).2
  have leads := bare.arrives.leads bare.dir (Path.ends_join l.root (plain_of_mem mem))
    (plain_of_mem mem) ⟨noNul_join valid noNul, short⟩ (fun s inside => by
      rcases List.mem_append.mp inside with inside | inside
      · exact bare.toThere.short clear.toDirect s inside
      · rw [List.mem_singleton.mp inside]
        exact short_of_mem mem) (by rw [absent]; exact nofun)
  rw [leads.contentAt, content, file?, absent]

/-- An empty directory holds an empty cache. -/
theorem Bare.verdict (bare : l.Bare cwd d) (clear : l.Clear cwd) :
    l.verdict cwd d = .ok .empty := by
  have index := bare.contentAt clear "filename_index.bin" (by decide) (by decide)
    (clear.short _ (by simp [indexFile]))
  have indexJournal := bare.contentAt clear "filename_index_journal.bin" (by decide)
    (by decide) (clear.short _ (by simp [indexJournalFile]))
  have cache := bare.contentAt clear "action_cache.bin" (by decide) (by decide)
    (clear.short _ (by simp [cacheFile]))
  have journal := bare.contentAt clear "action_journal.bin" (by decide) (by decide)
    (clear.short _ (by simp [journalFile]))
  simp only [Layout.verdict, Index.verdict, Log.verdict, indexFiles, mapFiles, indexFile,
    indexJournalFile, cacheFile, journalFile, index, indexJournal, cache, journal]
  rfl

end Layout

namespace Program
variable {faults : Faults}

theorem Always.and {α : Type} {p : Program α} {P Q : α → Disk → Prop}
    (first : Always faults cwd p d P) (second : Always faults cwd p d Q) :
    Always faults cwd p d fun a d' => P a d' ∧ Q a d' :=
  fun a d' run => ⟨first a d' run, second a d' run⟩

/-- A directory is made at once if everything on the way to it is there, or it is refused. -/
theorem always_makeDirs_of_named {slash : Bool} (text : path.text ≠ "")
    (leads : d.resolve cwd path = .ok (.named p slash)) (absent : d.node? p = none)
    (short : ∀ s ∈ p, s.utf8ByteSize ≤ nameLimit) :
    Always faults cwd (makeDirs path) d fun res _ =>
      res = .ok () ∨ faults.refusals ∧ ∃ e, res = .error e := by
  have found : d.lookup p = .ok none := by rw [lookup_of_short short, absent]
  have made : d.makeDir cwd path = .ok (d.put p .dir) := by
    rw [Disk.makeDir, leads]
    simp only [Bind.bind, Except.bind, found]
    rfl
  have answered : ∀ reply d', d.Answers faults cwd (.makeDir path) reply d' →
      reply = .ok () ∨ faults.refusals ∧ ∃ e, e ≠ .notFound ∧ reply = .error e := by
    intro reply d' answer
    cases answer with
    | refused _ e _ may other refusal =>
      cases refusal
      exact .inr ⟨may, e, other, rfl⟩
    | served clock => exact .inl (by simp only [Host.answer, Host.change, made, Except.map])
  have single : Always faults cwd (Program.makeDir path) d fun res _ =>
      res = .ok () ∨ faults.refusals ∧ ∃ e, e ≠ .notFound ∧ res = .error e := by
    refine Always.bind (always_request.mpr answered) ?_
    rintro reply d' (rfl | ⟨may, e, other, rfl⟩)
    · exact always_pure.mpr (.inl rfl)
    · refine Always.bind (P := fun _ _ => True) (fun _ _ _ => trivial) fun is d' _ => ?_
      cases is with
      | true => exact always_pure.mpr (.inl rfl)
      | false => exact always_pure.mpr (.inr ⟨may, e, other, rfl⟩)
  unfold makeDirs makeDirsFrom
  rw [if_neg text]
  refine Always.bind single ?_
  rintro res d' (rfl | ⟨may, e, other, rfl⟩)
  · exact always_pure.mpr (.inl rfl)
  · cases e <;> first
      | exact absurd rfl other
      | exact always_pure.mpr (.inr ⟨may, _, rfl⟩)

theorem answers_rename_cases {source target : Path} {reply : Except OsError Unit}
    (answer : d.Answers faults cwd (.rename source target) reply d') :
    (∃ e, reply = .error e ∧ d' = d) ∨ reply = .ok () ∧ d.rename cwd source target = .ok d' := by
  cases answer with
  | refused _ e _ may other refusal =>
    cases refusal
    exact .inl ⟨e, rfl, rfl⟩
  | served clock =>
    cases moved : d.rename cwd source target with
    | error e =>
      simp [Host.answer, Host.change, moved, Except.map]
    | ok d' =>
      simp [Host.answer, Host.change, moved, Except.map]

end Program

theorem Disk.rename_named {source target : Path} (done : d.rename cwd source target = .ok d') :
    ∃ p slash, d.resolve cwd source = .ok (.named p slash) := by
  rw [Disk.rename] at done
  obtain ⟨t, leads, done⟩ := bind_eq_ok.mp done
  cases t with
  | named p slash => exact ⟨p, slash, leads⟩
  | onTheWay place refusal =>
    obtain ⟨t', _, done⟩ := bind_eq_ok.mp done
    cases t' <;> cases done

namespace Disk

theorem Widened.same {at_ : Place → Prop} (widened : Widened at_ d d') (away : ¬at_ p) :
    d'.node? p = d.node? p := by
  cases here : d.node? p with
  | some n => exact widened.kept p n here
  | none =>
    rcases widened.new p here with absent | ⟨_, station⟩
    · exact absent
    · exact absurd station away

end Disk

namespace Layout
variable {l : Layout}

theorem Direct.text (direct : l.Direct cwd) : l.root.text ≠ "" := by
  intro empty
  apply direct.start
  have segments : l.root.segments = [""] := by
    rw [Path.segments, empty]
    rfl
  rw [goal, segments]
  exact List.prefix_refl _

theorem Direct.origin (direct : l.Direct cwd) : ¬ goal cwd l.corruptedRoot <+: origin cwd l.root := by
  refine (direct.way _ ⟨[], List.nil_prefix, fun whole => direct.start ?_, rfl⟩).2
  rw [goal, ← follow_moves, ← whole]
  exact List.prefix_refl _

theorem Direct.parted (direct : l.Direct cwd) :
    Parted (goal cwd l.root) (goal cwd l.corruptedRoot) :=
  ⟨direct.outside, direct.inside⟩

/-- Making the root leaves what is in it alone, and the quarantine. -/
theorem Direct.station (direct : l.Direct cwd) (station : Station cwd l.root p) :
    ¬ isUnder (goal cwd l.root) p ∧ ¬ goal cwd l.corruptedRoot <+: p := by
  rcases station.cases with rfl | stop
  · exact ⟨by simp [isUnder], direct.inside⟩
  · obtain ⟨notRoot, notQuarantine⟩ := direct.way p stop
    exact ⟨fun under => notRoot (isUnder_iff.mp under).1, notQuarantine⟩

/-- The root was made, if it was not there. -/
structure Made (l : Layout) (cwd : Place) (d d' : Disk) : Prop extends l.There cwd d' where
  widened : Widened (Station cwd l.root) d d'
  same : d.isDir cwd l.root = true → d' = d

/-- Nothing is in the place of the root, and the way there is open. -/
structure Freed (l : Layout) (cwd : Place) (d : Disk) : Prop where
  sound : d.Sound
  start : d.node? (Disk.origin cwd l.root) = some .dir
  way : ∃ slash, d.resolve cwd l.root = .ok (.named (goal cwd l.root) slash)
  gone : ∀ p, goal cwd l.root <+: p → d.node? p = none

/-- Making a parent for the quarantine leaves the root alone. -/
theorem Direct.same_of_parent {parent : Path} (direct : l.Direct cwd)
    (up : l.corruptedRoot.parent? = some parent) (widened : Widened (Station cwd parent) d d')
    (dir : d.node? (goal cwd l.root) = some .dir) (under : goal cwd l.root <+: p) :
    d'.node? p = d.node? p := by
  by_cases same : p = goal cwd l.root
  · rw [same, dir, widened.kept _ _ dir]
  · exact widened.same fun station =>
      direct.quarantineWay parent up p station (isUnder_of_ne under (Ne.symm same))

/-- A root that is renamed is the quarantine as it was, and its own place is free. -/
theorem Direct.freed_of_rename (direct : l.Direct cwd) (sound : d.Sound)
    (start : d.node? (Disk.origin cwd l.root) = some .dir)
    (done : d.rename cwd l.root l.corruptedRoot = .ok d') : l.Freed cwd d' ∧
      ∀ below, d'.node? (goal cwd l.corruptedRoot ++ below) = d.node? (goal cwd l.root ++ below) := by
  have shifted := rename_shifted sound done direct.outside
  have elsewhere {p : Place} (notRoot : ¬ goal cwd l.root <+: p)
      (notQuarantine : ¬ goal cwd l.corruptedRoot <+: p) : d'.node? p = d.node? p := by
    rw [shifted.nodes, if_neg notQuarantine, if_neg notRoot]
  obtain ⟨place, slash, leads⟩ := Disk.rename_named done
  obtain ⟨rfl, _⟩ : place = goal cwd l.root ∧ _ := resolve_goal leads
  refine ⟨⟨shifted.sound, ?_, ⟨slash, ?_⟩, fun p under => ?_⟩, fun below => ?_⟩
  · exact (elsewhere direct.start direct.origin).trans start
  · refine resolve_along leads fun q stop dir => ?_
    obtain ⟨notRoot, notQuarantine⟩ := direct.way q stop
    exact (elsewhere notRoot notQuarantine).trans dir
  · rw [shifted.nodes, if_neg (direct.parted.apart under), if_pos under]
  · rw [shifted.nodes, if_pos (List.prefix_append ..), List.drop_left]

/-- Why a load fails: the first stage that does, or a file that could not be read. -/
inductive Fails (l : Layout) (faults : Faults) (cwd : Place) (d : Disk) : StoreError → Prop
  | judged {cause : StoreError} (verdict : l.verdict cwd d = .error cause) :
    Fails l faults cwd d cause
  | unread (may : faults.refusals) (stage : String) (file : Path) (refusal : OsError) :
    Fails l faults cwd d (.loading stage (.io file refusal))

theorem Fails.verdict_eq {cause : StoreError} (fails : l.Fails .none cwd d cause) :
    l.verdict cwd d = .error cause := by
  cases fails with
  | judged verdict => exact verdict
  | unread may => exact may.elim

end Layout

theorem Log.io_of_atPath {α : Type} {x : Except OsError α} {e : StoreError}
    (refused : Log.atPath path x = .error e) : ∃ cause, e = .io path cause := by
  cases x with
  | ok a => cases refused
  | error cause =>
    cases refused
    exact ⟨cause, rfl⟩

namespace Cache
variable {faults : Faults} {layout : Layout}

theorem always_io_makeDirs : Always faults cwd (Cache.makeDirs path) d fun res _ =>
    ∀ e, res = .error e → ∃ cause, e = .io path cause :=
  always_bind.mpr fun _ _ _ => always_pure.mpr fun _ => Log.io_of_atPath

theorem always_io_removeTreeIfExists : Always faults cwd (removeTreeIfExists path) d fun res _ =>
    ∀ e, res = .error e → ∃ cause, e = .io path cause :=
  always_bind.mpr fun _ _ _ => always_pure.mpr fun _ => Log.io_of_atPath

theorem always_made (direct : layout.Direct cwd) (sound : d.Sound)
    (start : d.node? (origin cwd layout.root) = some .dir) :
    Always faults cwd (Cache.makeDirs layout.root) d fun res d' =>
      Widened (Station cwd layout.root) d d' ∧
        (d.isDir cwd layout.root = false ∧ (∃ cause, res = .error (.io layout.root cause)) ∨
          res = .ok () ∧ layout.Made cwd d d') := by
  have same : Always faults cwd (Cache.makeDirs layout.root) d fun res d' =>
      d.isDir cwd layout.root = true → d' = d ∧ res = .ok () := by
    by_cases isDir : d.isDir cwd layout.root = true
    · exact (always_makeDirs_of_isDir isDir).mono fun _ _ made _ => made
    · exact fun _ _ _ there => absurd there isDir
  refine (((always_makeDirs sound).and always_io_makeDirs).and same).mono ?_
  rintro res d' ⟨⟨⟨widened, made⟩, io⟩, same⟩
  refine ⟨widened, ?_⟩
  cases res with
  | error e =>
    obtain ⟨cause, rfl⟩ := io e rfl
    refine .inl ⟨?_, cause, rfl⟩
    cases isDir : d.isDir cwd layout.root with
    | false => rfl
    | true => cases (same isDir).2
  | ok u =>
    exact .inr ⟨rfl, ⟨widened.sound, widened.kept _ _ start, made rfl direct.text⟩, widened,
      fun isDir => (same isDir).1⟩

/-- A root that is moved away takes the place of the last one, as it is; otherwise it stays. -/
theorem always_quarantined (direct : layout.Direct cwd) (there : layout.There cwd d) :
    Always faults cwd (moveAway layout) d fun res d' =>
      res = .ok () ∧ layout.Freed cwd d' ∧ (∀ below,
          d'.node? (goal cwd layout.corruptedRoot ++ below) =
            d.node? (goal cwd layout.root ++ below)) ∨
        (∃ p cause, res = .error (.io p cause)) ∧ ∀ p, goal cwd layout.root <+: p →
          d'.node? p = d.node? p := by
  have apart {d₁ : Disk} (pruned : Pruned (goal cwd layout.corruptedRoot) d d₁) :
      ∀ p, goal cwd layout.root <+: p → d₁.node? p = d.node? p :=
    fun p under => pruned.elsewhere p (direct.parted.apart under)
  have origin {d₁ : Disk} (pruned : Pruned (goal cwd layout.corruptedRoot) d d₁) :
      d₁.node? (origin cwd layout.root) = some .dir :=
    (pruned.elsewhere _ direct.origin).trans there.start
  refine always_moveAway_of
    ((always_removeTreeIfExists there.sound).and always_io_removeTreeIfExists)
    (M := fun made d₂ => d₂.Sound ∧ d₂.node? (Disk.origin cwd layout.root) = some .dir ∧
      (∀ p, goal cwd layout.root <+: p → d₂.node? p = d.node? p) ∧
      ∀ e, made = .error e → ∃ p cause, e = .io p cause) ?_ ?_ ?_ ?_ ?_
  · rintro e d₁ ⟨⟨pruned, _⟩, io⟩
    obtain ⟨cause, rfl⟩ := io e rfl
    exact .inr ⟨⟨_, cause, rfl⟩, apart pruned⟩
  · rintro d₁ ⟨⟨pruned, _⟩, _⟩
    exact ⟨pruned.sound, origin pruned, apart pruned, fun e failed => by cases failed⟩
  · rintro d₁ parent ⟨⟨pruned, _⟩, _⟩ up
    refine ((always_makeDirs pruned.sound).and always_io_makeDirs).mono ?_
    rintro made d₂ ⟨⟨widened, _⟩, io⟩
    have dir := (apart pruned _ (List.prefix_refl _)).trans there.dir
    refine ⟨widened.sound, widened.kept _ _ (origin pruned), fun p under => ?_,
      fun e failed => ⟨parent, io e failed⟩⟩
    exact (direct.same_of_parent up widened dir under).trans (apart pruned p under)
  · rintro e d₂ ⟨_, _, inside, io⟩
    obtain ⟨p, cause, rfl⟩ := io e rfl
    exact .inr ⟨⟨p, cause, rfl⟩, inside⟩
  · rintro d₂ ⟨sound, start, inside, _⟩ reply d₃ answer
    rcases answers_rename_cases answer with ⟨e, rfl, rfl⟩ | ⟨rfl, done⟩
    · exact .inr ⟨⟨_, e, rfl⟩, inside⟩
    · obtain ⟨freed, moved⟩ := direct.freed_of_rename sound start done
      exact .inl ⟨rfl, freed, fun below => (moved below).trans (inside _ (List.prefix_append ..))⟩

/-- A root that is removed leaves nothing behind, and nothing else goes. -/
theorem always_removed (direct : layout.Direct cwd) (there : layout.There cwd d) :
    Always faults cwd (removeTreeIfExists layout.root) d fun res d' =>
      (∀ p, ¬ goal cwd layout.root <+: p → d'.node? p = d.node? p) ∧
        (res = .ok () → layout.Freed cwd d') := by
  have removed : ∀ reply d', d.Answers faults cwd (.removeTree layout.root) reply d' →
      Pruned (goal cwd layout.root) d d' ∧ reply ≠ .error .notFound ∧
        (reply = .ok () → layout.Freed cwd d') := by
    intro reply d' answer
    obtain ⟨pruned, gone, known⟩ := answers_removeTree there.sound answer
    refine ⟨pruned, known there.isDir, fun done => ?_⟩
    have kept {q : Place} (away : ¬ goal cwd layout.root <+: q) := pruned.elsewhere q away
    cases answer with
    | refused _ e _ may other refusal =>
      cases refusal
      cases done
    | served clock =>
      obtain ⟨⟨slash, leads⟩, top⟩ := removeTree_done there.isDir (fun q stop => (direct.way q stop).1) done
      refine ⟨pruned.sound, (kept direct.start).trans there.start, ⟨slash, ?_⟩, fun p under => ?_⟩
      · exact resolve_along leads fun q stop dir => (kept (direct.way q stop).1).trans dir
      · by_cases same : p = goal cwd layout.root
        · exact same ▸ top
        · exact gone done p (isUnder_of_ne under (Ne.symm same))
  refine Always.bind (always_request.mpr removed) ?_
  rintro reply d' ⟨pruned, known, freed⟩
  refine always_pure.mpr ⟨pruned.elsewhere, fun done => freed ?_⟩
  cases reply with
  | ok u => rfl
  | error e => cases e <;> first | exact absurd rfl known | cases done

/-- What a recovery has made of the files under the root, and its messages. -/
inductive Cleared (layout : Layout) (cwd : Place) (d : Disk) (cause : StoreError) :
    List Diagnostic → Disk → Prop
  /-- Files of another version are gone, and the quarantine is as it was. -/
  | deleted {d' : Disk} (version : cause.isIncompatible)
      (untouched : ∀ p, goal cwd layout.corruptedRoot <+: p → d'.node? p = d.node? p) :
    Cleared layout cwd d cause [] d'
  /-- Any others are the quarantine now. -/
  | quarantined {d' : Disk} (other : ¬cause.isIncompatible)
      (isDir : d'.node? (goal cwd layout.corruptedRoot) = some .dir)
      (moved : ∀ below, below ≠ [] → d'.node? (goal cwd layout.corruptedRoot ++ below) =
        d.node? (goal cwd layout.root ++ below)) :
    Cleared layout cwd d cause [movedAway cause] d'

/-- Changes before it that spare both directories do not matter to it, nor do changes behind it that
spare the quarantine. -/
theorem Cleared.between {e : Disk} {cause : StoreError} {messages : List Diagnostic}
    (cleared : Cleared layout cwd d cause messages d')
    (before : ∀ p, isUnder (goal cwd layout.root) p ∨ goal cwd layout.corruptedRoot <+: p →
      d.node? p = e.node? p)
    (behind : ∀ p, goal cwd layout.corruptedRoot <+: p → d''.node? p = d'.node? p) :
    Cleared layout cwd e cause messages d'' := by
  cases cleared with
  | deleted version untouched =>
    refine .deleted version fun p under => ?_
    rw [behind p under, untouched p under, before p (.inr under)]
  | quarantined other isDir moved =>
    refine .quarantined other ((behind _ (List.prefix_refl _)).trans isDir) fun below more => ?_
    rw [behind _ (List.prefix_append ..), moved below more, before _ (.inl (isUnder_append more))]

/-- A recovery frees the place of the root, or says what was refused. Then files of another version
may be gone in part, and all others are where they were. -/
theorem always_recovered (direct : layout.Direct cwd) (there : layout.There cwd d)
    (cause : StoreError) :
    Always faults cwd (recover layout cause) d fun res d' =>
      (∃ messages, res = .ok messages ∧ layout.Freed cwd d' ∧
        Cleared layout cwd d cause messages d') ∨
      cause.isIncompatible ∧ (∃ refusal, res = .error (.io layout.root refusal)) ∧
        (∀ p, goal cwd layout.corruptedRoot <+: p → d'.node? p = d.node? p) ∨
      ¬cause.isIncompatible ∧ (∃ p refusal, res = .error (.io p refusal)) ∧
        ∀ p, goal cwd layout.root <+: p → d'.node? p = d.node? p := by
  unfold recover
  by_cases version : cause.isIncompatible = true
  · rw [if_pos version]
    refine Always.bind ((always_removed direct there).and always_io_removeTreeIfExists) ?_
    rintro res d' ⟨⟨kept, freed⟩, io⟩
    have untouched : ∀ p, goal cwd layout.corruptedRoot <+: p → d'.node? p = d.node? p :=
      fun p under => kept p fun under' => direct.parted.apart under' under
    cases res with
    | error e =>
      obtain ⟨refusal, rfl⟩ := io e rfl
      exact always_pure.mpr (.inr (.inl ⟨version, ⟨refusal, rfl⟩, untouched⟩))
    | ok u => exact always_pure.mpr (.inl ⟨[], rfl, freed rfl, .deleted version untouched⟩)
  · rw [if_neg version]
    refine Always.bind (always_quarantined direct there) ?_
    rintro res d' (⟨rfl, freed, moved⟩ | ⟨⟨p, refusal, rfl⟩, kept⟩)
    · refine always_pure.mpr (.inl ⟨_, rfl, freed, .quarantined version ?_ fun below _ => moved below⟩)
      have top := moved []
      rwa [List.append_nil, List.append_nil, there.dir] at top
    · exact always_pure.mpr (.inr (.inr ⟨version, ⟨p, refusal, rfl⟩, kept⟩))

/-- In the place of a root that is gone an empty one can be made, if that is not refused. -/
theorem always_made_anew (direct : layout.Direct cwd)
    (short : ∀ s ∈ goal cwd layout.root, s.utf8ByteSize ≤ nameLimit)
    (freed : layout.Freed cwd d) :
    Always faults cwd (Cache.makeDirs layout.root) d fun res d' =>
      (∀ p, goal cwd layout.corruptedRoot <+: p → d'.node? p = d.node? p) ∧
        (res = .ok () ∧ layout.Bare cwd d' ∨
          faults.refusals ∧ ∃ refusal, res = .error (.io layout.root refusal)) := by
  obtain ⟨slash, way⟩ := freed.way
  have made : Always faults cwd (Cache.makeDirs layout.root) d fun res _ =>
      res = .ok () ∨ faults.refusals := by
    refine Always.bind (always_makeDirs_of_named direct.text way
      (freed.gone _ (List.prefix_refl _)) short) ?_
    rintro res d' (rfl | ⟨may, _⟩)
    · exact always_pure.mpr (.inl rfl)
    · exact always_pure.mpr (.inr may)
  refine ((always_made direct freed.sound freed.start).and made).mono ?_
  rintro res d' ⟨⟨widened, ended⟩, done⟩
  refine ⟨fun p under => widened.same fun station => (direct.station station).2 under, ?_⟩
  rcases ended with ⟨_, refused⟩ | ⟨rfl, made⟩
  · refine .inr ⟨done.resolve_left fun ok => ?_, refused⟩
    obtain ⟨cause, rfl⟩ := refused
    cases ok
  · refine .inl ⟨rfl, made.toThere, fun p under => ?_⟩
    rw [widened.same fun station => (direct.station station).1 under]
    exact freed.gone p (isUnder_iff.mp under).1

theorem always_load_or_fails (layout : Layout) (options : Options) :
    Always faults cwd (load layout options) d fun res d' => d' = d ∧
      ((∃ c, res = .ok c ∧ layout.verdict cwd d = .ok c.memory) ∨
        ∃ cause, res = .error cause ∧ layout.Fails faults cwd d cause) := by
  refine (always_told layout options).mono ?_
  rintro res d' ⟨rfl, same | ⟨may, stage, file, refusal, rfl⟩⟩
  · refine ⟨rfl, ?_⟩
    cases res with
    | ok c => exact .inl ⟨c, rfl, same.symm⟩
    | error cause => exact .inr ⟨cause, rfl, .judged same.symm⟩
  · exact ⟨rfl, .inr ⟨_, rfl, .unread may stage file refusal⟩⟩

/-- An empty root loads, as often as it is tried, unless it is refused a file. -/
theorem always_load_of_bare (clear : layout.Clear cwd) (bare : layout.Bare cwd d)
    (options : Options) : Always faults cwd (load layout options) d fun res d' => d' = d ∧
      ((∃ c, res = .ok c ∧ c.memory = .empty) ∨ faults.refusals ∧
        ∃ stage file refusal, res = .error (.loading stage (.io file refusal))) := by
  refine (always_told layout options).mono ?_
  rintro res d' ⟨rfl, same | refused⟩
  · rw [bare.verdict clear] at same
    cases res with
    | error e => cases same
    | ok c => exact ⟨rfl, .inl ⟨c, rfl, Except.ok.inj same⟩⟩
  · exact ⟨rfl, .inr refused⟩

theorem always_open_of_bare (clear : layout.Clear cwd) (bare : layout.Bare cwd d)
    (options : Options) : Always .none cwd (Cache.open layout options) d fun res d' => d' = d ∧
      ∃ c, res = (.ok c, []) ∧ c.memory = .empty := by
  refine always_open_of_loadOrReset ?_ ?_
  · rintro c messages ms d' ⟨same, c', whole, empty⟩
    cases whole
    exact ⟨same, _, rfl, empty⟩
  refine Always.bind (always_makeDirs_of_isDir bare.isDir) ?_
  rintro res d' ⟨rfl, rfl⟩
  refine Always.bind (always_load_of_bare clear bare options) ?_
  rintro res d' ⟨rfl, ⟨c, rfl, empty⟩ | ⟨may, _⟩⟩
  · exact always_pure.mpr ⟨rfl, c, rfl, empty⟩
  · exact may.elim

end Cache
end BuildCache
