import BuildCache.Proofs.Changing
import BuildCache.Proofs.Paths

/-!
Where a layout keeps its files. Once the root is a directory that a walk arrives at, each file of
the layout has its place right in it, and the places are six different ones.
-/
namespace BuildCache

namespace Disk
variable {d d' : Disk} {cwd r : Place} {path : Path}

theorem walk_append (d : Disk) (here : Place) (ss ts : List String) :
    d.walk here (ss ++ ts) = d.walk here ss >>= fun there => d.walk there ts := by
  induction ss generalizing here with
  | nil => rfl
  | cons s ss ih =>
    rw [List.cons_append, walk, walk]
    split
    · exact ih here
    · split
      · exact ih _
      · split <;> first | rfl | exact ih _

/-- Every walk from a directory stays in directories. -/
theorem walk_dir (sound : d.Sound) {here there : Place} {ss : List String}
    (dir : d.node? here = some .dir) (arrives : d.walk here ss = .ok there) :
    d.node? there = some .dir := by
  rw [walk_eq_ok] at arrives
  induction arrives with
  | done => exact dir
  | idle _ _ ih => exact ih dir
  | up _ ih => exact ih (sound.tree _ (by simp [dir]))
  | into _ _ found _ ih => exact ih (lookup_eq_ok found).2

/-- The path leads to a directory, over directories all the way. -/
def Arrives (d : Disk) (cwd : Place) (path : Path) (r : Place) : Prop :=
  d.walk (origin cwd path) path.segments = .ok r

theorem Arrives.dir (arrives : d.Arrives cwd path r) (sound : d.Sound)
    (start : d.node? (origin cwd path) = some .dir) : d.node? r = some .dir :=
  walk_dir sound start arrives

theorem moves_solid (ss : List String) : Path.moves (solid ss) = Path.moves ss := by
  have front (ts : List String) : Path.moves (ts.dropWhile (· = "")) = Path.moves ts := by
    induction ts with
    | nil => rfl
    | cons t ts ih =>
      by_cases empty : t = ""
      · rw [List.dropWhile_cons_of_pos (by simpa using empty), ih]
        simp [Path.moves, empty, Path.isIdle]
      · rw [List.dropWhile_cons_of_neg (by simpa using empty)]
  rw [solid, Path.moves, List.filter_reverse, ← Path.moves, front, Path.moves,
    List.filter_reverse, List.reverse_reverse]
  rfl

theorem walk_solid (d : Disk) (here : Place) (ss : List String) :
    d.walk here (solid ss) = d.walk here ss := by
  rw [← walk_moves, moves_solid, walk_moves]

theorem ne_of_getLast?_solid {ss : List String} {name : String}
    (last : (solid ss).getLast? = some name) : name ≠ "" := by
  intro empty
  have stop := List.head?_dropWhile_not (fun s : String => decide (s = "")) ss.reverse
  rw [solid, List.getLast?_reverse] at last
  rw [last] at stop
  simp [empty] at stop

/-- What a path resolves to, by what a walk along all its segments comes to. -/
theorem isDir_iff (sound : d.Sound) (start : d.node? (origin cwd path) = some .dir)
    (text : path.text ≠ "") (valid : Valid path) :
    d.isDir cwd path = true ↔ ∃ r, d.Arrives cwd path r := by
  unfold Arrives
  rw [← walk_solid, isDir, find, resolve, if_neg text, if_neg (by simpa using valid.noNul),
    if_neg (Nat.not_lt.mpr valid.short)]
  dsimp only
  rw [← origin, ← solid]
  cases last : (solid path.segments).getLast? with
  | none =>
    have nothing : solid path.segments = [] := List.getLast?_eq_none_iff.mp last
    rw [nothing]
    simp [bind, Except.bind, walk, pure, Except.pure]
  | some name =>
    obtain ⟨front, whole⟩ := List.getLast?_eq_some_iff.mp last
    have named := ne_of_getLast?_solid last
    rw [whole, List.dropLast_concat, walk_append]
    cases arrives : d.walk (origin cwd path) front with
    | error e => simp [bind, Except.bind]
    | ok parent =>
      have dir := walk_dir sound start arrives
      simp only [bind, Except.bind, walk, named, false_or]
      by_cases here : name = "."
      · simp [here, pure, Except.pure]
      by_cases up : name = ".."
      · simp [up, pure, Except.pure]
      simp only [here, up, dir, if_false, ne_eq, not_true_eq_false, pure, Except.pure]
      cases d.lookup (parent ++ [name]) with
      | error e => simp
      | ok node =>
        cases node with
        | none => simp [throw, throwThe, MonadExceptOf.throw]
        | some n =>
          cases n with
          | dir => simp
          | file h c =>
            generalize decide ((front ++ [name]).length < path.segments.length) = slash
            cases slash <;> simp [throw, throwThe, MonadExceptOf.throw]

/-- A directory that is there cannot be made. -/
theorem makeDir_of_isDir (isDir : d.isDir cwd path = true) :
    ∃ e, d.makeDir cwd path = .error e := by
  rw [Disk.isDir, find] at isDir
  rw [makeDir]
  cases leads : d.resolve cwd path with
  | error e => exact ⟨e, rfl⟩
  | ok target =>
    rw [leads] at isDir
    cases target with
    | onTheWay => exact ⟨_, rfl⟩
    | named place slash =>
      simp only [bind, Except.bind] at isDir ⊢
      cases found : d.lookup place with
      | error e => exact ⟨e, rfl⟩
      | ok node =>
        rw [found] at isDir
        cases node with
        | none => cases isDir
        | some n => exact ⟨_, rfl⟩

theorem Arrives.mono (arrives : d.Arrives cwd path r)
    (dirs : ∀ p, d.node? p = some .dir → d'.node? p = some .dir) : d'.Arrives cwd path r :=
  walk_mono dirs arrives

/-- A file behind a directory that a path arrives at. -/
theorem Arrives.leads {base : Path} {name : String} (arrives : d.Arrives cwd base r)
    (dir : d.node? r = some .dir)
    (ends : path.Ends base.isAbsolute (Path.moves base.segments) name) (plain : Path.Plain name)
    (valid : Valid path) (short : ∀ s ∈ r ++ [name], s.utf8ByteSize ≤ nameLimit)
    (notDir : d.node? (r ++ [name]) ≠ some .dir) : d.Leads cwd path (r ++ [name]) where
  resolve := resolve_ends ends plain valid (by rw [walk_moves]; exact arrives) dir
  short := short
  parent := by rw [List.dropLast_concat]; exact dir
  notDir := notDir

end Disk

open Disk

/-- The files of a log in one directory. -/
def Shelf.under (r : Place) (snapshot journal : String) : Shelf :=
  ⟨r ++ [snapshot], r ++ [journal], r ++ [snapshot ++ ".tmp"]⟩

namespace Layout

/-- The names of the files, the temporary ones included. -/
def names : List String :=
  ["filename_index.bin", "filename_index_journal.bin", "filename_index.bin" ++ ".tmp",
    "action_cache.bin", "action_journal.bin", "action_cache.bin" ++ ".tmp"]

def paths (l : Layout) : List Path :=
  [l.root, l.indexFile, l.indexJournalFile, Log.temporary l.indexFile, l.cacheFile,
    l.journalFile, Log.temporary l.cacheFile]

/-- Where the files are, if the root is at `r`. -/
def home (r : Place) : Home :=
  ⟨.under r "filename_index.bin" "filename_index_journal.bin",
    .under r "action_cache.bin" "action_journal.bin"⟩

/-- The root of the layout is a directory at `r`. -/
structure Rooted (l : Layout) (cwd r : Place) (d : Disk) : Prop where
  sound : d.Sound
  start : d.node? (origin cwd l.root) = some .dir
  arrives : d.Arrives cwd l.root r
  text : l.root.text ≠ ""
  valid : ∀ p ∈ l.paths, Valid p
  short : ∀ s ∈ r, s.utf8ByteSize ≤ nameLimit

/-- None of the layout's files is a directory. -/
structure Lives (l : Layout) (cwd r : Place) (d : Disk) : Prop extends l.Rooted cwd r d where
  free : ∀ name ∈ names, d.node? (r ++ [name]) ≠ some .dir

/-- The root of the layout is an empty directory. -/
structure Empty (l : Layout) (cwd r : Place) (d : Disk) : Prop extends l.Rooted cwd r d where
  bare : ∀ name, d.node? (r ++ [name]) = none

theorem plain_of_mem {name : String} (mem : name ∈ names) : Path.Plain name := by
  have all : ∀ s ∈ names, s ≠ "" ∧ s ≠ "." ∧ s ≠ ".." ∧ '/' ∉ s.toList := by decide
  obtain ⟨nonempty, notHere, notUp, slashless⟩ := all name mem
  exact ⟨nonempty, notHere, notUp, slashless⟩

theorem short_of_mem {name : String} (mem : name ∈ names) : name.utf8ByteSize ≤ nameLimit := by
  have all : ∀ s ∈ names, s.utf8ByteSize ≤ nameLimit := by decide
  exact all name mem

variable {l : Layout} {cwd r : Place} {d d' : Disk}

theorem Empty.lives (empty : l.Empty cwd r d) : l.Lives cwd r d where
  toRooted := empty.toRooted
  free name _ := by
    rw [empty.bare name]
    exact nofun

theorem Lives.touches {places : List Place} (lives : l.Lives cwd r d)
    (touches : Touches places d d') : l.Lives cwd r d' where
  sound := touches.sound
  start := (touches.dirs _).mpr lives.start
  arrives := lives.arrives.mono fun p => (touches.dirs p).mpr
  text := lives.text
  valid := lives.valid
  short := lives.short
  free name mem := mt (touches.dirs _).mp (lives.free name mem)

theorem Rooted.isDir (rooted : l.Rooted cwd r d) : d.isDir cwd l.root = true :=
  (isDir_iff rooted.sound rooted.start rooted.text (rooted.valid _ (by simp [paths]))).mpr
    ⟨r, rooted.arrives⟩

theorem Lives.leads (lives : l.Lives cwd r d) {path : Path} {name : String} (mem : name ∈ names)
    (ends : path.Ends l.root.isAbsolute (Path.moves l.root.segments) name)
    (known : path ∈ l.paths) : d.Leads cwd path (r ++ [name]) := by
  refine lives.arrives.leads (lives.arrives.dir lives.sound lives.start) ends (plain_of_mem mem)
    (lives.valid path known) ?_ (lives.free name mem)
  intro s inside
  rcases List.mem_append.mp inside with inside | inside
  · exact lives.short s inside
  · rw [List.mem_singleton.mp inside]
    exact short_of_mem mem

theorem Lives.holds (lives : l.Lives cwd r d) {snapshot journal : String}
    (mem : snapshot ∈ names) (mem' : journal ∈ names) (mem'' : snapshot ++ ".tmp" ∈ names)
    (distinct : [snapshot, journal, snapshot ++ ".tmp"].Nodup)
    (known : l.root.join ⟨snapshot⟩ ∈ l.paths) (known' : l.root.join ⟨journal⟩ ∈ l.paths)
    (known'' : Log.temporary (l.root.join ⟨snapshot⟩) ∈ l.paths) :
    (Shelf.under r snapshot journal).Holds
      ⟨l.root.join ⟨snapshot⟩, l.root.join ⟨journal⟩⟩ cwd d where
  sound := lives.sound
  snapshot := lives.leads mem (Path.ends_join l.root (plain_of_mem mem)) known
  journal := lives.leads mem' (Path.ends_join l.root (plain_of_mem mem')) known'
  temporary := by
    refine lives.leads mem'' ?_ known''
    exact Path.ends_temporary (plain_of_mem mem) (plain_of_mem mem'')
      (Path.ends_join l.root (plain_of_mem mem))
  distinct := by
    have apart : ([snapshot, journal, snapshot ++ ".tmp"].map fun s => r ++ [s]).Nodup :=
      List.pairwise_map.mpr (distinct.imp fun other same => other (by simpa using same))
    exact apart
  level := by simp [Shelf.under]

theorem Lives.index (lives : l.Lives cwd r d) : (home r).index.Holds l.indexFiles cwd d :=
  lives.holds (by decide) (by decide) (by decide) (by decide) (by simp [paths, indexFile])
    (by simp [paths, indexJournalFile]) (by simp [paths, indexFile])

theorem Lives.map (lives : l.Lives cwd r d) : (home r).map.Holds l.mapFiles cwd d :=
  lives.holds (by decide) (by decide) (by decide) (by decide) (by simp [paths, cacheFile])
    (by simp [paths, journalFile]) (by simp [paths, cacheFile])

theorem apart (r : Place) : ∀ p ∈ (home r).index.places, p ∉ (home r).map.places := by
  simp [home, Shelf.places, Shelf.under]

theorem Empty.content (empty : l.Empty cwd r d) (name : String) : d.content (r ++ [name]) = [] := by
  refine content_of_absent ?_
  rw [file?, empty.bare name]

end Layout
end BuildCache
