import BuildCache.Proofs.Paths
import BuildCache.Proofs.Tables

/-!
What the operations on a disk do to the place that a path leads to. A place with a file, or with
nothing, is all that the store ever touches; directories stay, so paths go on leading where they
led.
-/
namespace BuildCache

theorem map_eq_ok {ε α β : Type} {x : Except ε α} {f : α → β} {b : β} :
    x.map f = .ok b ↔ ∃ a, x = .ok a ∧ f a = b := by
  constructor
  · intro done
    cases x with
    | error e => cases done
    | ok a => exact ⟨a, rfl, Except.ok.inj done⟩
  · rintro ⟨a, rfl, rfl⟩
    rfl

/-- A table in which keys are renamed, looked up at a key that exactly one of them becomes. -/
theorem Table.get?_map_keys {K V : Type} [DecidableEq K] (t : Table K V) (f : K → K) (k k' : K)
    (only : ∀ e ∈ t, f e.1 = k ↔ e.1 = k') :
    Table.get? (t.map fun e => (f e.1, e.2)) k = t.get? k' := by
  induction t with
  | nil => rfl
  | cons e t ih =>
    rw [List.map_cons, Table.get?_cons, Table.get?_cons,
      ih fun e mem => only e (List.mem_cons_of_mem _ mem)]
    simp only [only e List.mem_cons_self]

/-- A step that may fail and another behind it are done if both are. -/
theorem bind_eq_ok {ε α β : Type} {x : Except ε α} {f : α → Except ε β} {b : β} :
    x >>= f = .ok b ↔ ∃ a, x = .ok a ∧ f a = .ok b := by
  constructor
  · intro done
    cases x with
    | error e => cases done
    | ok a => exact ⟨a, rfl, done⟩
  · rintro ⟨a, rfl, done⟩
    exact done

namespace Disk
variable {d d' d'' : Disk} {cwd p q : Place} {path : Path} {h : Handle} {c : Bytes}

/-- The file at a place. -/
def file? (d : Disk) (p : Place) : Option (Handle × Bytes) :=
  match d.node? p with
  | some (.file h c) => some (h, c)
  | _ => none

/-- What the file at a place holds, nothing if there is none. -/
def content (d : Disk) (p : Place) : Bytes :=
  match d.file? p with
  | some (_, c) => c
  | none => []

/-- Nodes lie in directories, and a handle means one file. -/
structure Sound (d : Disk) : Prop where
  tree : ∀ p, d.node? p ≠ none → d.node? p.dropLast = some .dir
  single : ∀ p q h c c', d.file? p = some (h, c) → d.file? q = some (h, c') → p = q
  fresh : ∀ p h c, d.file? p = some (h, c) → h < d.fresh

/-- A sound disk that differs from the first one in files at some of the places alone. -/
structure Touches (at_ : List Place) (d d' : Disk) : Prop where
  sound : d'.Sound
  dirs : ∀ p, d'.node? p = some .dir ↔ d.node? p = some .dir
  elsewhere : ∀ p ∉ at_, d'.file? p = d.file? p

theorem Touches.refl {at_ : List Place} (sound : d.Sound) : Touches at_ d d :=
  ⟨sound, fun _ => Iff.rfl, fun _ _ => rfl⟩

theorem Touches.trans {at_ : List Place} (first : Touches at_ d d') (next : Touches at_ d' d'') :
    Touches at_ d d'' :=
  ⟨next.sound, fun p => (next.dirs p).trans (first.dirs p),
    fun p away => (next.elsewhere p away).trans (first.elsewhere p away)⟩

theorem Touches.mono {at_ more : List Place} (h : Touches at_ d d') (sub : at_ ⊆ more) :
    Touches more d d' :=
  ⟨h.sound, h.dirs, fun p away => h.elsewhere p fun mem => away (sub mem)⟩

theorem Touches.content {at_ : List Place} (h : Touches at_ d d') (away : p ∉ at_) :
    d'.content p = d.content p := by
  rw [Disk.content, Disk.content, h.elsewhere p away]

theorem file?_eq_some : d.file? p = some (h, c) ↔ d.node? p = some (.file h c) := by
  unfold file?
  split
  · rename_i node
    rw [node]
    simp
  · rename_i other
    simp only [reduceCtorEq, false_iff]
    exact other h c

theorem content_of_file? (found : d.file? p = some (h, c)) : d.content p = c := by
  rw [content, found]

theorem content_of_absent (absent : d.file? p = none) : d.content p = [] := by
  rw [content, absent]

/-- Where there is neither a file nor a directory, there is nothing. -/
theorem node?_eq_none (absent : d.file? p = none) (notDir : d.node? p ≠ some .dir) :
    d.node? p = none := by
  cases node : d.node? p with
  | none => rfl
  | some n =>
    cases n with
    | dir => exact absurd node notDir
    | file h c =>
      rw [file?_eq_some.mpr node] at absent
      cases absent

/-- Only directories have anything under them. -/
theorem Sound.node?_prefix (sound : d.Sound) (p : Place) (below : List String)
    (strict : below ≠ []) (node : d.node? (p ++ below) ≠ none) : d.node? p = some .dir := by
  induction n : below.length generalizing below with
  | zero => exact absurd (List.length_eq_zero_iff.mp n) strict
  | succ n ih =>
    have parent := sound.tree _ node
    rw [List.dropLast_append_of_ne_nil strict] at parent
    by_cases direct : below.dropLast = []
    · rw [direct, List.append_nil] at parent
      exact parent
    · exact ih below.dropLast direct (by simp [parent]) (by simp; omega)

section Walks

theorem walk_moves (d : Disk) (here : Place) (ss : List String) :
    d.walk here (Path.moves ss) = d.walk here ss := by
  induction ss generalizing here with
  | nil => rfl
  | cons s ss ih =>
    by_cases idle : s = "" ∨ s = "."
    · rw [Path.moves_of_idle idle, walk, if_pos idle]
      exact ih here
    · rw [Path.moves_of_not_idle idle, walk, walk, if_neg idle]
      split
      · exact ih _
      · split <;> first | rfl | exact ih _

theorem lookup_eq_ok {n : Option Node} (found : d.lookup p = .ok n) :
    (∀ name ∈ p, name.utf8ByteSize ≤ nameLimit) ∧ d.node? p = n := by
  rw [lookup] at found
  split at found
  · cases found
  · rename_i short
    exact ⟨by simpa using short, Except.ok.inj found⟩

theorem lookup_of_short (short : ∀ name ∈ p, name.utf8ByteSize ≤ nameLimit) :
    d.lookup p = .ok (d.node? p) := by
  rw [lookup, if_neg (by simpa using short)]

theorem lookup_mono (stays : d.node? p = some .dir → d'.node? p = some .dir)
    (found : d.lookup p = .ok (some .dir)) : d'.lookup p = .ok (some .dir) := by
  obtain ⟨short, dir⟩ := lookup_eq_ok found
  rw [lookup_of_short short, stays dir]

/-- A walk that arrives, name by name. -/
inductive Walks (d : Disk) : Place → List String → Place → Prop
  | done (here : Place) : Walks d here [] here
  | idle {here there : Place} {s : String} {ss : List String} (idle : s = "" ∨ s = ".")
      (rest : Walks d here ss there) : Walks d here (s :: ss) there
  | up {here there : Place} {ss : List String} (rest : Walks d here.dropLast ss there) :
    Walks d here (".." :: ss) there
  | into {here there : Place} {s : String} {ss : List String} (notIdle : ¬(s = "" ∨ s = "."))
      (notUp : s ≠ "..") (found : d.lookup (here ++ [s]) = .ok (some .dir))
      (rest : Walks d (here ++ [s]) ss there) : Walks d here (s :: ss) there

theorem walk_eq_ok {here there : Place} {ss : List String} :
    d.walk here ss = .ok there ↔ d.Walks here ss there := by
  constructor
  · intro arrives
    induction ss generalizing here with
    | nil =>
      cases arrives
      exact .done there
    | cons s ss ih =>
      rw [walk] at arrives
      split at arrives
      · rename_i idle
        exact .idle idle (ih arrives)
      rename_i notIdle
      split at arrives
      · rename_i up
        exact up ▸ .up (ih arrives)
      rename_i notUp
      split at arrives
      · cases arrives
      · cases arrives
      · cases arrives
      · rename_i found
        exact .into notIdle notUp found (ih arrives)
  · intro walks
    induction walks with
    | done => rfl
    | idle idle _ ih => rw [walk, if_pos idle, ih]
    | up _ ih => rw [walk, if_neg (by decide), if_pos rfl, ih]
    | into notIdle notUp found _ ih => rw [walk, if_neg notIdle, if_neg notUp, found, ih]

/-- A walk that arrives still does when all directories stay. -/
theorem walk_mono (dirs : ∀ p, d.node? p = some .dir → d'.node? p = some .dir) {here there : Place}
    {ss : List String} (arrives : d.walk here ss = .ok there) : d'.walk here ss = .ok there := by
  rw [walk_eq_ok] at arrives ⊢
  induction arrives with
  | done here => exact .done here
  | idle idle _ ih => exact .idle idle ih
  | up _ ih => exact .up ih
  | into notIdle notUp found _ ih =>
    exact .into notIdle notUp (lookup_mono (dirs _) found) ih

/-- The texts that the system takes as paths. -/
structure Valid (path : Path) : Prop where
  noNul : '\x00' ∉ path.text.toList
  short : path.text.utf8ByteSize ≤ pathLimit

/-- Where a path starts from. -/
def origin (cwd : Place) (path : Path) : Place := if path.isAbsolute then [] else cwd

/-- The segments of a path without the empty ones at its end. -/
def solid (ss : List String) : List String := (ss.reverse.dropWhile (· = "")).reverse

/-- What a path stands for, by the last of its solid segments and a walk along those before it. -/
inductive Denotes (d : Disk) (cwd : Place) (path : Path) : Target → Prop
  | top (nameless : solid path.segments = []) : Denotes d cwd path (.onTheWay [] .busy)
  | here {front : List String} {parent : Place} (shape : solid path.segments = front ++ ["."])
      (arrives : d.walk (origin cwd path) front = .ok parent) :
    Denotes d cwd path (.onTheWay parent .invalidArgument)
  | up {front : List String} {parent : Place} (shape : solid path.segments = front ++ [".."])
      (arrives : d.walk (origin cwd path) front = .ok parent) :
    Denotes d cwd path (.onTheWay parent.dropLast .notEmpty)
  | named {front : List String} {parent : Place} {name : String}
      (shape : solid path.segments = front ++ [name]) (notHere : name ≠ ".") (notUp : name ≠ "..")
      (arrives : d.walk (origin cwd path) front = .ok parent) (dir : d.node? parent = some .dir) :
    Denotes d cwd path
      (.named (parent ++ [name]) ((solid path.segments).length < path.segments.length))

/-- A path resolves if the system takes its text and everything on the way is there. -/
theorem resolve_eq_ok {t : Target} : d.resolve cwd path = .ok t ↔
    path.text ≠ "" ∧ Valid path ∧ d.Denotes cwd path t := by
  constructor
  · intro leads
    unfold resolve at leads
    split at leads
    · cases leads
    rename_i text
    split at leads
    · cases leads
    rename_i noNul
    split at leads
    · cases leads
    rename_i short
    refine ⟨text, ⟨by simpa using noNul, Nat.not_lt.mp short⟩, ?_⟩
    dsimp only at leads
    rw [← origin, ← solid] at leads
    cases last : (solid path.segments).getLast? with
    | none =>
      rw [last] at leads
      cases leads
      exact .top (List.getLast?_eq_none_iff.mp last)
    | some name =>
      obtain ⟨front, shape⟩ := List.getLast?_eq_some_iff.mp last
      rw [last] at leads
      obtain ⟨parent, arrives, leads⟩ := bind_eq_ok.mp leads
      rw [shape, List.dropLast_concat] at arrives
      split at leads
      · rename_i here
        cases leads
        exact .here (here ▸ shape) arrives
      split at leads
      · rename_i up
        cases leads
        exact .up (up ▸ shape) arrives
      split at leads
      · cases leads
      · rename_i notHere notUp dir
        cases leads
        exact .named shape notHere notUp arrives (Classical.not_not.mp dir)
  · rintro ⟨text, valid, denotes⟩
    rw [resolve, if_neg text, if_neg (by simpa using valid.noNul),
      if_neg (Nat.not_lt.mpr valid.short)]
    dsimp only
    rw [← origin, ← solid]
    cases denotes with
    | top nameless =>
      rw [nameless]
      rfl
    | here shape arrives =>
      rw [shape, List.getLast?_concat, List.dropLast_concat, arrives]
      rfl
    | up shape arrives =>
      rw [shape, List.getLast?_concat, List.dropLast_concat, arrives]
      rfl
    | named shape notHere notUp arrives dir =>
      rw [shape, List.getLast?_concat, List.dropLast_concat, arrives]
      simp [bind, Except.bind, notHere, notUp, dir, pure, Except.pure]

theorem Denotes.mono {t : Target} (denotes : d.Denotes cwd path t)
    (dirs : ∀ p, d.node? p = some .dir → d'.node? p = some .dir) : d'.Denotes cwd path t := by
  cases denotes with
  | top nameless => exact .top nameless
  | here shape arrives => exact .here shape (walk_mono dirs arrives)
  | up shape arrives => exact .up shape (walk_mono dirs arrives)
  | named shape notHere notUp arrives dir =>
    exact .named shape notHere notUp (walk_mono dirs arrives) (dirs _ dir)

theorem resolve_mono (dirs : ∀ p, d.node? p = some .dir → d'.node? p = some .dir) {t : Target}
    (leads : d.resolve cwd path = .ok t) : d'.resolve cwd path = .ok t := by
  obtain ⟨text, valid, denotes⟩ := resolve_eq_ok.mp leads
  exact resolve_eq_ok.mpr ⟨text, valid, denotes.mono dirs⟩

theorem resolve_ends {absolute : Bool} {way : List String} {name : String} {r : Place}
    (ends : path.Ends absolute way name) (plain : Path.Plain name) (valid : Valid path)
    (arrives : d.walk (if absolute then [] else cwd) way = .ok r) (dir : d.node? r = some .dir) :
    d.resolve cwd path = .ok (.named (r ++ [name]) false) := by
  obtain ⟨ss, segs, rfl⟩ := ends.segments_eq
  rw [walk_moves] at arrives
  have text : path.text ≠ "" := by
    intro empty
    have only : path.segments = [""] := by
      rw [Path.segments, empty]
      rfl
    rw [segs] at only
    cases ss with
    | nil => exact plain.nonempty (List.singleton_inj.mp only)
    | cons s ss => simp at only
  have shape : solid path.segments = ss ++ [name] := by
    simp [solid, segs, List.dropWhile_cons_of_neg, plain.nonempty]
  rw [← ends.absolute_eq] at arrives
  have named := Denotes.named shape plain.notHere plain.notUp arrives dir
  rw [shape, segs, decide_eq_false (Nat.lt_irrefl _)] at named
  exact resolve_eq_ok.mpr ⟨text, valid, named⟩

end Walks
/-- The path leads to a place where a file is or may be made. -/
structure Leads (d : Disk) (cwd : Place) (path : Path) (p : Place) : Prop where
  resolve : d.resolve cwd path = .ok (.named p false)
  short : ∀ name ∈ p, name.utf8ByteSize ≤ nameLimit
  parent : d.node? p.dropLast = some .dir
  notDir : d.node? p ≠ some .dir

theorem Leads.notRoot (leads : d.Leads cwd path p) : p ≠ [] := by
  rintro rfl
  exact leads.notDir rfl

theorem Leads.lookup (leads : d.Leads cwd path p) : d.lookup p = .ok (d.node? p) :=
  lookup_of_short leads.short

theorem Leads.touches {at_ : List Place} (leads : d.Leads cwd path p) (h : Touches at_ d d') :
    d'.Leads cwd path p where
  resolve := resolve_mono (fun p => (h.dirs p).mpr) leads.resolve
  short := leads.short
  parent := (h.dirs _).mpr leads.parent
  notDir := mt (h.dirs p).mp leads.notDir

theorem Leads.find (leads : d.Leads cwd path p) : d.find cwd path =
    match d.file? p with
    | some (h, c) => .ok (.file h c)
    | none => .error .notFound := by
  rw [Disk.find, leads.resolve]
  simp only [bind, Except.bind, leads.lookup]
  cases file : d.file? p with
  | none => rw [node?_eq_none file leads.notDir]; rfl
  | some f => rw [file?_eq_some.mp file]; rfl

theorem Leads.read (leads : d.Leads cwd path p) : d.read cwd path =
    match d.file? p with
    | some (_, c) => .ok c
    | none => .error .notFound := by
  rw [Disk.read, leads.find]
  cases d.file? p <;> rfl

theorem Leads.size (leads : d.Leads cwd path p) : d.size cwd path =
    match d.file? p with
    | some (_, c) => .ok c.length
    | none => .error .notFound := by
  rw [Disk.size, leads.find]
  cases d.file? p <;> rfl

/-- What a change of nodes has to respect. -/
theorem touches_of {at_ : List Place} (sound : d.Sound)
    (parents : ∀ q ∈ at_, d.node? q.dropLast = some .dir)
    (notDir : ∀ q ∈ at_, d.node? q ≠ some .dir ∧ d'.node? q ≠ some .dir)
    (elsewhere : ∀ q ∉ at_, d'.node? q = d.node? q)
    (single : ∀ p q h c c', d'.file? p = some (h, c) → d'.file? q = some (h, c') → p = q)
    (fresh : ∀ p h c, d'.file? p = some (h, c) → h < d'.fresh) : Touches at_ d d' := by
  have dirs : ∀ q, d'.node? q = some .dir ↔ d.node? q = some .dir := by
    intro q
    by_cases mem : q ∈ at_
    · exact ⟨fun dir => absurd dir (notDir q mem).2, fun dir => absurd dir (notDir q mem).1⟩
    · rw [elsewhere q mem]
  refine ⟨⟨fun q node => (dirs _).mpr ?_, single, fresh⟩, dirs, fun q away => ?_⟩
  · by_cases mem : q ∈ at_
    · exact parents q mem
    · rw [elsewhere q mem] at node
      exact sound.tree q node
  · rw [file?, file?, elsewhere q away]

theorem node?_put (notRoot : p ≠ []) (n : Node) (q : Place) :
    (d.put p n).node? q = if q = p then some n else d.node? q := by
  unfold node? put
  by_cases root : q = []
  · subst root
    rw [if_pos rfl, if_neg (Ne.symm notRoot), if_pos rfl]
  · rw [if_neg root, if_neg root, Table.get?_insert]
    by_cases same : q = p
    · rw [if_pos same, if_pos same.symm]
    · rw [if_neg same, if_neg (Ne.symm same)]

theorem file?_of_node? (same : d'.node? q = d.node? q) : d'.file? q = d.file? q := by
  rw [file?, file?, same]

/-- A change that makes no files, but may move or remove some or write to them. -/
theorem touches_of_source {at_ : List Place} (sound : d.Sound)
    (parents : ∀ q ∈ at_, d.node? q.dropLast = some .dir)
    (notDir : ∀ q ∈ at_, d.node? q ≠ some .dir ∧ d'.node? q ≠ some .dir)
    (elsewhere : ∀ q ∉ at_, d'.node? q = d.node? q) (fresh : d'.fresh = d.fresh)
    (source : Place → Place)
    (known : ∀ q h c, d'.file? q = some (h, c) → ∃ c', d.file? (source q) = some (h, c'))
    (injective : ∀ p q, d'.file? p ≠ none → d'.file? q ≠ none → source p = source q → p = q) :
    Touches at_ d d' := by
  refine touches_of sound parents notDir elsewhere ?_ ?_
  · intro a b h x y fa fb
    obtain ⟨x', sa⟩ := known a h x fa
    obtain ⟨y', sb⟩ := known b h y fb
    exact injective a b (by simp [fa]) (by simp [fb]) (sound.single _ _ h x' y' sa sb)
  · intro a h x fa
    obtain ⟨x', sa⟩ := known a h x fa
    rw [fresh]
    exact sound.fresh _ h x' sa

/-- A file is put at a place under a handle that no file elsewhere has. -/
theorem Leads.put (leads : d.Leads cwd path p) (sound : d.Sound) (h : Handle) (c : Bytes)
    (d' : Disk) (nodes : ∀ q, d'.node? q = if q = p then some (.file h c) else d.node? q)
    (own : ∀ q c', d.file? q = some (h, c') → q = p) (fresh : h < d'.fresh)
    (more : d.fresh ≤ d'.fresh) : Touches [p] d d' ∧ d'.file? p = some (h, c) := by
  have here : d'.file? p = some (h, c) := file?_eq_some.mpr (by rw [nodes, if_pos rfl])
  have other (q : Place) (away : q ≠ p) : d'.file? q = d.file? q :=
    file?_of_node? (by rw [nodes, if_neg away])
  refine ⟨touches_of sound ?_ ?_ ?_ ?_ ?_, here⟩
  · exact List.forall_mem_singleton.mpr leads.parent
  · intro q mem
    rw [List.mem_singleton.mp mem, nodes, if_pos rfl]
    exact ⟨leads.notDir, by simp⟩
  · intro q away
    rw [nodes, if_neg fun same : q = p => away (List.mem_singleton.mpr same)]
  · intro a b k x y fa fb
    by_cases ha : a = p
    · subst ha
      by_cases hb : b = a
      · exact hb.symm
      · rw [other b hb] at fb
        rw [here] at fa
        cases fa
        exact absurd (own b y fb) hb
    · rw [other a ha] at fa
      by_cases hb : b = p
      · subst hb
        rw [here] at fb
        cases fb
        exact own a x fa
      · rw [other b hb] at fb
        exact sound.single a b k x y fa fb
  · intro a k x fa
    by_cases ha : a = p
    · subst ha
      rw [here] at fa
      cases fa
      exact fresh
    · rw [other a ha] at fa
      exact Nat.lt_of_lt_of_le (sound.fresh a k x fa) more

/-- Opening makes the file if need be and keeps of its content what it is told to. -/
theorem Leads.openFile (leads : d.Leads cwd path p) (sound : d.Sound) (keep : Bytes → Bytes)
    (nothing : keep [] = []) : ∃ h d', d.openFile cwd path keep =
        .ok ((h, (keep (d.content p)).length), d') ∧
      Touches [p] d d' ∧ d'.file? p = some (h, keep (d.content p)) := by
  rw [Disk.openFile, leads.resolve]
  simp only [bind, Except.bind, leads.lookup]
  cases file : d.file? p with
  | none =>
    rw [node?_eq_none file leads.notDir, content_of_absent file, nothing]
    have made := leads.put sound d.fresh [] { d.put p (.file d.fresh []) with fresh := d.fresh + 1 }
      (node?_put leads.notRoot _)
      (fun q c' found => absurd (sound.fresh q _ c' found) (Nat.lt_irrefl _))
      (Nat.lt_succ_self _) (Nat.le_succ _)
    exact ⟨d.fresh, _, rfl, made⟩
  | some f =>
    obtain ⟨h, c⟩ := f
    rw [file?_eq_some.mp file, content_of_file? file]
    have made := leads.put sound h (keep c) (d.put p (.file h (keep c)))
      (node?_put leads.notRoot _) (fun q c' found => sound.single q p h c' c found file)
      (sound.fresh p h c file) (Nat.le_refl _)
    exact ⟨h, _, rfl, made⟩

theorem node?_append (d : Disk) (h : Handle) (bs : Bytes) (q : Place) :
    (d.append h bs).node? q = match d.node? q with
      | some (.file h' c) => some (.file h' (if h' = h then c ++ bs else c))
      | n => n := by
  unfold node?
  by_cases root : q = []
  · rw [if_pos root, if_pos root]
  · rw [if_neg root, if_neg root, append]
    induction d.nodes with
    | nil => rfl
    | cons e nodes ih =>
      obtain ⟨k, n⟩ := e
      rw [List.map_cons, Table.get?_cons, Table.get?_cons]
      by_cases same : k = q
      · cases n <;> simp [same]
      · cases n <;> simpa [same] using ih

/-- Appending to an open file. -/
theorem append_eq (sound : d.Sound) (found : d.file? p = some (h, c)) (bs : Bytes) :
    Touches [p] d (d.append h bs) ∧ (d.append h bs).file? p = some (h, c ++ bs) := by
  have node := file?_eq_some.mp found
  have here : (d.append h bs).file? p = some (h, c ++ bs) :=
    file?_eq_some.mpr (by rw [node?_append, node]; simp)
  refine ⟨touches_of_source sound ?_ ?_ ?_ rfl id ?_ fun _ _ _ _ => id, here⟩
  · exact List.forall_mem_singleton.mpr (sound.tree p (by simp [node]))
  · intro q mem
    rw [List.mem_singleton.mp mem, node?_append, node]
    simp
  · intro q away
    rw [node?_append]
    cases nq : d.node? q with
    | none => rfl
    | some n =>
      cases n with
      | dir => rfl
      | file k y =>
        have other : k ≠ h := by
          rintro rfl
          exact away (List.mem_singleton.mpr
            (sound.single q p k y c (file?_eq_some.mpr nq) found))
        simp [other]
  · intro q k x fq
    rw [file?_eq_some, node?_append] at fq
    split at fq
    · rename_i nq
      cases fq
      exact ⟨_, file?_eq_some.mpr nq⟩
    · exact ⟨x, file?_eq_some.mpr fq⟩

theorem node?_erase (d : Disk) (notRoot : p ≠ []) (q : Place) :
    Disk.node? { d with nodes := d.nodes.erase p } q = if q = p then none else d.node? q := by
  unfold node?
  by_cases root : q = []
  · subst root
    rw [if_pos rfl, if_neg (Ne.symm notRoot), if_pos rfl]
  · rw [if_neg root, if_neg root, Table.get?_erase]
    by_cases same : q = p
    · rw [if_pos same, if_pos same.symm]
    · rw [if_neg same, if_neg (Ne.symm same)]

theorem Leads.removeFile (leads : d.Leads cwd path p) (sound : d.Sound) :
    (d.file? p = none ∧ d.removeFile cwd path = .error .notFound) ∨
    ∃ d', d.removeFile cwd path = .ok d' ∧ Touches [p] d d' ∧ d'.file? p = none := by
  rw [Disk.removeFile, leads.resolve]
  simp only [bind, Except.bind, leads.lookup]
  cases file : d.file? p with
  | none =>
    rw [node?_eq_none file leads.notDir]
    exact .inl ⟨rfl, rfl⟩
  | some f =>
    rw [file?_eq_some.mp file]
    have nodes := node?_erase d leads.notRoot
    generalize gone : ({ d with nodes := d.nodes.erase p } : Disk) = d' at nodes
    have absent : d'.file? p = none := by rw [file?, nodes, if_pos rfl]
    refine .inr ⟨d', by rw [← gone]; rfl, ?_, absent⟩
    refine touches_of_source sound ?_ ?_ ?_ (by rw [← gone]) id ?_ fun _ _ _ _ => id
    · exact List.forall_mem_singleton.mpr leads.parent
    · intro q mem
      rw [List.mem_singleton.mp mem, nodes, if_pos rfl]
      exact ⟨leads.notDir, by simp⟩
    · intro q away
      rw [nodes, if_neg fun same : q = p => away (List.mem_singleton.mpr same)]
    · intro q h c fq
      rw [file?_eq_some, nodes] at fq
      split at fq
      · cases fq
      · exact ⟨c, file?_eq_some.mpr fq⟩

/-- Nothing lies under a file. -/
theorem Sound.eq_of_file_prefix (sound : d.Sound) (file : d.file? p = some (h, c))
    (front : p <+: q) (there : d.node? q ≠ none) : q = p := by
  obtain ⟨below, rfl⟩ := front
  by_cases strict : below = []
  · rw [strict, List.append_nil]
  · have dir := sound.node?_prefix p below strict there
    rw [file?_eq_some.mp file] at dir
    cases dir

/-- The nodes after a file has moved. -/
theorem node?_move (sound : d.Sound) {a b : Place} (file : d.file? a = some (h, c))
    (other : a ≠ b) (notUnder : ¬ a <+: b) (notAbove : ¬ b <+: a) (notRoot : b ≠ []) (q : Place) :
    Disk.node? { d with nodes := (d.nodes.erase b).map fun e => (moved a b e.1, e.2) } q =
      if q = b then some (.file h c) else if q = a then none else d.node? q := by
  have node := file?_eq_some.mp file
  have rootA : a ≠ [] := by
    rintro rfl
    cases node
  -- nothing lies under a file, so that each place but the two keeps what it has
  have keeps : ∀ e ∈ d.nodes.erase b,
      moved a b e.1 = q ↔ e.1 = if q = b then a else if q = a then b else q := by
    intro e mem
    obtain ⟨mem, notB⟩ := List.mem_filter.mp mem
    have notB : e.1 ≠ b := of_decide_eq_true notB
    by_cases under : a <+: e.1
    · have there : d.node? e.1 ≠ none := by
        rw [node?, if_neg, ← Option.isSome_iff_ne_none, ← Table.mem_keys]
        · exact List.mem_map_of_mem mem
        · intro root
          exact rootA (List.prefix_nil.mp (root ▸ under))
      rw [sound.eq_of_file_prefix file under there, moved]
      simp only [List.isPrefixOf_iff_prefix.mpr (List.prefix_refl a), if_true, List.drop_length,
        List.append_nil]
      by_cases atB : q = b
      · simp [atB]
      · by_cases atA : q = a
        · simp [atA, other, Ne.symm other]
        · simp [atA, atB, Ne.symm atA, Ne.symm atB]
    · have stays : moved a b e.1 = e.1 := by
        rw [moved, if_neg (by simpa using under)]
      have notA : e.1 ≠ a := fun same => under (same ▸ List.prefix_refl a)
      rw [stays]
      by_cases atB : q = b
      · simp [atB, notB, notA]
      · by_cases atA : q = a
        · simp [atA, other, notA, notB]
        · simp [atA, atB]
  unfold node?
  by_cases root : q = []
  · subst root
    rw [if_pos rfl, if_neg (Ne.symm notRoot), if_neg (Ne.symm rootA), if_pos rfl]
  · rw [if_neg root, if_neg root, Table.get?_map_keys _ _ q _ keeps, Table.get?_erase]
    rw [node?, if_neg rootA] at node
    by_cases atB : q = b
    · simp [atB, Ne.symm other, node]
    · by_cases atA : q = a
      · simp [atA, other]
      · simp [atA, atB, Ne.symm atB]

/-- A file moves to a place of its own depth and takes it from the file there. -/
theorem Leads.rename_eq {source target : Path} {a b : Place} (before : d.Leads cwd source a)
    (after : d.Leads cwd target b) (file : d.file? a = some (h, c)) (other : a ≠ b)
    (level : a.length = b.length) : d.rename cwd source target =
      .ok { d with nodes := (d.nodes.erase b).map fun e => (moved a b e.1, e.2) } := by
  rw [Disk.rename, before.resolve, after.resolve]
  simp only [bind, Except.bind, before.lookup, after.lookup, file?_eq_some.mp file]
  have notBelow : isUnder b a = false := by
    rw [isUnder, Bool.and_eq_false_iff]
    exact .inr (by simp [level])
  rw [if_neg (by simp), if_neg (by simp [notBelow]), if_neg other]
  cases replaced : d.node? b with
  | none => rfl
  | some n =>
    cases n with
    | dir => exact absurd replaced after.notDir
    | file k y => rfl

theorem Leads.rename {source target : Path} {a b : Place} (before : d.Leads cwd source a)
    (after : d.Leads cwd target b) (sound : d.Sound) (file : d.file? a = some (h, c))
    (other : a ≠ b)
    (level : a.length = b.length) : ∃ d', d.rename cwd source target = .ok d' ∧
      Touches [a, b] d d' ∧ d'.file? a = none ∧ d'.file? b = some (h, c) := by
  have notUnder : ¬ a <+: b := fun under => other (under.eq_of_length level)
  have notAbove : ¬ b <+: a := fun above => other (above.eq_of_length level.symm).symm
  have nodes := node?_move sound file other notUnder notAbove after.notRoot
  have done := before.rename_eq after file other level
  generalize gone : ({ d with nodes := (d.nodes.erase b).map fun e => (moved a b e.1, e.2) } : Disk)
    = d' at nodes done
  have absent : d'.file? a = none := by rw [file?, nodes, if_neg other, if_pos rfl]
  have here : d'.file? b = some (h, c) := file?_eq_some.mpr (by rw [nodes, if_pos rfl])
  refine ⟨d', done, ?_, absent, here⟩
  refine touches_of_source sound ?_ ?_ ?_ (by rw [← gone]) (fun q => if q = b then a else q) ?_ ?_
  · exact List.forall_mem_cons.mpr ⟨before.parent, List.forall_mem_singleton.mpr after.parent⟩
  · intro q mem
    rcases List.mem_cons.mp mem with rfl | mem
    · rw [nodes, if_neg other, if_pos rfl]
      exact ⟨before.notDir, by simp⟩
    · rw [List.mem_singleton.mp mem, nodes, if_pos rfl]
      exact ⟨after.notDir, by simp⟩
  · intro q away
    have notA : q ≠ a := fun same => away (same ▸ List.mem_cons_self)
    have notB : q ≠ b := fun same => away (same ▸ List.mem_cons_of_mem a List.mem_cons_self)
    rw [nodes, if_neg notB, if_neg notA]
  · intro q k x fq
    by_cases atB : q = b
    · subst atB
      rw [here] at fq
      cases fq
      exact ⟨c, by rw [if_pos rfl, file]⟩
    · rw [if_neg atB]
      have notA : q ≠ a := by
        rintro rfl
        rw [absent] at fq
        cases fq
      have same := file?_of_node? (show d'.node? q = d.node? q by
        rw [nodes, if_neg atB, if_neg notA])
      exact ⟨x, same ▸ fq⟩
  · intro p q fp fq same
    have notA {q : Place} (fq : d'.file? q ≠ none) : q ≠ a := by
      rintro rfl
      exact fq absent
    by_cases pB : p = b <;> by_cases qB : q = b
    · rw [pB, qB]
    · rw [if_pos pB, if_neg qB] at same
      exact absurd same.symm (notA fq)
    · rw [if_neg pB, if_pos qB] at same
      exact absurd same (notA fp)
    · rwa [if_neg pB, if_neg qB] at same

end Disk
end BuildCache
