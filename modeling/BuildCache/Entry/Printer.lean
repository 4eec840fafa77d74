import BuildCache.Entry

/-!
The text of an entry as the dump shows it: a line for each field, outputs indented under theirs.
-/
namespace BuildCache

def FileMetadata.text (m : FileMetadata) : String :=
  let expires := match m.expiration with
    | none => ""
    | some t => s!" expires={t.millis}ms"
  let resolved := match m.resolved with
    | none => ""
    | some path => s!" resolved={path}"
  s!"digest={m.digest.hex} size={m.size.toNat} location={m.location.toNat}{expires}{resolved}"

def TreeMetadata.lines (t : TreeMetadata) : List String :=
  t.children.toList.map (fun e => s!"          {e.1}: {e.2.text}\n") ++
    (t.archived.map fun m => s!"          (archived): {m.text}\n").toList ++
    (t.resolved.map fun path => s!"          (resolved): {path}\n").toList

namespace Entry

def inputLines (e : Entry) : List String :=
  match e.inputs with
  | none => ["      discoveredInputs = (none)\n"]
  | some inputs =>
    s!"      discoveredInputs ({inputs.length}):\n" :: inputs.map fun i => s!"        {i}\n"

def fileLines (e : Entry) : List String :=
  if e.files.isEmpty then []
  else s!"      outputFiles ({e.files.length}):\n" ::
    e.files.toList.map fun f => s!"        {f.1}: {f.2.text}\n"

def treeLines (e : Entry) : List String :=
  if e.trees.isEmpty then []
  else s!"      outputTrees ({e.trees.length}):\n" ::
    e.trees.toList.flatMap fun t => s!"        {t.1}:\n" :: t.2.lines

def text (e : Entry) : String :=
  String.join <|
    [s!"      actionKey = {e.key}\n",
      s!"      digestKey = {e.fileDigest.hex}\n",
      s!"      propertiesDigest = {e.propertiesDigest.hex}\n"] ++
    e.inputLines ++ e.fileLines ++ e.treeLines

end Entry

def Cached.text : Cached → String
  | entry e => e.text
  | corrupted => "      (corrupted)\n"

end BuildCache
