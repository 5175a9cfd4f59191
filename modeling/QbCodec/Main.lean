import QbCodec.CommandLine.Run

/-!
The program. It looks up in the file system what a command mentions, runs the command on that tree,
and writes what has changed.
-/

namespace QbCodec.Main

open CommandLine

def pathTo (t : Tree) (p : Place) : String :=
  match Tree.below? t.home p with
  | some names => "/".intercalate names
  | none => "/" ++ "/".intercalate p

def pointTo (t : Tree) (p : Place) :=
  (fun here => { here with toString := pathTo t p }) <$> IO.currentDir

def look (t : Tree) (p : Place) : IO Tree := do
  if (t.get? p).isSome then return t
  let path ← pointTo t p
  if ← path.isDir then return t.put p .directory
  if ← path.pathExists then return t.put p (.file (← IO.FS.readBinFile path).data.toList)
  return t

/-- Goes on behind a part that is missing, since the command may make it. -/
def lookAlong (t : Tree) (p : Place) : List String → IO Tree
  | [] => return t
  | part :: rest => do
    let place := Tree.child p part
    let t ← look t place
    match t.get? place with
    | some (.file _) => return t
    | _ => lookAlong t place rest

def lookUp (t : Tree) (path : String) : IO Tree := lookAlong t (t.start path) (Path.parts path)

partial def lookBelow (t : Tree) (p : Place) : IO Tree := do
  if !Path.isFollowable (pathTo t p) then return t
  let mut t := t
  for entry in ← (← pointTo t p).readDir do
    let place := p ++ [entry.fileName]
    if (Direction.ofPath? entry.fileName).isSome || (← entry.path.isDir) then
      t ← look t place
    if t.isDirectoryAt place then t ← lookBelow t place
  return t

def lookUpOutputs (c : Command) (t : Tree) (inputs : List (String × Direction)) : IO Tree :=
  inputs.foldlM (fun t (path, d) => lookUp t (outputPath path c.output d)) t

def treeFor (c : Command) (t : Tree) : IO Tree := do
  let t ← c.banks.foldlM lookUp t
  match c.input with
  | .hash _ => return t
  | .file path =>
    let t ← lookUp t path
    lookUpOutputs c t ((Direction.ofPath? path).map (path, ·)).toList
  | .directory path =>
    let t ← lookUp t path
    match t.find? path with
    | some p =>
      let t ← if t.isDirectoryAt p then lookBelow t p else pure t
      lookUpOutputs c t (inputsBelow t path)
    | none => return t

def save (old new : Tree) : IO Unit := do
  for (p, node) in new.entries do
    if old.get? p ≠ some node then
      let path ← pointTo new p
      match node with
      | .directory => IO.FS.createDirAll path
      | .file bytes => IO.FS.writeBinFile path ⟨bytes.toArray⟩

end QbCodec.Main

open QbCodec in
def main (arguments : List String) : IO UInt32 := do
  let environment ← IO.getEnv "QSCRIPT_GAME"
  let home := (Path.parts (← IO.currentDir).toString).filter fun part => part ≠ ""
  let bare : Tree := ⟨home, [(home, .directory)]⟩
  let tree ← match CommandLine.parse arguments environment with
    | .run c => Main.treeFor c bare
    | _ => pure bare
  let report := CommandLine.run arguments environment tree
  (← IO.getStdout).write ⟨report.output.toArray⟩
  IO.eprint report.errors
  Main.save tree report.tree
  return report.code.toUInt32
