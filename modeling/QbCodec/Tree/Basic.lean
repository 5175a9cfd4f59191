import QbCodec.Failure
import QbCodec.Text.Bytes
import QbCodec.Tree.Path

/-!
Trees of files and directories: finite maps from places, which are rows of names from the root on,
to what lies there. Paths that are not absolute start at `home`.
-/

namespace QbCodec

abbrev Place := List String

inductive Node
  | directory
  | file (bytes : List UInt8)
  deriving DecidableEq

structure Tree where
  home : Place
  entries : List (Place × Node)

namespace Tree

def get? (t : Tree) (p : Place) : Option Node :=
  if p = [] then some .directory else t.entries.lookup p

def isDirectoryAt (t : Tree) (p : Place) : Bool := t.get? p = some .directory

def replace (p : Place) (n : Node) : List (Place × Node) → List (Place × Node)
  | [] => [(p, n)]
  | e :: rest => if e.1 = p then (p, n) :: rest else e :: replace p n rest

def put (t : Tree) (p : Place) (n : Node) : Tree := { t with entries := replace p n t.entries }

def start (t : Tree) (path : String) : Place := if Path.isAbsolute path then [] else t.home

def child (p : Place) (part : String) : Place :=
  if Path.isIdle part then p else if part = ".." then p.dropLast else p ++ [part]

def walk? (t : Tree) (p : Place) : List String → Option Place
  | [] => some p
  | part :: rest =>
    if t.isDirectoryAt p && (t.get? (child p part)).isSome then t.walk? (child p part) rest else none

def find? (t : Tree) (path : String) : Option Place :=
  if path ≠ "" && Path.isFollowable path then t.walk? (t.start path) (Path.parts path) else none

def node? (t : Tree) (path : String) : Option Node := (t.find? path).bind t.get?

def exists? (t : Tree) (path : String) : Bool := (t.find? path).isSome

def isFile (t : Tree) (path : String) : Bool :=
  match t.node? path with
  | some (.file _) => true
  | _ => false

def isDirectory (t : Tree) (path : String) : Bool := t.node? path = some .directory

def read (t : Tree) (path : String) : Except Failure (List UInt8) :=
  match t.node? path with
  | none => .error (.noSource path)
  | some .directory => .error (.unreadable path "Is a directory (os error 21)")
  | some (.file bytes) => .ok bytes

def readText (t : Tree) (path : String) : Except Failure String :=
  match t.read path with
  | .error e => .error e
  | .ok bytes =>
    match Text.ofUtf8? bytes with
    | none => .error (.unreadable path "stream did not contain valid UTF-8")
    | some text => .ok text

def makeDirectories (t : Tree) (p : Place) : List String → Tree × Option Place
  | [] => (t, some p)
  | part :: rest =>
    match t.get? (child p part) with
    | some .directory => t.makeDirectories (child p part) rest
    | some (.file _) => (t, none)
    | none =>
      if Path.isNameable part then
        (t.put (child p part) .directory).makeDirectories (child p part) rest
      else (t, none)

/-- Writes a file and the directories above it. What exists is overwritten only if `force` holds,
and a directory never is. Where no file may lie at the path only the directories are made. -/
def write (t : Tree) (path : String) (bytes : List UInt8) (force : Bool) : Tree × Bool :=
  let parent := Path.parent path
  if !Path.isFollowable parent then (t, false)
  else
    match t.makeDirectories (t.start path) (Path.parts parent) with
    | (u, none) => (u, false)
    | (u, some p) =>
      if !Path.admitsFile path then (u, false)
      else
        let place := p ++ [Path.name path]
        match u.get? place with
        | some .directory => (u, false)
        | some (.file _) => if force then (u.put place (.file bytes), true) else (u, false)
        | none => (u.put place (.file bytes), true)

def below? (base place : Place) : Option (List String) :=
  if base.isPrefixOf place && base.length < place.length then some (place.drop base.length)
  else none

def filesBelow (t : Tree) (path : String) : List String :=
  match t.find? path with
  | none => []
  | some base =>
    let paths := t.entries.filterMap fun e =>
      match e.2 with
      | .directory => none
      | .file _ => (below? base e.1).map fun names => Path.join path ("/".intercalate names)
    paths.filter Path.isFollowable

end Tree

end QbCodec
