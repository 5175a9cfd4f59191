import QbCodec.CommandLine.Arguments
import QbCodec.Conversion
import QbCodec.Key.Bank
import QbCodec.Key.Standard
import QbCodec.Tree.Basic

namespace QbCodec

def Compilation.ofPath (t : Tree) (path : String) (options : Options) :
    Except Failure Compilation :=
  (t.readText path).map fun text => { fileName := Path.name path, input := text, options }

def Decompilation.ofPath (t : Tree) (path : String) (format : Format) (options : Options) :
    Except Failure Decompilation :=
  (t.read path).map fun bytes => { fileName := Path.name path, input := (format, bytes), options }

def Registry.registerFile (r : Registry) (t : Tree) (path : String) :
    Except Failure (Registry × Nat) :=
  (t.readText path).map r.register

namespace CommandLine

inductive Direction
  | decompile
  | compile
  deriving DecidableEq

namespace Direction

def ofPath? (path : String) : Option Direction :=
  match (Path.splitName (Path.name path)).2.map fun e => e.map Char.toLower with
  | some "qb" => some decompile
  | some "q" => some compile
  | _ => none

def extension : Direction → String
  | decompile => "q"
  | compile => "qb"

end Direction

def outputPath (path : String) (output : Option String) (d : Direction) : String :=
  let name := Path.withExtension (Path.name path) d.extension
  match output with
  | some directory => Path.join directory (if Path.isProper name then name else "")
  | none => Path.directory path ++ name

inductive Event
  | wrote (path : String) (content : List UInt8)
  | planned (path : String) (content : List UInt8)
  | shown (content : List UInt8)

def Event.output : Event → List UInt8
  | wrote path _ => Text.utf8 s!"Wrote {path}\n"
  | planned path content => Text.utf8 s!"Would write: {path} ({content.length} bytes)\n"
  | shown content => content

structure Trouble where
  context : String
  failure : Option Failure := none

def causes (e : Failure) : List String :=
  match e with
  | .unreadable _ cause | .unwritable _ cause | .noDirectory _ cause | .brokenStream cause =>
    [e.message, cause]
  | _ => [e.message]

def hang (margin text : String) : String :=
  String.ofList (text.toList.flatMap fun c => if c = '\n' then c :: margin.toList else [c])

def numbered (cs : List String) : List String :=
  cs.zipIdx.map fun (c, i) => s!"    {i}: " ++ hang "       " c ++ "\n"

def Trouble.report (t : Trouble) : String :=
  let shown := match t.failure.map causes with
    | none => []
    | some [cause] => ["    " ++ hang "    " cause ++ "\n"]
    | some cs => numbered cs
  let head := s!"Error: {t.context}\n"
  if shown.isEmpty then head else head ++ "\nCaused by:\n" ++ String.join shown

structure World where
  tree : Tree
  registry : Registry
  events : List Event

def Command.options (c : Command) : Options :=
  { game := c.game, debug := 2 ≤ c.verbosity, write := !c.dryRun && !c.toStdout }

def convert (c : Command) (d : Direction) (path : String) (w : World) :
    Except Trouble (List UInt8) × Registry :=
  let opened (e : Failure) : Trouble := ⟨s!"Failed to open input file: {path}", some e⟩
  let processed (e : Failure) : Trouble := ⟨s!"Failed to process {path}", some e⟩
  match d with
  | .decompile =>
    match Decompilation.ofPath w.tree path {} c.options with
    | .error e => (.error (opened e), w.registry)
    | .ok job =>
      let (result, _, r) := job.run w.registry
      ((result.map Text.utf8).mapError processed, r)
  | .compile =>
    match Compilation.ofPath w.tree path c.options with
    | .error e => (.error (opened e), w.registry)
    | .ok job =>
      let (result, _, r) := job.run w.registry
      (result.mapError processed, r)

/-- Shows, announces or writes the result of one file. A file that cannot be written is no
trouble. -/
def deliver (c : Command) (d : Direction) (path : String) (content : List UInt8) (w : World) :
    World :=
  let target := outputPath path c.output d
  if c.toStdout then { w with events := w.events ++ [.shown content] }
  else if c.dryRun then { w with events := w.events ++ [.planned target content] }
  else
    match w.tree.write target content c.force with
    | (tree, true) => { w with tree, events := w.events ++ [.wrote target content] }
    | (tree, false) => { w with tree }

def processFile (c : Command) (d : Direction) (path : String) (w : World) :
    World × Option Trouble :=
  match convert c d path w with
  | (.error trouble, r) => ({ w with registry := r }, some trouble)
  | (.ok content, r) => (deliver c d path content { w with registry := r }, none)

def processAll (c : Command) (inputs : List (String × Direction)) (w : World) : World :=
  inputs.foldl (fun w i => (processFile c i.2 i.1 w).1) w

def isHidden (path : String) : Bool := (Path.name path).toList.head? == some '.'

def inputsBelow (t : Tree) (directory : String) : List (String × Direction) :=
  (t.filesBelow directory).filterMap fun path =>
    if isHidden path then none else (Direction.ofPath? path).map (path, ·)

def runFile (c : Command) (path : String) (w : World) : World × Option Trouble :=
  if !w.tree.exists? path then (w, some ⟨s!"Input file does not exist: {path}", none⟩)
  else if !w.tree.isFile path then (w, some ⟨s!"Input path is not a file: {path}", none⟩)
  else match Direction.ofPath? path with
    | none => (w, some ⟨s!"Expected a .qb or .q file: {path}", none⟩)
    | some d => processFile c d path w

def runDirectory (c : Command) (path : String) (w : World) : World × Option Trouble :=
  if !w.tree.exists? path then (w, some ⟨s!"Directory does not exist: {path}", none⟩)
  else if !w.tree.isDirectory path then (w, some ⟨s!"Path is not a directory: {path}", none⟩)
  else (processAll c (inputsBelow w.tree path) w, none)

def loadBanks (t : Tree) (r : Registry) : List String → Except Trouble Registry
  | [] => .ok r
  | path :: rest =>
    match r.registerFile t path with
    | .error e => .error ⟨s!"Failed to load key bank: {path}", some e⟩
    | .ok (r, _) => loadBanks t r rest

def hashReport (text : String) : String :=
  s!"{(Key.ofName text).spell}\t{text}\nqs:\t{(Key.ofPhrase text).spell}\n"

structure Report where
  code : Nat
  output : List UInt8
  errors : String
  tree : Tree

def Report.ofWorld : World × Option Trouble → Report
  | (w, none) => ⟨0, w.events.flatMap Event.output, "", w.tree⟩
  | (w, some t) => ⟨1, w.events.flatMap Event.output, t.report, w.tree⟩

def runCommand (c : Command) (t : Tree) : Report :=
  match c.input with
  | .hash text => ⟨0, Text.utf8 (hashReport text), "", t⟩
  | .file path =>
    match loadBanks t Registry.standard c.banks with
    | .error trouble => .ofWorld (⟨t, .empty, []⟩, some trouble)
    | .ok r => .ofWorld (runFile c path ⟨t, r, []⟩)
  | .directory path =>
    match loadBanks t Registry.standard c.banks with
    | .error trouble => .ofWorld (⟨t, .empty, []⟩, some trouble)
    | .ok r => .ofWorld (runDirectory c path ⟨t, r, []⟩)

def version : String := "qscript 0.1.0\n"

def usage : String :=
  "Usage: qscript [OPTIONS] <--file <FILE>|--directory <DIRECTORY>|--hash <TEXT>>\n"

def run (arguments : List String) (environment : Option String) (t : Tree) : Report :=
  match parse arguments environment with
  | .run c => runCommand c t
  | .version => ⟨0, Text.utf8 version, "", t⟩
  | .help => ⟨0, Text.utf8 usage, "", t⟩
  | .refused => ⟨2, [], usage, t⟩

end CommandLine

end QbCodec
