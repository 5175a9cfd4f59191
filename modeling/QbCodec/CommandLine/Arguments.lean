import QbCodec.Game

namespace QbCodec.CommandLine

inductive Input
  | file (path : String)
  | directory (path : String)
  | hash (text : String)
  deriving DecidableEq

structure Command where
  input : Input
  output : Option String
  game : Game
  banks : List String
  verbosity : Nat
  dryRun : Bool
  force : Bool
  toStdout : Bool

inductive ValueOption
  | file | directory | hash | output | game | bank
  deriving DecidableEq

inductive Switch
  | verbose | dryRun | force | toStdout
  deriving DecidableEq

inductive Choice
  | value (o : ValueOption)
  | switch (s : Switch)
  | version
  | help

def long? : String → Option Choice
  | "file" => some (.value .file)
  | "directory" => some (.value .directory)
  | "hash" => some (.value .hash)
  | "output" => some (.value .output)
  | "game" => some (.value .game)
  | "key-bank" => some (.value .bank)
  | "verbose" => some (.switch .verbose)
  | "dry-run" => some (.switch .dryRun)
  | "force" => some (.switch .force)
  | "stdout" => some (.switch .toStdout)
  | "version" => some .version
  | "help" => some .help
  | _ => none

def short? : Char → Option Choice
  | 'f' => some (.value .file)
  | 'd' => some (.value .directory)
  | 'o' => some (.value .output)
  | 'v' => some (.switch .verbose)
  | 'V' => some .version
  | 'h' => some .help
  | _ => none

structure Given where
  values : List (ValueOption × String) := []
  switches : List Switch := []

inductive Request
  | run (c : Command)
  | version
  | help
  | refused

namespace Given

def value? (g : Given) (o : ValueOption) : Option String := g.values.lookup o

def has (g : Given) (s : Switch) : Bool := g.switches.contains s

def allows (o : ValueOption) (v : String) : Bool :=
  match o with
  | .hash => true
  | .game => (Game.ofName? v).isSome
  | .file | .directory | .output | .bank => v ≠ ""

def addValue (g : Given) (o : ValueOption) (v : String) : Option Given :=
  if allows o v && (o = .bank || (g.value? o).isNone) then
    some { g with values := g.values ++ [(o, v)] }
  else none

def addSwitch (g : Given) (s : Switch) : Option Given :=
  if s = .verbose || !g.has s then some { g with switches := g.switches ++ [s] } else none

def inputs (g : Given) : List Input :=
  ((g.value? .file).map Input.file).toList ++ ((g.value? .directory).map Input.directory).toList
    ++ ((g.value? .hash).map Input.hash).toList

def game? (g : Given) (environment : Option String) : Option Game :=
  match g.value? .game, environment with
  | some v, _ => Game.ofName? v
  | none, some v => Game.ofName? v
  | none, none => some .ghwt

def request (g : Given) (environment : Option String) : Request :=
  match g.inputs, g.game? environment with
  | [input], some game => .run {
      input
      output := g.value? .output
      game
      banks := (g.values.filter fun v => v.1 = .bank).map Prod.snd
      verbosity := g.switches.count .verbose
      dryRun := g.has .dryRun
      force := g.has .force
      toStdout := g.has .toStdout }
  | _, _ => .refused

end Given

inductive Progress
  | done (r : Request)
  | next (g : Given) (waiting : Option ValueOption)

def Progress.ofGiven : Option Given → Progress
  | some g => .next g none
  | none => .done .refused

def isEquals (c : Char) : Bool := c = '='

def takeLong (g : Given) (cs : List Char) : Progress :=
  let name := String.ofList (cs.takeWhile fun c => !isEquals c)
  match long? name, cs.dropWhile fun c => !isEquals c with
  | some (.value o), [] => .next g (some o)
  | some (.value o), _ :: v => .ofGiven (g.addValue o (String.ofList v))
  | some (.switch s), [] => .ofGiven (g.addSwitch s)
  | some .version, [] => .done .version
  | some .help, [] => .done .help
  | _, _ => .done .refused

def takeShort (g : Given) : List Char → Progress
  | [] => .next g none
  | c :: rest =>
    match short? c with
    | some (.value o) =>
      match rest with
      | [] => .next g (some o)
      | '=' :: v => .ofGiven (g.addValue o (String.ofList v))
      | v => .ofGiven (g.addValue o (String.ofList v))
    | some (.switch s) =>
      match g.addSwitch s with
      | some g => takeShort g rest
      | none => .done .refused
    | some .version => .done .version
    | some .help => .done .help
    | none => .done .refused

def take (g : Given) (waiting : Option ValueOption) (argument : String) : Progress :=
  match waiting, argument.toList with
  | none, '-' :: '-' :: cs => takeLong g cs
  | none, '-' :: c :: cs => takeShort g (c :: cs)
  | some _, '-' :: _ :: _ => .done .refused
  | some o, _ => .ofGiven (g.addValue o argument)
  | none, _ => .done .refused

def parseFrom (environment : Option String) (g : Given) (waiting : Option ValueOption) :
    List String → Request
  | [] => if waiting.isSome then .refused else g.request environment
  | argument :: rest =>
    if argument = "--" then
      if waiting.isSome || !rest.isEmpty then .refused else g.request environment
    else
      match take g waiting argument with
      | .done r => r
      | .next g waiting => parseFrom environment g waiting rest

def parse (arguments : List String) (environment : Option String) : Request :=
  parseFrom environment {} none arguments

end QbCodec.CommandLine
