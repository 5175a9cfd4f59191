import QbCodec.Failure
import QbCodec.Game
import QbCodec.Script.Instruction
import QbCodec.Source.Lexeme

/-!
The statements of source text, read from its lexemes: integer values, and scripts with the
instructions of their bodies. A reading also tells which names were met up to its end or its first
fault, since those are known from then on.
-/

namespace QbCodec

inductive Statement
  | value (name : Key) (value : Int32)
  | script (name : Key) (body : List Instruction)
  deriving DecidableEq

namespace Statement

inductive Fault
  | outsideScript (token : Token) (offset : Nat)
  | valueMissing (offset : Nat)
  | nameMissing (offset : Nat)
  | notAName (token : Token) (offset : Nat)
  | endMissing (offset : Nat)
  | nested (offset : Nat)
  | phraseMalformed (offset : Nat)
  | notEncodable (token : Token) (offset : Nat)
  deriving DecidableEq

def Fault.reason : Fault → String
  | outsideScript token offset =>
    s!"unexpected {token.diagnostic} at offset {offset} outside of a script"
  | valueMissing offset => s!"expected `= <integer>` after the name at offset {offset}"
  | nameMissing offset => s!"script at offset {offset} has no name"
  | notAName token offset => s!"expected a name at offset {offset}, found {token.diagnostic}"
  | endMissing offset => s!"script at offset {offset} has no endscript"
  | nested offset => s!"script at offset {offset} is nested in another script"
  | phraseMalformed offset => s!"expected qs(#\"0x...\") or qs('text') at offset {offset}"
  | notEncodable token offset => s!"cannot encode {token.diagnostic} at offset {offset}"

structure Reading (α : Type) where
  names : List String
  outcome : Except Fault α

namespace Reading

def pure {α : Type} (a : α) : Reading α := ⟨[], .ok a⟩

def fail {α : Type} (fault : Fault) : Reading α := ⟨[], .error fault⟩

def bind {α β : Type} (r : Reading α) (f : α → Reading β) : Reading β :=
  match r.outcome with
  | .error e => ⟨r.names, .error e⟩
  | .ok a => ⟨r.names ++ (f a).names, (f a).outcome⟩

def map {α β : Type} (f : α → β) (r : Reading α) : Reading β := ⟨r.names, r.outcome.map f⟩

end Reading

/-- The key of a name. A canonical spelling of a key is no new name. -/
def nameKey (text : String) : Reading Key :=
  ⟨if Key.isCanonical text then [] else [text], .ok (Key.ofLiteral text)⟩

def lexemeKey (l : Lexeme) : Reading Key :=
  match l.token with
  | .name text => nameKey text
  | .rawKey k => .pure k
  | token => .fail (.notAName token l.offset)

def number? : Token → Option Single
  | .int v => some (Single.ofInt v.toInt)
  | .float v => some v
  | _ => none

def tuple? : List Lexeme → Option (Instruction × Nat)
  | a :: c :: b :: d :: rest =>
    match number? a.token, c.token, number? b.token, d.token with
    | some x, .mark .comma, some y, .mark .closeParen => some (.pair x y, 4)
    | some x, .mark .comma, some y, .mark .comma =>
      match rest with
      | e :: f :: _ =>
        match number? e.token, f.token with
        | some z, .mark .closeParen => some (.vector x y z, 6)
        | _, _ => none
      | _ => none
    | _, _, _, _ => none
  | _ => none

def phrase? : List Lexeme → Option Key
  | a :: b :: c :: _ =>
    match a.token, b.token, c.token with
    | .mark .openParen, .rawKey k, .mark .closeParen => some k
    | .mark .openParen, .string text, .mark .closeParen => some (Key.ofPhrase text)
    | .mark .openParen, .wideString text, .mark .closeParen => some (Key.ofPhrase text)
    | _, _, _ => none
  | _ => none

def stored (text : String) : String := text.push '\x00'

def readBody (game : Game) (skip depth : Nat) : List Lexeme → Reading (List Instruction)
  | [] => .pure []
  | l :: rest =>
    match skip with
    | skip + 1 => readBody game skip depth rest
    | 0 =>
      match l.token with
      | .int v => (readBody game 0 depth rest).map (.word .integer v.toUInt32 :: ·)
      | .float v => (readBody game 0 depth rest).map (.word .float v.bits :: ·)
      | .string text => (readBody game 0 depth rest).map (.text false (stored text) :: ·)
      | .wideString text => (readBody game 0 depth rest).map (.text true (stored text) :: ·)
      | .name text => (nameKey text).bind fun k =>
          (readBody game 0 depth rest).map (.word .name k :: ·)
      | .rawKey k => (readBody game 0 depth rest).map (.word .name k :: ·)
      | .argument text => (nameKey text).bind fun k =>
          (readBody game 0 depth rest).map fun is => .bare .arg :: .word .name k :: is
      | .keyword .qs =>
        match phrase? rest with
        | some k => (readBody game 3 depth rest).map (.word game.phraseTag k :: ·)
        | none => .fail (.phraseMalformed l.offset)
      | .keyword .script => .fail (.nested l.offset)
      | .keyword k =>
        match k.tag? with
        | some t => (readBody game 0 depth rest).map (.bare t :: ·)
        | none => readBody game 0 depth rest
      | .mark .openParen =>
        match tuple? rest with
        | some (tuple, length) => (readBody game length depth rest).map (tuple :: ·)
        | none => (readBody game 0 (depth + 1) rest).map (.bare .openParen :: ·)
      | .mark .closeParen => (readBody game 0 (depth - 1) rest).map (.bare .closeParen :: ·)
      | .mark m =>
        match m.tag? (0 < depth) with
        | some t => (readBody game 0 depth rest).map (.bare t :: ·)
        | none => .fail (.notEncodable l.token l.offset)

def isScriptEnd (l : Lexeme) : Bool := l.token = .keyword .endScript

def readAll (game : Game) (skip : Nat) : List Lexeme → Reading (List Statement)
  | [] => .pure []
  | l :: rest =>
    match skip with
    | skip + 1 => readAll game skip rest
    | 0 =>
      match l.token with
      | .mark .newLine => readAll game 0 rest
      | .keyword .script =>
        match rest with
        | [] => .fail (.nameMissing l.offset)
        | name :: more => (lexemeKey name).bind fun k =>
          match more.findIdx? isScriptEnd with
          | none => .fail (.endMissing l.offset)
          | some length => (readBody game 0 0 (more.take length)).bind fun body =>
              (readAll game (length + 2) rest).map (.script k body :: ·)
      | .name _ | .rawKey _ => (lexemeKey l).bind fun k =>
        match rest with
        | a :: b :: _ =>
          match a.token, b.token with
          | .mark .equals, .int v => (readAll game 2 rest).map (.value k v :: ·)
          | _, _ => .fail (.valueMissing l.offset)
        | _ => .fail (.valueMissing l.offset)
      | token => .fail (.outsideScript token l.offset)

end Statement

end QbCodec
