import QbCodec.Key.Basic
import QbCodec.Text.Blank
import QbCodec.Text.Lines

/-!
The registry of known names. It finds the literal of a key, and beside that counts for each literal
the keys that stand for it, so that a text can be recognized as a known literal.
-/

namespace QbCodec

structure Registry where
  entries : List (Key × String) := []
  uses : List (String × Nat) := []

namespace Registry

def empty : Registry := {}

def size (r : Registry) : Nat := r.entries.length

def isEmpty (r : Registry) : Bool := r.entries.isEmpty

def resolve (r : Registry) (k : Key) : Option String := r.entries.lookup k

def useCount (r : Registry) (literal : String) : Option Nat := r.uses.lookup literal

def hasLiteral (r : Registry) (literal : String) : Bool := (r.useCount literal).isSome

def acquire (literal : String) : List (String × Nat) → List (String × Nat)
  | [] => [(literal, 1)]
  | (t, n) :: rest => if t = literal then (t, n + 1) :: rest else (t, n) :: acquire literal rest

def release (literal : String) : List (String × Nat) → List (String × Nat)
  | [] => []
  | (t, n) :: rest =>
    if t = literal then (if n ≤ 1 then rest else (t, n - 1) :: rest)
    else (t, n) :: release literal rest

def setEntry (k : Key) (literal : String) : List (Key × String) → List (Key × String)
  | [] => [(k, literal)]
  | (j, t) :: rest => if j = k then (k, literal) :: rest else (j, t) :: setEntry k literal rest

def assign (r : Registry) (k : Key) (literal : String) : Registry :=
  let entries := setEntry k literal r.entries
  match r.resolve k with
  | none => ⟨entries, acquire literal r.uses⟩
  | some previous =>
    if previous = literal then ⟨entries, r.uses⟩
    else ⟨entries, acquire literal (release previous r.uses)⟩

def add (r : Registry) (name : String) : Registry := r.assign (Key.ofName name) name

def addAll (r : Registry) (names : List String) : Registry := names.foldl add r

def spellKey (r : Registry) (k : Key) : String := (r.resolve k).getD k.spell

def canonicalize : List Char → List Char
  | '0' :: 'x' :: digits => '0' :: 'x' :: Text.upper digits
  | '0' :: 'X' :: digits => '0' :: 'x' :: Text.upper digits
  | cs => cs

def isMarked : List Char → Bool
  | '0' :: 'x' :: _ => true
  | _ => false

/-- A known literal is its own answer, a marked number answers with its literal or its canonical
spelling, and any other text is returned as it is. -/
def lookup (r : Registry) (text : String) : String :=
  if r.hasLiteral text then text
  else
    let canonical := canonicalize text.toList
    match (Key.parseText? canonical).bind r.resolve with
    | some literal => if isMarked canonical then literal else String.ofList canonical
    | none => String.ofList canonical

end Registry

end QbCodec
