import QbCodec.File.Item
import QbCodec.File.Statement
import QbCodec.Source.Scanner

/-!
Source text as a compiled file: a header of 28 bytes with the size of the file, then one item for
each statement. Script bodies are stored uncompressed, in the opposite byte order, with their
checksum.
-/

namespace QbCodec.Compiled

def headerSize : Nat := 28

structure Target where
  container : Key
  order : ByteOrder := .big
  game : Game := .ghwt

def header (o : ByteOrder) (size : Nat) : List UInt8 :=
  List.replicate 4 0 ++ o.encode 4 size ++ List.replicate 20 0

def item (t : Target) : Statement → Item
  | .value name value => .integer name t.container value
  | .script name is =>
    let body := Instruction.encodeBody t.order.inverse is
    .script ⟨name, t.container, 0, 0, Bits.Crc32.checksum body, body.length.toUInt32, body⟩

def items (t : Target) (ss : List Statement) : List UInt8 :=
  ss.flatMap fun s => (item t s).encode t.order

def bytes (t : Target) (ss : List Statement) : List UInt8 :=
  let content := items t ss
  header t.order (headerSize + content.length) ++ content

def ofLexemes (t : Target) (ls : List Lexeme) (r : Registry) :
    Except Failure (List UInt8) × Registry :=
  let reading := Statement.readAll t.game 0 ls
  let file := match reading.outcome with
    | .ok ss => .ok (bytes t ss)
    | .error fault => .error (.compile fault.reason)
  (file, r.addAll reading.names)

def ofSource (t : Target) (source : String) (r : Registry) :
    Except Failure (List UInt8) × Registry :=
  match Source.lexemes source with
  | .error e => (.error e, r)
  | .ok ls => ofLexemes t ls r

theorem ofSource_congr (t : Target) (source : String) (r r' : Registry) :
    (ofSource t source r).1 = (ofSource t source r').1 := by
  unfold ofSource
  split <;> rfl

end QbCodec.Compiled
