import QbCodec.Bytes.Cursor

namespace QbCodec

inductive ItemKind
  | integer | script | pointer
  deriving DecidableEq

namespace ItemKind

def byte : ItemKind → UInt8
  | integer => 1
  | script => 7
  | pointer => 26

def ofByte? (b : UInt8) : Option ItemKind :=
  if b = 1 then some integer else if b = 7 then some script else if b = 26 then some pointer
  else none

end ItemKind

/-- `stored` is the body as it stands in the file, which is compressed if its length is not
`fullSize`. -/
structure ScriptItem where
  name : Key
  container : Key
  unknown : Int32
  dummy : UInt32
  crc : UInt32
  fullSize : UInt32
  stored : List UInt8
  deriving DecidableEq

inductive Item
  | integer (name container : Key) (value : Int32)
  | script (item : ScriptItem)
  | pointer (name container target : Key)
  deriving DecidableEq

namespace Item

def kind : Item → ItemKind
  | integer .. => .integer
  | script _ => .script
  | pointer .. => .pointer

def flags : UInt8 := 0x20

def quad (k : ItemKind) : List UInt8 := [0, flags, k.byte, 0]

def padding (n : Nat) : List UInt8 := List.replicate ((4 - n % 4) % 4) 0

def encode (o : ByteOrder) (i : Item) : List UInt8 :=
  quad i.kind ++
    match i with
    | integer name container value =>
      o.encode 4 name.toNat ++ o.encode 4 container.toNat ++ o.encode 4 value.toUInt32.toNat
    | script s =>
      o.encode 4 s.name.toNat ++ o.encode 4 s.container.toNat ++ o.encode 4 s.unknown.toUInt32.toNat
        ++ o.encode 4 s.dummy.toNat ++ o.encode 4 s.crc.toNat ++ o.encode 4 s.fullSize.toNat
        ++ o.encode 4 s.stored.length ++ s.stored ++ padding s.stored.length
    | pointer name container target =>
      o.encode 4 name.toNat ++ o.encode 4 container.toNat ++ o.encode 4 target.toNat

def readInteger : Read Item := do
  let name ← Cursor.u32
  let container ← Cursor.u32
  let value ← Cursor.i32
  return integer name container value

def readScript : Read Item := do
  let name ← Cursor.u32
  let container ← Cursor.u32
  let unknown ← Cursor.i32
  let dummy ← Cursor.u32
  let crc ← Cursor.u32
  let fullSize ← Cursor.u32
  let storedSize ← Cursor.u32
  let stored ← Cursor.take storedSize.toNat
  Cursor.align 4
  return script ⟨name, container, unknown, dummy, crc, fullSize, stored⟩

def readPointer : Read Item := do
  let name ← Cursor.u32
  let container ← Cursor.u32
  let target ← Cursor.u32
  return pointer name container target

def readKind : ItemKind → Read Item
  | .integer => readInteger
  | .script => readScript
  | .pointer => readPointer

def read : Read Item := fun c =>
  match Cursor.take 4 c with
  | (.error e, d) => (.error e, d)
  | (.ok quad, d) =>
    let tag := quad.getD 2 0
    match ItemKind.ofByte? tag with
    | none => (.error (.unknownItem tag c.offset), d)
    | some kind => readKind kind d

end Item

end QbCodec
