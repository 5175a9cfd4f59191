import QbCodec.Bytes.Order
import QbCodec.Ieee.Basic
import QbCodec.Key.Basic

namespace QbCodec

structure Output where
  bytes : List UInt8
  order : ByteOrder

namespace Output

def empty (order : ByteOrder) : Output := ⟨[], order⟩

def size (o : Output) : Nat := o.bytes.length

def setOrder (order : ByteOrder) (o : Output) : Output := { o with order }

def invertOrder (o : Output) : Output := { o with order := o.order.inverse }

def raw (bs : List UInt8) (o : Output) : Output := { o with bytes := o.bytes ++ bs }

def number (width n : Nat) (o : Output) : Output := o.raw (o.order.encode width n)

def u8 (v : UInt8) (o : Output) : Output := o.number 1 v.toNat

def i8 (v : Int8) (o : Output) : Output := o.u8 v.toUInt8

def bool (v : Bool) (o : Output) : Output := o.u8 (if v then 1 else 0)

def u16 (v : UInt16) (o : Output) : Output := o.number 2 v.toNat

def i16 (v : Int16) (o : Output) : Output := o.u16 v.toUInt16

def u32 (v : UInt32) (o : Output) : Output := o.number 4 v.toNat

def i32 (v : Int32) (o : Output) : Output := o.u32 v.toUInt32

def u64 (v : UInt64) (o : Output) : Output := o.number 8 v.toNat

def i64 (v : Int64) (o : Output) : Output := o.u64 v.toUInt64

def single (v : Single) (o : Output) : Output := o.u32 v.bits

def double (v : Double) (o : Output) : Output := o.u64 v.bits

def countedText (s : String) (o : Output) : Output :=
  (o.number 4 s.utf8ByteSize).raw (Text.utf8 s)

def zeroEndedText (s : String) (o : Output) : Output := (o.raw (Text.utf8 s)).u8 0

/-- A canonical spelling is written as the key that it spells, any other text is hashed. -/
def keyOf (literal : String) (o : Output) : Output :=
  o.u32 (if Key.isCanonical literal then (Key.parse? literal).getD (Key.ofName literal)
    else Key.ofName literal)

def pad (count : Nat) (b : UInt8) (o : Output) : Output := o.raw (List.replicate count b)

def gap (alignment n : Nat) : Nat :=
  if n % alignment = 0 then 0 else alignment - n % alignment

def padTo (alignment : Nat) (b : UInt8) (o : Output) : Output :=
  o.pad (gap alignment o.size) b

/-- Nothing if the four bytes at `offset` are not all written. -/
def patch? (offset : Nat) (v : UInt32) (o : Output) : Option Output :=
  if offset + 4 ≤ o.size then
    some { o with bytes := o.bytes.take offset ++ o.order.encode 4 v.toNat ++ o.bytes.drop (offset + 4) }
  else none

end Output

end QbCodec
