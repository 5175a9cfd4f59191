import QbCodec.Bytes.Order
import QbCodec.Failure
import QbCodec.Ieee.Basic
import QbCodec.Key.Registry

namespace QbCodec

structure Cursor where
  data : Array UInt8
  offset : Nat
  order : ByteOrder
  inside : offset ≤ data.size

def Read (α : Type) := Cursor → Except Failure α × Cursor

namespace Read

def pure {α : Type} (a : α) : Read α := fun c => (.ok a, c)

def bind {α β : Type} (r : Read α) (f : α → Read β) : Read β := fun c =>
  match r c with
  | (.ok a, d) => f a d
  | (.error e, d) => (.error e, d)

instance : Monad Read where
  pure := Read.pure
  bind := Read.bind

end Read

namespace Cursor

def ofBytes (bytes : List UInt8) (order : ByteOrder) (start : Nat) : Cursor :=
  let data := bytes.toArray
  ⟨data, min start data.size, order, Nat.min_le_right ..⟩

def remaining (c : Cursor) : Nat := c.data.size - c.offset

def isAtEnd (c : Cursor) : Bool := c.data.size ≤ c.offset

def setOrder (order : ByteOrder) : Read Unit := fun c => (.ok (), { c with order })

def invertOrder : Read Unit := fun c => (.ok (), { c with order := c.order.inverse })

def seek (target : Nat) : Read Unit := fun c =>
  if h : target ≤ c.data.size then (.ok (), { c with offset := target, inside := h })
  else (.error (.endOfData c.offset (target - c.offset) c.remaining), c)

def advance (delta : Int) : Read Unit := fun c =>
  let target := c.offset + delta
  if target < 0 then (.error (.endOfData c.offset 0 c.remaining), c)
  else seek target.toNat c

def alignUp (alignment n : Nat) : Nat :=
  if n % alignment = 0 then n else n + (alignment - n % alignment)

def align (alignment : Nat) : Read Unit := fun c =>
  (.ok (), ⟨c.data, min (alignUp alignment c.offset) c.data.size, c.order, Nat.min_le_right ..⟩)

/-- To align in machine words, where the alignment is added before the remainder is taken away. A sum
that no word holds wraps, or if sums are checked it stops the program. -/
def align? (checked : Bool) (alignment : Nat) (c : Cursor) : Option Cursor :=
  if alignment ≤ 1 ∨ c.offset % alignment = 0 then some c
  else if checked ∧ 2 ^ 64 ≤ c.offset + alignment then none
  else
    let target := c.offset.toUInt64 + alignment.toUInt64 - (c.offset % alignment).toUInt64
    some ⟨c.data, min target.toNat c.data.size, c.order, Nat.min_le_right ..⟩

def take (n : Nat) : Read (List UInt8) := fun c =>
  if h : c.offset + n ≤ c.data.size then
    (.ok (c.data.extract c.offset (c.offset + n)).toList, { c with offset := c.offset + n, inside := h })
  else (.error (.endOfData c.offset n c.remaining), c)

def number (width : Nat) : Read Nat := fun c =>
  match take width c with
  | (.ok bytes, d) => (.ok (c.order.decode bytes), d)
  | (.error e, d) => (.error e, d)

def u8 : Read UInt8 := do return (← number 1).toUInt8

def i8 : Read Int8 := do return (← u8).toInt8

def bool : Read Bool := do return (← u8) != 0

def u16 : Read UInt16 := do return (← number 2).toUInt16

def i16 : Read Int16 := do return (← u16).toInt16

def u32 : Read UInt32 := do return (← number 4).toUInt32

def i32 : Read Int32 := do return (← u32).toInt32

def u64 : Read UInt64 := do return (← number 8).toUInt64

def i64 : Read Int64 := do return (← u64).toInt64

def single : Read Single := do return ⟨← u32⟩

def double : Read Double := do return ⟨← u64⟩

def text (n : Nat) : Read String := fun c =>
  match take n c with
  | (.ok bytes, d) =>
    match Text.ofUtf8? bytes with
    | some s => (.ok s, d)
    | none => (.error (.invalidText c.offset), d)
  | (.error e, d) => (.error e, d)

def countedText : Read String := do text (← u32).toNat

def zeroDistance? (c : Cursor) : Option Nat :=
  (c.data.extract c.offset c.data.size).toList.findIdx? (· == 0)

def zeroEndedText : Read String := fun c =>
  match c.zeroDistance? with
  | none => (.error (.endOfData c.offset (c.remaining + 1) c.remaining), c)
  | some n =>
    match text n c with
    | (.ok s, d) => (.ok s, (take 1 d).2)
    | (.error e, d) => (.error e, d)

def keyName (r : Registry) : Read String := do return r.spellKey (← u32)

end Cursor

end QbCodec
