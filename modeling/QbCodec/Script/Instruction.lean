import QbCodec.Bytes.Order
import QbCodec.Ieee.Basic
import QbCodec.Script.Tag
import QbCodec.Text.Bytes

/-!
The instructions of a script body: tags with their operands, and bytes that are no tag. Operands
are in the order of the body, except that the length of a wide text is in the opposite one.
-/

namespace QbCodec

inductive Instruction
  | bare (tag : Tag)
  | half (tag : Tag) (value : UInt16)
  | word (tag : Tag) (value : UInt32)
  | pair (x y : Single)
  | vector (x y z : Single)
  | text (wide : Bool) (stored : String)
  | other (byte : UInt8)
  deriving DecidableEq

namespace Instruction

def tag? : Instruction → Option Tag
  | bare t | half t _ | word t _ => some t
  | pair .. => some .pair
  | vector .. => some .vector
  | text wide _ => some (if wide then .wideString else .string)
  | other _ => none

def lengthOrder (o : ByteOrder) (wide : Bool) : ByteOrder := if wide then o.inverse else o

def encodeSingle (o : ByteOrder) (v : Single) : List UInt8 := o.encode 4 v.bits.toNat

def operand (o : ByteOrder) : Instruction → List UInt8
  | bare _ | other _ => []
  | half _ v => o.encode 2 v.toNat
  | word _ v => o.encode 4 v.toNat
  | pair x y => encodeSingle o x ++ encodeSingle o y
  | vector x y z => encodeSingle o x ++ encodeSingle o y ++ encodeSingle o z
  | text wide s => (lengthOrder o wide).encode 4 s.utf8ByteSize ++ Text.utf8 s

def leading : Instruction → UInt8
  | other b => b
  | bare t | half t _ | word t _ => t.byte
  | pair .. => Tag.pair.byte
  | vector .. => Tag.vector.byte
  | text wide _ => if wide then Tag.wideString.byte else Tag.string.byte

def encode (o : ByteOrder) (i : Instruction) : List UInt8 := i.leading :: i.operand o

def encodeBody (o : ByteOrder) (is : List Instruction) : List UInt8 :=
  is.flatMap (encode o) ++ [Tag.endScript.byte]

def split? : Nat → List UInt8 → Option (List UInt8 × List UInt8)
  | 0, bs => some ([], bs)
  | _ + 1, [] => none
  | n + 1, b :: bs => (split? n bs).map fun (first, rest) => (b :: first, rest)

def number? (o : ByteOrder) (width : Nat) (bs : List UInt8) : Option (Nat × List UInt8) :=
  (split? width bs).map fun (first, rest) => (o.decode first, rest)

def single? (o : ByteOrder) (bs : List UInt8) : Option (Single × List UInt8) :=
  (number? o 4 bs).map fun (n, rest) => (⟨n.toUInt32⟩, rest)

def text? (o : ByteOrder) (wide : Bool) (bs : List UInt8) : Option (Instruction × List UInt8) :=
  (number? (lengthOrder o wide) 4 bs).bind fun (n, rest) =>
    (split? n rest).bind fun (stored, rest) =>
      (Text.ofUtf8? stored).map fun s => (text wide s, rest)

def afterTag? (o : ByteOrder) (t : Tag) (bs : List UInt8) : Option (Instruction × List UInt8) :=
  match t.shape with
  | .bare => some (bare t, bs)
  | .half => (number? o 2 bs).map fun (n, rest) => (half t n.toUInt16, rest)
  | .word => (number? o 4 bs).map fun (n, rest) => (word t n.toUInt32, rest)
  | .pair => (single? o bs).bind fun (x, bs) =>
      (single? o bs).map fun (y, rest) => (pair x y, rest)
  | .triple => (single? o bs).bind fun (x, bs) =>
      (single? o bs).bind fun (y, bs) =>
        (single? o bs).map fun (z, rest) => (vector x y z, rest)
  | .text => text? o (t = .wideString) bs

def next? (o : ByteOrder) : List UInt8 → Option (Instruction × List UInt8)
  | [] => none
  | b :: bs =>
    match Tag.ofByte? b with
    | none => some (other b, bs)
    | some t => afterTag? o t bs

theorem length_of_split? {n : Nat} {bs first rest : List UInt8}
    (h : split? n bs = some (first, rest)) : rest.length ≤ bs.length := by
  induction n generalizing bs first with
  | zero => simp only [split?, Option.some.injEq, Prod.mk.injEq] at h; simp [h.2]
  | succ n ih =>
    cases bs with
    | nil => simp [split?] at h
    | cons b bs =>
      simp only [split?, Option.map_eq_some_iff, Prod.mk.injEq] at h
      obtain ⟨⟨first', rest'⟩, hs, -, rfl⟩ := h
      exact Nat.le_succ_of_le (ih hs)

theorem length_of_number? {o : ByteOrder} {width n : Nat} {bs rest : List UInt8}
    (h : number? o width bs = some (n, rest)) : rest.length ≤ bs.length := by
  simp only [number?, Option.map_eq_some_iff, Prod.mk.injEq] at h
  obtain ⟨⟨first, rest'⟩, hs, -, rfl⟩ := h
  exact length_of_split? hs

theorem length_of_single? {o : ByteOrder} {v : Single} {bs rest : List UInt8}
    (h : single? o bs = some (v, rest)) : rest.length ≤ bs.length := by
  simp only [single?, Option.map_eq_some_iff, Prod.mk.injEq] at h
  obtain ⟨⟨n, rest'⟩, hs, -, rfl⟩ := h
  exact length_of_number? hs

theorem length_of_text? {o : ByteOrder} {wide : Bool} {i : Instruction} {bs rest : List UInt8}
    (h : text? o wide bs = some (i, rest)) : rest.length ≤ bs.length := by
  simp only [text?, Option.bind_eq_some_iff, Option.map_eq_some_iff, Prod.mk.injEq] at h
  obtain ⟨⟨n, mid⟩, hn, ⟨stored, rest'⟩, hs, s, -, -, rfl⟩ := h
  exact Nat.le_trans (length_of_split? hs) (length_of_number? hn)

theorem length_of_afterTag? {o : ByteOrder} {t : Tag} {i : Instruction} {bs rest : List UInt8}
    (h : afterTag? o t bs = some (i, rest)) : rest.length ≤ bs.length := by
  unfold afterTag? at h
  split at h
  · simp only [Option.some.injEq, Prod.mk.injEq] at h
    simp [h.2]
  · simp only [Option.map_eq_some_iff, Prod.mk.injEq] at h
    obtain ⟨⟨n, rest'⟩, hn, -, rfl⟩ := h
    exact length_of_number? hn
  · simp only [Option.map_eq_some_iff, Prod.mk.injEq] at h
    obtain ⟨⟨n, rest'⟩, hn, -, rfl⟩ := h
    exact length_of_number? hn
  · simp only [Option.bind_eq_some_iff, Option.map_eq_some_iff, Prod.mk.injEq] at h
    obtain ⟨⟨x, mid⟩, hx, ⟨y, rest'⟩, hy, -, rfl⟩ := h
    exact Nat.le_trans (length_of_single? hy) (length_of_single? hx)
  · simp only [Option.bind_eq_some_iff, Option.map_eq_some_iff, Prod.mk.injEq] at h
    obtain ⟨⟨x, mid⟩, hx, ⟨y, mid'⟩, hy, ⟨z, rest'⟩, hz, -, rfl⟩ := h
    exact Nat.le_trans (length_of_single? hz)
      (Nat.le_trans (length_of_single? hy) (length_of_single? hx))
  · exact length_of_text? h

theorem length_of_next? {o : ByteOrder} {i : Instruction} {bs rest : List UInt8}
    (h : next? o bs = some (i, rest)) : rest.length < bs.length := by
  cases bs with
  | nil => simp [next?] at h
  | cons b bs =>
    simp only [next?] at h
    split at h
    · simp only [Option.some.injEq, Prod.mk.injEq] at h
      simp [h.2]
    · exact Nat.lt_succ_of_le (length_of_afterTag? h)

/-- The instructions up to the end tag, the end of the bytes, or the first one that is cut
short. -/
def decodeBody (o : ByteOrder) (bs : List UInt8) : List Instruction :=
  match h : next? o bs with
  | none => []
  | some (i, rest) =>
    have := length_of_next? h
    if i = bare .endScript then [] else i :: decodeBody o rest
termination_by bs.length

end Instruction

end QbCodec
