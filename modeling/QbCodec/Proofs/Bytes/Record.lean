import QbCodec.Bytes.Output
import QbCodec.Proofs.Bytes.Position

namespace QbCodec

namespace Record

inductive Kind
  | u8 | i8 | bool | u16 | i16 | u32 | i32 | u64 | i64 | single | double
  | raw (length : Nat)
  | countedText | zeroEndedText

namespace Kind

abbrev Value : Kind → Type
  | u8 => UInt8
  | i8 => Int8
  | bool => Bool
  | u16 => UInt16
  | i16 => Int16
  | u32 => UInt32
  | i32 => Int32
  | u64 => UInt64
  | i64 => Int64
  | single => Single
  | double => Double
  | raw _ => List UInt8
  | countedText | zeroEndedText => String

def write : (k : Kind) → k.Value → Output → Output
  | u8, v => Output.u8 v
  | i8, v => Output.i8 v
  | bool, v => Output.bool v
  | u16, v => Output.u16 v
  | i16, v => Output.i16 v
  | u32, v => Output.u32 v
  | i32, v => Output.i32 v
  | u64, v => Output.u64 v
  | i64, v => Output.i64 v
  | single, v => Output.single v
  | double, v => Output.double v
  | raw _, bs => Output.raw bs
  | countedText, s => Output.countedText s
  | zeroEndedText, s => Output.zeroEndedText s

def read : (k : Kind) → Read k.Value
  | u8 => Cursor.u8
  | i8 => Cursor.i8
  | bool => Cursor.bool
  | u16 => Cursor.u16
  | i16 => Cursor.i16
  | u32 => Cursor.u32
  | i32 => Cursor.i32
  | u64 => Cursor.u64
  | i64 => Cursor.i64
  | single => Cursor.single
  | double => Cursor.double
  | raw length => Cursor.take length
  | countedText => Cursor.countedText
  | zeroEndedText => Cursor.zeroEndedText

def Fits : (k : Kind) → k.Value → Prop
  | raw length, bs => bs.length = length
  | countedText, s => s.utf8ByteSize < 2 ^ 32
  | zeroEndedText, s => '\x00' ∉ s.toList
  | _, _ => True

end Kind

structure Datum where
  kind : Kind
  value : kind.Value

structure Field extends Datum where
  fits : kind.Fits value

inductive Step (α : Type)
  | field (a : α)
  | align (alignment : Nat) (fill : UInt8)
  | setOrder (order : ByteOrder)
  | invertOrder

namespace Step

def map {α β : Type} (f : α → β) : Step α → Step β
  | field a => field (f a)
  | align alignment fill => align alignment fill
  | setOrder order => setOrder order
  | invertOrder => invertOrder

def write : Step Field → Output → Output
  | field f => f.kind.write f.value
  | align alignment fill => Output.padTo alignment fill
  | setOrder order => Output.setOrder order
  | invertOrder => Output.invertOrder

def read : Step Kind → Read (List Datum)
  | field k => do return [⟨k, ← k.read⟩]
  | align alignment _ => do Cursor.align alignment; return []
  | setOrder order => do Cursor.setOrder order; return []
  | invertOrder => do Cursor.invertOrder; return []

def data : Step Field → List Datum
  | field f => [f.toDatum]
  | _ => []

end Step

def write (steps : List (Step Field)) (out : Output) : Output :=
  steps.foldl (fun out s => s.write out) out

def kinds (steps : List (Step Field)) : List (Step Kind) := steps.map (Step.map fun f => f.kind)

def read : List (Step Kind) → Read (List Datum)
  | [] => pure []
  | s :: steps => do
    let first ← s.read
    let rest ← read steps
    return first ++ rest

def data (steps : List (Step Field)) : List Datum := steps.flatMap Step.data

end Record

namespace Text

theorem zero_notMem_utf8EncodeChar {c : Char} (h : c ≠ '\x00') : 0 ∉ String.utf8EncodeChar c := by
  have hpos : c.val.toNat ≠ 0 := fun hzero => h (Char.ext (UInt32.toNat_inj.mp hzero))
  have hne {n : Nat} (hn : n % 256 ≠ 0) : (0 : UInt8) ≠ UInt8.ofNat n := by
    intro heq
    apply hn
    simpa using (congrArg UInt8.toNat heq).symm
  unfold String.utf8EncodeChar
  dsimp only
  split
  · simp only [List.mem_singleton]
    exact hne (by omega)
  · split
    · simp only [List.mem_cons, List.not_mem_nil, or_false, not_or]
      exact ⟨hne (by omega), hne (by omega)⟩
    · split
      · simp only [List.mem_cons, List.not_mem_nil, or_false, not_or]
        exact ⟨hne (by omega), hne (by omega), hne (by omega)⟩
      · simp only [List.mem_cons, List.not_mem_nil, or_false, not_or]
        exact ⟨hne (by omega), hne (by omega), hne (by omega), hne (by omega)⟩

theorem utf8_eq_flatMap (s : String) : utf8 s = s.toList.flatMap String.utf8EncodeChar := by
  have hbytes : s.toByteArray = s.toList.utf8Encode := by
    rw [← String.toByteArray_ofList, String.ofList_toList]
  rw [utf8, hbytes, List.utf8Encode]
  simp

theorem zero_notMem_utf8 {s : String} (h : '\x00' ∉ s.toList) : 0 ∉ utf8 s := by
  rw [utf8_eq_flatMap, List.mem_flatMap]
  rintro ⟨c, hc, hzero⟩
  apply zero_notMem_utf8EncodeChar _ hzero
  rintro rfl
  exact h hc

end Text

def Cursor.behind (file : List UInt8) (out : Output) : Cursor := ofBytes file out.order out.size

structure Reads {α : Type} (r : Read α) (a : α) (f : Output → Output) : Prop where
  appends : ∀ out, out.bytes <+: (f out).bytes
  reads : ∀ out file, (f out).bytes <+: file →
    r (Cursor.behind file out) = (.ok a, Cursor.behind file (f out))

namespace Reads

open Cursor

variable {α β : Type} {r : Read α} {a : α} {f : Output → Output}

theorem bind {g : α → Read β} {b : β} {h : Output → Output} (hr : Reads r a f)
    (hg : Reads (g a) b h) : Reads (r >>= g) b fun out => h (f out) where
  appends out := (hr.appends out).trans (hg.appends (f out))
  reads out file hfile := by
    have hfirst := hr.reads out file ((hg.appends (f out)).trans hfile)
    rw [Read.bind_of_ok hfirst, hg.reads (f out) file hfile]

theorem pure (a : α) : Reads (Read.pure a) a id where
  appends _ := List.prefix_refl _
  reads _ _ _ := rfl

theorem map {g : α → β} {b : β} (hr : Reads r a f) (h : g a = b) :
    Reads (do return g (← r)) b f :=
  hr.bind (g := fun x => Read.pure (g x)) (h := id) (h ▸ pure (g a))

theorem take {n : Nat} {bs : List UInt8} (h : bs.length = n) :
    Reads (Cursor.take n) bs (Output.raw bs) where
  appends out := List.prefix_append _ _
  reads out file hfile := by
    obtain ⟨rest, rfl⟩ := hfile
    have hfits : out.size + n ≤ ((out.raw bs).bytes ++ rest).length := by
      simp [Output.raw, Output.size, h]
    rw [behind, take_ofBytes hfits]
    simp [behind, Output.raw, Output.size, h]

theorem number {width n : Nat} (h : n < 256 ^ width) :
    Reads (Cursor.number width) n (Output.number width n) where
  appends out := List.prefix_append _ _
  reads out file hfile := by
    have htake := (take (out.order.length_encode width n)).reads out file hfile
    have hdecode : (behind file out).order.decode (out.order.encode width n) = n :=
      out.order.decode_encode h
    simp only [Cursor.number, htake, hdecode]
    rfl

theorem u8 (v : UInt8) : Reads Cursor.u8 v (Output.u8 v) := by
  have h : v.toNat < 256 ^ 1 := v.toNat_lt
  exact (number h).map (by simp)

theorem i8 (v : Int8) : Reads Cursor.i8 v (Output.i8 v) := (u8 v.toUInt8).map v.toInt8_toUInt8

theorem bool (v : Bool) : Reads Cursor.bool v (Output.bool v) := by
  exact (u8 (if v then 1 else 0)).map (by cases v <;> rfl)

theorem u16 (v : UInt16) : Reads Cursor.u16 v (Output.u16 v) := by
  have h : v.toNat < 256 ^ 2 := v.toNat_lt
  exact (number h).map (by simp)

theorem i16 (v : Int16) : Reads Cursor.i16 v (Output.i16 v) :=
  (u16 v.toUInt16).map v.toInt16_toUInt16

theorem u32 (v : UInt32) : Reads Cursor.u32 v (Output.u32 v) := by
  have h : v.toNat < 256 ^ 4 := v.toNat_lt
  exact (number h).map (by simp)

theorem i32 (v : Int32) : Reads Cursor.i32 v (Output.i32 v) :=
  (u32 v.toUInt32).map v.toInt32_toUInt32

theorem u64 (v : UInt64) : Reads Cursor.u64 v (Output.u64 v) := by
  have h : v.toNat < 256 ^ 8 := v.toNat_lt
  exact (number h).map (by simp)

theorem i64 (v : Int64) : Reads Cursor.i64 v (Output.i64 v) :=
  (u64 v.toUInt64).map v.toInt64_toUInt64

theorem single (v : Single) : Reads Cursor.single v (Output.single v) := (u32 v.bits).map rfl

theorem double (v : Double) : Reads Cursor.double v (Output.double v) := (u64 v.bits).map rfl

theorem text {n : Nat} {s : String} (h : s.utf8ByteSize = n) :
    Reads (Cursor.text n) s (Output.raw (Text.utf8 s)) where
  appends out := List.prefix_append _ _
  reads out file hfile := by
    have hlength : (Text.utf8 s).length = n := h
    simp only [Cursor.text, (take hlength).reads out file hfile, Text.ofUtf8?_utf8]

theorem countedText {s : String} (h : s.utf8ByteSize < 2 ^ 32) :
    Reads Cursor.countedText s (Output.countedText s) := by
  have hsize : s.utf8ByteSize < 256 ^ 4 := h
  have hcount : s.utf8ByteSize = s.utf8ByteSize.toUInt32.toNat := by
    simp only [Nat.toUInt32, UInt32.toNat_ofNat']
    omega
  have hnumber : Reads Cursor.u32 s.utf8ByteSize.toUInt32 (Output.number 4 s.utf8ByteSize) :=
    (number hsize).map rfl
  exact hnumber.bind (text hcount)

theorem u8_zero (out : Output) : out.u8 0 = out.raw [0] := by
  cases h : out.order <;> simp only [Output.u8, Output.number, h] <;> rfl

theorem zeroDistance?_behind {s : String} (h : '\x00' ∉ s.toList) {out : Output}
    {file : List UInt8} (hfile : (out.zeroEndedText s).bytes <+: file) :
    (behind file out).zeroDistance? = some s.utf8ByteSize := by
  obtain ⟨rest, rfl⟩ := hfile
  rw [Output.zeroEndedText, u8_zero]
  have hnone : (Text.utf8 s).findIdx? (· == 0) = none := by
    rw [List.findIdx?_eq_none_iff]
    intro b hb
    have hne : b ≠ 0 := fun hzero => Text.zero_notMem_utf8 h (hzero ▸ hb)
    simpa using hne
  have hlength : (Text.utf8 s).length = s.utf8ByteSize := rfl
  simp [zeroDistance?, behind, ofBytes, Output.raw, Output.size, List.findIdx?_append, hnone,
    hlength, List.findIdx?_cons]

theorem zeroEndedText {s : String} (h : '\x00' ∉ s.toList) :
    Reads Cursor.zeroEndedText s (Output.zeroEndedText s) where
  appends out := (List.prefix_append _ _).trans (List.prefix_append _ _)
  reads out file hfile := by
    have htext := (text rfl).reads out file ((List.prefix_append _ _).trans hfile)
    have hzero : ((out.raw (Text.utf8 s)).raw [0]).bytes <+: file := by
      rwa [← u8_zero]
    have hend := (take rfl).reads (out.raw (Text.utf8 s)) file hzero
    rw [← u8_zero] at hend
    simp only [Cursor.zeroEndedText, zeroDistance?_behind h hfile, htext]
    exact congrArg (fun c => (Except.ok s, c)) (congrArg Prod.snd hend)

theorem alignUp_eq_add_gap (n a : Nat) : alignUp n a = a + Output.gap n a := by
  unfold alignUp Output.gap
  split <;> rfl

theorem align (n : Nat) (b : UInt8) : Reads (Cursor.align n) () (Output.padTo n b) where
  appends out := List.prefix_append _ _
  reads out file hfile := by
    have hinside : out.size ≤ file.length := ((List.prefix_append _ _).trans hfile).length_le
    have hsize : (out.padTo n b).size = alignUp n out.size := by
      rw [alignUp_eq_add_gap]
      simp [Output.padTo, Output.pad, Output.raw, Output.size]
    rw [behind, align_ofBytes hinside, ← hsize]
    rfl

theorem setOrder (o : ByteOrder) : Reads (Cursor.setOrder o) () (Output.setOrder o) where
  appends _ := List.prefix_refl _
  reads _ _ _ := rfl

theorem invertOrder : Reads Cursor.invertOrder () Output.invertOrder where
  appends _ := List.prefix_refl _
  reads _ _ _ := rfl

end Reads

namespace Record

theorem Field.reads (f : Field) : Reads f.kind.read f.value (f.kind.write f.value) := by
  rcases f with ⟨⟨k, v⟩, h⟩
  cases k with
  | u8 => exact .u8 v
  | i8 => exact .i8 v
  | bool => exact .bool v
  | u16 => exact .u16 v
  | i16 => exact .i16 v
  | u32 => exact .u32 v
  | i32 => exact .i32 v
  | u64 => exact .u64 v
  | i64 => exact .i64 v
  | single => exact .single v
  | double => exact .double v
  | raw _ => exact .take h
  | countedText => exact .countedText h
  | zeroEndedText => exact .zeroEndedText h

theorem Step.reads (s : Step Field) : Reads (s.map fun f => f.kind).read s.data s.write := by
  cases s with
  | field f => exact f.reads.map rfl
  | align alignment fill => exact (Reads.align alignment fill).map rfl
  | setOrder order => exact (Reads.setOrder order).map rfl
  | invertOrder => exact Reads.invertOrder.map rfl

theorem reads (steps : List (Step Field)) :
    Reads (read (kinds steps)) (data steps) (write steps) := by
  induction steps with
  | nil => exact .pure []
  | cons s steps ih =>
    have hrest := ih.map (g := fun rest => s.data ++ rest) rfl
    exact s.reads.bind (g := fun first => do return first ++ (← read (kinds steps))) hrest

/-- Reading the start of a record gives what was written there, and leaves the cursor where the
writing stood, in the same order. At the end of the record it stands at the end of the buffer. -/
theorem read_write (order : ByteOrder) (before after : List (Step Field)) :
    let out := write before (.empty order)
    let file := (write (before ++ after) (.empty order)).bytes
    ∃ c, read (kinds before) (.ofBytes file order 0) = (.ok (data before), c) ∧
      c.data = file.toArray ∧ c.offset = out.size ∧ c.order = out.order ∧
        (after = [] → c.isAtEnd) := by
  intro out file
  have hprefix : out.bytes <+: file := by
    have happend : write (before ++ after) (.empty order) = write after out := List.foldl_append
    change out.bytes <+: (write (before ++ after) (.empty order)).bytes
    rw [happend]
    exact (reads after).appends out
  refine ⟨_, (reads before).reads (.empty order) file hprefix, rfl,
    Cursor.offset_ofBytes hprefix.length_le, rfl, ?_⟩
  rintro rfl
  rw [Cursor.behind, Cursor.isAtEnd_ofBytes]
  simp only [file, List.append_nil]
  exact Nat.le_refl _

end Record

end QbCodec
