import QbCodec.Bytes.Cursor

namespace QbCodec

namespace Read

variable {α β : Type} {r : Read α} {f : α → Read β} {c c' : Cursor}

theorem bind_of_ok {a : α} (h : r c = (.ok a, c')) : (r >>= f) c = f a c' := by
  change Read.bind r f c = _
  simp only [Read.bind, h]

theorem bind_of_error {e : Failure} (h : r c = (.error e, c')) :
    (r >>= f) c = (.error e, c') := by
  change Read.bind r f c = _
  simp only [Read.bind, h]

end Read

namespace Cursor

variable {d : List UInt8} {o : ByteOrder} {a n : Nat}

@[simp] theorem order_ofBytes : (ofBytes d o a).order = o := rfl

theorem offset_ofBytes (h : a ≤ d.length) : (ofBytes d o a).offset = a := by
  simp only [ofBytes, List.size_toArray]
  omega

theorem remaining_ofBytes (h : a ≤ d.length) : (ofBytes d o a).remaining = d.length - a := by
  rw [remaining, offset_ofBytes h]
  simp [ofBytes]

theorem isAtEnd_ofBytes : (ofBytes d o a).isAtEnd = true ↔ d.length ≤ a := by
  simp only [isAtEnd, ofBytes, List.size_toArray, decide_eq_true_eq]
  omega

theorem ofBytes_min : ofBytes d o (min a d.length) = ofBytes d o a := by
  simp [ofBytes]

theorem take_ofBytes (h : a + n ≤ d.length) :
    take n (ofBytes d o a) = (.ok ((d.drop a).take n), ofBytes d o (a + n)) := by
  have ha : min a d.length = a := by omega
  have han : min (a + n) d.length = a + n := by omega
  have hslice : (d.toArray.extract a (a + n)).toList = (d.drop a).take n := by
    simp
  simp only [take, ofBytes, List.size_toArray, ha, han, h, dif_pos, hslice]

theorem take_ofBytes_of_lt (ha : a ≤ d.length) (h : d.length < a + n) :
    take n (ofBytes d o a) =
      (.error (.endOfData a n (d.length - a)), ofBytes d o a) := by
  have hoff := offset_ofBytes (o := o) ha
  have hrem := remaining_ofBytes (o := o) ha
  have hsize : (ofBytes d o a).data.size = d.length := by simp [ofBytes]
  have hout : ¬ (ofBytes d o a).offset + n ≤ (ofBytes d o a).data.size := by
    rw [hoff, hsize]
    omega
  rw [take, dif_neg hout, hoff, hrem]

theorem align_ofBytes (h : a ≤ d.length) :
    align n (ofBytes d o a) = (.ok (), ofBytes d o (alignUp n a)) := by
  have ha : min a d.length = a := by omega
  simp only [align, ofBytes, List.size_toArray, ha]

def wordAt (o : ByteOrder) (d : List UInt8) (a : Nat) : UInt32 :=
  (o.decode ((d.drop a).take 4)).toUInt32

theorem u32_ofBytes (h : a + 4 ≤ d.length) :
    u32 (ofBytes d o a) = (.ok (wordAt o d a), ofBytes d o (a + 4)) := by
  have hnumber : number 4 (ofBytes d o a) =
      (.ok (o.decode ((d.drop a).take 4)), ofBytes d o (a + 4)) := by
    simp only [number, take_ofBytes h, order_ofBytes]
  rw [u32, Read.bind_of_ok hnumber]
  rfl

theorem u32_ofBytes_of_lt (ha : a ≤ d.length) (h : d.length < a + 4) :
    u32 (ofBytes d o a) = (.error (.endOfData a 4 (d.length - a)), ofBytes d o a) := by
  have hnumber : number 4 (ofBytes d o a) =
      (.error (.endOfData a 4 (d.length - a)), ofBytes d o a) := by
    simp only [number, take_ofBytes_of_lt ha h]
  rw [u32, Read.bind_of_error hnumber]

theorem i32_ofBytes (h : a + 4 ≤ d.length) :
    i32 (ofBytes d o a) = (.ok (wordAt o d a).toInt32, ofBytes d o (a + 4)) := by
  rw [i32, Read.bind_of_ok (u32_ofBytes h)]
  rfl

theorem i32_ofBytes_of_lt (ha : a ≤ d.length) (h : d.length < a + 4) :
    i32 (ofBytes d o a) = (.error (.endOfData a 4 (d.length - a)), ofBytes d o a) := by
  rw [i32, Read.bind_of_error (u32_ofBytes_of_lt ha h)]

theorem le_alignUp (m n : Nat) : n ≤ alignUp m n := by
  unfold alignUp
  split <;> omega

end Cursor

end QbCodec
