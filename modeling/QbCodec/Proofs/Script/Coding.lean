import QbCodec.Script.Instruction

namespace QbCodec.Instruction

def WellFormed : Instruction → Prop
  | bare t => t.shape = .bare
  | half t _ => t.shape = .half
  | word t _ => t.shape = .word
  | pair .. | vector .. => True
  | text _ s => s.utf8ByteSize < 2 ^ 32
  | other b => Tag.ofByte? b = none

theorem split?_append (first rest : List UInt8) :
    split? first.length (first ++ rest) = some (first, rest) := by
  induction first with
  | nil => rfl
  | cons b first ih => simp [split?, ih]

theorem number?_encode (o : ByteOrder) {width n : Nat} (h : n < 256 ^ width) (rest : List UInt8) :
    number? o width (o.encode width n ++ rest) = some (n, rest) := by
  have hsplit := split?_append (o.encode width n) rest
  rw [ByteOrder.length_encode] at hsplit
  simp [number?, hsplit, ByteOrder.decode_encode o h]

theorem single?_encode (o : ByteOrder) (v : Single) (rest : List UInt8) :
    single? o (encodeSingle o v ++ rest) = some (v, rest) := by
  have h : v.bits.toNat < 256 ^ 4 := v.bits.toNat_lt
  simp [single?, encodeSingle, number?_encode o h]

theorem length_utf8 (s : String) : (Text.utf8 s).length = s.utf8ByteSize := by
  rfl

theorem text?_encode (o : ByteOrder) (wide : Bool) {s : String} (h : s.utf8ByteSize < 2 ^ 32)
    (rest : List UInt8) :
    text? o wide ((lengthOrder o wide).encode 4 s.utf8ByteSize ++ (Text.utf8 s ++ rest)) =
      some (text wide s, rest) := by
  have hsplit := split?_append (Text.utf8 s) rest
  have hlt : s.utf8ByteSize < 256 ^ 4 := h
  rw [length_utf8] at hsplit
  simp [text?, number?_encode (lengthOrder o wide) hlt, hsplit, Text.ofUtf8?_utf8]

theorem next?_encode (o : ByteOrder) {i : Instruction} (h : i.WellFormed) (rest : List UInt8) :
    next? o (i.encode o ++ rest) = some (i, rest) := by
  cases i with
  | bare t =>
    have hshape : t.shape = .bare := h
    simp [next?, encode, leading, operand, Tag.ofByte?_byte, afterTag?, hshape]
  | half t v =>
    have hshape : t.shape = .half := h
    have hlt : v.toNat < 256 ^ 2 := v.toNat_lt
    simp [next?, encode, leading, operand, Tag.ofByte?_byte, afterTag?, hshape,
      number?_encode o hlt]
  | word t v =>
    have hshape : t.shape = .word := h
    have hlt : v.toNat < 256 ^ 4 := v.toNat_lt
    simp [next?, encode, leading, operand, Tag.ofByte?_byte, afterTag?, hshape,
      number?_encode o hlt]
  | pair x y =>
    simp [next?, encode, leading, operand, Tag.ofByte?_byte, afterTag?, Tag.shape, single?_encode]
  | vector x y z =>
    simp [next?, encode, leading, operand, Tag.ofByte?_byte, afterTag?, Tag.shape, single?_encode]
  | text wide s =>
    cases wide <;>
    simp [next?, encode, leading, operand, Tag.ofByte?_byte, afterTag?, Tag.shape,
      text?_encode o _ h]
  | other b =>
    have hnone : Tag.ofByte? b = none := h
    simp [next?, encode, leading, operand, hnone]

inductive Ending
  | endTag (offset : Nat) (rest : List UInt8)
  | exhausted (offset : Nat)
  | cut (offset : Nat)
  deriving DecidableEq

def walk (o : ByteOrder) (a : Nat) (bs : List UInt8) : List (Nat × Instruction) × Ending :=
  match h : next? o bs with
  | none => ([], if bs = [] then .exhausted a else .cut a)
  | some (i, rest) =>
    have := length_of_next? h
    if i = bare .endScript then ([], .endTag a rest)
    else
      let later := walk o (a + (bs.length - rest.length)) rest
      ((a, i) :: later.1, later.2)
termination_by bs.length

theorem decodeBody_of_none {o : ByteOrder} {bs : List UInt8} (h : next? o bs = none) :
    decodeBody o bs = [] := by
  rw [decodeBody]
  split
  · rfl
  · simp_all

theorem decodeBody_of_some {o : ByteOrder} {bs rest : List UInt8} {i : Instruction}
    (h : next? o bs = some (i, rest)) :
    decodeBody o bs = if i = bare .endScript then [] else i :: decodeBody o rest := by
  rw [decodeBody]
  split
  · simp_all
  · rename_i j rest' h'
    rw [h] at h'
    cases h'
    rfl

theorem walk_of_some {o : ByteOrder} {a : Nat} {bs rest : List UInt8} {i : Instruction}
    (h : next? o bs = some (i, rest)) :
    walk o a bs =
      if i = bare .endScript then ([], .endTag a rest)
      else
        ((a, i) :: (walk o (a + (bs.length - rest.length)) rest).1,
          (walk o (a + (bs.length - rest.length)) rest).2) := by
  rw [walk]
  split
  · simp_all
  · rename_i j rest' h'
    rw [h] at h'
    cases h'
    rfl

theorem map_walk (o : ByteOrder) (a : Nat) (bs : List UInt8) :
    (walk o a bs).1.map Prod.snd = decodeBody o bs := by
  fun_induction walk o a bs with
  | case1 a bs h => rw [decodeBody_of_none h, List.map_nil]
  | case2 a bs rest h => rw [decodeBody_of_some h, if_pos rfl, List.map_nil]
  | case3 a bs i rest h _ hne later ih =>
    rw [decodeBody_of_some h, if_neg hne, ← ih]
    rfl

def located (o : ByteOrder) (a : Nat) : List Instruction → List (Nat × Instruction)
  | [] => []
  | i :: is => (a, i) :: located o (a + (i.encode o).length) is

theorem walk_end (o : ByteOrder) (a : Nat) :
    walk o a [Tag.endScript.byte] = ([], .endTag a []) := by
  have h : next? o [Tag.endScript.byte] = some (bare .endScript, []) :=
    next?_encode o (i := bare .endScript) rfl []
  rw [walk_of_some h, if_pos rfl]

theorem walk_encode (o : ByteOrder) (a : Nat) {i : Instruction} (h : i.WellFormed)
    (hne : i ≠ bare .endScript) (rest : List UInt8) :
    walk o a (i.encode o ++ rest) =
      ((a, i) :: (walk o (a + (i.encode o).length) rest).1,
        (walk o (a + (i.encode o).length) rest).2) := by
  have hlength : (i.encode o ++ rest).length - rest.length = (i.encode o).length := by
    simp
  rw [walk_of_some (next?_encode o h rest), if_neg hne, hlength]

theorem walk_encodeBody (o : ByteOrder) (a : Nat) {is : List Instruction}
    (h : ∀ i ∈ is, i.WellFormed ∧ i ≠ bare .endScript) :
    walk o a (encodeBody o is) =
      (located o a is, .endTag (a + (encodeBody o is).length - 1) []) := by
  induction is generalizing a with
  | nil => simpa [encodeBody, located] using walk_end o a
  | cons i is ih =>
    obtain ⟨hi, hne⟩ := h i List.mem_cons_self
    have hrest := ih (a + (i.encode o).length) fun j hj => h j (List.mem_cons_of_mem _ hj)
    have happend : encodeBody o (i :: is) = i.encode o ++ encodeBody o is := by
      simp [encodeBody]
    rw [happend, walk_encode o a hi hne, hrest]
    simp only [located, List.length_append, Prod.mk.injEq, Ending.endTag.injEq, and_true, true_and]
    omega

theorem map_located (o : ByteOrder) (a : Nat) (is : List Instruction) :
    (located o a is).map Prod.snd = is := by
  induction is generalizing a with
  | nil => rfl
  | cons i is ih => simp [located, ih]

theorem decodeBody_encodeBody (o : ByteOrder) {is : List Instruction}
    (h : ∀ i ∈ is, i.WellFormed ∧ i ≠ bare .endScript) : decodeBody o (encodeBody o is) = is := by
  rw [← map_walk o 0, walk_encodeBody o 0 h, map_located]

theorem length_encode (o : ByteOrder) (i : Instruction) :
    (i.encode o).length = (i.encode .big).length := by
  cases i <;> simp [encode, operand, encodeSingle]

theorem length_encodeBody (o : ByteOrder) (is : List Instruction) :
    (encodeBody o is).length = (encodeBody .big is).length := by
  simp [encodeBody, List.length_flatMap, length_encode o]

theorem utf8ByteSize_lt_length (o : ByteOrder) {wide : Bool} {s : String} {is : List Instruction}
    (h : text wide s ∈ is) : s.utf8ByteSize < (encodeBody o is).length := by
  obtain ⟨before, after, rfl⟩ := List.append_of_mem h
  simp [encodeBody, encode, operand, length_utf8]
  omega

end QbCodec.Instruction
