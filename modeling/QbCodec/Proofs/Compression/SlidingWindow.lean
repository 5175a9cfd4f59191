import Mathlib.Algebra.Ring.Nat
import QbCodec.Bytes.Order
import QbCodec.Proofs.Compression.Stopping

namespace QbCodec.Lzss

/-- A byte, or three bytes and `beyond` more that the ring holds from `position` on. -/
inductive Entry
  | literal (b : UInt8)
  | reference (position : Fin 4096) (beyond : Fin 16)

namespace Entry

def length : Entry → Nat
  | literal _ => 1
  | reference _ beyond => beyond + 3

def byteBack (distance : Nat) (out : List UInt8) : UInt8 :=
  if distance ≤ out.length then out.getD (out.length - distance) 0 else 0

def copyBack (distance : Nat) : Nat → List UInt8 → List UInt8
  | 0, out => out
  | n + 1, out => copyBack distance n (out ++ [byteBack distance out])

def distance (count : Nat) (position : Fin 4096) : Nat :=
  ((4078 + count - position - 1 : Int) % 4096).toNat + 1

def expand (out : List UInt8) : Entry → List UInt8
  | literal b => out ++ [b]
  | reference position beyond => copyBack (distance out.length position) (beyond + 3) out

def expandAll (es : List Entry) : List UInt8 := es.foldl expand []

def flag : Entry → Nat
  | literal _ => 1
  | reference .. => 0

def bytes : Entry → List UInt8
  | literal b => [b]
  | reference position beyond =>
    [position.val.toUInt8, (16 * (position.val / 256) + beyond.val).toUInt8]

def flags (spare : Nat) : List Entry → Nat
  | [] => spare
  | e :: es => e.flag + 2 * flags spare es

def pack (spare : Nat) (es : List Entry) : List UInt8 :=
  if es = [] then []
  else
    (flags spare (es.take 8)).toUInt8 :: (es.take 8).flatMap bytes ++ pack spare (es.drop 8)
termination_by es.length
decreasing_by
  rename_i h
  have := List.length_pos_iff.mpr h
  rw [List.length_drop]
  omega

theorem length_copyBack (distance n : Nat) (out : List UInt8) :
    (copyBack distance n out).length = out.length + n := by
  induction n generalizing out with
  | zero => rfl
  | succ n ih =>
    rw [copyBack, ih, List.length_append, List.length_singleton]
    omega

theorem length_expand (out : List UInt8) (e : Entry) :
    (e.expand out).length = out.length + e.length := by
  cases e with
  | literal b => rw [expand, List.length_append, List.length_singleton, length]
  | reference position beyond => rw [expand, length_copyBack, length]

theorem length_foldl_expand (out : List UInt8) (es : List Entry) :
    (es.foldl expand out).length = out.length + (es.map length).sum := by
  induction es generalizing out with
  | nil => rfl
  | cons e es ih =>
    rw [List.foldl_cons, ih, length_expand, List.map_cons, List.sum_cons, Nat.add_assoc]

theorem byteBack_concat_one (out : List UInt8) (b : UInt8) : byteBack 1 (out ++ [b]) = b := by
  simp [byteBack]

theorem byteBack_concat (out : List UInt8) (b : UInt8) {distance : Nat} (h : 0 < distance) :
    byteBack (distance + 1) (out ++ [b]) = byteBack distance out := by
  unfold byteBack
  rw [List.length_append, List.length_singleton]
  by_cases hle : distance ≤ out.length
  · have hindex : out.length + 1 - (distance + 1) = out.length - distance := by omega
    rw [if_pos (by omega), if_pos hle, hindex, List.getD_eq_getElem?_getD,
      List.getD_eq_getElem?_getD, List.getElem?_append_left (by omega)]
  · rw [if_neg (by omega), if_neg hle]

theorem distance_pos (count : Nat) (position : Fin 4096) : 0 < distance count position :=
  Nat.succ_pos _

theorem distance_next (count : Nat) : distance (count + 1) (Fin.ofNat 4096 (4078 + count)) = 1 := by
  simp only [distance, Fin.ofNat]
  omega

theorem distance_add_one (count : Nat) {position : Fin 4096}
    (h : position ≠ Fin.ofNat 4096 (4078 + count)) :
    distance (count + 1) position = distance count position + 1 := by
  have hne : position.val ≠ (4078 + count) % 4096 := fun he => h (Fin.ext he)
  have hlt := position.isLt
  simp only [distance]
  omega

theorem distance_add_one_add_one (count : Nat) (position : Fin 4096) :
    distance (count + 1) (position + 1) = distance count position := by
  have hlt := position.isLt
  have hnext : (position + 1).val = (position.val + 1) % 4096 := rfl
  simp only [distance, hnext]
  omega

end Entry

open Entry

namespace Window

/-- The ring holds at each position what was produced the distance of that position ago. -/
structure Shows (w : Window) (out : List UInt8) : Prop where
  produced : w.produced.reverse = out
  next : w.next = Fin.ofNat 4096 (4078 + out.length)
  ring : ∀ position : Fin 4096, w.ring[position] = byteBack (distance out.length position) out

variable {w : Window} {out : List UInt8}

theorem shows_start : start.Shows [] where
  produced := rfl
  next := rfl
  ring position := by
    simp [start, byteBack, distance]

theorem Shows.put (h : w.Shows out) (b : UInt8) : (w.put b).Shows (out ++ [b]) where
  produced := by
    rw [produced_put, List.reverse_cons, h.produced]
  next := by
    apply Fin.ext
    simp only [Window.put, h.next, List.length_append, List.length_singleton, Fin.val_add,
      Fin.ofNat]
    omega
  ring position := by
    have hring : (w.put b).ring[position] = if w.next = position then b else w.ring[position] := by
      simp [Window.put, Vector.getElem_set, Fin.ext_iff]
    rw [hring, List.length_append, List.length_singleton, h.next]
    by_cases hnext : position = Fin.ofNat 4096 (4078 + out.length)
    · rw [if_pos hnext.symm, hnext, distance_next, byteBack_concat_one]
    · rw [if_neg (Ne.symm hnext), distance_add_one _ hnext, byteBack_concat _ _ (distance_pos _ _),
        h.ring]

theorem Shows.copy (h : w.Shows out) (position : Fin 4096) (n : Nat) :
    (w.copy position n).Shows (copyBack (distance out.length position) n out) := by
  induction n generalizing w out position with
  | zero => exact h
  | succ n ih =>
    have hrest := ih (h.put w.ring[position]) (position + 1)
    rw [List.length_append, List.length_singleton, distance_add_one_add_one] at hrest
    rw [copyBack, ← h.ring]
    exact hrest

def apply (w : Window) : Entry → Window
  | literal b => w.put b
  | reference position beyond => w.copy position (beyond + 3)

theorem Shows.apply (h : w.Shows out) (e : Entry) : (w.apply e).Shows (e.expand out) := by
  cases e with
  | literal b => exact h.put b
  | reference position beyond => exact h.copy position _

theorem Shows.foldl_apply (h : w.Shows out) (es : List Entry) :
    (es.foldl Window.apply w).Shows (es.foldl expand out) := by
  induction es generalizing w out with
  | nil => exact h
  | cons e es ih => exact ih (h.apply e)

end Window

theorem referencePosition_bytes (position : Fin 4096) (beyond : Fin 16) :
    referencePosition position.val.toUInt8 (16 * (position.val / 256) + beyond.val).toUInt8 =
      position := by
  have hposition := position.isLt
  have hbeyond := beyond.isLt
  apply Fin.ext
  simp only [referencePosition, Fin.ofNat, UInt8.toNat_ofNat', Nat.toUInt8]
  omega

theorem referenceLength_bytes (position : Fin 4096) (beyond : Fin 16) :
    referenceLength (16 * (position.val / 256) + beyond.val).toUInt8 = beyond + 3 := by
  have hbeyond := beyond.isLt
  simp only [referenceLength, UInt8.toNat_ofNat', Nat.toUInt8]
  omega

theorem exhaust_entry (w : Window) (left : Nat) {bits : Nat} {e : Entry} (h : bits % 2 = e.flag)
    (rest : List UInt8) :
    exhaust w (left + 1) bits (e.bytes ++ rest) = exhaust (w.apply e) left (bits / 2) rest := by
  cases e with
  | literal b => exact exhaust_literal h w left b rest
  | reference position beyond =>
    have hbits : bits % 2 ≠ 1 := by
      rw [h]
      exact Nat.zero_ne_one
    rw [Entry.bytes, List.cons_append, List.singleton_append, exhaust_reference hbits,
      referencePosition_bytes, referenceLength_bytes]
    rfl

theorem flags_cons {spare bits : Nat} {e : Entry} {es : List Entry}
    (h : bits % 2 ^ (e :: es).length = flags spare (e :: es) % 2 ^ (e :: es).length) :
    bits % 2 = e.flag ∧ bits / 2 % 2 ^ es.length = flags spare es % 2 ^ es.length := by
  have hflag : e.flag < 2 := by
    cases e with
    | literal b => exact Nat.one_lt_two
    | reference position beyond => exact Nat.zero_lt_two
  have hlow : flags spare (e :: es) % 2 = e.flag := by
    rw [flags]
    omega
  have hhigh : flags spare (e :: es) / 2 = flags spare es := by
    rw [flags]
    omega
  rw [List.length_cons, Nat.pow_succ', Nat.mod_mul, Nat.mod_mul, hlow, hhigh] at h
  omega

theorem exhaust_group (w : Window) {spare left bits : Nat} {es : List Entry}
    (hleft : es.length ≤ left) (h : bits % 2 ^ es.length = flags spare es % 2 ^ es.length)
    (rest : List UInt8) :
    exhaust w left bits (es.flatMap Entry.bytes ++ rest) =
      exhaust (es.foldl Window.apply w) (left - es.length) (bits / 2 ^ es.length) rest := by
  induction es generalizing w left bits with
  | nil => simp
  | cons e es ih =>
    obtain ⟨left, rfl⟩ : ∃ n, left = n + 1 := ⟨left - 1, by simp at hleft; omega⟩
    obtain ⟨hfirst, hlater⟩ := flags_cons h
    rw [List.flatMap_cons, List.append_assoc, exhaust_entry w left hfirst,
      ih (w.apply e) (by simpa using hleft) hlater, List.foldl_cons, List.length_cons,
      Nat.div_div_eq_div_mul, Nat.pow_succ', Nat.add_sub_add_right]

theorem exhaust_pack (w : Window) (bits spare : Nat) (es : List Entry) :
    exhaust w 0 bits (pack spare es) = es.foldl Window.apply w := by
  fun_induction pack spare es generalizing w bits with
  | case1 => rfl
  | case2 es hne ih =>
    have hgroup : (es.take 8).length ≤ 8 := List.length_take_le _ _
    have hbits : (flags spare (es.take 8)).toUInt8.toNat % 2 ^ (es.take 8).length =
        flags spare (es.take 8) % 2 ^ (es.take 8).length := by
      have hdvd : 2 ^ (es.take 8).length ∣ 2 ^ 8 := Nat.pow_dvd_pow 2 hgroup
      rw [Nat.toUInt8, UInt8.toNat_ofNat', Nat.mod_mod_of_dvd _ hdvd]
    rw [List.cons_append, exhaust_flags, exhaust_group w hgroup hbits]
    by_cases hfull : 8 ≤ es.length
    · have hlength : (es.take 8).length = 8 := by
        rw [List.length_take]
        omega
      rw [hlength, Nat.sub_self, ih, ← List.foldl_append, List.take_append_drop]
    · have hend : es.drop 8 = [] := List.drop_eq_nil_of_le (by omega)
      have hall : es.take 8 = es := List.take_of_length_le (by omega)
      rw [hend, hall, pack, if_pos rfl]
      rfl

theorem output_pack (spare : Nat) (es : List Entry) : output (pack spare es) = expandAll es := by
  rw [output, exhaust_pack]
  exact (Window.shows_start.foldl_apply es).produced

/-- Packed entries are decompressed to the start that is wanted of what they stand for, if they
stand for so much. -/
theorem decompress_pack (spare : Nat) (es : List Entry) (wanted : Nat)
    (h : wanted ≤ (es.map Entry.length).sum) :
    decompress (pack spare es) wanted = .ok ((expandAll es).take wanted) := by
  have hlength : (expandAll es).length = (es.map Entry.length).sum := by
    rw [expandAll, length_foldl_expand, List.length_nil, Nat.zero_add]
  rw [decompress_eq, answer, output_pack, hlength, if_pos h]

/-- Of a repetition that reaches into itself the last bytes are cut, and the flags above its group
are set. -/
theorem decompress_pack_repetition :
    decompress (pack 31 [.literal 97, .literal 98, .literal 99, .reference 4078 3]) 8 =
      .ok [97, 98, 99, 97, 98, 99, 97, 98] := by
  rw [decompress_pack _ _ _ (by decide)]
  rfl

end QbCodec.Lzss
