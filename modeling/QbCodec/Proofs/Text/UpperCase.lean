import Mathlib.Data.Nat.Bitwise
import QbCodec.Text.Hex
import QbCodec.Text.LetterCase

/-!
Upper case is final: no character that the case table gives as an upper case has another upper case.
The two sets of code points are compared as bits of two numbers, since there are too many for a
comparison one by one.
-/

namespace QbCodec.Text

def CaseRun.points (r : CaseRun) : List Nat :=
  (List.range ((r.last - r.first) / r.stride + 1)).map fun i => r.first + r.stride * i

def CaseRun.images (r : CaseRun) : List Nat :=
  r.points.map fun (n : Nat) => ((n : Int) + r.shift).toNat

theorem CaseRun.mem_points {r : CaseRun} {n : Nat} (h : r.has n) : n ∈ r.points := by
  simp only [CaseRun.has, Bool.and_eq_true, decide_eq_true_eq, beq_iff_eq] at h
  obtain ⟨⟨hfirst, hlast⟩, hstride⟩ := h
  refine List.mem_map.mpr ⟨(n - r.first) / r.stride, List.mem_range.mpr ?_, ?_⟩
  · have := Nat.div_le_div_right (c := r.stride) (Nat.sub_le_sub_right hlast r.first)
    omega
  · have := Nat.div_add_mod (n - r.first) r.stride
    omega

def bits (ns : List Nat) : Nat := ns.foldr (fun n m => 1 <<< n ||| m) 0

theorem testBit_bits {ns : List Nat} {n : Nat} : (bits ns).testBit n ↔ n ∈ ns := by
  induction ns with
  | nil => simp [bits]
  | cons m ns ih =>
    change (1 <<< m ||| bits ns).testBit n ↔ n ∈ m :: ns
    rw [Nat.one_shiftLeft, Nat.testBit_or, Bool.or_eq_true, ih, List.mem_cons, Nat.testBit_two_pow,
      decide_eq_true_eq, eq_comm]

theorem notMem_of_bits {ns ms : List Nat} (h : bits ns &&& bits ms = 0) {n : Nat} (hn : n ∈ ms) :
    n ∉ ns := by
  intro hmem
  have hbit : (bits ns &&& bits ms).testBit n := by
    rw [Nat.testBit_and, testBit_bits.mpr hmem, testBit_bits.mpr hn]
    rfl
  rw [h, Nat.zero_testBit] at hbit
  cases hbit

def lowerPoints : List Nat := upperRuns.flatMap CaseRun.points ++ upperLong.map Prod.fst

def upperPoints : List Nat := upperRuns.flatMap CaseRun.images ++ upperLong.flatMap Prod.snd

theorem bits_lowerPoints_and_upperPoints : bits lowerPoints &&& bits upperPoints = 0 := by
  decide +kernel

theorem isValidChar_upperPoints : ∀ n ∈ upperPoints, n.isValidChar := by decide +kernel

theorem toNat_ofNat_of_valid {n : Nat} (h : n.isValidChar) : (Char.ofNat n).toNat = n := by
  rw [Char.ofNat, dif_pos h]
  rfl

theorem upperChar_of_notMem {c : Char} (h : c.toNat ∉ lowerPoints) : upperChar c = [c] := by
  rw [lowerPoints, List.mem_append, not_or] at h
  obtain ⟨hruns, hlong⟩ := h
  have hlookup : upperLong.lookup c.toNat = none := by
    rw [List.lookup_eq_none_iff]
    intro e he
    rw [bne_iff_ne]
    intro heq
    exact hlong (heq ▸ List.mem_map_of_mem he)
  have hfind : upperRuns.find? (·.has c.toNat) = none := by
    rw [List.find?_eq_none]
    intro r hr hhas
    exact hruns (List.mem_flatMap.mpr ⟨r, hr, CaseRun.mem_points hhas⟩)
  simp only [upperChar, hlookup, mapRuns, hfind]

theorem mem_upperChar {c d : Char} (h : d ∈ upperChar c) :
    upperChar c = [c] ∨ ∃ n ∈ upperPoints, d = Char.ofNat n := by
  unfold upperChar at h
  split at h
  · rename_i cs hlookup
    obtain ⟨before, after, hlong, -⟩ := List.lookup_eq_some_iff.mp hlookup
    obtain ⟨n, hn, rfl⟩ := List.mem_map.mp h
    refine .inr ⟨n, List.mem_append_right _ (List.mem_flatMap.mpr ⟨(c.toNat, cs), ?_, hn⟩), rfl⟩
    rw [hlong]
    simp
  · rename_i hlookup
    obtain rfl := List.mem_singleton.mp h
    unfold mapRuns
    cases hfind : upperRuns.find? (·.has c.toNat) with
    | none => exact .inl (by simp only [upperChar, hlookup, mapRuns, hfind])
    | some r =>
      have hhas := List.find?_some hfind
      refine .inr ⟨_, List.mem_append_left _ (List.mem_flatMap.mpr
        ⟨r, List.mem_of_find?_eq_some hfind, List.mem_map_of_mem (CaseRun.mem_points hhas)⟩), rfl⟩

theorem upperChar_of_mem {c d : Char} (h : d ∈ upperChar c) : upperChar d = [d] := by
  rcases mem_upperChar h with hself | ⟨n, hn, rfl⟩
  · rw [hself, List.mem_singleton] at h
    rw [h, hself]
  · apply upperChar_of_notMem
    rw [toNat_ofNat_of_valid (isValidChar_upperPoints n hn)]
    exact notMem_of_bits bits_lowerPoints_and_upperPoints hn

theorem upper_eq_map {f : Char → Char} {cs : List Char} (h : ∀ c ∈ cs, upperChar c = [f c]) :
    upper cs = cs.map f := by
  induction cs with
  | nil => rfl
  | cons c cs ih =>
    obtain ⟨hc, hcs⟩ := List.forall_mem_cons.mp h
    have hrest := ih hcs
    rw [upper] at hrest ⊢
    rw [List.flatMap_cons, hc, hrest, List.singleton_append, List.map_cons]

theorem upper_upper (cs : List Char) : upper (upper cs) = upper cs := by
  have hself : ∀ d ∈ upper cs, upperChar d = [id d] := by
    intro d hd
    obtain ⟨c, -, hc⟩ := List.mem_flatMap.mp hd
    exact upperChar_of_mem hc
  rw [upper_eq_map hself, List.map_id]

end QbCodec.Text
