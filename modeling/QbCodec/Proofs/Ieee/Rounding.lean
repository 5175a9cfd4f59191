import Mathlib.Tactic.Ring
import QbCodec.Ieee.Rounding
import QbCodec.Ieee.Shortest

namespace QbCodec

theorem divNearest_eq {a b m : Nat} (hb : 0 < b) (hlow : 2 * (m * b) ≤ 2 * a + b)
    (hhigh : 2 * a ≤ 2 * (m * b) + b)
    (heven : 2 * (m * b) = 2 * a + b ∨ 2 * a = 2 * (m * b) + b → m % 2 = 0) :
    divNearest a b = m := by
  have hdiv : a / b * b + a % b = a := Nat.div_add_mod' a b
  have hmod : a % b < b := Nat.mod_lt a hb
  have hle : a / b ≤ m := by
    by_contra hlt
    have hmul : (m + 1) * b ≤ a / b * b := Nat.mul_le_mul_right b (by omega)
    rw [Nat.add_mul] at hmul
    omega
  have hge : m ≤ a / b + 1 := by
    by_contra hlt
    have hmul : (a / b + 2) * b ≤ m * b := Nat.mul_le_mul_right b (by omega)
    rw [Nat.add_mul] at hmul
    omega
  rcases Nat.lt_or_ge (a / b) m with hlt | hge'
  · -- The quotient is one less, so the remainder is at least a half.
    have hm : m = a / b + 1 := by omega
    have hmul : m * b = a / b * b + b := by rw [hm, Nat.add_mul, Nat.one_mul]
    unfold divNearest
    rw [if_pos (by omega)]
    omega
  · have hm : m = a / b := by omega
    have hmul : m * b = a / b * b := by rw [hm]
    unfold divNearest
    rw [if_neg (by omega)]
    omega

namespace Single

theorem fittingPower_of_lt {a d : Nat} (h : a * 2 ^ 149 < 2 ^ 24 * d) : fittingPower a d = 0 := by
  have hquotient : a * 2 ^ 149 / d < 2 ^ 24 := Nat.div_lt_of_lt_mul (by omega)
  unfold fittingPower
  by_cases hzero : a * 2 ^ 149 / d = 0
  · rw [hzero]
    rfl
  · have := (Nat.log2_lt hzero).mpr hquotient
    omega

theorem fittingPower_eq {a d p : Nat} (hd : 0 < d) (hlow : 2 ^ (23 + p) * d ≤ a * 2 ^ 149)
    (hhigh : a * 2 ^ 149 < 2 ^ (24 + p) * d) : fittingPower a d = p := by
  have hle : 2 ^ (23 + p) ≤ a * 2 ^ 149 / d := (Nat.le_div_iff_mul_le hd).mpr hlow
  have hlt : a * 2 ^ 149 / d < 2 ^ (24 + p) := by
    apply Nat.div_lt_of_lt_mul
    rwa [Nat.mul_comm d]
  have hpos : 0 < 2 ^ (23 + p) := Nat.two_pow_pos _
  have hne : a * 2 ^ 149 / d ≠ 0 := by omega
  have h₁ := (Nat.le_log2 hne).mpr hle
  have h₂ := (Nat.log2_lt hne).mpr hlt
  unfold fittingPower
  omega

def gapBelow (m p : Nat) : Nat := if m = 2 ^ 23 ∧ 0 < p then 1 else 2

theorem magnitudeBits_of_fittingPower {a d m p : Nat} (hfit : fittingPower a d = p)
    (hround : divNearest (a * 2 ^ 149) (d * 2 ^ p) = m) (hbound : p * 2 ^ 23 + m ≤ infinityBits) :
    magnitudeBits a d = p * 2 ^ 23 + m := by
  simp only [magnitudeBits, hfit, hround]
  exact Nat.min_eq_left hbound

theorem magnitudeBits_eq {a d m p : Nat} (hd : 0 < d) (hm : m < 2 ^ 24) (hp : p ≤ 253)
    (hnormal : 0 < p → 2 ^ 23 ≤ m)
    (hlow : (4 * m - gapBelow m p) * (2 ^ p * d) ≤ 4 * (a * 2 ^ 149))
    (hhigh : 4 * (a * 2 ^ 149) ≤ (4 * m + 2) * (2 ^ p * d))
    (hodd : m % 2 = 1 → (4 * m - gapBelow m p) * (2 ^ p * d) < 4 * (a * 2 ^ 149) ∧
      4 * (a * 2 ^ 149) < (4 * m + 2) * (2 ^ p * d)) :
    magnitudeBits a d = p * 2 ^ 23 + m := by
  have hs : 0 < 2 ^ p * d := Nat.mul_pos (Nat.two_pow_pos p) hd
  have hbound : p * 2 ^ 23 + m ≤ infinityBits := by
    unfold infinityBits
    omega
  have hpower : 2 ^ (24 + p) * d = 2 ^ 24 * (2 ^ p * d) := by rw [Nat.pow_add, Nat.mul_assoc]
  have hupper : (4 * m + 2) * (2 ^ p * d) ≤ (4 * (2 ^ 24 - 1) + 2) * (2 ^ p * d) :=
    Nat.mul_le_mul_right _ (by omega)
  have hlt : a * 2 ^ 149 < 2 ^ (24 + p) * d := by
    rw [hpower]
    omega
  by_cases hreach : p = 0 ∨ 2 ^ (23 + p) * d ≤ a * 2 ^ 149
  · have hfit : fittingPower a d = p := by
      rcases hreach with rfl | hle
      · exact fittingPower_of_lt hlt
      · exact fittingPower_eq hd hle hlt
    have hgap : (4 * m - 2) * (2 ^ p * d) ≤ (4 * m - gapBelow m p) * (2 ^ p * d) := by
      apply Nat.mul_le_mul_right
      unfold gapBelow
      split <;> omega
    have hfour : (4 * m + 2) * (2 ^ p * d) = 4 * (m * (2 ^ p * d)) + 2 * (2 ^ p * d) := by ring
    have hfour' : 4 * (m * (2 ^ p * d)) ≤ (4 * m - 2) * (2 ^ p * d) + 2 * (2 ^ p * d) := by
      rw [← Nat.add_mul, ← Nat.mul_assoc]
      exact Nat.mul_le_mul_right _ (by omega)
    apply magnitudeBits_of_fittingPower hfit _ hbound
    rw [Nat.mul_comm d]
    apply divNearest_eq hs
    · omega
    · omega
    · intro hhalf
      by_contra hne
      obtain ⟨h₁, h₂⟩ := hodd (by omega)
      omega
  · -- Below a power of two the significand rounds up to that power, one place further down.
    have hpos : 0 < p := by omega
    have hbelow : a * 2 ^ 149 < 2 ^ 23 * (2 ^ p * d) := by
      rw [← Nat.mul_assoc, ← Nat.pow_add]
      omega
    have hm : m = 2 ^ 23 := by
      by_contra hne
      have := hnormal hpos
      have hmul : (4 * 2 ^ 23) * (2 ^ p * d) ≤ (4 * m - gapBelow m p) * (2 ^ p * d) := by
        apply Nat.mul_le_mul_right
        unfold gapBelow
        split <;> omega
      omega
    subst hm
    have hgap : gapBelow (2 ^ 23) p = 1 := if_pos ⟨rfl, hpos⟩
    rw [hgap] at hlow
    obtain ⟨q, rfl⟩ : ∃ q, p = q + 1 := ⟨p - 1, by omega⟩
    have hdouble : 2 ^ (q + 1) * d = 2 * (d * 2 ^ q) := by ring
    have hq : 0 < d * 2 ^ q := Nat.mul_pos hd (Nat.two_pow_pos q)
    rw [hdouble] at hlow hbelow
    have hfit : fittingPower a d = q := by
      apply fittingPower_eq hd
      · rw [Nat.pow_add, Nat.mul_assoc, Nat.mul_comm (2 ^ q)]
        omega
      · rw [Nat.pow_add, Nat.mul_assoc, Nat.mul_comm (2 ^ q)]
        omega
    have hround : divNearest (a * 2 ^ 149) (d * 2 ^ q) = 2 ^ 24 := by
      apply divNearest_eq hq
      · omega
      · omega
      · intro _
        rfl
    have hsum : q * 2 ^ 23 + 2 ^ 24 = (q + 1) * 2 ^ 23 + 2 ^ 23 := by ring
    rw [← hsum] at hbound ⊢
    exact magnitudeBits_of_fittingPower hfit hround hbound

section Bounds

variable {v : Single}

theorem bits_eq (v : Single) :
    v.bits.toNat = (if v.isNegative then 2 ^ 31 else 0) + (v.power * 2 ^ 23 + v.significand) := by
  have hlt : v.bits.toNat < 2 ^ 32 := v.bits.toNat_lt
  have hfield : v.exponentField = v.bits.toNat / 2 ^ 23 % 256 := rfl
  have hfraction : v.fraction = v.bits.toNat % 2 ^ 23 := rfl
  unfold power significand isNegative
  simp only [decide_eq_true_eq]
  split <;> split <;> omega

theorem significand_lt (v : Single) : v.significand < 2 ^ 24 := by
  unfold significand fraction
  split <;> omega

theorem le_significand (h : 0 < v.power) : 2 ^ 23 ≤ v.significand := by
  unfold power at h
  unfold significand
  split <;> omega

theorem power_le (h : v.isFinite) : v.power ≤ 253 := by
  have hne : v.exponentField ≠ 255 := by simpa [isFinite] using h
  have hlt : v.exponentField < 256 := Nat.mod_lt _ (by omega)
  unfold power
  omega

theorem lowerGap_eq (v : Single) : v.lowerGap = gapBelow v.significand v.power := by
  have hlt : v.fraction < 2 ^ 23 := Nat.mod_lt _ (by omega)
  unfold lowerGap gapBelow significand power
  split <;> split <;> split at * <;> omega

theorem magnitudeBits_of_roundsTo (hfinite : v.isFinite) {a d n grid : Nat} (hd : 0 < d)
    (hvalue : a * 10 ^ 46 = n * 10 ^ grid * d) (h : v.roundsTo (n * gridUnit grid)) :
    magnitudeBits a d = v.power * 2 ^ 23 + v.significand := by
  have hunit : n * gridUnit grid * d = 4 * (a * 2 ^ 149) * 10 ^ 46 := by
    unfold gridUnit
    calc n * (10 ^ grid * 2 ^ 151) * d = n * 10 ^ grid * d * 2 ^ 151 := by ring
      _ = 4 * (a * 2 ^ 149) * 10 ^ 46 := by rw [← hvalue]; ring
  have hscale (q : Nat) : scale q v.power * d = q * (2 ^ v.power * d) * 10 ^ 46 := by
    unfold scale
    ring
  have hle {q x : Nat} (hqx : scale q v.power ≤ x) :
      q * (2 ^ v.power * d) * 10 ^ 46 ≤ x * d := by
    rw [← hscale]
    exact Nat.mul_le_mul_right d hqx
  have hge {q x : Nat} (hqx : x ≤ scale q v.power) :
      x * d ≤ q * (2 ^ v.power * d) * 10 ^ 46 := by
    rw [← hscale]
    exact Nat.mul_le_mul_right d hqx
  have hlt {q x : Nat} (hqx : scale q v.power < x) :
      q * (2 ^ v.power * d) * 10 ^ 46 < x * d := by
    rw [← hscale]
    exact Nat.mul_lt_mul_of_pos_right hqx hd
  have hgt {q x : Nat} (hqx : x < scale q v.power) :
      x * d < q * (2 ^ v.power * d) * 10 ^ 46 := by
    rw [← hscale]
    exact Nat.mul_lt_mul_of_pos_right hqx hd
  have hten : 0 < 10 ^ 46 := Nat.pow_pos (by omega)
  rw [roundsTo, lowerGap_eq] at h
  by_cases heven : v.significand % 2 = 0
  · rw [if_pos heven, Bool.and_eq_true, decide_eq_true_eq, decide_eq_true_eq] at h
    have h₁ := hle h.1
    have h₂ := hge h.2
    rw [hunit] at h₁ h₂
    apply magnitudeBits_eq hd (significand_lt v) (power_le hfinite) le_significand
    · exact Nat.le_of_mul_le_mul_right h₁ hten
    · exact Nat.le_of_mul_le_mul_right h₂ hten
    · intro hodd
      omega
  · rw [if_neg heven, Bool.and_eq_true, decide_eq_true_eq, decide_eq_true_eq] at h
    have h₁ := hlt h.1
    have h₂ := hgt h.2
    rw [hunit] at h₁ h₂
    have hlow := Nat.lt_of_mul_lt_mul_right h₁
    have hhigh := Nat.lt_of_mul_lt_mul_right h₂
    apply magnitudeBits_eq hd (significand_lt v) (power_le hfinite) le_significand
    · exact Nat.le_of_lt hlow
    · exact Nat.le_of_lt hhigh
    · exact fun _ => ⟨hlow, hhigh⟩

theorem ofFraction_of_roundsTo (hfinite : v.isFinite) {a d n grid : Nat} (hd : 0 < d)
    (hvalue : a * 10 ^ 46 = n * 10 ^ grid * d) (h : v.roundsTo (n * gridUnit grid)) :
    ofFraction v.isNegative a d = v := by
  have hbits := bits_eq v
  rw [← magnitudeBits_of_roundsTo hfinite hd hvalue h] at hbits
  unfold ofFraction
  rw [← hbits]
  simp

theorem roundsTo_of_neighbour? {grid n : Nat} (h : v.neighbour? grid = some n) :
    v.roundsTo (n * gridUnit grid) := by
  unfold neighbour? at h
  dsimp only at h
  split at h
  · rename_i hlow
    cases h
    simp only [Bool.and_eq_true] at hlow
    exact hlow.1
  · split at h
    · rename_i hhigh
      cases h
      exact hhigh
    · cases h

theorem exists_neighbour? (v : Single) (h : v.significand ≠ 0) : ∃ n, v.neighbour? 0 = some n := by
  have hgap : 1 ≤ v.lowerGap ∧ v.lowerGap ≤ 2 := by
    unfold lowerGap
    split <;> omega
  have hfine : gridUnit 0 < 10 ^ 46 := by
    unfold gridUnit
    omega
  have hpower : 0 < 2 ^ v.power := Nat.two_pow_pos _
  have hlow : scale (4 * v.significand - v.lowerGap) v.power + 10 ^ 46 ≤
      scale (4 * v.significand) v.power := by
    unfold scale
    have hone : 1 * 10 ^ 46 ≤ 2 ^ v.power * 10 ^ 46 := Nat.mul_le_mul_right _ hpower
    have hmul : (4 * v.significand - v.lowerGap + 1) * (2 ^ v.power * 10 ^ 46) ≤
        4 * v.significand * (2 ^ v.power * 10 ^ 46) := Nat.mul_le_mul_right _ (by omega)
    rw [Nat.add_mul] at hmul
    rw [Nat.mul_assoc, Nat.mul_assoc]
    omega
  have hhigh : scale (4 * v.significand) v.power < scale (4 * v.significand + 2) v.power := by
    unfold scale
    apply Nat.mul_lt_mul_of_pos_right _ (by omega)
    exact Nat.mul_lt_mul_of_pos_right (by omega) hpower
  have hunit : 0 < gridUnit 0 := by
    unfold gridUnit
    omega
  have hdiv := Nat.div_add_mod' (scale (4 * v.significand) v.power) (gridUnit 0)
  have hmod := Nat.mod_lt (scale (4 * v.significand) v.power) hunit
  have hfits : v.roundsTo
      (scale (4 * v.significand) v.power / gridUnit 0 * gridUnit 0) = true := by
    unfold roundsTo
    split <;>
    · simp only [Bool.and_eq_true, decide_eq_true_eq]
      omega
  unfold neighbour?
  dsimp only
  rw [hfits, Bool.true_and]
  split
  · exact ⟨_, rfl⟩
  · rename_i hnear
    rw [Bool.not_eq_true, Bool.or_eq_false_iff, Bool.not_eq_false'] at hnear
    rw [if_pos hnear.1]
    exact ⟨_, rfl⟩

theorem shortestFrom_spec (v : Single) (h : v.significand ≠ 0) (grid : Nat) :
    ∃ n g : Nat, v.shortestFrom grid = ⟨n, (g : Int) - 46⟩ ∧ v.roundsTo (n * gridUnit g) := by
  induction grid with
  | zero =>
    obtain ⟨n, hn⟩ := exists_neighbour? v h
    refine ⟨n, 0, ?_, roundsTo_of_neighbour? hn⟩
    rw [shortestFrom, hn]
    rfl
  | succ grid ih =>
    unfold shortestFrom
    split
    · rename_i n hn
      exact ⟨n, grid + 1, rfl, roundsTo_of_neighbour? hn⟩
    · exact ih

theorem shortest_spec (v : Single) (h : v.significand ≠ 0) :
    ∃ n g : Nat, v.shortest = ⟨n, (g : Int) - 46⟩ ∧ v.roundsTo (n * gridUnit g) :=
  shortestFrom_spec v h 85

end Bounds

theorem divNearest_le (a b : Nat) : divNearest a b ≤ a / b + 1 := by
  simp only [divNearest]
  split <;> omega

theorem magnitudeBits_lt {n : Nat} (h : n ≤ 2 ^ 31) : magnitudeBits n 1 < infinityBits := by
  have hround : divNearest (n * 2 ^ 149) (1 * 2 ^ fittingPower n 1) ≤ 2 ^ 24 := by
    have hlt : n * 2 ^ 149 / (1 * 2 ^ fittingPower n 1) < 2 ^ 24 := by
      apply Nat.div_lt_of_lt_mul
      rw [Nat.one_mul, ← Nat.pow_add]
      have hlog : n * 2 ^ 149 < 2 ^ ((n * 2 ^ 149).log2 + 1) := Nat.lt_log2_self
      apply Nat.lt_of_lt_of_le hlog
      apply Nat.pow_le_pow_right (by omega)
      unfold fittingPower
      rw [Nat.div_one]
      omega
    have := divNearest_le (n * 2 ^ 149) (1 * 2 ^ fittingPower n 1)
    omega
  have hpower : fittingPower n 1 ≤ 157 := by
    unfold fittingPower
    rw [Nat.div_one]
    by_cases hzero : n * 2 ^ 149 = 0
    · rw [hzero]
      decide
    · have : (n * 2 ^ 149).log2 < 181 := by
        apply (Nat.log2_lt hzero).mpr
        omega
      omega
  have hle : magnitudeBits n 1 ≤ fittingPower n 1 * 2 ^ 23 +
      divNearest (n * 2 ^ 149) (1 * 2 ^ fittingPower n 1) := Nat.min_le_left _ _
  unfold infinityBits
  omega

theorem isFinite_ofInt {n : Int} (h : n.natAbs ≤ 2 ^ 31) : (ofInt n).isFinite := by
  have hlt := magnitudeBits_lt h
  unfold infinityBits at hlt
  unfold ofInt ofFraction isFinite exponentField
  split <;>
  · simp only [bne_iff_ne, ne_eq, Nat.toUInt32, UInt32.toNat_ofNat']
    omega

end Single

end QbCodec
