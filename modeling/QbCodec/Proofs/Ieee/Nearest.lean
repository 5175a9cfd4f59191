import Mathlib.Algebra.Order.Field.Basic
import Mathlib.Data.Nat.Dist
import Mathlib.Data.Rat.Cast.Order
import Mathlib.Tactic.FieldSimp
import Mathlib.Tactic.Linarith
import QbCodec.Proofs.Ieee.Rounding

/-!
Rounding a fraction gives the single nearest to it. Distances are compared as whole numbers: of a
single and a fraction `a / d` both are taken as multiples of `1 / (2 ^ 149 * d)`. From half the last
place above the largest finite single on, a fraction becomes an infinity.
-/

namespace QbCodec

theorem dist_divNearest_le (a : Nat) {b : Nat} (hb : 0 < b) (k : Nat) :
    Nat.dist (divNearest a b * b) a ≤ Nat.dist (k * b) a ∧
      (k ≠ divNearest a b → Nat.dist (k * b) a = Nat.dist (divNearest a b * b) a →
        divNearest a b % 2 = 0) := by
  have hdiv : a / b * b + a % b = a := Nat.div_add_mod' a b
  have hmod : a % b < b := Nat.mod_lt a hb
  have hnext : (a / b + 1) * b = a / b * b + b := Nat.succ_mul _ _
  -- The multiples on either side of `a` are nearer than any other.
  have hside : k * b + b ≤ a / b * b ∨ k = a / b ∨ k = a / b + 1 ∨ a / b * b + 2 * b ≤ k * b := by
    rcases Nat.lt_or_ge k (a / b) with hlt | hge
    · left
      have hmul := Nat.mul_le_mul_right b (show k + 1 ≤ a / b by omega)
      rwa [Nat.succ_mul] at hmul
    · by_cases hnear : k ≤ a / b + 1
      · omega
      · have hmul := Nat.mul_le_mul_right b (show a / b + 2 ≤ k by omega)
        rw [Nat.add_mul] at hmul
        omega
  unfold divNearest Nat.dist
  dsimp only
  split
  · rename_i hup
    rw [hnext]
    rcases hside with hk | rfl | rfl | hk <;> omega
  · rename_i hdown
    rcases hside with hk | rfl | rfl | hk <;> omega

theorem divNearest_lt_iff {a b : Nat} (hb : 0 < b) (h : a < 2 ^ 24 * b) :
    divNearest a b < 2 ^ 24 ↔ 2 * a < (2 ^ 25 - 1) * b := by
  have hdiv : a / b * b + a % b = a := Nat.div_add_mod' a b
  have hmod : a % b < b := Nat.mod_lt a hb
  have hquotient : a / b < 2 ^ 24 := (Nat.div_lt_iff_lt_mul hb).mpr h
  by_cases hlast : a / b = 2 ^ 24 - 1
  · rw [hlast] at hdiv
    unfold divNearest
    rw [hlast]
    dsimp only
    split <;> omega
  · have hle := Single.divNearest_le a b
    have hmul := Nat.mul_le_mul_right b (show a / b + 2 ≤ 2 ^ 24 by omega)
    rw [Nat.add_mul] at hmul
    omega

namespace Single

variable {v w : Single} {negative : Bool} {a d : Nat}

def units (v : Single) : Nat := v.significand * 2 ^ v.power

def signed (negative : Bool) (x : ℚ) : ℚ := if negative then -x else x

def value (v : Single) : ℚ := signed v.isNegative (v.units / (2 : ℚ) ^ 149)

theorem lt_fittingPower (hd : 0 < d) : a * 2 ^ 149 < 2 ^ 24 * (d * 2 ^ fittingPower a d) := by
  have hlog : a * 2 ^ 149 / d < 2 ^ ((a * 2 ^ 149 / d).log2 + 1) := Nat.lt_log2_self
  have hle : (a * 2 ^ 149 / d).log2 + 1 ≤ 24 + fittingPower a d := by
    unfold fittingPower
    omega
  have hlt := hlog.trans_le (Nat.pow_le_pow_right (by omega) hle)
  rw [Nat.div_lt_iff_lt_mul hd, Nat.pow_add, Nat.mul_assoc, Nat.mul_comm (2 ^ _) d] at hlt
  exact hlt

theorem fittingPower_le (hd : 0 < d) (hpos : 0 < fittingPower a d) :
    2 ^ 23 * (d * 2 ^ fittingPower a d) ≤ a * 2 ^ 149 := by
  have hlog : (a * 2 ^ 149 / d).log2 = 23 + fittingPower a d := by
    unfold fittingPower at hpos ⊢
    omega
  have hne : a * 2 ^ 149 / d ≠ 0 := by
    intro hzero
    rw [hzero] at hlog
    have : Nat.log2 0 = 0 := by decide
    omega
  have hle := (Nat.le_log2 hne).mp hlog.ge
  rw [Nat.le_div_iff_mul_le hd, Nat.pow_add, Nat.mul_assoc, Nat.mul_comm (2 ^ _) d] at hle
  exact hle

def rounded (a d : Nat) : Nat := divNearest (a * 2 ^ 149) (d * 2 ^ fittingPower a d)

theorem rounded_le (hd : 0 < d) : rounded a d ≤ 2 ^ 24 := by
  have hunit : 0 < d * 2 ^ fittingPower a d := Nat.mul_pos hd (Nat.two_pow_pos _)
  have hlt := (Nat.div_lt_iff_lt_mul hunit).mpr (lt_fittingPower (a := a) hd)
  have := divNearest_le (a * 2 ^ 149) (d * 2 ^ fittingPower a d)
  unfold rounded
  omega

theorem le_rounded (hd : 0 < d) (hpos : 0 < fittingPower a d) : 2 ^ 23 ≤ rounded a d := by
  have hunit : 0 < d * 2 ^ fittingPower a d := Nat.mul_pos hd (Nat.two_pow_pos _)
  have hle := (Nat.le_div_iff_mul_le hunit).mpr (fittingPower_le hd hpos)
  unfold rounded divNearest
  dsimp only
  split <;> omega

theorem units_grid (w : Single) (p : Nat) :
    (∃ k, w.units = k * 2 ^ p) ∨ 0 < p ∧ w.units < 2 ^ 23 * 2 ^ p := by
  rcases Nat.lt_or_ge w.power p with hlt | hge
  · right
    refine ⟨by omega, ?_⟩
    have hmul : w.units < 2 ^ 24 * 2 ^ w.power :=
      Nat.mul_lt_mul_of_pos_right (significand_lt w) (Nat.two_pow_pos _)
    apply hmul.trans_le
    rw [← Nat.pow_add, ← Nat.pow_add]
    exact Nat.pow_le_pow_right (by omega) (by omega)
  · left
    refine ⟨w.significand * 2 ^ (w.power - p), ?_⟩
    rw [units, Nat.mul_assoc, ← Nat.pow_add, Nat.sub_add_cancel hge]

theorem dist_rounded_le (hd : 0 < d) (w : Single) :
    Nat.dist (rounded a d * 2 ^ fittingPower a d * d) (a * 2 ^ 149) ≤
        Nat.dist (w.units * d) (a * 2 ^ 149) ∧
      (w.units ≠ rounded a d * 2 ^ fittingPower a d →
        Nat.dist (w.units * d) (a * 2 ^ 149) =
          Nat.dist (rounded a d * 2 ^ fittingPower a d * d) (a * 2 ^ 149) →
        rounded a d % 2 = 0) := by
  have hunit : 0 < d * 2 ^ fittingPower a d := Nat.mul_pos hd (Nat.two_pow_pos _)
  have hmultiple (k : Nat) :
      k * 2 ^ fittingPower a d * d = k * (d * 2 ^ fittingPower a d) := by
    rw [Nat.mul_assoc, Nat.mul_comm d]
  have hnearest := dist_divNearest_le (a * 2 ^ 149) hunit
  rw [← rounded] at hnearest
  rw [hmultiple]
  rcases units_grid w (fittingPower a d) with ⟨k, hk⟩ | ⟨hpos, hlt⟩
  · rw [hk, hmultiple]
    refine ⟨(hnearest k).1, fun hne => (hnearest k).2 ?_⟩
    rintro rfl
    exact hne rfl
  · -- Below the binade of the fraction, its lower end is nearer.
    have hbelow : w.units * d < 2 ^ 23 * (d * 2 ^ fittingPower a d) := by
      rw [← hmultiple]
      exact Nat.mul_lt_mul_of_pos_right hlt hd
    have habove := fittingPower_le hd hpos
    have hend := (hnearest (2 ^ 23)).1
    unfold Nat.dist at hend ⊢
    omega

theorem bits_ofFraction (negative : Bool) (a d : Nat) :
    (ofFraction negative a d).bits.toNat =
      (if negative then 2 ^ 31 else 0) +
        min (fittingPower a d * 2 ^ 23 + rounded a d) infinityBits := by
  have hmin : min (fittingPower a d * 2 ^ 23 + rounded a d) infinityBits ≤ infinityBits :=
    Nat.min_le_right _ _
  have hmagnitude : magnitudeBits a d =
      min (fittingPower a d * 2 ^ 23 + rounded a d) infinityBits := rfl
  unfold infinityBits at hmin
  rw [ofFraction, hmagnitude, Nat.toUInt32, UInt32.toNat_ofNat']
  apply Nat.mod_eq_of_lt
  unfold infinityBits
  split <;> omega

theorem isNegative_ofFraction (negative : Bool) (a d : Nat) :
    (ofFraction negative a d).isNegative = negative := by
  have hmin : min (fittingPower a d * 2 ^ 23 + rounded a d) infinityBits ≤ infinityBits :=
    Nat.min_le_right _ _
  unfold infinityBits at hmin
  rw [isNegative, bits_ofFraction]
  unfold infinityBits
  cases negative with
  | false =>
    simp only [Bool.false_eq_true, if_false, decide_eq_false_iff_not]
    omega
  | true =>
    simp only [if_true, decide_eq_true_eq]
    omega

theorem isFinite_ofFraction_iff (negative : Bool) (a d : Nat) :
    (ofFraction negative a d).isFinite ↔
      fittingPower a d * 2 ^ 23 + rounded a d < infinityBits := by
  have hbits := bits_ofFraction negative a d
  rw [isFinite, exponentField, bne_iff_ne, hbits]
  unfold infinityBits
  split <;> omega

theorem significand_ofFraction (negative : Bool) (hd : 0 < d)
    (h : (ofFraction negative a d).isFinite) :
    (ofFraction negative a d).significand = rounded a d ∧
        (ofFraction negative a d).power = fittingPower a d ∨
      rounded a d = 2 ^ 24 ∧ (ofFraction negative a d).significand = 2 ^ 23 ∧
        (ofFraction negative a d).power = fittingPower a d + 1 := by
  have hbits := bits_eq (ofFraction negative a d)
  have hlt := significand_lt (ofFraction negative a d)
  have hle := le_significand (v := ofFraction negative a d)
  have hrounded := rounded_le (a := a) hd
  have hnormal := le_rounded (a := a) hd
  rw [isFinite_ofFraction_iff] at h
  rw [bits_ofFraction, isNegative_ofFraction, Nat.min_eq_left (Nat.le_of_lt h),
    Nat.add_left_cancel_iff] at hbits
  omega

theorem units_ofFraction (negative : Bool) (hd : 0 < d) (h : (ofFraction negative a d).isFinite) :
    (ofFraction negative a d).units = rounded a d * 2 ^ fittingPower a d ∧
      (rounded a d % 2 = 0 → (ofFraction negative a d).significand % 2 = 0) := by
  rcases significand_ofFraction negative hd h with ⟨hsignificand, hpower⟩ | ⟨hcarry, hhalf, hpower⟩
  · rw [units, hsignificand, hpower]
    exact ⟨rfl, id⟩
  · rw [units, hcarry, hhalf, hpower]
    refine ⟨?_, fun _ => rfl⟩
    rw [← Nat.pow_add, ← Nat.pow_add]
    congr 1
    omega

theorem isFinite_ofFraction (negative : Bool) (hd : 0 < d) :
    (ofFraction negative a d).isFinite ↔ 2 * (a * 2 ^ 149) < (2 ^ 25 - 1) * (d * 2 ^ 253) := by
  have hlt := lt_fittingPower (a := a) hd
  have hle := fittingPower_le (a := a) hd
  have hrounded := rounded_le (a := a) hd
  have hnormal := le_rounded (a := a) hd
  have hunit : 0 < d * 2 ^ 253 := Nat.mul_pos hd (Nat.two_pow_pos _)
  rw [isFinite_ofFraction_iff]
  unfold infinityBits
  rcases Nat.lt_trichotomy (fittingPower a d) 253 with hpower | hpower | hpower
  · -- A smaller power leaves the fraction below half the threshold.
    have hmul : d * 2 ^ fittingPower a d * 2 ≤ d * 2 ^ 253 := by
      rw [Nat.mul_assoc, ← Nat.pow_succ]
      exact Nat.mul_le_mul_left d (Nat.pow_le_pow_right (by omega) hpower)
    omega
  · rw [hpower] at hlt
    have hcarry := divNearest_lt_iff hunit hlt
    rw [rounded, hpower] at hrounded ⊢
    omega
  · have hmul : d * 2 ^ 253 * 2 ≤ d * 2 ^ fittingPower a d := by
      rw [Nat.mul_assoc, ← Nat.pow_succ]
      exact Nat.mul_le_mul_left d (Nat.pow_le_pow_right (by omega) hpower)
    omega

def distance (v : Single) (negative : Bool) (a d : Nat) : Nat :=
  if v.isNegative = negative then Nat.dist (v.units * d) (a * 2 ^ 149)
  else v.units * d + a * 2 ^ 149

theorem cast_dist (m n : Nat) : (Nat.dist m n : ℚ) = |(m : ℚ) - n| := by
  rcases Nat.le_total m n with h | h
  · have hle : (m : ℚ) ≤ n := by exact_mod_cast h
    rw [Nat.dist_eq_sub_of_le h, Nat.cast_sub h, abs_of_nonpos (by linarith)]
    ring
  · have hle : (n : ℚ) ≤ m := by exact_mod_cast h
    rw [Nat.dist_eq_sub_of_le_right h, Nat.cast_sub h, abs_of_nonneg (by linarith)]

theorem abs_signed_sub (negative negative' : Bool) (x y : ℚ) :
    |signed negative x - signed negative' y| = if negative = negative' then |x - y| else |x + y| := by
  have hopposite : -x - y = -(x + y) := by ring
  have hsame : -x - -y = -(x - y) := by ring
  cases negative with
  | false => cases negative' <;> simp [signed]
  | true =>
    cases negative' with
    | false => exact (congrArg abs hopposite).trans (abs_neg _)
    | true => exact (congrArg abs hsame).trans (abs_neg _)

theorem abs_value_sub (v : Single) (negative : Bool) (a : Nat) (hd : 0 < d) :
    |v.value - signed negative ((a : ℚ) / d)| =
      (v.distance negative a d : ℚ) / ((d : ℚ) * (2 : ℚ) ^ 149) := by
  have hd' : (0 : ℚ) < d := by exact_mod_cast hd
  have hunit : (0 : ℚ) < (d : ℚ) * (2 : ℚ) ^ 149 := by positivity
  rw [value, abs_signed_sub, distance]
  split
  · have hsub : (v.units : ℚ) / (2 : ℚ) ^ 149 - (a : ℚ) / d =
        (((v.units * d : ℕ) : ℚ) - ((a * 2 ^ 149 : ℕ) : ℚ)) / ((d : ℚ) * (2 : ℚ) ^ 149) := by
      rw [Nat.cast_mul, Nat.cast_mul, Nat.cast_pow]
      field_simp
      ring
    rw [hsub, abs_div, abs_of_pos hunit, cast_dist]
  · rw [abs_of_nonneg (by positivity), Nat.cast_add, Nat.cast_mul, Nat.cast_mul, Nat.cast_pow]
    field_simp
    ring

/-- The single is finite, no finite single is nearer to the number, and if another number is as
near, the significand is even. -/
structure IsNearest (v : Single) (x : ℚ) : Prop where
  finite : v.isFinite
  nearest : ∀ w : Single, w.isFinite → |v.value - x| ≤ |w.value - x|
  even : ∀ w : Single, w.isFinite → w.value ≠ v.value → |w.value - x| = |v.value - x| →
    v.significand % 2 = 0

def infinity (negative : Bool) : Single := ⟨if negative then 0xFF800000 else 0x7F800000⟩

def limit : ℚ := 2 ^ 128 - 2 ^ 103

theorem distance_ofFraction (negative : Bool) (hd : 0 < d)
    (h : (ofFraction negative a d).isFinite) :
    (ofFraction negative a d).distance negative a d =
      Nat.dist (rounded a d * 2 ^ fittingPower a d * d) (a * 2 ^ 149) := by
  rw [distance, if_pos (isNegative_ofFraction negative a d), (units_ofFraction negative hd h).1]

theorem units_zero : units ⟨0⟩ = 0 := by decide

theorem value_of_units {v : Single} (h : v.units = 0) : v.value = 0 := by
  rw [value, h, signed]
  simp

theorem distance_le (hd : 0 < d) (negative : Bool) (w : Single) :
    Nat.dist (rounded a d * 2 ^ fittingPower a d * d) (a * 2 ^ 149) ≤ w.distance negative a d := by
  unfold distance
  split
  · exact (dist_rounded_le hd w).1
  · have hzero := (dist_rounded_le (a := a) hd ⟨0⟩).1
    rw [units_zero, Nat.zero_mul] at hzero
    unfold Nat.dist at hzero ⊢
    omega

theorem isNearest_ofFraction (negative : Bool) (hd : 0 < d)
    (h : (ofFraction negative a d).isFinite) :
    (ofFraction negative a d).IsNearest (signed negative ((a : ℚ) / d)) := by
  obtain ⟨hunits, heven⟩ := units_ofFraction negative hd h
  have hd' : (0 : ℚ) < d := by exact_mod_cast hd
  have hunit : (0 : ℚ) < (d : ℚ) * (2 : ℚ) ^ 149 := by positivity
  refine ⟨h, fun w _ => ?_, fun w _ hne heq => ?_⟩
  · rw [abs_value_sub _ _ _ hd, abs_value_sub _ _ _ hd, distance_ofFraction negative hd h]
    gcongr
    exact distance_le hd negative w
  · rw [abs_value_sub _ _ _ hd, abs_value_sub _ _ _ hd, distance_ofFraction negative hd h,
      div_left_inj' hunit.ne', Nat.cast_inj] at heq
    apply heven
    unfold distance at heq
    split at heq
    · rename_i hsign
      refine (dist_rounded_le hd w).2 ?_ heq
      intro he
      apply hne
      rw [value, value, hsign, isNegative_ofFraction, hunits, he]
    · -- A single of the other sign can only be as near if it is a zero.
      obtain ⟨hzero, htie⟩ := dist_rounded_le (a := a) hd ⟨0⟩
      rw [units_zero, Nat.zero_mul] at hzero htie
      have hw : w.units * d = 0 := by
        unfold Nat.dist at hzero heq
        omega
      have hw' : w.units = 0 := (Nat.mul_eq_zero.mp hw).resolve_right hd.ne'
      refine htie ?_ ?_
      · intro hv
        rw [← hunits] at hv
        exact hne ((value_of_units hw').trans (value_of_units hv.symm).symm)
      · rw [← heq, hw, Nat.dist, Nat.zero_sub, Nat.zero_add, Nat.sub_zero, Nat.zero_add]

theorem ofFraction_eq_infinity (h : (ofFraction negative a d).isFinite = false) :
    ofFraction negative a d = infinity negative := by
  have hlarge : infinityBits ≤ fittingPower a d * 2 ^ 23 + rounded a d := by
    rw [← Nat.not_lt, ← isFinite_ofFraction_iff negative, h]
    simp
  have hbits := bits_ofFraction negative a d
  rw [Nat.min_eq_right hlarge] at hbits
  rw [Single.mk.injEq, ← UInt32.toNat_inj, hbits, infinity]
  cases negative <;> rfl

theorem isFinite_ofFraction_iff_lt (negative : Bool) (hd : 0 < d) :
    (ofFraction negative a d).isFinite ↔ (a : ℚ) / d < limit := by
  have hd' : (0 : ℚ) < d := by exact_mod_cast hd
  have hlimit : limit = (((2 ^ 25 - 1) * 2 ^ 103 : ℕ) : ℚ) := by
    rw [limit]
    norm_num
  rw [isFinite_ofFraction negative hd, div_lt_iff₀ hd', hlimit]
  norm_cast
  omega

end Single

end QbCodec
