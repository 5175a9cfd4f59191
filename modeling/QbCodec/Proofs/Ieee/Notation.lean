import QbCodec.Ieee.Notation
import QbCodec.Proofs.Ieee.Rounding
import QbCodec.Proofs.Text.Numerals

namespace QbCodec.Single

theorem takeWhile_isDigit {whole rest : List Char} (h : whole.all Text.isDigit) :
    (whole ++ '.' :: rest).takeWhile Text.isDigit = whole := by
  rw [List.takeWhile_append_of_pos (List.all_eq_true.mp h)]
  simp [Text.isDigit]

theorem dropWhile_isDigit {whole rest : List Char} (h : whole.all Text.isDigit) :
    (whole ++ '.' :: rest).dropWhile Text.isDigit = '.' :: rest := by
  rw [List.dropWhile_append_of_pos (List.all_eq_true.mp h)]
  simp [Text.isDigit]

theorem parse?_eq (negative : Bool) {whole fraction : List Char} (hne : whole ++ fraction ≠ [])
    (hdigits : whole.all Text.isDigit) (hdigits' : fraction.all Text.isDigit) :
    parse? ((if negative then ['-'] else []) ++ (whole ++ '.' :: fraction)) =
      some (ofFraction negative (Text.decimalValue (whole ++ fraction)) (10 ^ fraction.length)) := by
  have hminus : '-' ∉ whole ++ '.' :: fraction := by
    rw [List.mem_append, List.mem_cons]
    rintro (hmem | hmem | hmem)
    · exact absurd (List.all_eq_true.mp hdigits _ hmem) (by decide)
    · exact absurd hmem (by decide)
    · exact absurd (List.all_eq_true.mp hdigits' _ hmem) (by decide)
  have of_body (sign : Bool) (body : List Char) (hbody : body = whole ++ '.' :: fraction)
      (cs : List Char) (hcs : cs = (if sign then ['-'] else []) ++ body) :
      parse? cs = some
        (ofFraction sign (Text.decimalValue (whole ++ fraction)) (10 ^ fraction.length)) := by
    unfold parse?
    split
    rename_i negative body' hsign
    have hsame : negative = sign ∧ body' = body := by
      cases sign with
      | true =>
        subst hcs
        cases hsign
        exact ⟨rfl, rfl⟩
      | false =>
        split at hsign
        · rename_i rest
          have hbody' : '-' :: rest = body := hcs
          rw [← hbody, ← hbody'] at hminus
          exact absurd List.mem_cons_self hminus
        · cases hsign
          exact ⟨rfl, hcs⟩
    obtain ⟨rfl, rfl⟩ := hsame
    simp only [hbody, takeWhile_isDigit hdigits, dropWhile_isDigit hdigits]
    rw [if_pos ⟨hdigits', hne⟩]
  exact of_body negative _ rfl _ rfl

theorem all_isDigit_zeros (n : Nat) : (zeros n).all Text.isDigit := by
  rw [List.all_eq_true]
  intro c hc
  rw [List.eq_of_mem_replicate hc]
  rfl

structure Pointed (cs : List Char) (n grid : Nat) (whole fraction : List Char) : Prop where
  eq : cs = whole ++ '.' :: fraction
  whole_ne_nil : whole ≠ []
  fraction_ne_nil : fraction ≠ []
  whole_digits : whole.all Text.isDigit
  fraction_digits : fraction.all Text.isDigit
  value : Text.decimalValue (whole ++ fraction) * 10 ^ 46 = n * 10 ^ grid * 10 ^ fraction.length

theorem positional_spec (n grid : Nat) :
    ∃ whole fraction, Pointed (positional ⟨n, (grid : Int) - 46⟩) n grid whole fraction := by
  have hne := Text.numeral_ne_nil n
  have hdigits := Text.all_isDigit_numeral n
  unfold positional
  dsimp only
  split
  · rename_i hexponent
    obtain ⟨e, rfl⟩ : ∃ e, grid = e + 46 := ⟨grid - 46, by omega⟩
    have he : ((e + 46 : Nat) - 46 : Int).toNat = e := by omega
    rw [he]
    refine ⟨Text.numeral n ++ zeros e, ['0'], by simp, by simp [hne], by simp, ?_, rfl, ?_⟩
    · rw [List.all_append, hdigits, all_isDigit_zeros]
      rfl
    · have hvalue : Text.decimalValue (Text.numeral n ++ zeros e ++ ['0']) = n * 10 ^ e * 10 ^ 1 := by
        rw [Text.decimalValue, Text.decimalFrom_append, Text.decimalFrom_append]
        change Text.decimalFrom (Text.decimalFrom (Text.decimalValue (Text.numeral n)) (zeros e))
          (List.replicate 1 '0') = _
        rw [Text.decimalValue_numeral, zeros, Text.decimalFrom_zeros, Text.decimalFrom_zeros]
      rw [hvalue, List.length_singleton]
      ring
  · rename_i hexponent
    have hplaces : (-((grid : Int) - 46)).toNat = 46 - grid := by omega
    have hpow : 10 ^ 46 = 10 ^ grid * 10 ^ (46 - grid) := by
      rw [← Nat.pow_add]
      congr 1
      omega
    rw [hplaces]
    split
    · rename_i hlt
      refine ⟨_, _, rfl, ?_, ?_, ?_, ?_, ?_⟩
      · simp [hne]
        omega
      · simp
        omega
      · exact List.all_eq_true.mpr fun c hc =>
          Text.isDigit_of_mem_numeral (List.mem_of_mem_take hc)
      · exact List.all_eq_true.mpr fun c hc =>
          Text.isDigit_of_mem_numeral (List.mem_of_mem_drop hc)
      · have hlength : ((Text.numeral n).drop ((Text.numeral n).length - (46 - grid))).length =
            46 - grid := by
          rw [List.length_drop]
          omega
        rw [List.take_append_drop, Text.decimalValue_numeral, hlength, hpow]
        ring
    · rename_i hge
      have hlength : (zeros (46 - grid - (Text.numeral n).length) ++ Text.numeral n).length =
          46 - grid := by
        simp only [zeros, List.length_append, List.length_replicate]
        omega
      refine ⟨['0'], zeros (46 - grid - (Text.numeral n).length) ++ Text.numeral n, by simp,
        by simp, by simp [hne], rfl, ?_, ?_⟩
      · rw [List.all_append, hdigits, all_isDigit_zeros]
        rfl
      · have hvalue : Text.decimalValue
            (['0'] ++ (zeros (46 - grid - (Text.numeral n).length) ++ Text.numeral n)) = n := by
          rw [← List.append_assoc, Text.decimalValue, Text.decimalFrom_append]
          have hzeros : Text.decimalFrom 0 (['0'] ++ zeros (46 - grid - (Text.numeral n).length)) =
              0 := by
            rw [zeros, List.singleton_append, ← List.replicate_succ, Text.decimalFrom_zeros,
              Nat.zero_mul]
          rw [hzeros]
          exact Text.decimalValue_numeral n
        rw [hvalue, hlength, hpow]
        ring

theorem isNan_of_isFinite {v : Single} (h : v.isFinite) : v.isNan = false := by
  have hne : v.exponentField ≠ 255 := by simpa [isFinite] using h
  simp [isNan, hne]

theorem ofFraction_zero {v : Single} (h : v.significand = 0) (hpower : v.power = 0) (d : Nat) :
    ofFraction v.isNegative 0 d = v := by
  have hbits := bits_eq v
  have hzero : magnitudeBits 0 d = 0 := by
    simp [magnitudeBits, fittingPower, divNearest]
  unfold ofFraction
  rw [hzero]
  rw [h, hpower] at hbits
  simp only [Nat.zero_mul, Nat.add_zero] at hbits ⊢
  rw [← hbits]
  simp

theorem sourceText_spec {v : Single} (h : v.isFinite) :
    ∃ whole fraction, v.sourceText = v.sign ++ (whole ++ '.' :: fraction) ∧ whole ≠ [] ∧
      fraction ≠ [] ∧ whole.all Text.isDigit ∧ fraction.all Text.isDigit ∧
      parse? v.sourceText = some v := by
  unfold sourceText textWith
  simp only [isNan_of_isFinite h, h, Bool.false_eq_true, if_false, Bool.not_true]
  by_cases hzero : v.significand = 0
  · have hpower : v.power = 0 := by
      by_contra hne
      have := le_significand (v := v) (by omega)
      omega
    rw [if_pos hzero]
    refine ⟨['0'], ['0'], rfl, by simp, by simp, rfl, rfl, ?_⟩
    have hne : ['0'] ++ ['0'] ≠ [] := by simp
    have hparse := parse?_eq v.isNegative hne rfl rfl
    rw [sign]
    refine hparse.trans (congrArg some ?_)
    exact ofFraction_zero hzero hpower _
  · rw [if_neg hzero]
    obtain ⟨n, grid, hshortest, hrounds⟩ := shortest_spec v hzero
    rw [hshortest]
    obtain ⟨whole, fraction, hpointed⟩ := positional_spec n grid
    refine ⟨whole, fraction, by rw [hpointed.eq], hpointed.whole_ne_nil, hpointed.fraction_ne_nil,
      hpointed.whole_digits, hpointed.fraction_digits, ?_⟩
    have hne : whole ++ fraction ≠ [] := by simp [hpointed.whole_ne_nil]
    rw [hpointed.eq, sign, parse?_eq v.isNegative hne hpointed.whole_digits
      hpointed.fraction_digits]
    congr 1
    exact ofFraction_of_roundsTo h (Nat.pow_pos (by omega)) hpointed.value hrounds

end QbCodec.Single
