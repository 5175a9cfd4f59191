import QbCodec.Text.Decimal
import QbCodec.Text.Hex

namespace QbCodec.Text

theorem isDigit_eq (c : Char) : isDigit c = c.isDigit := by
  simp [isDigit, Char.isDigit, Char.le_def, UInt32.le_iff_toNat_le]

theorem numeral_ne_nil (n : Nat) : numeral n ≠ [] := Nat.toDigits_ne_nil

theorem isDigit_of_mem_numeral {n : Nat} {c : Char} (h : c ∈ numeral n) : isDigit c := by
  rw [isDigit_eq]
  exact Nat.isDigit_of_mem_toDigits (by omega) (by omega) h

theorem all_isDigit_numeral (n : Nat) : (numeral n).all isDigit := by
  rw [List.all_eq_true]
  intro c hc
  exact isDigit_of_mem_numeral hc

theorem decimalFrom_eq (n : Nat) (cs : List Char) : decimalFrom n cs = Nat.ofDigitChars 10 cs n := by
  rw [decimalFrom, Nat.ofDigitChars_eq_foldl]
  simp only [Nat.mul_comm, digitValue]

theorem decimalFrom_append (n : Nat) (cs ds : List Char) :
    decimalFrom n (cs ++ ds) = decimalFrom (decimalFrom n cs) ds := by
  simp [decimalFrom]

theorem decimalValue_numeral (n : Nat) : decimalValue (numeral n) = n := by
  rw [decimalValue, decimalFrom_eq]
  exact Nat.ofDigitChars_ten_toDigits

theorem decimalFrom_zeros (n k : Nat) :
    decimalFrom n (List.replicate k '0') = n * 10 ^ k := by
  rw [decimalFrom_eq, Nat.ofDigitChars_replicate_zero, Nat.mul_comm]

theorem integer?_signed (negative : Bool) {digits : List Char} (hne : digits ≠ [])
    (hdigits : digits.all isDigit) :
    integer? ((if negative then ['-'] else []) ++ digits) =
      some (if negative then -(decimalValue digits : Int) else decimalValue digits) := by
  cases negative with
  | true => exact if_pos ⟨hne, hdigits⟩
  | false =>
    change integer? digits = some (decimalValue digits : Int)
    unfold integer?
    split
    · exact absurd (List.all_eq_true.mp hdigits '-' List.mem_cons_self) (by decide)
    · exact if_pos ⟨hne, hdigits⟩

theorem integer?_signedNumeral (n : Int) : integer? (signedNumeral n) = some n := by
  have hread (negative : Bool) :=
    integer?_signed negative (numeral_ne_nil n.natAbs) (all_isDigit_numeral _)
  simp only [decimalValue_numeral] at hread
  unfold signedNumeral
  split
  · refine (hread true).trans (congrArg some ?_)
    simp only [if_true]
    omega
  · refine (hread false).trans (congrArg some ?_)
    simp only [Bool.false_eq_true, if_false]
    omega

theorem hexDigit?_upperDigit {n : Nat} (h : n < 16) : hexDigit? (upperDigit n) = some n := by
  have all : ∀ m < 16, hexDigit? (upperDigit m) = some m := by decide
  exact all n h

theorem hexValueFrom?_append (n : Nat) (cs ds : List Char) :
    hexValueFrom? n (cs ++ ds) = (hexValueFrom? n cs).bind fun m => hexValueFrom? m ds := by
  induction cs generalizing n with
  | nil => rfl
  | cons c cs ih =>
    simp only [List.cons_append, hexValueFrom?]
    cases hexDigit? c with
    | none => rfl
    | some d => exact ih _

theorem hexValueFrom?_hexFixed (m width n : Nat) :
    hexValueFrom? m (hexFixed width n) = some (m * 16 ^ width + n % 16 ^ width) := by
  induction width generalizing n with
  | zero => simp [hexFixed, hexValueFrom?, Nat.mod_one]
  | succ width ih =>
    rw [hexFixed, hexValueFrom?_append, ih]
    simp only [Option.bind_some, hexValueFrom?, hexDigit?_upperDigit (Nat.mod_lt n (by omega))]
    congr 1
    have hmod : n % 16 ^ (width + 1) = 16 * (n / 16 % 16 ^ width) + n % 16 := by
      rw [Nat.pow_succ, Nat.mul_comm (16 ^ width) 16, Nat.mod_mul]
      omega
    rw [hmod, Nat.pow_succ, Nat.add_mul, Nat.mul_assoc]
    omega

theorem hexValue?_hexFixed {width n : Nat} (hwidth : 0 < width) (h : n < 16 ^ width) :
    hexValue? (hexFixed width n) = some n := by
  have hlength := hexFixed_length width n
  unfold hexValue?
  split
  · rename_i hnil
    rw [hnil] at hlength
    simp at hlength
    omega
  · rw [hexValueFrom?_hexFixed, Nat.mod_eq_of_lt h]
    simp

end QbCodec.Text
