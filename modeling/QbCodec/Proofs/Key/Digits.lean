import Mathlib.Data.Nat.Digits.Defs
import QbCodec.Key.Basic
import QbCodec.Proofs.Text.LowerCase

namespace QbCodec

namespace Text

variable {c : Char} {cs : List Char} {ds : List Nat}

theorem toNat_lt_of_hexDigit? (h : (hexDigit? c).isSome) : c.toNat < 103 := by
  simp only [hexDigit?, Char.le_def, UInt32.le_iff_toNat_le] at h
  split at h
  · rename_i hc
    exact Nat.lt_of_le_of_lt hc.2 (by decide)
  · split at h
    · rename_i hc
      exact Nat.lt_of_le_of_lt hc.2 (by decide)
    · split at h
      · rename_i hc
        exact Nat.lt_of_le_of_lt hc.2 (by decide)
      · cases h

theorem of_hexDigit? {p : Char → Prop}
    (all : ∀ n < 103, (hexDigit? (Char.ofNat n)).isSome → p (Char.ofNat n))
    (h : (hexDigit? c).isSome) : p c :=
  of_toNat_lt (p := fun c => (hexDigit? c).isSome → p c) all (toNat_lt_of_hexDigit? h) h

theorem plain_of_hexDigit? (h : (hexDigit? c).isSome) : c ≠ '+' ∧ c ≠ 'x' ∧ c ≠ 'X' ∧ c ≠ '\n' :=
  of_hexDigit? (p := fun c => c ≠ '+' ∧ c ≠ 'x' ∧ c ≠ 'X' ∧ c ≠ '\n') (by decide) h

theorem hexDigit?_toUpper (h : (hexDigit? c).isSome) : hexDigit? c.toUpper = hexDigit? c :=
  of_hexDigit? (p := fun c => hexDigit? c.toUpper = hexDigit? c) (by decide) h

def IsHex (cs : List Char) (ds : List Nat) : Prop :=
  List.Forall₂ (fun c d => hexDigit? c = some d) cs ds

theorem exists_isHex (h : ∀ c ∈ cs, (hexDigit? c).isSome) : ∃ ds, IsHex cs ds := by
  induction cs with
  | nil => exact ⟨[], .nil⟩
  | cons c cs ih =>
    obtain ⟨hc, hcs⟩ := List.forall_mem_cons.mp h
    obtain ⟨d, hd⟩ := Option.isSome_iff_exists.mp hc
    obtain ⟨ds, hds⟩ := ih hcs
    exact ⟨d :: ds, .cons hd hds⟩

theorem IsHex.isSome (h : IsHex cs ds) : ∀ c ∈ cs, (hexDigit? c).isSome := by
  induction h with
  | nil => simp
  | cons hc _ ih => exact List.forall_mem_cons.mpr ⟨by rw [hc]; rfl, ih⟩

theorem IsHex.toUpper (h : IsHex cs ds) : IsHex (cs.map Char.toUpper) ds := by
  induction h with
  | nil => exact .nil
  | cons hc _ ih => exact .cons (by rw [hexDigit?_toUpper (by rw [hc]; rfl), hc]) ih

theorem IsHex.hexValueFrom? (h : IsHex cs ds) (n : Nat) :
    hexValueFrom? n cs = some (Nat.ofDigits 16 (n :: ds).reverse) := by
  induction h generalizing n with
  | nil => simp [Text.hexValueFrom?]
  | @cons c d cs ds hc _ ih =>
    rw [Text.hexValueFrom?, hc, Option.bind_some, ih, List.reverse_cons, List.reverse_cons,
      List.reverse_cons, List.append_assoc, Nat.ofDigits_append, Nat.ofDigits_append,
      Nat.ofDigits_singleton, List.singleton_append, Nat.ofDigits_cons, Nat.ofDigits_singleton,
      Nat.mul_comm n, Nat.add_comm d]

theorem hexValue?_of_ne_nil (h : cs ≠ []) : hexValue? cs = Text.hexValueFrom? 0 cs := by
  unfold hexValue?
  split
  · exact absurd rfl h
  · rfl

theorem IsHex.hexValue? (h : IsHex cs ds) (hne : cs ≠ []) :
    hexValue? cs = some (Nat.ofDigits 16 ds.reverse) := by
  rw [hexValue?_of_ne_nil hne, h.hexValueFrom?, Nat.ofDigits_reverse_zero_cons]

end Text

namespace Key

variable {k : Key} {digits : List Char}

structure IsSpelledBy (k : Key) (digits : List Char) : Prop where
  ne_nil : digits ≠ []
  length_le : digits.length ≤ 8
  value : ∃ ds, Text.IsHex digits ds ∧ Nat.ofDigits 16 ds.reverse = k.toNat

theorem IsSpelledBy.isSome (h : k.IsSpelledBy digits) :
    ∀ c ∈ digits, (Text.hexDigit? c).isSome := by
  obtain ⟨ds, hds, -⟩ := h.value
  exact hds.isSome

theorem IsSpelledBy.toUpper (h : k.IsSpelledBy digits) :
    k.IsSpelledBy (digits.map Char.toUpper) where
  ne_nil := by simpa using h.ne_nil
  length_le := by simpa using h.length_le
  value := by
    obtain ⟨ds, hds, hk⟩ := h.value
    exact ⟨ds, hds.toUpper, hk⟩

theorem IsSpelledBy.hexValue? (h : k.IsSpelledBy digits) :
    Text.hexValue? digits = some k.toNat := by
  obtain ⟨ds, hds, hk⟩ := h.value
  rw [hds.hexValue? h.ne_nil, hk]

theorem dropPlus_of_isSome (h : ∀ c ∈ digits, (Text.hexDigit? c).isSome) :
    dropPlus digits = digits := by
  unfold dropPlus
  split
  · exact absurd rfl (Text.plain_of_hexDigit? (h '+' List.mem_cons_self)).1
  · rfl

theorem dropMark_of_isSome (h : ∀ c ∈ digits, (Text.hexDigit? c).isSome) :
    dropMark digits = digits := by
  unfold dropMark
  split
  · exact absurd rfl (Text.plain_of_hexDigit? (h 'x' (by simp))).2.1
  · exact absurd rfl (Text.plain_of_hexDigit? (h 'X' (by simp))).2.2.1
  · rfl

theorem IsSpelledBy.parseText?_of_dropMark (h : k.IsSpelledBy digits) {cs : List Char}
    (hcs : dropMark cs = digits) : parseText? cs = some k := by
  rw [parseText?, hcs, if_pos h.length_le, dropPlus_of_isSome h.isSome, h.hexValue?]
  simp

theorem isSome_hexDigit?_of_isCanonicalDigit {c : Char} (h : isCanonicalDigit c) :
    (Text.hexDigit? c).isSome := by
  simp only [isCanonicalDigit, Bool.or_eq_true, Bool.and_eq_true, decide_eq_true_eq] at h
  unfold Text.hexDigit?
  rcases h with h | h
  · rw [if_pos h]
    rfl
  · split
    · rfl
    · split <;> rfl

end Key

end QbCodec
