import QbCodec.Text.LetterCase

namespace QbCodec.Text

theorem of_toNat_lt {p : Char → Prop} {bound : Nat} (all : ∀ n < bound, p (Char.ofNat n)) {c : Char}
    (h : c.toNat < bound) : p c := by
  have hc := all c.toNat h
  rwa [Char.ofNat_toNat] at hc

theorem toLower_of_le {c : Char} (h : 128 ≤ c.toNat) : c.toLower = c := by
  have hlarge : ¬ (c.val ≥ 'A'.val ∧ c.val ≤ 'Z'.val) := by
    rintro ⟨-, hc⟩
    have hZ : c.toNat ≤ 'Z'.toNat := hc
    exact absurd (Nat.le_trans h hZ) (by decide)
  exact dif_neg hlarge

theorem of_toLower {p : Char → Char → Prop} (same : ∀ c, p c c)
    (all : ∀ n < 128, p (Char.ofNat n) (Char.ofNat n).toLower) (c : Char) : p c c.toLower := by
  by_cases h : c.toNat < 128
  · exact of_toNat_lt (p := fun c => p c c.toLower) all h
  · rw [toLower_of_le (Nat.le_of_not_lt h)]
    exact same c

theorem isCased_toLower (c : Char) : isCased c.toLower = isCased c :=
  of_toLower (p := fun c d => isCased d = isCased c) (fun _ => rfl) (by decide +kernel) c

theorem isCaseIgnorable_toLower (c : Char) : isCaseIgnorable c.toLower = isCaseIgnorable c :=
  of_toLower (p := fun c d => isCaseIgnorable d = isCaseIgnorable c) (fun _ => rfl)
    (by decide +kernel) c

theorem mapRuns_lowerRuns {c : Char} (h : c.toNat < 128) : mapRuns lowerRuns c = c.toLower := by
  have hlater : ∀ r ∈ lowerRuns.tail, 128 ≤ r.first := by decide +kernel
  have hnone : lowerRuns.tail.find? (·.has c.toNat) = none := by
    rw [List.find?_eq_none]
    intro r hr hhas
    simp only [CaseRun.has, Bool.and_eq_true, decide_eq_true_eq] at hhas
    exact absurd (Nat.le_trans (hlater r hr) hhas.1.1) (Nat.not_le_of_lt h)
  have hfirst : mapRuns lowerRuns c = mapRuns [⟨0x41, 0x5A, 1, 32⟩] c := by
    have hruns : lowerRuns = ⟨0x41, 0x5A, 1, 32⟩ :: lowerRuns.tail := rfl
    rw [hruns, mapRuns, mapRuns, List.find?_cons, List.find?_cons, hnone]
    rfl
  rw [hfirst]
  exact of_toNat_lt (p := fun c => mapRuns [⟨0x41, 0x5A, 1, 32⟩] c = c.toLower) (by decide) h

theorem mapRuns_toLower (c : Char) : mapRuns lowerRuns c.toLower = mapRuns lowerRuns c := by
  refine of_toLower (p := fun c d => mapRuns lowerRuns d = mapRuns lowerRuns c) (fun _ => rfl) ?_ c
  intro n hn
  have hsmall : ∀ n < 128, (Char.ofNat n).toNat < 128 ∧ (Char.ofNat n).toLower.toNat < 128 ∧
      (Char.ofNat n).toLower.toLower = (Char.ofNat n).toLower := by decide
  obtain ⟨hlt, hlower, hagain⟩ := hsmall n hn
  rw [mapRuns_lowerRuns hlt, mapRuns_lowerRuns hlower, hagain]

theorem lowerChar_toLower (before after : List Char) (c : Char) :
    lowerChar before c.toLower after = lowerChar before c after := by
  obtain ⟨hsigma, hdotted⟩ : (c.toLower = 'Σ' ↔ c = 'Σ') ∧ (c.toLower = 'İ' ↔ c = 'İ') :=
    of_toLower (p := fun c d => (d = 'Σ' ↔ c = 'Σ') ∧ (d = 'İ' ↔ c = 'İ')) (fun _ => ⟨.rfl, .rfl⟩)
      (by decide) c
  simp only [lowerChar, hsigma, hdotted, mapRuns_toLower]

theorem lowerChar_congr {before before' after after' : List Char} (c : Char)
    (hbefore : meetsCased before = meetsCased before')
    (hafter : meetsCased after = meetsCased after') :
    lowerChar before c after = lowerChar before' c after' := by
  simp only [lowerChar, hbefore, hafter]

end QbCodec.Text
