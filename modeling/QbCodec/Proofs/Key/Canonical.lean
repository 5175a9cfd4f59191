import Mathlib.Data.List.Forall2
import Mathlib.Data.List.Induction
import Mathlib.Data.String.Basic
import QbCodec.Bytes.Output
import QbCodec.Proofs.Key.Listing
import QbCodec.Proofs.Key.Resolution

namespace QbCodec

namespace Text

variable {c : Char} {cs : List Char} {ds : List Nat} {d m n : Nat}

theorem exists_isHex_of_hexValueFrom? (h : hexValueFrom? m cs = some n) : ∃ ds, IsHex cs ds := by
  induction cs generalizing m with
  | nil => exact ⟨[], .nil⟩
  | cons c cs ih =>
    rw [hexValueFrom?] at h
    obtain ⟨d, hd, hrest⟩ := Option.bind_eq_some_iff.mp h
    obtain ⟨ds, hds⟩ := ih hrest
    exact ⟨d :: ds, .cons hd hds⟩

theorem hexValue?_eq_some_iff :
    hexValue? cs = some n ↔ cs ≠ [] ∧ ∃ ds, IsHex cs ds ∧ Nat.ofDigits 16 ds.reverse = n := by
  constructor
  · intro h
    have hne : cs ≠ [] := by
      rintro rfl
      cases h
    have hfrom : hexValueFrom? 0 cs = some n := by
      rwa [hexValue?_of_ne_nil hne] at h
    obtain ⟨ds, hds⟩ := exists_isHex_of_hexValueFrom? hfrom
    rw [hds.hexValue? hne] at h
    exact ⟨hne, ds, hds, Option.some.inj h⟩
  · rintro ⟨hne, ds, hds, rfl⟩
    exact hds.hexValue? hne

theorem lt_of_hexDigit? (h : hexDigit? c = some d) : d < 16 :=
  of_hexDigit? (p := fun c => ∀ e ∈ hexDigit? c, e < 16) (by decide) (by rw [h]; rfl) d h

theorem upperDigit_of_hexDigit? (hc : Key.isCanonicalDigit c) (h : hexDigit? c = some d) :
    upperDigit d = c :=
  of_hexDigit? (p := fun c => Key.isCanonicalDigit c → ∀ e ∈ hexDigit? c, upperDigit e = c)
    (by decide) (by rw [h]; rfl) hc d h

theorem IsHex.lt (h : IsHex cs ds) : ∀ d ∈ ds, d < 16 := by
  induction h with
  | nil => simp
  | cons hc _ ih => exact List.forall_mem_cons.mpr ⟨lt_of_hexDigit? hc, ih⟩

theorem IsHex.length_eq (h : IsHex cs ds) : cs.length = ds.length := List.Forall₂.length_eq h

theorem IsHex.value_lt (h : IsHex cs ds) (hlength : cs.length ≤ 8) :
    Nat.ofDigits 16 ds.reverse < 2 ^ 32 := by
  have hvalue : Nat.ofDigits 16 ds.reverse < 16 ^ ds.reverse.length := by
    apply Nat.ofDigits_lt_base_pow_length (by omega)
    intro d hd
    exact h.lt d (List.mem_reverse.mp hd)
  rw [List.length_reverse, ← h.length_eq] at hvalue
  exact hvalue.trans_le (Nat.pow_le_pow_right (by omega) hlength)

theorem IsHex.map_upperDigit (h : IsHex cs ds) (hcs : ∀ c ∈ cs, Key.isCanonicalDigit c) :
    ds.map upperDigit = cs := by
  induction h with
  | nil => rfl
  | cons hc _ ih =>
    obtain ⟨hcanonical, hrest⟩ := List.forall_mem_cons.mp hcs
    rw [List.map_cons, upperDigit_of_hexDigit? hcanonical hc, ih hrest]

theorem hexFixed_ofDigits (h : ∀ d ∈ ds, d < 16) :
    hexFixed ds.length (Nat.ofDigits 16 ds.reverse) = ds.map upperDigit := by
  -- The last digit is the remainder, so the induction is on the digits from the last one.
  induction ds using List.reverseRecOn with
  | nil => rfl
  | append_singleton ds d ih =>
    have hd : d < 16 := h d (by simp)
    have hdiv : (d + 16 * Nat.ofDigits 16 ds.reverse) / 16 = Nat.ofDigits 16 ds.reverse := by omega
    have hmod : (d + 16 * Nat.ofDigits 16 ds.reverse) % 16 = d := by omega
    rw [List.length_append, List.length_singleton, List.reverse_append, List.reverse_singleton,
      List.singleton_append, Nat.ofDigits_cons, hexFixed, hdiv, hmod,
      ih fun e he => h e (List.mem_append_left _ he), List.map_append, List.map_singleton]

theorem utf8ByteSize_of_lt {s : String} (h : ∀ c ∈ s.toList, c.toNat < 128) :
    s.utf8ByteSize = s.toList.length := by
  have of_list (cs : List Char) (hcs : ∀ c ∈ cs, c.toNat < 128) :
      String.utf8Len cs = cs.length := by
    induction cs with
    | nil => rfl
    | cons c cs ih =>
      obtain ⟨hc, hrest⟩ := List.forall_mem_cons.mp hcs
      have hsize : c.utf8Size = 1 := Char.utf8Size_eq_one_iff.mpr (Nat.le_of_lt_succ hc)
      rw [String.utf8Len_cons, ih hrest, hsize, List.length_cons]
  rw [← of_list s.toList h, ← String.utf8ByteSize_ofList, String.ofList_toList]

end Text

namespace Key

open Bank (IsMark dropMark_append)

variable {text : String} {digits : List Char} {k j : Key} {ds : List Nat} {n : Nat}

theorem exists_eq_spell (h : isCanonical text) : ∃ k : Key, text = k.spell := by
  unfold isCanonical isCanonicalText at h
  split at h
  · rename_i digits htext
    simp only [Bool.and_eq_true, beq_iff_eq, List.all_eq_true] at h
    obtain ⟨hlength, hcanonical⟩ := h
    obtain ⟨ds, hds⟩ := Text.exists_isHex fun c hc =>
      isSome_hexDigit?_of_isCanonicalDigit (hcanonical c hc)
    have hlt := hds.value_lt (Nat.le_of_eq hlength)
    have hfixed := Text.hexFixed_ofDigits hds.lt
    rw [← hds.length_eq, hlength, hds.map_upperDigit hcanonical] at hfixed
    refine ⟨(Nat.ofDigits 16 ds.reverse).toUInt32, String.toList_injective ?_⟩
    rw [toList_spell, UInt32.toNat_ofNat_of_lt' hlt, hfixed, htext]
  · cases h

theorem isCanonical_iff : isCanonical text ↔ ∃ k : Key, text = k.spell := by
  constructor
  · exact exists_eq_spell
  · rintro ⟨k, rfl⟩
    exact isCanonical_spell k

theorem spell_injective (h : k.spell = j.spell) : k = j := by
  have hparse := parseText?_spell k
  rw [h, parseText?_spell] at hparse
  exact (Option.some.inj hparse).symm

/-- The values of the digits of a text, which stand behind an optional mark and an optional plus sign.
The sign and the digits have up to eight bytes. -/
inductive HasDigits : String → List Nat → Prop
  | mk {mark sign digits : List Char} {ds : List Nat} (marked : IsMark mark)
      (signed : sign = [] ∨ sign = ['+']) (ne_nil : digits ≠ [])
      (size : (String.ofList (sign ++ digits)).utf8ByteSize ≤ 8) (values : Text.IsHex digits ds) :
    HasDigits (String.ofList (mark ++ (sign ++ digits))) ds

theorem exists_dropMark (cs : List Char) : ∃ mark, IsMark mark ∧ cs = mark ++ dropMark cs := by
  unfold dropMark
  split
  · exact ⟨_, .inr (.inl rfl), rfl⟩
  · exact ⟨_, .inr (.inr rfl), rfl⟩
  · exact ⟨[], .inl rfl, rfl⟩

theorem exists_dropPlus (cs : List Char) :
    ∃ sign, (sign = [] ∨ sign = ['+']) ∧ cs = sign ++ dropPlus cs := by
  unfold dropPlus
  split
  · exact ⟨_, .inr rfl, rfl⟩
  · exact ⟨[], .inl rfl, rfl⟩

theorem lt_of_mem_signed {sign : List Char} (hsign : sign = [] ∨ sign = ['+'])
    (h : Text.IsHex digits ds) : ∀ c ∈ (String.ofList (sign ++ digits)).toList, c.toNat < 128 := by
  intro c hc
  rw [String.toList_ofList, List.mem_append] at hc
  rcases hc with hc | hc
  · rcases hsign with rfl | rfl
    · cases hc
    · obtain rfl := List.mem_singleton.mp hc
      decide
  · exact (Text.toNat_lt_of_hexDigit? (h.isSome c hc)).trans (by decide)

theorem HasDigits.parse? (h : HasDigits text ds) :
    (parse? text).map UInt32.toNat = some (Nat.ofDigits 16 ds.reverse) := by
  cases h with
  | @mk mark sign digits _ marked signed ne_nil size values =>
    rw [Text.utf8ByteSize_of_lt (lt_of_mem_signed signed values), String.toList_ofList] at size
    have hmark : dropMark (sign ++ digits) = sign ++ digits := by
      rcases signed with rfl | rfl
      · exact dropMark_of_isSome values.isSome
      · rfl
    have hplus : dropPlus (sign ++ digits) = digits := by
      rcases signed with rfl | rfl
      · exact dropPlus_of_isSome values.isSome
      · rfl
    have hlength : digits.length ≤ 8 := by
      rw [List.length_append] at size
      omega
    rw [Key.parse?, String.toList_ofList, parseText?, dropMark_append marked hmark, if_pos size, hplus,
      values.hexValue? ne_nil, Option.map_some, Option.map_some,
      Nat.toUInt32, UInt32.toNat_ofNat_of_lt' (values.value_lt hlength)]

theorem exists_hasDigits (h : parse? text = some k) : ∃ ds, HasDigits text ds := by
  obtain ⟨mark, hmark, htext⟩ := exists_dropMark text.toList
  obtain ⟨sign, hsign, hdigits⟩ := exists_dropPlus (dropMark text.toList)
  rw [Key.parse?, parseText?] at h
  split at h
  · rename_i hlength
    obtain ⟨n, hn, -⟩ := Option.map_eq_some_iff.mp h
    obtain ⟨hne, ds, hds, -⟩ := Text.hexValue?_eq_some_iff.mp hn
    rw [hdigits] at htext hlength
    rw [← String.ofList_toList (s := text), htext]
    refine ⟨ds, .mk hmark hsign hne ?_ hds⟩
    rwa [Text.utf8ByteSize_of_lt (lt_of_mem_signed hsign hds), String.toList_ofList]
  · cases h

theorem parse?_eq_some_iff :
    (parse? text).map UInt32.toNat = some n ↔
      ∃ ds, HasDigits text ds ∧ Nat.ofDigits 16 ds.reverse = n := by
  constructor
  · intro h
    obtain ⟨k, hk, -⟩ := Option.map_eq_some_iff.mp h
    obtain ⟨ds, hds⟩ := exists_hasDigits hk
    rw [hds.parse?] at h
    exact ⟨ds, hds, Option.some.inj h⟩
  · rintro ⟨ds, hds, rfl⟩
    exact hds.parse?

/-- A text is canonical if and only if a key is spelled so. That is one key, which is read from the
text, so that writing the text never takes its hash for want of a key. Any text is read if it has
digits, as their number to base sixteen, and no other text is read. -/
theorem isCanonical_iff_spelled (text : String) :
    (isCanonical text ↔ ∃ k : Key, text = k.spell) ∧
      (∀ k : Key, text = k.spell → parse? text = some k ∧ ∀ j : Key, text = j.spell → j = k) ∧
      (∀ fallback out, Output.keyOf text out =
        out.u32 (if isCanonical text then (parse? text).getD fallback else ofName text)) ∧
      ∀ n, (parse? text).map UInt32.toNat = some n ↔
        ∃ ds, HasDigits text ds ∧ Nat.ofDigits 16 ds.reverse = n := by
  refine ⟨isCanonical_iff, ?_, ?_, fun n => parse?_eq_some_iff⟩
  · rintro k rfl
    exact ⟨parseText?_spell k, fun j h => (spell_injective h).symm⟩
  · intro fallback out
    unfold Output.keyOf
    split
    · rename_i hcanonical
      obtain ⟨k, rfl⟩ := exists_eq_spell hcanonical
      rw [parse?, parseText?_spell, Option.getD_some, Option.getD_some]
    · rfl

theorem isCanonical_iff_spelled_beef :
    isCanonical "0x0000BEEF" ∧ parse? "0x0000BEEF" = some 0xBEEF ∧
      (parse? "0X+bEEf").map UInt32.toNat = some 0xBEEF := by
  have hspell : "0x0000BEEF" = spell 0xBEEF := by decide
  have hdigits : HasDigits "0X+bEEf" [11, 14, 14, 15] :=
    @HasDigits.mk ['0', 'X'] ['+'] ['b', 'E', 'E', 'f'] _ (.inr (.inr rfl)) (.inr rfl) (by simp)
      (by decide) (.cons rfl (.cons rfl (.cons rfl (.cons rfl .nil))))
  obtain ⟨hcanonical, hparse, -, -⟩ := isCanonical_iff_spelled "0x0000BEEF"
  obtain ⟨-, -, -, hvalue⟩ := isCanonical_iff_spelled "0X+bEEf"
  exact ⟨hcanonical.mpr ⟨_, hspell⟩, (hparse _ hspell).1, (hvalue _).mpr ⟨_, hdigits, rfl⟩⟩

-- The sign is one of the eight bytes, and no digit.
example : parse? "+0000001" = some 1 ∧ parse? "+00000001" = none ∧ parse? "0x+" = none := by decide

end Key

end QbCodec
