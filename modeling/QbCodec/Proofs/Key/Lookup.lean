import QbCodec.Proofs.Key.Digits
import QbCodec.Proofs.Key.Indexes
import QbCodec.Proofs.Text.UpperCase

namespace QbCodec

namespace Text

theorem upperChar_of_hexDigit? {c : Char} (h : (hexDigit? c).isSome) :
    upperChar c = [c.toUpper] :=
  of_hexDigit? (p := fun c => upperChar c = [c.toUpper]) (by decide +kernel) h

theorem upper_of_isSome {cs : List Char} (h : ∀ c ∈ cs, (hexDigit? c).isSome) :
    upper cs = cs.map Char.toUpper :=
  upper_eq_map fun c hc => upperChar_of_hexDigit? (h c hc)

end Text

namespace Registry

variable {r : Registry} {k : Key} {text : String} {x : Char} {cs digits : List Char}

theorem canonicalize_cases (cs : List Char) :
    (∃ digits, canonicalize cs = '0' :: 'x' :: Text.upper digits) ∨ canonicalize cs = cs := by
  unfold canonicalize
  split
  · exact .inl ⟨_, rfl⟩
  · exact .inl ⟨_, rfl⟩
  · exact .inr rfl

theorem canonicalize_canonicalize (cs : List Char) :
    canonicalize (canonicalize cs) = canonicalize cs := by
  rcases canonicalize_cases cs with ⟨digits, h⟩ | h
  · rw [h, canonicalize, Text.upper_upper]
  · rw [h, h]

theorem canonicalize_of_mark (hx : x = 'x' ∨ x = 'X') :
    canonicalize ('0' :: x :: cs) = '0' :: 'x' :: Text.upper cs := by
  rcases hx with rfl | rfl <;> rfl

theorem lookup_of_hasLiteral (h : r.hasLiteral text) : r.lookup text = text := by
  rw [lookup, if_pos h]

def answer (r : Registry) (canonical : List Char) : String :=
  match (Key.parseText? canonical).bind r.resolve with
  | some literal => if isMarked canonical then literal else String.ofList canonical
  | none => String.ofList canonical

theorem lookup_of_not_hasLiteral (h : r.hasLiteral text = false) :
    r.lookup text = r.answer (canonicalize text.toList) := by
  simp only [lookup, h, Bool.false_eq_true, if_false]
  rfl

theorem answer_cases (r : Registry) (canonical : List Char) :
    (∃ k, r.resolve k = some (r.answer canonical)) ∨
      r.answer canonical = String.ofList canonical := by
  unfold answer
  split
  · rename_i literal hliteral
    obtain ⟨k, -, hk⟩ := Option.bind_eq_some_iff.mp hliteral
    split
    · exact .inl ⟨k, hk⟩
    · exact .inr rfl
  · exact .inr rfl

theorem Consistent.lookup_lookup (h : r.Consistent) (text : String) :
    r.lookup (r.lookup text) = r.lookup text := by
  cases htext : r.hasLiteral text with
  | true => rw [lookup_of_hasLiteral htext, lookup_of_hasLiteral htext]
  | false =>
    rw [lookup_of_not_hasLiteral htext]
    rcases r.answer_cases (canonicalize text.toList) with hk | hanswer
    · exact lookup_of_hasLiteral (h.hasLiteral_iff.mpr hk)
    · -- The canonical form is its own canonical form, so it has the same answer.
      cases hliteral : r.hasLiteral (r.answer (canonicalize text.toList)) with
      | true => exact lookup_of_hasLiteral hliteral
      | false =>
        rw [lookup_of_not_hasLiteral hliteral, hanswer, String.toList_ofList,
          canonicalize_canonicalize, hanswer]

theorem lookup_of_isSpelledBy (h : k.IsSpelledBy digits) (hx : x = 'x' ∨ x = 'X')
    (hliteral : r.hasLiteral (String.ofList ('0' :: x :: digits)) = false) :
    r.lookup (String.ofList ('0' :: x :: digits)) =
      (r.resolve k).getD (String.ofList ('0' :: 'x' :: digits.map Char.toUpper)) := by
  have hparse : Key.parseText? ('0' :: 'x' :: digits.map Char.toUpper) = some k :=
    h.toUpper.parseText?_of_dropMark rfl
  rw [lookup_of_not_hasLiteral hliteral, String.toList_ofList, canonicalize_of_mark hx,
    Text.upper_of_isSome h.isSome, answer, hparse, Option.bind_some]
  cases r.resolve k <;> rfl

/-- Looking up twice is looking up once, and a key in digits behind a mark that is no literal itself
is looked up as the key. -/
theorem lookup_ofChanges (cs : List Change) :
    let r := ofChanges cs
    (∀ text, r.lookup (r.lookup text) = r.lookup text) ∧
      ∀ (k : Key) (digits : List Char) (x : Char), k.IsSpelledBy digits → x = 'x' ∨ x = 'X' →
        r.hasLiteral (String.ofList ('0' :: x :: digits)) = false →
        r.lookup (String.ofList ('0' :: x :: digits)) =
          (r.resolve k).getD (String.ofList ('0' :: 'x' :: digits.map Char.toUpper)) := by
  intro r
  exact ⟨(consistent_ofChanges cs).lookup_lookup, fun _ _ _ => lookup_of_isSpelledBy⟩

theorem lookup_ofChanges_beef : let r := ofChanges [.pair 0xBEEF "0XBEEF"]
    r.lookup "0xbEEf" = "0XBEEF" ∧ r.lookup "0XbeeF0" = "0xBEEF0" := by
  intro r
  obtain ⟨-, hdigits⟩ := lookup_ofChanges [.pair 0xBEEF "0XBEEF"]
  have hshort : Key.IsSpelledBy 0xBEEF ['b', 'E', 'E', 'f'] :=
    ⟨by simp, by simp, [11, 14, 14, 15], .cons rfl (.cons rfl (.cons rfl (.cons rfl .nil))), rfl⟩
  have hlong : Key.IsSpelledBy 0xBEEF0 ['b', 'e', 'e', 'F', '0'] :=
    ⟨by simp, by simp, [11, 14, 14, 15, 0],
      .cons rfl (.cons rfl (.cons rfl (.cons rfl (.cons rfl .nil)))), rfl⟩
  exact ⟨hdigits _ _ 'x' hshort (.inl rfl) (by decide),
    hdigits _ _ 'X' hlong (.inr rfl) (by decide)⟩

end Registry

end QbCodec
