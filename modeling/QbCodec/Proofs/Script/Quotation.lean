import QbCodec.Proofs.Script.Rereading

namespace QbCodec

open Source Layout

namespace Script

variable {text : String}

def textBody (wide : Bool) (text : String) : List Instruction :=
  [.text wide (Statement.stored text)]

def stringToken (wide : Bool) (text : String) : Token :=
  if wide then .wideString text else .string text

theorem body_stringToken (game : Game) (wide : Bool) (text : String) :
    Statement.Body game 0 [stringToken wide text] [] (textBody wide text) := by
  cases wide with
  | false => exact .string text .nil
  | true => exact .wideString text .nil

theorem wellFormed_textBody (wide : Bool) (hsize : text.utf8ByteSize + 1 < 2 ^ 32) :
    ∀ i ∈ textBody wide text, i.WellFormed ∧ i ≠ .bare .endScript := by
  intro i hi
  rw [List.mem_singleton.mp hi]
  refine ⟨?_, by simp⟩
  have hstored : (Statement.stored text).utf8ByteSize = text.utf8ByteSize + 1 :=
    String.utf8ByteSize_push
  change (Statement.stored text).utf8ByteSize < 2 ^ 32
  rwa [hstored]

theorem render_textBody (r : Registry) (indent : List Char) (wide : Bool)
    (hnul : text.toList.getLast? ≠ some '\x00') :
    render r indent (textBody wide text) = (stringToken wide text).spelling := by
  have hactions : allActions r false (textBody wide text) =
      [.write .word (stringToken wide text).spelling] := by
    rw [stringToken, ← stringText_stored hnul]
    rfl
  cases wide with
  | false => exact render_of_write hactions List.getLast?_concat (by decide)
  | true => exact render_of_write hactions List.getLast?_concat (by decide)

open Scanner in
theorem scan_backslash (hlast : text.toList.getLast? = some '\\') :
    scan (Token.spelling (.string text)) = .error ⟨0, .unterminatedString false⟩ := by
  obtain ⟨front, hfront⟩ := List.getLast?_eq_some_iff.mp hlast
  have htext : Token.spelling (.string text) =
      '\'' :: (front.flatMap escapeChar ++ ['\\', '\'']) := by
    simp [Token.spelling, hfront, escapeChar]
  have hblank : (Token.spelling (.string text)).all Text.isBlank = false := by
    rw [htext, List.all_cons]
    rfl
  have hopen (next : Option Char) :
      ({} : Scanner).step 0 '\'' next = .ok ({ mode := .string false }, false) := rfl
  obtain ⟨offset, hheld⟩ := complete_escaped (s := { mode := .string false }) (0 + '\''.utf8Size)
    (byteCount (Token.spelling (.string text))) front ['\\', '\''] rfl (by simp)
  -- The backslash takes the closing apostrophe with it.
  have hescape : ({ mode := .string false, held := front.reverse ++ [] } : Scanner).step offset '\\'
      (some '\'') = .ok ({ mode := .string false, held := '\'' :: (front.reverse ++ []) }, true) :=
    rfl
  rw [scan_of_not_blank hblank]
  generalize byteCount (Token.spelling (.string text)) = total at hheld ⊢
  rw [htext, complete_one (hopen _)]
  refine hheld.trans ?_
  rw [complete_two hescape]
  rfl

/-- A string on one line, without quotation marks and zeros, is read back from its text if it is
wide. If it is narrow, it is read back exactly if it does not end in a backslash, and otherwise
the text has a string without an end. -/
theorem reread_string (htext : isStringText text) (hnul : '\x00' ∉ text.toList)
    (hsize : text.utf8ByteSize + 1 < 2 ^ 32) (r : Registry) (indent : List Char)
    (order : ByteOrder) (game : Game) (offset : Nat) :
    (∀ wide, Statement.readBody game 0 0 [⟨stringToken wide text, offset⟩] =
        ⟨[], .ok (textBody wide text)⟩) ∧
      reread r indent order (textBody true text) = .ok [.wideString text] ∧
      (reread r indent order (textBody false text) = .ok [.string text] ↔
        text.toList.getLast? ≠ some '\\') ∧
      (text.toList.getLast? = some '\\' →
        reread r indent order (textBody false text) = .error (.source (diagnose
          (Token.spelling (.string text)) 0 (Fault.unterminatedString false).reason))) := by
  have hend : text.toList.getLast? ≠ some '\x00' := fun he => hnul (List.mem_of_getLast? he)
  have hback (wide : Bool) (h : Legible (stringToken wide text)) :
      reread r indent order (textBody wide text) = .ok [stringToken wide text] := by
    obtain ⟨ls, hls, htokens⟩ := scan_spelling h (by cases wide <;> simp [stringToken])
      (by cases wide <;> rfl)
    rw [← render_textBody r indent wide hend] at hls
    rw [reread_of_scan order (wellFormed_textBody wide hsize) hls, htokens]
  have hopen (hlast : text.toList.getLast? = some '\\') :
      reread r indent order (textBody false text) = .error (.source (diagnose
        (Token.spelling (.string text)) 0 (Fault.unterminatedString false).reason)) := by
    have hrender := render_textBody r indent false hend
    have hstop : scan (render r indent (textBody false text)) =
        .error ⟨0, .unterminatedString false⟩ := by
      rw [hrender]
      exact scan_backslash hlast
    rw [reread_of_scan_error (wellFormed_textBody false hsize) hstop, hrender]
    rfl
  refine ⟨fun wide => (body_stringToken game wide text).readBody rfl, hback true htext, ?_, hopen⟩
  constructor
  · intro hreread hlast
    rw [hopen hlast] at hreread
    cases hreread
  · exact fun hlast => hback false ⟨htext, hlast⟩

theorem reread_string_backslash :
    reread {} [] .big (textBody true "a\\") = .ok [.wideString "a\\"] ∧
      reread {} [] .big (textBody false "a\\") ≠ .ok [.string "a\\"] := by
  have htext : isStringText "a\\" := by decide
  obtain ⟨-, hwide, hnarrow, -⟩ := reread_string htext (by decide) (by decide) {} [] .big .ghwt 0
  exact ⟨hwide, fun h => hnarrow.mp h (by decide)⟩

end Script

end QbCodec
