import QbCodec.Proofs.Ieee.Nearest
import QbCodec.Proofs.Source.BlankSeams
import QbCodec.Proofs.Source.Ink

namespace QbCodec.Source

structure Numeral where
  negative : Bool
  whole : List Char
  fraction : Option (List Char)
  whole_digits : whole.all Text.isDigit
  fraction_digits : (fraction.getD []).all Text.isDigit
  ne_nil : whole ++ fraction.getD [] ≠ []

namespace Numeral

variable {n : Numeral}

def text (n : Numeral) : List Char :=
  (if n.negative then ['-'] else []) ++
    match n.fraction with
    | none => n.whole
    | some fraction => n.whole ++ '.' :: fraction

def digits (n : Numeral) : List Char := n.whole ++ n.fraction.getD []

def scale (n : Numeral) : Nat := 10 ^ (n.fraction.getD []).length

theorem scale_pos (n : Numeral) : 0 < n.scale := Nat.pow_pos (by omega)

def magnitude (n : Numeral) : ℚ := (Text.decimalValue n.digits : ℚ) / (n.scale : ℚ)

def value (n : Numeral) : ℚ := Single.signed n.negative n.magnitude

inductive Reads (n : Numeral) : Token → Prop
  | int (hpoint : n.fraction = none) {v : Int32} (h : (v.toInt : ℚ) = n.value) : Reads n (.int v)
  | name (hpoint : n.fraction = none) (h : n.value < -(2 : ℚ) ^ 31 ∨ (2 : ℚ) ^ 31 ≤ n.value) :
      Reads n (.name (String.ofList n.text))
  | float (hpoint : n.fraction ≠ none) (h : n.magnitude < Single.limit) {v : Single}
      (hnearest : v.IsNearest n.value) (hsign : v.isNegative = n.negative) : Reads n (.float v)
  | infinite (hpoint : n.fraction ≠ none) (h : Single.limit ≤ n.magnitude) :
      Reads n (.float (Single.infinity n.negative))

theorem text_of_whole (h : n.fraction = none) :
    n.text = (if n.negative then ['-'] else []) ++ n.whole := by
  rw [text, h]

theorem text_of_point {fraction : List Char} (h : n.fraction = some fraction) :
    n.text = (if n.negative then ['-'] else []) ++ (n.whole ++ '.' :: fraction) := by
  rw [text, h]

theorem all_isDigit_fraction (n : Numeral) {fraction : List Char} (h : n.fraction = some fraction) :
    fraction.all Text.isDigit := by
  simpa [h] using n.fraction_digits

theorem whole_append_ne_nil (n : Numeral) {fraction : List Char} (h : n.fraction = some fraction) :
    n.whole ++ fraction ≠ [] := by
  simpa [h] using n.ne_nil

theorem whole_ne_nil (h : n.fraction = none) : n.whole ≠ [] := by
  have hne := n.ne_nil
  rw [h] at hne
  simpa using hne

theorem text_ne_nil (n : Numeral) : n.text ≠ [] := by
  cases hpoint : n.fraction with
  | none => simp [text_of_whole hpoint, whole_ne_nil hpoint]
  | some fraction => simp [text_of_point hpoint]

theorem all_isIntChar_text (h : n.fraction = none) : n.text.all isIntChar := by
  rw [text_of_whole h]
  exact Scanner.all_isIntChar_signed n.whole_digits

def wholeValue (n : Numeral) : Int :=
  if n.negative then -(Text.decimalValue n.whole : Int) else Text.decimalValue n.whole

theorem value_of_whole (h : n.fraction = none) : n.value = (n.wholeValue : ℚ) := by
  have hscale : n.scale = 1 := by
    rw [scale, h]
    rfl
  have hdigits : n.digits = n.whole := by
    rw [digits, h]
    exact List.append_nil _
  unfold value magnitude wholeValue Single.signed
  rw [hscale, hdigits]
  split <;> simp

theorem number?_of_whole (h : n.fraction = none) : number? n.text =
    if -2 ^ 31 ≤ n.wholeValue ∧ n.wholeValue < 2 ^ 31 then some (.int (Int32.ofInt n.wholeValue))
    else none := by
  have hinteger : Text.integer? n.text = some n.wholeValue := by
    rw [text_of_whole h]
    exact Text.integer?_signed n.negative (whole_ne_nil h) n.whole_digits
  rw [Scanner.number?_of_int (all_isIntChar_text h), int32?, hinteger]
  dsimp only
  split <;> rfl

theorem number?_of_fraction {fraction : List Char} (h : n.fraction = some fraction) :
    number? n.text =
      some (.float (Single.ofFraction n.negative (Text.decimalValue n.digits) n.scale)) := by
  have hfraction := n.all_isDigit_fraction h
  rw [text_of_point h, Scanner.number?_of_point n.negative n.whole_digits hfraction,
    Single.parse?_eq n.negative (n.whole_append_ne_nil h) n.whole_digits hfraction, digits, scale, h]
  rfl

def token (n : Numeral) : Token := (number? n.text).getD (.name (String.ofList n.text))

theorem isScriptBracket_token (n : Numeral) : isScriptBracket n.token = false := by
  unfold token
  cases hnumber : number? n.text with
  | none => rfl
  | some token => exact Scanner.isScriptBracket_of_number? hnumber

theorem reads_of_whole (h : n.fraction = none) : n.Reads n.token := by
  rw [token, number?_of_whole h]
  by_cases hrange : -2 ^ 31 ≤ n.wholeValue ∧ n.wholeValue < 2 ^ 31
  · rw [if_pos hrange]
    refine .int h ?_
    rw [Int32.toInt_ofInt_of_le hrange.1 hrange.2, value_of_whole h]
  · rw [if_neg hrange]
    refine .name h ?_
    rw [value_of_whole h]
    have hout : n.wholeValue < -2 ^ 31 ∨ 2 ^ 31 ≤ n.wholeValue := by omega
    exact_mod_cast hout

theorem reads_of_fraction {fraction : List Char} (h : n.fraction = some fraction) :
    n.Reads n.token := by
  have hpoint : n.fraction ≠ none := by simp [h]
  have hfinite :=
    Single.isFinite_ofFraction_iff_lt (a := Text.decimalValue n.digits) n.negative n.scale_pos
  rw [token, number?_of_fraction h, Option.getD_some]
  by_cases hlimit : n.magnitude < Single.limit
  · exact .float hpoint hlimit (Single.isNearest_ofFraction n.negative n.scale_pos (hfinite.mpr hlimit))
      (Single.isNegative_ofFraction _ _ _)
  · have hlarge : (Single.ofFraction n.negative (Text.decimalValue n.digits) n.scale).isFinite =
        false := by
      rw [← Bool.not_eq_true, hfinite]
      exact hlimit
    rw [Single.ofFraction_eq_infinity hlarge]
    exact .infinite hpoint (not_lt.mp hlimit)

theorem reads_token (n : Numeral) : n.Reads n.token := by
  cases h : n.fraction with
  | none => exact reads_of_whole h
  | some fraction => exact reads_of_fraction h

theorem all_isFloatChar_text (n : Numeral) : n.text.all isFloatChar := by
  cases h : n.fraction with
  | none => exact Scanner.all_isFloatChar_of_int (all_isIntChar_text h)
  | some fraction =>
    rw [text_of_point h]
    exact Scanner.all_isFloatChar_pointed _ n.whole_digits (n.all_isDigit_fraction h)

theorem not_mem_text (n : Numeral) {c : Char} (hc : isFloatChar c = false) : c ∉ n.text := by
  intro hmem
  rw [List.all_eq_true.mp n.all_isFloatChar_text c hmem] at hc
  cases hc

theorem not_blank (n : Numeral) : n.text.all Text.isBlank = false := by
  have hfloat := n.all_isFloatChar_text
  obtain ⟨c, cs, htext⟩ := List.exists_cons_of_ne_nil n.text_ne_nil
  rw [htext, List.all_cons, Bool.and_eq_true] at hfloat
  rw [htext, List.all_cons, not_blank_of_isFloatChar hfloat.1, Bool.false_and]

section

open Scanner

variable {s t : Scanner} {rest : List Char}

theorem complete_text (n : Numeral) (offset total : Nat) (rest : List Char) (hs : s.Settled) :
    ∃ start offset', s.complete offset (n.text ++ rest) total =
      ({ s with held := n.text.reverse, start } : Scanner).complete offset' rest total := by
  cases h : n.fraction with
  | none =>
    rw [text_of_whole h, List.append_assoc]
    exact complete_whole offset total rest n.negative hs (whole_ne_nil h) n.whole_digits
  | some fraction =>
    rw [text_of_point h]
    simpa using complete_decimal offset total rest n.negative hs (n.whole_append_ne_nil h)
      n.whole_digits (n.all_isDigit_fraction h)

theorem word_of_whole (h : n.fraction = none) : word n.text = .name (String.ofList n.text) := by
  have hopened : isOpened n.text = false := isOpened_of_not_mem (n.not_mem_text (by decide))
  obtain ⟨c, cs, htext⟩ := List.exists_cons_of_ne_nil n.text_ne_nil
  have hint := all_isIntChar_text h
  rw [htext, List.all_cons, Bool.and_eq_true] at hint
  unfold word
  rw [hopened, htext, ofWord?_of_isIntChar hint.1, Bool.and_false, Bool.false_and]
  rfl

theorem exists_flush (n : Numeral) (hmode : t.mode = .code) (hheld : t.held = n.text.reverse)
    (hdone : t.done = s.done) (hscripts : t.scripts = s.scripts) :
    ∃ u, t.flush = .ok u ∧ Takes s n.token u := by
  cases hnumber : number? n.text with
  | some token =>
    rw [Numeral.token, hnumber]
    exact exists_flush_number hmode hheld n.text_ne_nil hdone hscripts hnumber
      (isScriptBracket_of_number? hnumber)
  | none =>
    have hpoint : n.fraction = none := by
      cases h : n.fraction with
      | none => rfl
      | some fraction =>
        rw [number?_of_fraction h] at hnumber
        cases hnumber
    rw [Numeral.token, hnumber, Option.getD_none, ← word_of_whole hpoint,
      flush_unread hheld n.text_ne_nil hnumber (isOpened_of_not_mem (n.not_mem_text (by decide)))
        (isClosed_of_not_mem (n.not_mem_text (by decide)))]
    apply exists_pushWord (t := { t with held := [] }) ⟨hmode, rfl⟩ hdone hscripts
    rw [word_of_whole hpoint]
    rfl

theorem scans (n : Numeral) (offset total : Nat) (hs : s.Settled)
    (hrest : rest.head?.all isSkipped) : Scans s offset total n.token n.text rest := by
  obtain ⟨start, offset', hheld⟩ := n.complete_text offset total rest hs
  obtain ⟨t, hflush, htakes⟩ := n.exists_flush (s := s)
    (t := { s with held := n.text.reverse, start }) hs.mode rfl rfl rfl
  exact ⟨t, offset', htakes,
    hheld.trans (complete_flush_skipped hs.mode hflush htakes.settled hrest)⟩

theorem scan_eq (n : Numeral) (front back : List Char) :
    scan (front ++ (n.text ++ back)) =
      Scanner.complete {} 0 (front ++ (n.text ++ back))
        (byteCount (front ++ (n.text ++ back))) := by
  apply scan_of_not_blank
  rw [List.all_append, List.all_append, n.not_blank, Bool.false_and, Bool.and_false]

theorem scan_behind (n : Numeral) {front back : List Char} (hfront : front.getLast?.all isSkipped)
    (hback : back.head?.all isSkipped) (hrun : Scanner.run {} 0 front = .ok s)
    (hmode : s.mode = .code) :
    ∃ t offset', Takes s n.token t ∧ scan (front ++ (n.text ++ back)) =
      t.complete offset' back (byteCount (front ++ (n.text ++ back))) := by
  obtain ⟨hs, hrest⟩ := settled_behind hfront hrun hmode
  rw [scan_eq, hrest]
  exact n.scans _ _ hs hback

theorem scan_between (n : Numeral) {lead trail : List Char} (hlead : lead.all isSkipped)
    (htrail : trail.all isSkipped) :
    (scan (lead ++ (n.text ++ trail))).map tokens =
      .ok (List.replicate (lead.count '\n') (.mark .newLine) ++
        n.token :: List.replicate (trail.count '\n') (.mark .newLine)) := by
  have hfront : lead.getLast?.all isSkipped := by
    rw [Option.all_eq_true]
    exact fun c hc => List.all_eq_true.mp hlead c (List.mem_of_getLast? hc)
  have hback : trail.head?.all isSkipped := by
    rw [Option.all_eq_true]
    exact fun c hc => List.all_eq_true.mp htrail c (List.mem_of_mem_head? hc)
  obtain ⟨s, ls, hrun, hs, hscripts, hdone, hls⟩ := run_skipped settled_empty 0 hlead
  obtain ⟨t, offset', htakes, hscan⟩ := n.scan_behind hfront hback hrun hs.mode
  have hclosed : t.scripts = [] := by
    have hstep := htakes.scripts
    rw [scriptStep_of_not_bracket _ n.isScriptBracket_token, hscripts] at hstep
    exact List.length_eq_zero_iff.mp (Option.some.inj hstep).symm
  obtain ⟨ms, hms, htokens⟩ := complete_skipped htakes.settled hclosed offset'
    (byteCount (lead ++ (n.text ++ trail))) htrail
  rw [hscan, hms, Except.map, tokens_append, htokens, tokens, List.map_reverse, ← tokens,
    htakes.done, hdone]
  simp [hls]

/-- A numeral between blanks is one token, the same wherever it stands. The token is that of the
number, of an infinity beyond the limit of singles, or of a name where a whole number does not fit
into 32 bits. -/
theorem exists_reads (n : Numeral) :
    ∃ token, n.Reads token ∧
      (∀ lead trail : List Char, lead.all isSkipped → trail.all isSkipped →
        (scan (lead ++ (n.text ++ trail))).map tokens =
          .ok (List.replicate (lead.count '\n') (.mark .newLine) ++
            token :: List.replicate (trail.count '\n') (.mark .newLine))) ∧
      ∀ (front back : List Char) (s : Scanner), front.getLast?.all isSkipped →
        back.head?.all isSkipped → Scanner.run {} 0 front = .ok s → s.mode = .code →
          ∃ t offset, Takes s token t ∧ scan (front ++ (n.text ++ back)) =
            t.complete offset back (byteCount (front ++ (n.text ++ back))) :=
  ⟨n.token, n.reads_token, fun _ _ hlead htrail => n.scan_between hlead htrail,
    fun _ _ _ hfront hback hrun hmode => n.scan_behind hfront hback hrun hmode⟩

theorem exists_reads_half :
    ∃ token, (Numeral.mk true [] (some ['5']) (by decide) (by decide) (by decide)).Reads token ∧
      (scan [' ', '-', '.', '5', '\n']).map tokens = .ok [token, .mark .newLine] ∧
      ∃ t offset, Takes { done := [⟨.mark .openParen, 0⟩] } token t ∧
        scan ['(', ' ', '-', '.', '5', ' ', ')'] = t.complete offset [' ', ')'] 7 := by
  obtain ⟨token, hreads, hbetween, hbehind⟩ :=
    exists_reads ⟨true, [], some ['5'], by decide, by decide, by decide⟩
  exact ⟨token, hreads, hbetween [' '] ['\n'] (by decide) (by decide),
    hbehind ['(', ' '] [' ', ')'] { done := [⟨.mark .openParen, 0⟩] } (by decide) (by decide) rfl
      rfl⟩

theorem scan_limits :
    (scan " 2147483648 ".toList).toOption.map tokens = some [.name "2147483648"] ∧
      (scan " 340282356779733661637539395458142568448.0 ".toList).toOption.map tokens =
        some [.float ⟨0x7F800000⟩] ∧
      Single.isFinite ⟨0x7F800000⟩ = false := by
  decide +kernel

end

end Numeral

end QbCodec.Source
