import Mathlib.Data.List.Chain
import QbCodec.Proofs.Source.Scanning

namespace QbCodec

def Token.isNumber : Token → Bool
  | int _ | float _ => true
  | _ => false

namespace Source

variable {t : Token} {c : Char}

theorem not_blank_of_isFloatChar (h : isFloatChar c) : Text.isBlank c = false := by
  simp only [isFloatChar, isIntChar, Bool.or_eq_true, beq_iff_eq] at h
  rcases h with rfl | rfl | h
  · decide
  · decide
  · exact not_blank_of_isNameChar (isNameChar_of_isDigit h)

theorem all_isIntChar_signedNumeral (v : Int32) : (Text.signedNumeral v.toInt).all isIntChar := by
  rw [Scanner.signedNumeral_eq]
  exact Scanner.all_isIntChar_signed (Text.all_isDigit_numeral _)

theorem signedNumeral_ne_nil (v : Int32) : Text.signedNumeral v.toInt ≠ [] := by
  rw [Scanner.signedNumeral_eq]
  simp [Text.numeral_ne_nil]

theorem sourceText_chars {v : Single} (h : v.isFinite) :
    v.sourceText.all isFloatChar ∧ ∃ d cs, v.sourceText = d :: cs ∧ isIntChar d := by
  obtain ⟨whole, fraction, htext, hne, -, hwhole, hfraction, -⟩ := Single.sourceText_spec h
  rw [Scanner.sourceText_signed htext]
  refine ⟨Scanner.all_isFloatChar_pointed _ hwhole hfraction, ?_⟩
  have hsigned : (if v.isNegative then ['-'] else []) ++ whole ≠ [] := by simp [hne]
  obtain ⟨d, ds, hd⟩ := List.exists_cons_of_ne_nil hsigned
  refine ⟨d, ds ++ '.' :: fraction, ?_, ?_⟩
  · rw [← List.append_assoc, hd]
    rfl
  · have hint : ((if v.isNegative then ['-'] else []) ++ whole).all isIntChar :=
      Scanner.all_isIntChar_signed hwhole
    rw [hd, List.all_cons, Bool.and_eq_true] at hint
    exact hint.1

theorem IsWord.ne_nil {text : String} (h : IsWord text) : text.toList ≠ [] := by
  intro hnil
  have := h.not_number
  rw [hnil] at this
  cases this

theorem first_of_plain {cs : List Char} (hcs : t.spelling = c :: cs)
    (hc : Text.isBlank c = false ∧ c ≠ '.' ∧ Text.isDigit c = false) :
    ∃ c cs, t.spelling = c :: cs ∧ Text.isBlank c = false ∧ (c = '.' → t = .mark .dot) ∧
      (Text.isDigit c → t.isNumber ∨ ∃ text, t = .name text) := by
  refine ⟨c, cs, hcs, hc.1, fun he => absurd he hc.2.1, ?_⟩
  rw [hc.2.2]
  exact fun h => absurd h (by decide)

theorem spelling_first (h : Legible t) (hne : t ≠ .mark .newLine) :
    ∃ c cs, t.spelling = c :: cs ∧ Text.isBlank c = false ∧ (c = '.' → t = .mark .dot) ∧
      (Text.isDigit c → t.isNumber ∨ ∃ text, t = .name text) := by
  cases t with
  | int v =>
    obtain ⟨c, cs, hcs⟩ := List.exists_cons_of_ne_nil (signedNumeral_ne_nil v)
    have hc := all_isIntChar_signedNumeral v
    rw [hcs, List.all_cons, Bool.and_eq_true] at hc
    refine ⟨c, cs, hcs, not_blank_of_isFloatChar (Scanner.isFloatChar_of_isIntChar hc.1), ?_,
      fun _ => .inl rfl⟩
    rintro rfl
    exact absurd hc.1 (by decide)
  | float v =>
    obtain ⟨-, d, cs, htext, hd⟩ := sourceText_chars h
    refine ⟨d, cs, htext, not_blank_of_isFloatChar (Scanner.isFloatChar_of_isIntChar hd), ?_,
      fun _ => .inl rfl⟩
    rintro rfl
    exact absurd hd (by decide)
  | name text =>
    obtain ⟨c, cs, hcs⟩ := List.exists_cons_of_ne_nil h.ne_nil
    have hc := h.chars
    rw [hcs, List.all_cons, Bool.and_eq_true] at hc
    refine ⟨c, cs, hcs, not_blank_of_isNameChar hc.1, ?_, fun _ => .inr ⟨text, rfl⟩⟩
    rintro rfl
    exact absurd hc.1 (by decide)
  | string text => exact first_of_plain rfl (by decide)
  | wideString text => exact first_of_plain rfl (by decide)
  | argument text => exact first_of_plain rfl (by decide)
  | rawKey k => exact first_of_plain rfl (by decide)
  | keyword k => cases k <;> exact first_of_plain rfl (by decide)
  | mark m =>
    by_cases hdot : m = .dot
    · subst hdot
      exact ⟨'.', [], rfl, by decide, fun _ => rfl, fun h => absurd h (by decide)⟩
    · cases m <;> first
        | exact absurd rfl hne
        | exact absurd rfl hdot
        | exact first_of_plain rfl (by decide)

theorem spelling_ne_nil (h : Legible t) : t.spelling ≠ [] := by
  by_cases hne : t = .mark .newLine
  · subst hne
    exact List.cons_ne_nil _ _
  · obtain ⟨c, cs, hcs, -⟩ := spelling_first h hne
    rw [hcs]
    exact List.cons_ne_nil _ _

theorem spelling_last (h : Legible t) (hne : t ≠ .mark .newLine)
    (hlast : t.spelling.getLast? = some c) : Text.isBlank c = false := by
  have hmem : c ∈ t.spelling := List.mem_of_getLast? hlast
  cases t with
  | int v =>
    have hall := List.all_eq_true.mp (all_isIntChar_signedNumeral v) c hmem
    exact not_blank_of_isFloatChar (Scanner.isFloatChar_of_isIntChar hall)
  | float v => exact not_blank_of_isFloatChar (List.all_eq_true.mp (sourceText_chars h).1 c hmem)
  | name text => exact not_blank_of_isNameChar (List.all_eq_true.mp h.chars c hmem)
  | string text =>
    rw [Token.spelling, List.getLast?_concat] at hlast
    cases hlast
    decide
  | wideString text =>
    rw [Token.spelling, List.getLast?_concat] at hlast
    cases hlast
    decide
  | argument text =>
    rw [Token.spelling, List.getLast?_concat] at hlast
    cases hlast
    decide
  | rawKey k =>
    rw [Token.spelling, rawKeyText, List.getLast?_concat] at hlast
    cases hlast
    decide
  | keyword k =>
    have hall : k.spelling.all (fun d => !Text.isBlank d) := by cases k <;> decide
    simpa using List.all_eq_true.mp hall c hmem
  | mark m =>
    have hall : m = .newLine ∨ m.spelling.all (fun d => !Text.isBlank d) := by
      cases m <;> decide
    have hrest := hall.resolve_left fun he => hne (by rw [he])
    simpa using List.all_eq_true.mp hrest c hmem

theorem exists_concat_spelling (h : Legible t) (hne : t ≠ .mark .newLine) :
    ∃ cs c, t.spelling = cs ++ [c] ∧ Text.isBlank c = false := by
  obtain ⟨cs, c, hcs⟩ := List.eq_nil_or_concat t.spelling |>.resolve_left (spelling_ne_nil h)
  rw [List.concat_eq_append] at hcs
  refine ⟨cs, c, hcs, spelling_last h hne ?_⟩
  rw [hcs, List.getLast?_concat]

inductive Ink
  | blank (c : Char)
  | token (t : Token)

namespace Ink

def text : Ink → List Char
  | blank c => [c]
  | token t => t.spelling

def token? : Ink → Option Token
  | blank _ => none
  | token t => some t

def IsSound : Ink → Prop
  | blank c => c = ' ' ∨ c = '\t'
  | token t => Legible t

def Precedes : Ink → Ink → Prop
  | blank _, _ => True
  | token t, i => ∀ c, i.text.head? = some c → t.allows c

theorem text_ne_nil {i : Ink} (h : i.IsSound) : i.text ≠ [] := by
  cases i with
  | blank c => exact List.cons_ne_nil _ _
  | token t => exact spelling_ne_nil h

end Ink

def inkText (is : List Ink) : List Char := is.flatMap Ink.text

def inkTokens (is : List Ink) : List Token := is.filterMap Ink.token?

@[simp] theorem inkText_nil : inkText [] = [] := rfl

@[simp] theorem inkText_cons (i : Ink) (is : List Ink) : inkText (i :: is) = i.text ++ inkText is :=
  rfl

@[simp] theorem inkText_append (is js : List Ink) :
    inkText (is ++ js) = inkText is ++ inkText js := List.flatMap_append

@[simp] theorem inkTokens_nil : inkTokens [] = [] := rfl

@[simp] theorem inkTokens_blank (c : Char) (is : List Ink) :
    inkTokens (.blank c :: is) = inkTokens is := rfl

@[simp] theorem inkTokens_token (t : Token) (is : List Ink) :
    inkTokens (.token t :: is) = t :: inkTokens is := rfl

@[simp] theorem inkTokens_append (is js : List Ink) :
    inkTokens (is ++ js) = inkTokens is ++ inkTokens js := List.filterMap_append

structure Readable (is : List Ink) : Prop where
  sound : ∀ i ∈ is, i.IsSound
  chain : is.IsChain Ink.Precedes

theorem readable_nil : Readable [] := ⟨fun _ hi => absurd hi List.not_mem_nil, .nil⟩

theorem Readable.of_cons {i : Ink} {is : List Ink} (h : Readable (i :: is)) : Readable is :=
  ⟨fun j hj => h.sound j (List.mem_cons_of_mem i hj), h.chain.tail⟩

theorem Readable.of_append_left {is js : List Ink} (h : Readable (is ++ js)) : Readable is :=
  ⟨fun i hi => h.sound i (List.mem_append_left js hi), h.chain.left_of_append⟩

theorem Readable.append {is js : List Ink} (hi : Readable is) (hj : Readable js)
    (hbetween : ∀ i, is.getLast? = some i → ∀ j, js.head? = some j → i.Precedes j) :
    Readable (is ++ js) := by
  constructor
  · intro i hmem
    rcases List.mem_append.mp hmem with hmem | hmem
    · exact hi.sound i hmem
    · exact hj.sound i hmem
  · rw [List.isChain_append]
    exact ⟨hi.chain, hj.chain, hbetween⟩

theorem Readable.allows {is : List Ink} (h : Readable (.token t :: is))
    (hc : (inkText is).head? = some c) : t.allows c := by
  cases is with
  | nil => cases hc
  | cons i is =>
    have hsound : i.IsSound := h.sound i (List.mem_cons_of_mem _ List.mem_cons_self)
    obtain ⟨d, ds, hd⟩ := List.exists_cons_of_ne_nil (Ink.text_ne_nil hsound)
    rw [inkText_cons, hd] at hc
    cases hc
    have hprecedes := (List.isChain_cons_cons.mp h.chain).1
    exact hprecedes c (by rw [hd]; rfl)

theorem Readable.not_digit {is : List Ink} (h : Readable is)
    (hc : (inkText is).take 2 = ['.', c]) : Text.isDigit c = false := by
  cases is with
  | nil => cases hc
  | cons i is =>
    have hsound : i.IsSound := h.sound i List.mem_cons_self
    cases i with
    | blank d =>
      rcases hsound with rfl | rfl
      · cases hc
      · cases hc
    | token t =>
      by_cases hne : t = .mark .newLine
      · subst hne
        cases hc
      · obtain ⟨d, ds, hd, -, hpoint, -⟩ := spelling_first hsound hne
        rw [inkText_cons, Ink.text, hd] at hc
        have hd' : d = '.' := (List.cons.inj hc).1
        have ht := hpoint hd'
        subst ht
        cases hd
        have hnext : (inkText is).head? = some c := by
          cases htext : inkText is with
          | nil =>
            rw [htext] at hc
            cases hc
          | cons d ds =>
            rw [htext] at hc
            cases hc
            rfl
        simpa [Token.allows] using h.allows hnext

namespace Scanner

variable {s : Scanner}

theorem step_blank (hs : s.Settled) (offset : Nat) (hc : c = ' ' ∨ c = '\t') (next : Option Char) :
    s.step offset c next = .ok (s, false) := by
  rw [step, hs.mode]
  rcases hc with rfl | rfl <;> simp [codeStep, hs.flush, one, Except.map]

theorem complete_inks (offset total : Nat) {is : List Ink} (hs : s.Settled) (h : Readable is)
    {n : Nat} (hopen : openScripts s.scripts.length (inkTokens is) = some n) :
    ∃ t : Scanner, ∃ offset', t.Settled ∧
      tokens t.done = (inkTokens is).reverse ++ tokens s.done ∧ t.scripts.length = n ∧
      s.complete offset (inkText is) total = t.complete offset' [] total := by
  -- Behind each token nothing is held, and as many scripts are open as the tokens so far say.
  induction is generalizing s offset with
  | nil =>
    cases hopen
    exact ⟨s, offset, hs, rfl, rfl, rfl⟩
  | cons i is ih =>
    have hrest : Readable is := h.of_cons
    have hsound : i.IsSound := h.sound i List.mem_cons_self
    cases i with
    | blank c =>
      have hstep := step_blank hs offset hsound (inkText is).head?
      obtain ⟨t, offset', ht, hdone, hscripts, hcomplete⟩ := ih (offset + c.utf8Size) hs hrest hopen
      refine ⟨t, offset', ht, hdone, hscripts, ?_⟩
      exact (complete_one hstep).trans hcomplete
    | token t =>
      rw [inkTokens_token, openScripts_cons] at hopen
      obtain ⟨m, hm, hopen⟩ := Option.bind_eq_some_iff.mp hopen
      obtain ⟨u, offset₁, htakes, h₁⟩ := scans_token offset total (inkText is) hs hsound hm
        (fun c hc => h.allows hc) (fun d hd => hrest.not_digit hd)
      have hlength : u.scripts.length = m := Option.some.inj (htakes.scripts.symm.trans hm)
      rw [← hlength] at hopen
      obtain ⟨v, offset₂, hv, hdone, hscripts, h₂⟩ := ih offset₁ htakes.settled hrest hopen
      refine ⟨v, offset₂, hv, ?_, hscripts, h₁.trans h₂⟩
      rw [hdone, htakes.done]
      simp

end Scanner

theorem scan_inks {is : List Ink} (h : Readable is) (hopen : openScripts 0 (inkTokens is) = some 0)
    (hblank : (inkText is).all Text.isBlank → is = []) :
    ∃ ls, scan (inkText is) = .ok ls ∧ tokens ls = inkTokens is := by
  unfold scan
  split
  · rename_i hall
    rw [hblank hall]
    exact ⟨[], rfl, rfl⟩
  · obtain ⟨t, offset', ht, hdone, hscripts, hcomplete⟩ :=
      Scanner.complete_inks (s := {}) 0 (byteCount (inkText is)) ⟨rfl, rfl⟩ h hopen
    have hnil : t.scripts = [] := List.length_eq_zero_iff.mp hscripts
    have hclose : Scanner.complete {} 0 (inkText is) (byteCount (inkText is)) =
        .ok t.done.reverse := by
      rw [hcomplete, ht.complete_nil hnil]
    refine ⟨t.done.reverse, hclose, ?_⟩
    rw [tokens, List.map_reverse, ← tokens, hdone]
    simp

end Source

end QbCodec
