import Mathlib.Data.List.Induction
import QbCodec.Proofs.Source.Ink

namespace QbCodec

open Source

theorem exists_of_getLast? {is : List Ink} {i : Ink} (h : is.getLast? = some i) :
    ∃ js, is = js ++ [i] := List.getLast?_eq_some_iff.mp h

theorem exists_dropWhile (q : Char → Bool) {is : List Ink}
    (h : ∀ i ∈ is, i.text.all q ∨ ∃ cs c, i.text = cs ++ [c] ∧ q c = false) :
    ∃ front back, is = front ++ back ∧ (∀ i ∈ back, i.text.all q) ∧
      (inkText is).reverse.dropWhile q = (inkText front).reverse := by
  -- Parts are dropped from the end, so the induction takes the last part first.
  induction is using List.reverseRecOn with
  | nil => exact ⟨[], [], rfl, fun i hi => absurd hi List.not_mem_nil, rfl⟩
  | append_singleton is i ih =>
    have htext : (inkText (is ++ [i])).reverse = i.text.reverse ++ (inkText is).reverse := by simp
    rcases h i (by simp) with hall | ⟨cs, c, hi, hc⟩
    · obtain ⟨front, back, happend, hback, hdrop⟩ :=
        ih fun j hj => h j (List.mem_append_left _ hj)
      refine ⟨front, back ++ [i], by rw [happend, List.append_assoc], ?_, ?_⟩
      · intro j hj
        rcases List.mem_append.mp hj with hj | hj
        · exact hback j hj
        · rw [List.mem_singleton.mp hj]
          exact hall
      · rw [htext, List.dropWhile_append_of_pos, hdrop]
        intro c hc
        exact List.all_eq_true.mp hall c (List.mem_reverse.mp hc)
    · refine ⟨is ++ [i], [], by simp, fun j hj => absurd hj List.not_mem_nil, ?_⟩
      rw [htext, hi]
      simp [hc]

def Piece.isTight : Piece → Bool
  | .word | .closing | .blockClosing => false
  | _ => true

def Token.isSolid : Token → Bool
  | .mark m => !m.isSpaced && m != .newLine
  | _ => true

def Token.Separate (t u : Token) : Prop :=
  (t = .mark .dot → ∀ c, u.spelling.head? = some c → Text.isDigit c = false) ∧
    (u = .mark .dot → ∀ v, t ≠ .int v)

def Mark.piece : Mark → Piece
  | dot | colon => .joiner
  | comma => .separator
  | openParen | openBracket => .opening
  | closeParen | closeBracket => .closing
  | openBrace | inlinePackStruct => .blockOpening
  | closeBrace => .blockClosing
  | dollar => .binder
  | _ => .spaced

namespace Script

inductive Fragment : Piece → List Ink → Prop
  | word {t : Token} {is : List Ink} (hne : t ≠ .mark .newLine) (h : Readable (.token t :: is))
      (hlast : ∀ u, (Ink.token t :: is).getLast? = some (.token u) → u.isSolid) :
      Fragment .word (.token t :: is)
  | mark {m : Mark} (h : (Token.mark m).isSolid) : Fragment m.piece [.token (.mark m)]
  | spaced {m : Mark} (h : m.isSpaced) :
      Fragment .spaced [.blank ' ', .token (.mark m), .blank ' ']

def EndsAs : Option Piece → Ink → Prop
  | _, .blank _ => True
  | none, .token t => t = .mark .newLine
  | some q, .token t => t.isSolid ∧ (q.isTight → ∃ m, t = .mark m)

theorem allows_blank (t : Token) : t.allows ' ' := by
  cases t with
  | mark m => cases m <;> decide
  | _ => rfl

theorem allows_lineEnd (t : Token) : t.allows '\n' := by
  cases t with
  | mark m => cases m <;> decide
  | _ => rfl

theorem allows_of_mark {m : Mark} {c : Char} (h : (Token.mark m).isSolid)
    (hdot : m = .dot → Text.isDigit c = false) : (Token.mark m).allows c := by
  by_cases hm : m = .dot
  · subst hm
    simp [Token.allows, hdot rfl]
  · cases m <;> first | exact absurd rfl hm | exact absurd h (by decide) | rfl

theorem allows_of_solid {t : Token} {c : Char} (h : t.isSolid)
    (hc : c = ')' ∨ c = ']' ∨ c = ',' ∨ c = ':' ∨ c = '.' ∧ ∀ v, t ≠ .int v) : t.allows c := by
  cases t with
  | mark m =>
    apply allows_of_mark h
    intro _
    rcases hc with rfl | rfl | rfl | rfl | ⟨rfl, -⟩ <;> decide
  | int v =>
    rcases hc with rfl | rfl | rfl | rfl | ⟨-, hint⟩
    · rfl
    · rfl
    · rfl
    · rfl
    · exact absurd rfl (hint v)
  | _ => rcases hc with rfl | rfl | rfl | rfl | ⟨rfl, -⟩ <;> rfl

theorem isTight_of_apart {q p : Piece} (h : q.apart p = false) :
    q.isTight ∨ p = .closing ∨ p = .joiner ∨ p = .separator ∨ p = .spaced := by
  revert h
  cases q <;> cases p <;> decide

theorem closing_spelling {m : Mark}
    (h : m.piece = .closing ∨ m.piece = .joiner ∨ m.piece = .separator ∨ m.piece = .spaced)
    (hsolid : (Token.mark m).isSolid) {c : Char} (hc : m.spelling.head? = some c) :
    c = ')' ∨ c = ']' ∨ c = ',' ∨ c = ':' ∨ c = '.' ∧ m = .dot := by
  cases m <;> first
    | exact absurd hsolid (by decide)
    | exact absurd h (by decide)
    | (cases hc; decide)

theorem precedes_fragment {q p : Piece} {t : Token} {is : List Ink} {i : Ink}
    (ht : EndsAs (some q) (.token t)) (h : Fragment p is) (hi : is.head? = some i)
    (hapart : q.apart p = false) (hseparate : ∀ u, i = .token u → t.Separate u) :
    (Ink.token t).Precedes i := by
  intro c hc
  have of_tight (htight : q.isTight) (u : Token) (hu : i = .token u) : t.allows c := by
    obtain ⟨m, rfl⟩ := ht.2 htight
    subst hu
    apply allows_of_mark ht.1
    intro hdot
    exact (hseparate u rfl).1 (by rw [hdot]) c hc
  cases h with
  | @word u is hne h hlast =>
    cases hi
    rcases isTight_of_apart hapart with htight | hp | hp | hp | hp
    · exact of_tight htight u rfl
    · cases hp
    · cases hp
    · cases hp
    · cases hp
  | @mark m hm =>
    cases hi
    rcases isTight_of_apart hapart with htight | hp
    · exact of_tight htight _ rfl
    · apply allows_of_solid ht.1
      rcases closing_spelling hp hm hc with h | h | h | h | ⟨h, hdot⟩
      · exact .inl h
      · exact .inr (.inl h)
      · exact .inr (.inr (.inl h))
      · exact .inr (.inr (.inr (.inl h)))
      · exact .inr (.inr (.inr (.inr ⟨h, (hseparate _ rfl).2 (by rw [hdot])⟩)))
  | spaced hm =>
    cases hi
    cases hc
    exact allows_blank t

theorem readable_token {t : Token} (h : Legible t) : Readable [.token t] :=
  ⟨fun _ hi => List.mem_singleton.mp hi ▸ h, .singleton _⟩

theorem Fragment.readable {p : Piece} {is : List Ink} (h : Fragment p is) : Readable is := by
  cases h with
  | word _ h => exact h
  | mark _ => exact readable_token trivial
  | @spaced m hm =>
    constructor
    · simp [Ink.IsSound, Legible]
    · refine .cons_cons trivial (.cons_cons ?_ (.singleton _))
      intro c hc
      cases hc
      exact allows_blank _

theorem Fragment.endsAs {p : Piece} {is : List Ink} (h : Fragment p is) {i : Ink}
    (hi : is.getLast? = some i) : EndsAs (some p) i := by
  cases h with
  | word _ _ hlast =>
    cases i with
    | blank c => trivial
    | token u => exact ⟨hlast u hi, fun htight => absurd htight (by decide)⟩
  | mark hm =>
    cases hi
    exact ⟨hm, fun _ => ⟨_, rfl⟩⟩
  | spaced _ =>
    cases hi
    trivial

theorem Fragment.exists_getLast? {p : Piece} {is : List Ink} (h : Fragment p is) :
    ∃ i, is.getLast? = some i := by
  cases h with
  | word _ _ _ => exact ⟨_, List.getLast?_cons⟩
  | mark _ => exact ⟨_, rfl⟩
  | spaced _ => exact ⟨_, rfl⟩

theorem Fragment.trimmed {p : Piece} {is : List Ink} (h : Fragment p is) :
    ∃ js, Text.trimStart (inkText is) = inkText js ∧ Readable js ∧ inkTokens js = inkTokens is ∧
      js.getLast? = is.getLast? := by
  cases h with
  | @word t is hne h _ =>
    refine ⟨_, ?_, h, rfl, rfl⟩
    obtain ⟨c, cs, hcs, hblank, -⟩ := spelling_first (h.sound _ List.mem_cons_self) hne
    rw [inkText_cons, Ink.text, hcs]
    simp [Text.trimStart, hblank]
  | @mark m hm =>
    refine ⟨_, ?_, readable_token (t := .mark m) trivial, rfl, rfl⟩
    cases m <;> first | exact absurd hm (by decide) | decide
  | @spaced m hm =>
    have hreadable := (Fragment.spaced hm).readable.of_cons
    refine ⟨_, ?_, hreadable, rfl, rfl⟩
    cases m <;> first | exact absurd hm (by decide) | decide

end Script

namespace Layout

open Script

structure Inked (l : Layout) (is : List Ink) : Prop where
  written : l.written = (inkText is).reverse
  readable : Readable is
  ending : ∀ i, is.getLast? = some i → EndsAs l.previous i
  lineStart : l.atLineStart → l.previous = none

variable {l : Layout} {is : List Ink} {indent : List Char}

theorem inked_empty : Inked {} [] :=
  ⟨rfl, readable_nil, fun _ hi => (by cases hi), fun h => (by cases h)⟩

theorem Inked.of_eq {m : Layout} (h : Inked l is) (hwritten : m.written = l.written)
    (hprevious : m.previous = l.previous) (hstart : m.atLineStart = l.atLineStart) : Inked m is :=
  ⟨by rw [hwritten, h.written], h.readable, by rw [hprevious]; exact h.ending,
    by rw [hprevious, hstart]; exact h.lineStart⟩

theorem Inked.leave (h : Inked l is) (block : Block) : Inked (l.leave block) is := by
  unfold Layout.leave
  split
  · exact h
  · split
    · exact h.of_eq rfl rfl rfl
    · exact h

theorem isBlank_of_isPadding {c : Char} (h : isPadding c) : Text.isBlank c := by
  simp only [isPadding, Bool.or_eq_true, beq_iff_eq] at h
  rcases h with rfl | rfl <;> decide

theorem precedes_of_start {i j : Ink} (h : EndsAs none i) : i.Precedes j := by
  cases i with
  | blank c => trivial
  | token t =>
    have ht : t = .mark .newLine := h
    subst ht
    exact fun c _ => rfl

theorem all_of_concat {q : Char → Bool} {text cs : List Char} {c : Char} (h : text = cs ++ [c])
    (hc : q c = false) : text.all q = false := by
  rw [h, List.all_append, List.all_cons, hc, Bool.false_and, Bool.and_false]

theorem exists_drop {q : Char → Bool} (h : Readable is) (hspace : q ' ') (htab : q '\t')
    (hblank : ∀ c, q c → Text.isBlank c) :
    ∃ front back, Readable front ∧ is = front ++ back ∧
      (∀ t ∈ inkTokens back, t = .mark .newLine ∧ q '\n') ∧
      (inkText is).reverse.dropWhile q = (inkText front).reverse := by
  have hends {t : Token} (ht : Legible t) (hne : t ≠ .mark .newLine) :
      ∃ cs c, t.spelling = cs ++ [c] ∧ q c = false := by
    obtain ⟨cs, c, hcs, hc⟩ := exists_concat_spelling ht hne
    refine ⟨cs, c, hcs, ?_⟩
    rw [← Bool.not_eq_true]
    intro hq
    rw [hblank c hq] at hc
    cases hc
  have hparts : ∀ i ∈ is, i.text.all q ∨ ∃ cs c, i.text = cs ++ [c] ∧ q c = false := by
    intro i hi
    have hsound := h.sound i hi
    cases i with
    | blank c =>
      left
      rcases hsound with rfl | rfl
      · simpa [Ink.text] using hspace
      · simpa [Ink.text] using htab
    | token t =>
      by_cases hne : t = .mark .newLine
      · subst hne
        cases hline : q '\n' with
        | true => exact .inl (List.all_eq_true.mpr fun c hc => List.mem_singleton.mp hc ▸ hline)
        | false => exact .inr ⟨[], '\n', rfl, hline⟩
      · exact .inr (hends hsound hne)
  obtain ⟨front, back, rfl, hback, hdrop⟩ := exists_dropWhile q hparts
  refine ⟨front, back, h.of_append_left, rfl, ?_, hdrop⟩
  intro t ht
  obtain ⟨i, hi, htoken⟩ := List.mem_filterMap.mp ht
  cases i with
  | blank c => cases htoken
  | token u =>
    cases htoken
    have hall := hback _ hi
    by_cases hne : t = .mark .newLine
    · subst hne
      exact ⟨rfl, List.all_eq_true.mp hall '\n' List.mem_cons_self⟩
    · obtain ⟨cs, c, hcs, hc⟩ := hends (h.sound _ (List.mem_append_right _ hi)) hne
      rw [Ink.text, all_of_concat hcs hc] at hall
      cases hall

theorem precedes_lineEnd (i : Ink) : i.Precedes (.token (.mark .newLine)) := by
  cases i with
  | blank c => trivial
  | token t =>
    intro c hc
    cases hc
    exact allows_lineEnd t

theorem Inked.newLine (h : Inked l is) :
    ∃ js, Inked l.newLine js ∧ inkTokens js = inkTokens is ++ [.mark .newLine] := by
  obtain ⟨front, back, hfront, happend, hback, hdrop⟩ :=
    exists_drop h.readable rfl rfl fun _ hc => isBlank_of_isPadding hc
  have hnil : inkTokens back = [] := by
    apply List.eq_nil_iff_forall_not_mem.mpr
    intro t ht
    exact absurd (hback t ht).2 (by decide)
  have htokens : inkTokens front = inkTokens is := by
    rw [happend, inkTokens_append, hnil, List.append_nil]
  refine ⟨front ++ [.token (.mark .newLine)], ⟨?_, ?_, ?_, fun _ => rfl⟩, ?_⟩
  · simp only [Layout.newLine, h.written, hdrop, inkText_append, List.reverse_append]
    rfl
  · apply hfront.append (readable_token (t := .mark .newLine) trivial)
    intro i _ j hj
    cases hj
    exact precedes_lineEnd i
  · intro i hi
    rw [List.getLast?_concat] at hi
    cases hi
    rfl
  · rw [inkTokens_append, htokens]
    rfl

theorem readable_blanks {cs : List Char} (h : ∀ c ∈ cs, c = ' ' ∨ c = '\t') :
    Readable (cs.map Ink.blank) := by
  constructor
  · intro i hi
    obtain ⟨c, hc, rfl⟩ := List.mem_map.mp hi
    exact h c hc
  · rw [List.isChain_map]
    induction cs with
    | nil => exact .nil
    | cons c cs ih =>
      cases cs with
      | nil => exact .singleton _
      | cons d cs => exact .cons_cons trivial (ih (List.forall_mem_cons.mp h).2)

theorem readable_blank (h : Readable is) : Readable (.blank ' ' :: is) := by
  have hblank : Readable [.blank ' '] :=
    ⟨fun i hi => List.mem_singleton.mp hi ▸ .inl rfl, .singleton _⟩
  apply hblank.append h
  rintro i ⟨⟩ j _
  trivial

theorem inkText_blanks (cs : List Char) : inkText (cs.map Ink.blank) = cs := by
  induction cs with
  | nil => rfl
  | cons c cs ih =>
    rw [List.map_cons, inkText_cons, ih]
    rfl

theorem inkTokens_blanks (cs : List Char) : inkTokens (cs.map Ink.blank) = [] := by
  induction cs with
  | nil => rfl
  | cons c cs ih => exact ih

theorem precedes_blank (i : Ink) : i.Precedes (.blank ' ') := by
  cases i with
  | blank c => trivial
  | token t =>
    intro c hc
    cases hc
    exact allows_blank t

theorem mem_indentation {c : Char} {depth : Nat} (h : c ∈ indentation indent depth) : c ∈ indent := by
  obtain ⟨cs, hcs, hc⟩ := List.mem_flatten.mp h
  rw [List.eq_of_mem_replicate hcs] at hc
  exact hc

theorem Inked.append (h : Inked l is) {m : Layout} {p : Piece} {fs gs : List Ink}
    (hf : Fragment p fs) (hgs : Readable gs) (hlast : gs.getLast? = fs.getLast?)
    (hbetween : ∀ i, is.getLast? = some i → ∀ j, gs.head? = some j → i.Precedes j)
    (hwritten : m.written = (inkText gs).reverse ++ l.written) (hprevious : m.previous = some p)
    (hstart : m.atLineStart = false) : Inked m (is ++ gs) where
  written := by rw [hwritten, h.written, inkText_append, List.reverse_append]
  readable := h.readable.append hgs hbetween
  ending := by
    intro i hi
    obtain ⟨j, hj⟩ := hf.exists_getLast?
    rw [List.getLast?_append, hlast, hj] at hi
    cases hi
    rw [hprevious]
    exact hf.endsAs hj
  lineStart := by simp [hstart]

theorem Inked.writeAt_start (h : Inked l is) (hindent : ∀ c ∈ indent, c = ' ' ∨ c = '\t')
    (depth : Nat) {p : Piece} {fs : List Ink} (hf : Fragment p fs) (hstart : l.atLineStart) :
    ∃ js, Inked (l.writeAt indent depth p (inkText fs)) js ∧
      inkTokens js = inkTokens is ++ inkTokens fs := by
  obtain ⟨gs, htrim, hreadable, htokens, hlast⟩ := hf.trimmed
  have hblanks : Readable ((indentation indent depth).map Ink.blank) :=
    readable_blanks fun c hc => hindent c (mem_indentation hc)
  have hprevious := h.lineStart hstart
  have hline : Readable ((indentation indent depth).map Ink.blank ++ gs) := by
    apply hblanks.append hreadable
    intro i hi j _
    obtain ⟨c, -, rfl⟩ := List.mem_map.mp (List.mem_of_getLast? hi)
    trivial
  refine ⟨is ++ ((indentation indent depth).map Ink.blank ++ gs), ?_, ?_⟩
  · obtain ⟨i, hi⟩ := hf.exists_getLast?
    apply h.append hf hline
    · rw [List.getLast?_append, hlast, hi]
      rfl
    · intro i hi j _
      have hend := h.ending i hi
      rw [hprevious] at hend
      exact precedes_of_start hend
    · simp only [writeAt, hstart, if_true, htrim, inkText_append, inkText_blanks,
        List.reverse_append, List.append_assoc]
    · simp only [writeAt, hstart, if_true]
    · simp only [writeAt, hstart, if_true]
  · rw [inkTokens_append, inkTokens_append, inkTokens_blanks, htokens]
    rfl

theorem endsBlank_eq_false (h : Inked l is) {t : Token} (hlast : is.getLast? = some (.token t))
    (hsolid : t.isSolid) : l.endsBlank = false := by
  obtain ⟨js, rfl⟩ := exists_of_getLast? hlast
  have hlegible : Legible t := h.readable.sound _ (List.mem_append_right _ List.mem_cons_self)
  have hne : t ≠ .mark .newLine := by
    rintro rfl
    cases hsolid
  obtain ⟨cs, c, hcs, hblank⟩ := exists_concat_spelling hlegible hne
  rw [endsBlank, h.written, inkText_append, inkText_cons, Ink.text, hcs]
  simp [hblank]

theorem Inked.precedes (h : Inked l is) {p : Piece} {fs : List Ink} (hf : Fragment p fs)
    (hblank : (l.previous.any (Piece.apart · p) && !l.endsBlank) = false) {i j : Ink}
    (hi : is.getLast? = some i) (hj : fs.head? = some j)
    (hseparate : ∀ t u, i = .token t → j = .token u → t.Separate u) : i.Precedes j := by
  cases i with
  | blank c => trivial
  | token t =>
    have hend := h.ending _ hi
    cases hprevious : l.previous with
    | none =>
      rw [hprevious] at hend
      exact precedes_of_start hend
    | some q =>
      rw [hprevious] at hend
      rw [hprevious, endsBlank_eq_false h hi hend.1, Bool.not_false, Bool.and_true] at hblank
      exact precedes_fragment hend hf hj hblank fun u hu => hseparate t u rfl hu

theorem Inked.writeAt_within (h : Inked l is) (depth : Nat) {p : Piece} {fs : List Ink}
    (hf : Fragment p fs) (hstart : l.atLineStart = false)
    (hseparate : ∀ t u, is.getLast? = some (.token t) → fs.head? = some (.token u) →
      t.Separate u) :
    ∃ js, Inked (l.writeAt indent depth p (inkText fs)) js ∧
      inkTokens js = inkTokens is ++ inkTokens fs := by
  cases hblank : l.previous.any (Piece.apart · p) && !l.endsBlank with
  | true =>
    refine ⟨is ++ .blank ' ' :: fs, ?_, ?_⟩
    · obtain ⟨i, hi⟩ := hf.exists_getLast?
      apply h.append hf (readable_blank hf.readable)
      · rw [List.getLast?_cons, hi]
        rfl
      · intro i _ j hj
        cases hj
        exact precedes_blank i
      · simp [writeAt, hstart, hblank, Ink.text]
      · simp [writeAt, hstart]
      · simp [writeAt, hstart]
    · rw [inkTokens_append, inkTokens_blank]
  | false =>
    refine ⟨is ++ fs, ?_, inkTokens_append is fs⟩
    apply h.append hf hf.readable rfl
    · intro i hi j hj
      apply h.precedes hf hblank hi hj
      rintro t u rfl rfl
      exact hseparate t u hi hj
    · simp [writeAt, hstart, hblank]
    · simp [writeAt, hstart]
    · simp [writeAt, hstart]

theorem Inked.writeAt (h : Inked l is) (hindent : ∀ c ∈ indent, c = ' ' ∨ c = '\t') (depth : Nat)
    {p : Piece} {fs : List Ink} (hf : Fragment p fs) {ts : List Token}
    (hseparate : (inkTokens is ++ (inkTokens fs ++ ts)).IsChain Token.Separate) :
    ∃ js, Inked (l.writeAt indent depth p (inkText fs)) js ∧
      inkTokens js = inkTokens is ++ inkTokens fs := by
  cases hstart : l.atLineStart with
  | true => exact h.writeAt_start hindent depth hf hstart
  | false =>
    apply h.writeAt_within depth hf hstart
    intro t u ht hu
    obtain ⟨js, rfl⟩ := exists_of_getLast? ht
    cases fs with
    | nil => cases hu
    | cons f fs =>
      cases hu
      rw [inkTokens_append, inkTokens_token, inkTokens_token, List.append_assoc] at hseparate
      exact (List.isChain_cons_cons.mp hseparate.right_of_append).1

inductive Spells : List Action → List Token → Prop
  | nil : Spells [] []
  | enter {b : Block} {as : List Action} {ts : List Token} (rest : Spells as ts) :
      Spells (.enter b :: as) ts
  | leave {b : Block} {as : List Action} {ts : List Token} (rest : Spells as ts) :
      Spells (.leave b :: as) ts
  | newLine {as : List Action} {ts : List Token} (rest : Spells as ts) :
      Spells (.newLine :: as) (.mark .newLine :: ts)
  | write {p : Piece} {fs : List Ink} {as : List Action} {ts : List Token} (h : Fragment p fs)
      (rest : Spells as ts) : Spells (.write p (inkText fs) :: as) (inkTokens fs ++ ts)
  | writeOutdented {p : Piece} {fs : List Ink} {as : List Action} {ts : List Token}
      (h : Fragment p fs) (rest : Spells as ts) :
      Spells (.writeOutdented p (inkText fs) :: as) (inkTokens fs ++ ts)

theorem Spells.append {as bs : List Action} {ts us : List Token} (h : Spells as ts)
    (hrest : Spells bs us) : Spells (as ++ bs) (ts ++ us) := by
  induction h with
  | nil => exact hrest
  | enter _ ih => exact .enter ih
  | leave _ ih => exact .leave ih
  | newLine _ ih => exact .newLine ih
  | write hf _ ih =>
    rw [List.append_assoc]
    exact .write hf ih
  | writeOutdented hf _ ih =>
    rw [List.append_assoc]
    exact .writeOutdented hf ih

theorem Inked.acts (hindent : ∀ c ∈ indent, c = ' ' ∨ c = '\t') {as : List Action}
    {ts : List Token} (has : Spells as ts) (h : Inked l is)
    (hseparate : (inkTokens is ++ ts).IsChain Token.Separate) :
    ∃ js, Inked (l.acts indent as) js ∧ inkTokens js = inkTokens is ++ ts := by
  induction has generalizing l is with
  | nil => exact ⟨is, h, (List.append_nil _).symm⟩
  | @enter b as ts _ ih =>
    exact ih (l := { l with blocks := b :: l.blocks }) (h.of_eq rfl rfl rfl) hseparate
  | @leave b as ts _ ih => exact ih (h.leave b) hseparate
  | @newLine as ts _ ih =>
    obtain ⟨js, hjs, htokens⟩ := h.newLine
    obtain ⟨ks, hks, hafter⟩ := ih hjs (by rw [htokens, List.append_assoc]; exact hseparate)
    exact ⟨ks, hks, by rw [hafter, htokens, List.append_assoc]; rfl⟩
  | @write p fs as ts hf _ ih =>
    obtain ⟨js, hjs, htokens⟩ := h.writeAt hindent l.depth hf hseparate
    obtain ⟨ks, hks, hafter⟩ := ih hjs (by rw [htokens, List.append_assoc]; exact hseparate)
    exact ⟨ks, hks, by rw [hafter, htokens, List.append_assoc]⟩
  | @writeOutdented p fs as ts hf _ ih =>
    obtain ⟨js, hjs, htokens⟩ := h.writeAt hindent (l.depth - 1) hf hseparate
    obtain ⟨ks, hks, hafter⟩ := ih hjs (by rw [htokens, List.append_assoc]; exact hseparate)
    exact ⟨ks, hks, by rw [hafter, htokens, List.append_assoc]⟩

theorem exists_text (hindent : ∀ c ∈ indent, c = ' ' ∨ c = '\t') {as : List Action}
    {ts : List Token} (has : Spells as ts) (hseparate : ts.IsChain Token.Separate)
    (hlast : ts.getLast? ≠ some (.mark .newLine)) :
    ∃ is, (acts indent {} as).text = inkText is ∧ Readable is ∧ inkTokens is = ts := by
  obtain ⟨js, hjs, htokens⟩ := inked_empty.acts hindent has hseparate
  obtain ⟨front, back, hfront, happend, hback, hdrop⟩ :=
    exists_drop hjs.readable (by decide) (by decide) fun _ hc => hc
  have hts : ts = inkTokens front ++ inkTokens back := by
    rw [← inkTokens_append, ← happend, htokens]
    rfl
  have hnil : inkTokens back = [] := by
    rcases List.eq_nil_or_concat (inkTokens back) with hnil | ⟨us, u, hus⟩
    · exact hnil
    · rw [List.concat_eq_append] at hus
      have hu : u = .mark .newLine := (hback u (by rw [hus]; simp)).1
      apply absurd _ hlast
      rw [hts, hus, hu, ← List.append_assoc, List.getLast?_concat]
  refine ⟨front, ?_, hfront, ?_⟩
  · rw [text, hjs.written, hdrop, List.reverse_reverse]
  · rw [hts, hnil, List.append_nil]

end Layout

end QbCodec
