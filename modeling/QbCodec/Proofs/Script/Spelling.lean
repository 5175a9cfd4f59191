import QbCodec.File.Statement
import QbCodec.Proofs.Script.Layout

namespace QbCodec

open Source Layout

namespace Layout

theorem dropWhile_isPadding (cs : List Char) :
    (cs.dropWhile isPadding).dropWhile Text.isBlank = cs.dropWhile Text.isBlank := by
  induction cs with
  | nil => rfl
  | cons c cs ih =>
    by_cases hc : isPadding c = true
    · rw [List.dropWhile_cons_of_pos hc, List.dropWhile_cons_of_pos (isBlank_of_isPadding hc), ih]
    · rw [List.dropWhile_cons_of_neg hc]

theorem text_newLine (l : Layout) : l.newLine.text = l.text := by
  have hline : Text.isBlank '\n' = true := by decide
  rw [Layout.text, Layout.text, Layout.newLine, List.dropWhile_cons_of_pos hline,
    dropWhile_isPadding]

end Layout

namespace Script

variable {r : Registry} {indent : List Char} {as : List Action} {ts : List Token}

def allActions (r : Registry) : Bool → List Instruction → List Action
  | _, [] => []
  | asArgument, i :: is => actions r asArgument i ++ allActions r (marksArgument asArgument i) is

theorem layout_foldl (r : Registry) (indent : List Char) (s : State) (is : List Instruction) :
    (is.foldl (step r indent) s).layout = s.layout.acts indent (allActions r s.asArgument is) := by
  induction is generalizing s with
  | nil => rfl
  | cons i is ih =>
    rw [List.foldl_cons, ih, allActions, acts, acts, List.foldl_append]
    rfl

theorem render_eq (r : Registry) (indent : List Char) (is : List Instruction) :
    render r indent is = (acts indent {} (allActions r false is)).text := by
  rw [render, layout_foldl]

theorem render_concat (r : Registry) (indent : List Char) (is : List Instruction) :
    render r indent (is ++ [.bare .endOfLine]) = render r indent is := by
  rw [render, render, List.foldl_append]
  exact text_newLine _

theorem render_append_replicate (r : Registry) (indent : List Char) (is : List Instruction)
    (n : Nat) : render r indent (is ++ List.replicate n (.bare .endOfLine)) = render r indent is := by
  induction n with
  | zero => simp
  | succ n ih => rw [List.replicate_succ', ← List.append_assoc, render_concat, ih]

theorem inkText_token (t : Token) : inkText [.token t] = t.spelling := List.append_nil _

theorem fragment_token {t : Token} (h : Legible t) (hsolid : t.isSolid) :
    Fragment .word [.token t] := by
  refine .word ?_ (readable_token h) ?_
  · rintro rfl
    cases hsolid
  · intro u hu
    cases hu
    exact hsolid

theorem spells_write {p : Piece} {text : List Char} {fs : List Ink} (h : Fragment p fs)
    (htext : text = inkText fs) (rest : Spells as ts) :
    Spells (.write p text :: as) (inkTokens fs ++ ts) := by
  rw [htext]
  exact .write h rest

theorem spells_word {text : List Char} {t : Token} (htext : text = t.spelling) (h : Legible t)
    (hsolid : t.isSolid) (rest : Spells as ts) : Spells (.write .word text :: as) (t :: ts) := by
  apply spells_write (fragment_token h hsolid) _ rest
  rw [inkText_token, htext]

theorem spells_outdented {text : List Char} {t : Token} (htext : text = t.spelling) (h : Legible t)
    (hsolid : t.isSolid) (rest : Spells as ts) :
    Spells (.writeOutdented .word text :: as) (t :: ts) := by
  have hink : text = inkText [.token t] := by rw [inkText_token, htext]
  rw [hink]
  exact .writeOutdented (fragment_token h hsolid) rest

theorem spells_trailing {text : List Char} {k : Keyword} (htext : text = k.spelling ++ [' '])
    (rest : Spells as ts) : Spells (.write .word text :: as) (.keyword k :: ts) := by
  have hfragment : Fragment .word [.token (.keyword k), .blank ' '] := by
    refine .word (by simp) ⟨?_, ?_⟩ ?_
    · simp [Ink.IsSound, Legible]
    · exact .cons_cons (precedes_blank _) (.singleton _)
    · intro u hu
      cases hu
  exact spells_write hfragment htext rest

theorem spells_mark {p : Piece} {text : List Char} {m : Mark} (hp : p = m.piece)
    (htext : text = m.spelling) (h : (Token.mark m).isSolid) (rest : Spells as ts) :
    Spells (.write p text :: as) (.mark m :: ts) := by
  subst hp
  apply spells_write (.mark h) _ rest
  rw [inkText_token, htext]
  rfl

theorem spells_spaced {text : List Char} {m : Mark} (htext : text = ' ' :: m.spelling ++ [' '])
    (h : m.isSpaced) (rest : Spells as ts) : Spells (.write .spaced text :: as) (.mark m :: ts) :=
  spells_write (.spaced h) htext rest

theorem spells_keyword {k : Keyword} {t : Tag} (hscript : k ≠ .script) (hend : k ≠ .endScript)
    (h : k.tag? = some t) : Spells (tagActions t) [.keyword k] := by
  cases k with
  | script => exact absurd rfl hscript
  | endScript => exact absurd rfl hend
  | qs => cases h
  | ifWord =>
    cases h
    exact spells_word (by decide) trivial rfl (.enter .nil)
  | elseWord =>
    cases h
    exact spells_outdented (by decide) trivial rfl .nil
  | elseIf =>
    cases h
    exact spells_outdented (by decide) trivial rfl .nil
  | endIf =>
    cases h
    exact .leave (spells_word (by decide) trivial rfl .nil)
  | begin =>
    cases h
    exact spells_word (by decide) trivial rfl (.enter .nil)
  | repeatWord =>
    cases h
    exact .leave (spells_trailing (by decide) .nil)
  | switch =>
    cases h
    exact spells_word (by decide) trivial rfl (.enter .nil)
  | caseWord =>
    cases h
    exact .leave (spells_word (by decide) trivial rfl (.enter .nil))
  | defaultWord =>
    cases h
    exact .leave (spells_word (by decide) trivial rfl (.enter .nil))
  | endSwitch =>
    cases h
    exact .leave (.leave (spells_word (by decide) trivial rfl .nil))
  | returnWord =>
    cases h
    exact spells_trailing (by decide) .nil
  | _ =>
    cases h
    exact spells_word (by decide) trivial rfl .nil

theorem spells_tag {m : Mark} {inParens : Bool} {t : Tag} (h : m.tag? inParens = some t) :
    Spells (tagActions t) [.mark m] := by
  cases m with
  | openParen => cases h
  | closeParen => cases h
  | newLine =>
    cases h
    exact .newLine .nil
  | openBrace =>
    cases h
    exact spells_mark rfl (by decide) rfl (.enter .nil)
  | inlinePackStruct =>
    cases h
    exact spells_mark rfl (by decide) rfl (.enter .nil)
  | openBracket =>
    cases h
    exact spells_mark rfl (by decide) rfl (.enter .nil)
  | closeBrace =>
    cases h
    exact .leave (spells_mark rfl (by decide) rfl .nil)
  | closeBracket =>
    cases h
    exact .leave (spells_mark rfl (by decide) rfl .nil)
  | equals => cases inParens <;> cases h <;> exact spells_spaced (by decide) rfl .nil
  | _ =>
    cases h
    first
      | exact spells_mark rfl (by decide) rfl .nil
      | exact spells_spaced (by decide) rfl .nil

theorem dropEnd_stored {text : String} (h : text.toList.getLast? ≠ some '\x00') :
    Text.dropEnd isNul (Statement.stored text).toList = text.toList := by
  rw [Statement.stored, String.toList_push, Text.dropEnd, List.reverse_append]
  have hdrop : text.toList.reverse.dropWhile isNul = text.toList.reverse := by
    cases hrev : text.toList.reverse with
    | nil => rfl
    | cons c cs =>
      have hc : isNul c = false := by
        rw [isNul, beq_eq_false_iff_ne]
        rintro rfl
        apply h
        rw [← List.head?_reverse, hrev]
        rfl
      rw [List.dropWhile_cons_of_neg (by simp [hc])]
  rw [List.reverse_singleton, List.singleton_append, List.dropWhile_cons_of_pos rfl, hdrop,
    List.reverse_reverse]

theorem stringText_stored {wide : Bool} {text : String}
    (h : text.toList.getLast? ≠ some '\x00') :
    stringText wide (Statement.stored text) =
      Token.spelling (if wide then .wideString text else .string text) := by
  rw [stringText, dropEnd_stored h]
  cases wide <;> rfl

theorem fragment_group {t : Token} (is : List Ink) (hne : t ≠ .mark .newLine)
    (h : Readable (.token t :: (is ++ [.token (.mark .closeParen)]))) :
    Fragment .word (.token t :: (is ++ [.token (.mark .closeParen)])) := by
  refine .word hne h ?_
  intro u hu
  rw [← List.cons_append, List.getLast?_concat] at hu
  cases hu
  rfl

theorem readable_cons {t : Token} {is : List Ink} (ht : Legible t) (h : Readable is)
    (hnext : ∀ i, is.head? = some i → (Ink.token t).Precedes i) : Readable (.token t :: is) := by
  apply (readable_token ht).append h
  intro i hi j hj
  cases hi
  exact hnext j hj

theorem readable_cons_blank {t : Token} {is : List Ink} (ht : Legible t) (h : Readable is) :
    Readable (.token t :: .blank ' ' :: is) := by
  apply readable_cons ht (readable_blank h)
  rintro i ⟨⟩
  exact precedes_blank _

theorem precedes_closing {t : Token} (h : t.isSolid) {m : Mark} (hm : m = .closeParen ∨ m = .comma) :
    (Ink.token t).Precedes (.token (.mark m)) := by
  intro c hc
  apply allows_of_solid h
  rcases hm with rfl | rfl <;> cases hc
  · exact .inl rfl
  · exact .inr (.inr (.inl rfl))

theorem precedes_of_openParen (i : Ink) : (Ink.token (.mark .openParen)).Precedes i := fun _ _ => rfl

theorem spells_phrase (k : Key) (rest : Spells as ts) :
    Spells (.write .word (phraseText k) :: as)
      (.keyword .qs :: .mark .openParen :: .rawKey k :: .mark .closeParen :: ts) := by
  have hreadable : Readable [.token (.keyword .qs), .token (.mark .openParen), .token (.rawKey k),
      .token (.mark .closeParen)] := by
    refine readable_cons trivial (readable_cons trivial (readable_cons trivial
      (readable_token trivial) ?_) ?_) ?_
    · rintro i ⟨⟩
      exact precedes_closing rfl (.inl rfl)
    · rintro i ⟨⟩
      exact precedes_of_openParen _
    · rintro i ⟨⟩ c ⟨⟩
      rfl
  have hfragment := fragment_group [.token (.mark .openParen), .token (.rawKey k)] (by simp)
    hreadable
  apply spells_write hfragment _ rest
  have hqs : Keyword.spelling .qs = ['q', 's'] := by decide
  simp [phraseText, Ink.text, Token.spelling, Mark.spelling, hqs]

def tupleInks : List Single → List Ink
  | [] => [.token (.mark .closeParen)]
  | [v] => [.token (.float v), .token (.mark .closeParen)]
  | v :: vs => .token (.float v) :: .token (.mark .comma) :: .blank ' ' :: tupleInks vs

theorem inkText_tupleInks (vs : List Single) :
    inkText (tupleInks vs) = ", ".toList.intercalate (vs.map Single.sourceText) ++ [')'] := by
  induction vs with
  | nil => rfl
  | cons v vs ih =>
    cases vs with
    | nil => simp [tupleInks, Ink.text, Token.spelling, Mark.spelling, List.intercalate]
    | cons w vs =>
      rw [tupleInks, inkText_cons, inkText_cons, inkText_cons, ih]
      · simp [Ink.text, Token.spelling, Mark.spelling, List.intercalate]
      · simp

theorem readable_tupleInks {vs : List Single} (h : ∀ v ∈ vs, v.isFinite) :
    Readable (tupleInks vs) := by
  induction vs with
  | nil => exact readable_token trivial
  | cons v vs ih =>
    obtain ⟨hv, hvs⟩ := List.forall_mem_cons.mp h
    cases vs with
    | nil =>
      refine readable_cons hv (readable_token trivial) ?_
      rintro i ⟨⟩
      exact precedes_closing rfl (.inl rfl)
    | cons w vs =>
      have hcomma := readable_cons_blank (t := .mark .comma) trivial (ih hvs)
      apply readable_cons (t := .float v) hv hcomma
      rintro i ⟨⟩
      exact precedes_closing rfl (.inr rfl)

theorem exists_tupleInks (vs : List Single) :
    ∃ is, tupleInks vs = is ++ [.token (.mark .closeParen)] := by
  induction vs with
  | nil => exact ⟨[], rfl⟩
  | cons v vs ih =>
    cases vs with
    | nil => exact ⟨[.token (.float v)], rfl⟩
    | cons w vs =>
      obtain ⟨is, his⟩ := ih
      refine ⟨.token (.float v) :: .token (.mark .comma) :: .blank ' ' :: is, ?_⟩
      rw [tupleInks, his]
      · rfl
      · simp

theorem tupleText_eq (vs : List Single) :
    tupleText vs = inkText (.token (.mark .openParen) :: tupleInks vs) := by
  rw [inkText_cons, inkText_tupleInks, tupleText, List.cons_append]
  rfl

theorem spells_tuple {vs : List Single} (h : ∀ v ∈ vs, v.isFinite) (rest : Spells as ts) :
    Spells (.write .word (tupleText vs) :: as)
      (.mark .openParen :: (inkTokens (tupleInks vs) ++ ts)) := by
  obtain ⟨is, his⟩ := exists_tupleInks vs
  have hreadable : Readable (.token (.mark .openParen) :: tupleInks vs) :=
    readable_cons trivial (readable_tupleInks h) fun i _ => precedes_of_openParen i
  rw [tupleText_eq]
  rw [his] at hreadable ⊢
  exact .write (fragment_group is (by simp) hreadable) rest

end Script

end QbCodec
