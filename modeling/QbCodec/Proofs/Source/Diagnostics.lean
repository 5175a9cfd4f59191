import QbCodec.Proofs.Guarded.Scanning
import QbCodec.Proofs.Text.Pieces

namespace QbCodec.Source

open Guarded (IsBoundary lastNewline?_cases lastLine_of_notMem lastLine_newline safe_scan)

def skipLines : Nat → List Char → List Char
  | 0, cs => cs
  | _ + 1, [] => []
  | n + 1, c :: cs => if c = '\n' then skipLines n cs else skipLines (n + 1) cs

def firstLine (cs : List Char) : List Char := cs.takeWhile fun c => !isNewline c

def indent : List Char := List.replicate 4 ' '

def caret (skipped : Nat) : List Char := List.replicate skipped ' ' ++ ['^']

@[simp] theorem skipLines_zero (cs : List Char) : skipLines 0 cs = cs := by cases cs <;> rfl

theorem skipLines_newline (front back : List Char) :
    skipLines (front.count '\n' + 1) (front ++ '\n' :: back) = back := by
  induction front with
  | nil => simp [skipLines]
  | cons c front ih =>
    by_cases hc : c = '\n'
    · subst hc
      rw [List.count_cons_self, List.cons_append, skipLines, if_pos rfl, ih]
    · rw [List.count_cons_of_ne hc, List.cons_append, skipLines, if_neg hc, ih]

theorem skipLines_count (front back : List Char) :
    skipLines (front.count '\n') (front ++ back) = lastLine front ++ back := by
  rcases lastNewline?_cases front with ⟨-, hmem⟩ | ⟨earlier, line, rfl, hmem, -⟩
  · rw [List.count_eq_zero.mpr hmem, lastLine_of_notMem hmem, skipLines_zero]
  · have hcount : (earlier ++ '\n' :: line).count '\n' = earlier.count '\n' + 1 := by
      rw [List.count_append, List.count_cons_self, List.count_eq_zero.mpr hmem]
    rw [hcount, lastLine_newline earlier hmem, List.append_assoc, List.cons_append,
      skipLines_newline]

theorem newline_notMem_lastLine (cs : List Char) : '\n' ∉ lastLine cs := by
  rcases lastNewline?_cases cs with ⟨-, hmem⟩ | ⟨earlier, line, rfl, hmem, -⟩
  · rwa [lastLine_of_notMem hmem]
  · rwa [lastLine_newline earlier hmem]

theorem getD_lines (cs : List Char) (n : Nat) :
    (Text.lines cs).getD n [] = firstLine (skipLines n cs) := by
  induction cs generalizing n with
  | nil => cases n <;> rfl
  | cons c cs ih =>
    by_cases hc : c = '\n'
    · subst hc
      cases n with
      | zero => rfl
      | succ n => exact ih n
    · obtain ⟨line, more, hlines⟩ := List.exists_cons_of_ne_nil (Text.pieces_ne_nil '\n' cs)
      have hcons : Text.lines (c :: cs) = (c :: line) :: more := by
        simp only [Text.lines, Text.pieces, if_neg hc, hlines]
      have hrest (n : Nat) : (line :: more).getD n [] = firstLine (skipLines n cs) := hlines ▸ ih n
      rw [hcons]
      cases n with
      | zero =>
        have hfirst : line = firstLine cs := by simpa [skipLines] using hrest 0
        simp [skipLines, firstLine, isNewline, hc, hfirst]
      | succ n =>
        rw [skipLines, if_neg hc]
        exact hrest (n + 1)

theorem drop_skipLines (front back : List Char) :
    (skipLines (lineAt (front ++ back) (byteCount front) - 1) (front ++ back)).drop
      (columnAt (front ++ back) (byteCount front) - 1) = back := by
  rw [lineAt, columnAt, before_byteCount, Nat.add_sub_cancel, Nat.add_sub_cancel, skipLines_count,
    List.drop_left]

theorem eq_of_line_column {cs : List Char} {i j : Nat} (hi : IsBoundary cs i)
    (hj : IsBoundary cs j) (hline : lineAt cs i = lineAt cs j)
    (hcolumn : columnAt cs i = columnAt cs j) : i = j := by
  obtain ⟨front, back, rfl, rfl⟩ := hi
  obtain ⟨front', back', hcs, rfl⟩ := hj
  have hback : back = back' := by
    have hskip := drop_skipLines front back
    rw [hline, hcolumn, hcs, drop_skipLines front' back'] at hskip
    exact hskip.symm
  rw [hback, List.append_cancel_right_eq] at hcs
  rw [hcs]

theorem lines_message (d : Diagnostic) (h : '\n' ∉ d.lineText.toList) :
    ∃ first, Text.lines d.message.toList =
      first ++ [indent ++ d.lineText.toList, indent ++ caret (d.column - 1)] := by
  have hcaret : '\n' ∉ indent ++ caret (d.column - 1) := by simp [indent, caret]
  have hline : '\n' ∉ indent ++ d.lineText.toList := by simp [indent, h]
  have hbreak : "\n    ".toList = '\n' :: indent := rfl
  have hhat : "^".toList = ['^'] := rfl
  obtain ⟨head, hhead⟩ : ∃ head : String, d.message = head ++ "\n    " ++ d.lineText ++ "\n    " ++
      String.ofList (List.replicate (d.column - 1) ' ') ++ "^" := ⟨_, rfl⟩
  have htext : d.message.toList = head.toList ++ '\n' :: (indent ++ d.lineText.toList ++
      '\n' :: (indent ++ caret (d.column - 1))) := by
    simp only [hhead, String.toList_append, String.toList_ofList, hbreak, hhat, caret,
      List.append_assoc, List.cons_append]
  refine ⟨Text.lines head.toList, ?_⟩
  rw [htext, Text.lines, Text.pieces_append, Text.pieces_append, Text.pieces_of_notMem hline,
    Text.pieces_of_notMem hcaret]
  rfl

theorem newline_notMem_lineText (source : List Char) (line : Nat) :
    '\n' ∉ lineText source line := by
  intro hmem
  rw [lineText, getD_lines, Text.dropEnd, List.mem_reverse] at hmem
  have hfirst := List.mem_reverse.mp ((List.dropWhile_suffix _).subset hmem)
  have := List.mem_takeWhile_imp hfirst
  cases this

theorem lines_diagnose (source : List Char) (offset : Nat) (reason : String) :
    ∃ first, Text.lines (Failure.source (diagnose source offset reason)).message.toList = first ++
      [indent ++ Text.dropEnd Text.isReturn (firstLine (skipLines (lineAt source offset - 1) source)),
        indent ++ caret (columnAt source offset - 1)] := by
  have htext : (diagnose source offset reason).lineText.toList =
      lineText source (lineAt source offset) := String.toList_ofList
  obtain ⟨first, hfirst⟩ := lines_message (diagnose source offset reason)
    (htext ▸ newline_notMem_lineText source _)
  rw [htext, lineText, getD_lines] at hfirst
  exact ⟨first, hfirst⟩

/-- A diagnostic names a place of the source, the line and column that lead back there, and ends in
that line without its carriage returns and a caret below the column. Two places of a text differ in
line or column. -/
theorem diagnostic_place :
    (∀ source e, lexemes source = .error e → ∃ d front current back, e = .source d ∧
      source.toList = front ++ back ∧ byteCount front = d.offset ∧
      d.line = front.count '\n' + 1 ∧
      skipLines (d.line - 1) source.toList = current ++ back ∧ '\n' ∉ current ∧
      d.column = current.length + 1 ∧
      ∃ first, Text.lines e.message.toList = first ++
        [indent ++ Text.dropEnd Text.isReturn (firstLine (skipLines (d.line - 1) source.toList)),
          indent ++ caret (d.column - 1)]) ∧
    ∀ cs i j, IsBoundary cs i → IsBoundary cs j → i ≠ j →
      (lineAt cs i, columnAt cs i) ≠ (lineAt cs j, columnAt cs j) := by
  constructor
  · intro source e he
    have hscan := safe_scan source.toList
    rw [lexemes] at he
    generalize scan source.toList = y at he hscan
    cases y with
    | ok ls => simp only [Except.mapError, reduceCtorEq] at he
    | error stop =>
      simp only [Except.mapError, Except.error.injEq] at he
      subst he
      obtain ⟨front, back, hsource, hplace⟩ := hscan.of_error.2
      have hline : lineAt source.toList stop.offset = front.count '\n' + 1 := by
        rw [lineAt, hsource, hplace, before_byteCount]
      have hcolumn : columnAt source.toList stop.offset = (lastLine front).length + 1 := by
        rw [columnAt, hsource, hplace, before_byteCount]
      have hskip : skipLines (lineAt source.toList stop.offset - 1) source.toList =
          lastLine front ++ back := by
        rw [hline, Nat.add_sub_cancel, hsource, skipLines_count]
      refine ⟨_, front, lastLine front, back, rfl, hsource, hplace.symm, hline, hskip,
        newline_notMem_lastLine front, hcolumn, lines_diagnose _ _ _⟩
  · intro cs i j hi hj hne heq
    rw [Prod.mk.injEq] at heq
    exact hne (eq_of_line_column hi hj heq.1 heq.2)

theorem diagnostic_place_return :
    (∃ d first, lexemes "x\nñ <é\r\ny" = .error (.source d) ∧ d.offset = 5 ∧ d.line = 2 ∧
      d.column = 3 ∧ Text.lines d.message.toList =
        first ++ [indent ++ ['ñ', ' ', '<', 'é'], indent ++ caret 2]) ∧
    (lineAt ['ñ', '\n'] 2, columnAt ['ñ', '\n'] 2) ≠
      (lineAt ['ñ', '\n'] 3, columnAt ['ñ', '\n'] 3) := by
  obtain ⟨hfault, hplaces⟩ := diagnostic_place
  constructor
  · have hchecked : (match lexemes "x\nñ <é\r\ny" with
        | .error (.source d) => d.offset == 5 && d.line == 2 && d.column == 3
        | _ => false) = true := by decide +kernel
    split at hchecked
    · rename_i d hd
      simp only [Bool.and_eq_true, beq_iff_eq] at hchecked
      obtain ⟨⟨hoffset, hline⟩, hcolumn⟩ := hchecked
      obtain ⟨_, _, _, _, ⟨⟩, -, -, -, -, -, -, first, hlines⟩ := hfault _ _ hd
      refine ⟨d, first, hd, hoffset, hline, hcolumn, ?_⟩
      rw [hline, hcolumn] at hlines
      exact hlines
    · cases hchecked
  · exact hplaces ['ñ', '\n'] 2 3 ⟨['ñ'], ['\n'], rfl, rfl⟩ ⟨['ñ', '\n'], [], rfl, rfl⟩ (by decide)

end QbCodec.Source
