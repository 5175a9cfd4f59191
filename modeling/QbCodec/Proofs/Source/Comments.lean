import QbCodec.Proofs.Source.BlankSeams

namespace QbCodec.Source

namespace Scanner

variable {s t : Scanner} {offset total : Nat} {d : Char} {p rest : List Char}

theorem getLast?_ne_of_cons {c : Char} (h : (c :: p).getLast? ≠ some d) : p.getLast? ≠ some d := by
  cases p with
  | nil => simp
  | cons e p => rwa [List.getLast?_cons_cons] at h

theorem complete_of_code {s : Scanner} {offset : Nat} (hd : isNoticed d = false) (p : List Char)
    (rest : List Char) (total : Nat) (hslash : p.getLast? ≠ some '/')
    (hcode : ∀ t, s.run offset p = .ok t → t.mode = .code) :
    s.complete offset (p ++ d :: rest) total =
      (s.run offset p).bind fun t => t.complete (offset + byteCount p) (d :: rest) total := by
  match p with
  | [] => rfl
  | c :: p =>
    -- Only at the last character is `d` the next one, where a run of `p` alone has none.
    have hnext : s.step offset c (p ++ d :: rest).head? = s.step offset c p.head? := by
      cases p with
      | cons e p => rfl
      | nil =>
        refine step_unnoticed ⟨hd, fun _ hc => absurd (congrArg some hc) hslash, ?_⟩ offset
        rintro hmode rfl
        have hstay : s.step offset '*' ([] : List Char).head? = .ok (s, false) := by
          simp [step, hmode, one, Except.map]
        have hstill := hcode s (run_one hstay)
        rw [hmode] at hstill
        cases hstill
    rw [List.cons_append]
    cases hstep : s.step offset c p.head? with
    | error e =>
      rw [run_error hstep]
      exact complete_error (hnext.trans hstep) total
    | ok r =>
      obtain ⟨t, both⟩ := r
      have hslash' := getLast?_ne_of_cons hslash
      cases both with
      | false =>
        rw [run_one hstep] at hcode ⊢
        rw [byteCount_cons, ← Nat.add_assoc, ← complete_of_code hd p rest total hslash' hcode]
        exact complete_one (hnext.trans hstep)
      | true =>
        cases p with
        | nil => cases takesOne_none s offset c t true hstep
        | cons e p =>
          rw [run_two hstep] at hcode ⊢
          rw [byteCount_cons, byteCount_cons, ← Nat.add_assoc, ← Nat.add_assoc,
            ← complete_of_code hd p rest total (getLast?_ne_of_cons hslash') hcode]
          exact complete_two hstep
termination_by p.length

theorem complete_blockComment {text : List Char} (hmode : s.mode = .blockComment)
    (htext : ¬ ['*', '/'] <:+: text) (offset total : Nat) (rest : List Char) :
    ∃ offset', s.complete offset (text ++ '*' :: '/' :: rest) total =
      ({ s with mode := .code } : Scanner).complete offset' rest total := by
  induction text generalizing offset with
  | nil =>
    have hstep : s.step offset '*' (some '/') = .ok ({ s with mode := .code }, true) := by
      simp [step, hmode, two, Except.map]
    exact ⟨_, complete_two hstep⟩
  | cons c text ih =>
    have hopen : ¬ (c = '*' ∧ (text ++ '*' :: '/' :: rest).head? = some '/') := by
      rintro ⟨rfl, hnext⟩
      cases text with
      | nil => cases hnext
      | cons d text =>
        cases hnext
        exact htext ⟨[], text, rfl⟩
    have hstep : s.step offset c (text ++ '*' :: '/' :: rest).head? = .ok (s, false) := by
      rw [step, hmode]
      exact if_neg hopen
    have htail : ¬ ['*', '/'] <:+: text :=
      fun h => htext (h.trans (List.suffix_cons c text).isInfix)
    obtain ⟨offset', hrest⟩ := ih htail (offset + c.utf8Size)
    refine ⟨offset', ?_⟩
    rw [List.cons_append, complete_one hstep, hrest]

theorem complete_lineComment {text : List Char} (hmode : s.mode = .lineComment)
    (htext : '\n' ∉ text) (offset total : Nat) (rest : List Char) :
    ∃ place offset', s.complete offset (text ++ '\n' :: rest) total =
      (({ s with mode := .code } : Scanner).push (.mark .newLine) place).complete offset' rest
        total := by
  induction text generalizing offset with
  | nil =>
    have hstep (next : Option Char) : s.step offset '\n' next =
        .ok (({ s with mode := .code } : Scanner).push (.mark .newLine) offset, false) := by
      simp [step, hmode, one, Except.map]
    exact ⟨_, _, complete_one (hstep _)⟩
  | cons c text ih =>
    rw [List.mem_cons, not_or] at htext
    have hstep (next : Option Char) : s.step offset c next = .ok (s, false) := by
      simp [step, hmode, Ne.symm htext.1, one, Except.map]
    obtain ⟨place, offset', hrest⟩ := ih htext.2 (offset + c.utf8Size)
    refine ⟨place, offset', ?_⟩
    rw [List.cons_append, complete_one (hstep _), hrest]

abbrev Anywhere (_ _ : Nat) : Prop := True

theorem moved_anywhere (hmode : s.mode = .code) (start : Nat) :
    Moved Anywhere [] s { s with mode := .code, start } where
  mode := hmode.symm
  held := rfl
  start := fun _ => trivial
  scripts := (List.map_id s.scripts).symm
  done := ⟨s.done, (List.append_nil s.done).symm, List.forall₂_same.mpr fun _ _ => ⟨rfl, trivial⟩⟩

theorem Moved.sameTokens (h : Moved Anywhere [] s t) (i j total total' : Nat) (text : List Char) :
    Agree Anywhere SameTokens (s.complete i text total) (t.complete j text total') := by
  apply (h.complete (fun _ _ _ _ => trivial) trivial text trivial).imp
  rintro ls ms ⟨later, rfl, hplaced⟩
  exact tokens_of_placed hplaced

theorem sameTokens_blockComment {text : List Char} (hmode : s.mode = .code)
    (htext : ¬ ['*', '/'] <:+: text) (offset total total' : Nat) (rest : List Char) :
    Agree Anywhere SameTokens (s.complete offset (' ' :: rest) total)
      (s.complete offset ('/' :: '*' :: (text ++ '*' :: '/' :: rest)) total') := by
  have hspace (next : Option Char) : s.step offset ' ' next = one s.flush := by
    rw [step, hmode]
    exact codeStep_skipped s (by decide) offset next
  have hopen : s.step offset '/' ('*' :: (text ++ '*' :: '/' :: rest)).head? =
      two (s.enter .blockComment offset) := by
    rw [step, hmode]
    rfl
  rw [enter] at hopen
  cases hflush : s.flush with
  | error e =>
    rw [hflush] at hspace hopen
    rw [complete_error (hspace _), complete_error hopen]
    exact .error trivial _
  | ok t =>
    rw [hflush] at hspace hopen
    rw [complete_one (hspace _), complete_two hopen]
    obtain ⟨offset', hrest⟩ := complete_blockComment
      (s := { t with mode := .blockComment, start := offset }) rfl htext
      (offset + '/'.utf8Size + '*'.utf8Size) total' rest
    rw [hrest]
    exact (moved_anywhere ((flush_spec hflush).1.trans hmode) offset).sameTokens _ _ _ _ rest

theorem sameTokens_lineComment {text : List Char} (hmode : s.mode = .code)
    (htext : '\n' ∉ text) (offset total total' : Nat) (rest : List Char) :
    Agree Anywhere SameTokens (s.complete offset ('\n' :: rest) total)
      (s.complete offset ('/' :: '/' :: (text ++ '\n' :: rest)) total') := by
  have hline (next : Option Char) :
      s.step offset '\n' next = one (s.flush.map (·.push (.mark .newLine) offset)) := by
    rw [step, hmode]
    exact codeStep_skipped s (by decide) offset next
  have hopen : s.step offset '/' ('/' :: (text ++ '\n' :: rest)).head? =
      two (s.enter .lineComment offset) := by
    rw [step, hmode]
    rfl
  rw [enter] at hopen
  cases hflush : s.flush with
  | error e =>
    rw [hflush] at hline hopen
    rw [complete_error (hline _), complete_error hopen]
    exact .error trivial _
  | ok t =>
    rw [hflush] at hline hopen
    rw [complete_one (hline _), complete_two hopen]
    obtain ⟨place, offset', hrest⟩ := complete_lineComment
      (s := { t with mode := .lineComment, start := offset }) rfl htext
      (offset + '/'.utf8Size + '/'.utf8Size) total' rest
    rw [hrest]
    have hmoved := moved_anywhere ((flush_spec hflush).1.trans hmode) offset
    exact (hmoved.push _ trivial).sameTokens _ _ _ _ rest

theorem sameTokens_behind {d e : Char} {text text' : List Char} (hd : isNoticed d = false)
    (he : isNoticed e = false) (hslash : p.getLast? ≠ some '/')
    (hcode : ∀ t, s.run offset p = .ok t → t.mode = .code) {total total' : Nat}
    (h : ∀ t : Scanner, t.mode = .code → ∀ place,
      Agree Anywhere SameTokens (t.complete place (d :: text) total)
        (t.complete place (e :: text') total')) :
    Agree Anywhere SameTokens (s.complete offset (p ++ d :: text) total)
      (s.complete offset (p ++ e :: text') total') := by
  rw [complete_of_code hd p text total hslash hcode, complete_of_code he p text' total' hslash hcode]
  cases hrun : s.run offset p with
  | error stop => exact .error trivial _
  | ok t => exact h t (hcode t hrun) _

end Scanner

open Scanner

theorem scan_between {p q : List Char} (h : (p ++ q).all Text.isBlank = false)
    (text : List Char) :
    scan (p ++ (text ++ q)) =
      Scanner.complete {} 0 (p ++ (text ++ q)) (byteCount (p ++ (text ++ q))) := by
  apply scan_of_not_blank
  rw [List.all_append, Bool.and_eq_false_iff] at h
  rw [List.all_append, List.all_append]
  rcases h with h | h <;> simp [h]

theorem lexemes_of_agree {p q : String}
    (h : Agree Anywhere SameTokens (scan p.toList) (scan q.toList)) :
    (lexemes q).toOption.map tokens = (lexemes p).toOption.map tokens := by
  unfold lexemes
  generalize scan p.toList = x at h
  generalize scan q.toList = y at h
  cases h with
  | ok h => exact congrArg some h
  | error _ fault => rfl

/-- Behind code that does not end in a slash, a block comment may stand for a space, and a line
comment may stand in front of a line end, unless nothing else is in the text. -/
theorem lexemes_comment {p q : String} (hslash : p.toList.getLast? ≠ some '/')
    (hcode : ∀ s, Scanner.run {} 0 p.toList = .ok s → s.mode = .code)
    (hblank : (p ++ q).toList.all Text.isBlank = false) (c : String) :
    (¬ "*/".toList <:+: c.toList →
      (lexemes (p ++ "/*" ++ c ++ "*/" ++ q)).toOption.map tokens =
        (lexemes (p ++ " " ++ q)).toOption.map tokens) ∧
    ('\n' ∉ c.toList →
      (lexemes (p ++ "//" ++ c ++ "\n" ++ q)).toOption.map tokens =
        (lexemes (p ++ "\n" ++ q)).toOption.map tokens) := by
  rw [String.toList_append] at hblank
  have hspace : (p ++ " " ++ q).toList = p.toList ++ ([' '] ++ q.toList) := by simp
  have hline : (p ++ "\n" ++ q).toList = p.toList ++ (['\n'] ++ q.toList) := by simp
  have hblock : (p ++ "/*" ++ c ++ "*/" ++ q).toList =
      p.toList ++ (('/' :: '*' :: (c.toList ++ ['*', '/'])) ++ q.toList) := by simp
  have hcomment : (p ++ "//" ++ c ++ "\n" ++ q).toList =
      p.toList ++ (('/' :: '/' :: (c.toList ++ ['\n'])) ++ q.toList) := by simp
  constructor
  · intro hc
    apply lexemes_of_agree
    rw [hspace, hblock, scan_between hblank, scan_between hblank]
    simp only [List.cons_append, List.nil_append, List.append_assoc]
    apply sameTokens_behind (by decide) (by decide) hslash hcode
    exact fun t ht place => sameTokens_blockComment ht hc place _ _ q.toList
  · intro hc
    apply lexemes_of_agree
    rw [hline, hcomment, scan_between hblank, scan_between hblank]
    simp only [List.cons_append, List.nil_append, List.append_assoc]
    apply sameTokens_behind (by decide) (by decide) hslash hcode
    exact fun t ht place => sameTokens_lineComment ht hc place _ _ q.toList

/-- What looks like quotes, words and the start of another comment is not read inside a comment. -/
theorem lexemes_comment_text :
    (lexemes ("a" ++ "/*" ++ " if 'b' /* \"c" ++ "*/" ++ "1")).toOption.map tokens =
        (lexemes ("a" ++ " " ++ "1")).toOption.map tokens ∧
      (lexemes ("a" ++ "//" ++ " if 'b' /* \"c" ++ "\n" ++ "1")).toOption.map tokens =
        (lexemes ("a" ++ "\n" ++ "1")).toOption.map tokens := by
  have hcode (s : Scanner) (h : Scanner.run {} 0 "a".toList = .ok s) : s.mode = .code := by
    have hstep : ({} : Scanner).step 0 'a' ([] : List Char).head? =
        .ok (Scanner.extend {} 'a' 0, false) := codeStep_of_isNameChar (by decide) none
    have hrun : Scanner.run {} 0 "a".toList = .ok (Scanner.extend {} 'a' 0) := run_one hstep
    rw [hrun] at h
    cases h
    rfl
  have hboth := lexemes_comment (p := "a") (q := "1") (by decide +kernel) hcode
    (by decide +kernel) " if 'b' /* \"c"
  exact ⟨hboth.1 (by decide +kernel), hboth.2 (by decide +kernel)⟩

end QbCodec.Source
