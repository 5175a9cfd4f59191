import QbCodec.Proofs.Source.LineSeams

namespace QbCodec.Source

variable {p q text : List Char} {ls ms : List Lexeme}

def isSkipped (c : Char) : Bool := c == ' ' || c == '\t' || c == '\r' || c == '\n'

def Plain (text : List Char) : Prop := text.all Text.isBlank → text.all isSkipped

/-- Alone a blank text has no tokens whatever is in it, but beside another text it is scanned. -/
def Joinable (p q : List Char) : Prop :=
  p.all Text.isBlank ∧ q.all Text.isBlank ∨ Plain p ∧ Plain q

namespace Scanner

variable {s : Scanner} {offset : Nat} {c : Char} {next : Option Char}

theorem codeStep_skipped (s : Scanner) (hc : isSkipped c) (offset : Nat) (next : Option Char) :
    s.codeStep offset c next =
      one (if c = '\n' then s.flush.map (·.push (.mark .newLine) offset) else s.flush) := by
  simp only [isSkipped, Bool.or_eq_true, beq_iff_eq] at hc
  rcases hc with ((rfl | rfl) | rfl) | rfl <;> simp [codeStep]

theorem step_skipped (hs : s.Settled) (hc : isSkipped c) (offset : Nat) (next : Option Char) :
    s.step offset c next = .ok (if c = '\n' then s.push (.mark .newLine) offset else s, false) := by
  rw [step, hs.mode]
  dsimp only
  rw [codeStep_skipped s hc, hs.flush]
  split <;> rfl

theorem step_unskipped (hs : s.Settled) (hc : Text.isBlank c) (hskip : isSkipped c = false)
    (offset : Nat) (next : Option Char) :
    s.step offset c next = .error ⟨offset, .unexpected c⟩ := by
  have hne {d : Char} (hd : Text.isBlank d = false) : c ≠ d := by
    rintro rfl
    rw [hc] at hd
    cases hd
  have hname : isNameChar c = false := by
    by_contra hname
    rw [Bool.not_eq_false] at hname
    rw [not_blank_of_isNameChar hname] at hc
    cases hc
  have hmark : mark? c next = none := by
    unfold mark?
    split <;> first | rfl | exact absurd hc (by decide)
  simp only [isSkipped, Bool.or_eq_false_iff, beq_eq_false_iff_ne] at hskip
  obtain ⟨⟨⟨h₁, h₂⟩, h₃⟩, h₄⟩ := hskip
  have h₅ : c ≠ '/' := hne (by decide)
  have h₆ : c ≠ '\'' := hne (by decide)
  have h₇ : c ≠ '"' := hne (by decide)
  have h₈ : c ≠ '#' := hne (by decide)
  have h₉ : c ≠ '<' := hne (by decide)
  have h₁₀ : c ≠ '>' := hne (by decide)
  have h₁₁ : c ≠ '.' := hne (by decide)
  have h₁₂ : c ≠ '-' := hne (by decide)
  rw [step, hs.mode]
  simp [codeStep, h₁, h₂, h₃, h₄, h₅, h₆, h₇, h₈, h₉, h₁₀, h₁₁, h₁₂, hmark, hname]

theorem run_skipped (hs : s.Settled) (offset : Nat) (htext : text.all isSkipped) :
    ∃ t ls, s.run offset text = .ok t ∧ t.Settled ∧ t.scripts = s.scripts ∧
      t.done = ls ++ s.done ∧ tokens ls = List.replicate (text.count '\n') (.mark .newLine) := by
  induction text generalizing s offset with
  | nil => exact ⟨s, [], rfl, hs, rfl, rfl, rfl⟩
  | cons c text ih =>
    rw [List.all_cons, Bool.and_eq_true] at htext
    rw [run_one (step_skipped hs htext.1 offset _)]
    by_cases hline : c = '\n'
    · obtain ⟨t, ls, hrun, ht, hscripts, hdone, htokens⟩ := ih
        (s := s.push (.mark .newLine) offset) ⟨hs.mode, hs.held⟩ (offset + c.utf8Size) htext.2
      refine ⟨t, ls ++ [⟨.mark .newLine, offset⟩], ?_, ht, hscripts, ?_, ?_⟩
      · rw [if_pos hline]
        exact hrun
      · rw [hdone, List.append_assoc]
        rfl
      · rw [tokens_append, htokens, hline, List.count_cons_self, List.replicate_succ']
        rfl
    · obtain ⟨t, ls, hrun, ht, hscripts, hdone, htokens⟩ := ih hs (offset + c.utf8Size) htext.2
      refine ⟨t, ls, ?_, ht, hscripts, hdone, ?_⟩
      · rw [if_neg hline]
        exact hrun
      · rw [htokens, List.count_cons_of_ne hline]

theorem complete_skipped (hs : s.Settled) (hscripts : s.scripts = []) (offset total : Nat)
    (htext : text.all isSkipped) :
    ∃ ls, s.complete offset text total = .ok (s.done.reverse ++ ls) ∧
      tokens ls = List.replicate (text.count '\n') (.mark .newLine) := by
  obtain ⟨t, ls, hrun, ht, htscripts, hdone, htokens⟩ := run_skipped hs offset htext
  refine ⟨ls.reverse, ?_, ?_⟩
  · rw [complete, hrun]
    simp only [close, ht.mode, ht.flush, htscripts, hscripts, hdone, List.reverse_append]
  · rw [tokens, List.map_reverse, ← tokens, htokens, List.reverse_replicate]

theorem complete_unskipped (hs : s.Settled) (offset : Nat) (htext : text.all Text.isBlank)
    (hskip : text.all isSkipped = false) :
    ∃ e, ∀ rest total, s.complete offset (text ++ rest) total = .error e := by
  induction text generalizing s offset with
  | nil => cases hskip
  | cons c text ih =>
    rw [List.all_cons, Bool.and_eq_true] at htext
    cases hc : isSkipped c with
    | false =>
      have hstep := step_unskipped hs htext.1 hc offset
      exact ⟨_, fun rest total => complete_error (hstep _) total⟩
    | true =>
      rw [List.all_cons, hc, Bool.true_and] at hskip
      have hnext : (if c = '\n' then s.push (.mark .newLine) offset else s).Settled := by
        split
        · exact ⟨hs.mode, hs.held⟩
        · exact hs
      obtain ⟨e, he⟩ := ih hnext (offset + c.utf8Size) htext.2 hskip
      refine ⟨e, fun rest total => ?_⟩
      rw [List.cons_append, complete_one (step_skipped hs hc offset _), he]

end Scanner

open Scanner

theorem scan_of_blank (h : text.all Text.isBlank) : scan text = .ok [] := if_pos h

theorem scan_of_not_blank (h : text.all Text.isBlank = false) :
    scan text = Scanner.complete {} 0 text (byteCount text) := by
  rw [scan, h]
  rfl

theorem settled_empty : Settled {} := ⟨rfl, rfl⟩

theorem complete_plain (h : Plain text) (hls : scan text = .ok ls) :
    ∃ ms n, Scanner.complete {} 0 text (byteCount text) = .ok ms ∧
      tokens ms = List.replicate n (.mark .newLine) ++ tokens ls := by
  cases hblank : text.all Text.isBlank with
  | false =>
    rw [scan_of_not_blank hblank] at hls
    exact ⟨ls, 0, hls, rfl⟩
  | true =>
    rw [scan_of_blank hblank] at hls
    cases hls
    obtain ⟨ms, hms, htokens⟩ :=
      complete_skipped settled_empty rfl 0 (byteCount text) (h hblank)
    exact ⟨ms, text.count '\n', hms, by rw [htokens]; simp⟩

def Joins (ls ms all : List Lexeme) : Prop :=
  ∃ m n, tokens all = List.replicate m (.mark .newLine) ++
    (tokens ls ++ (List.replicate n (.mark .newLine) ++ tokens ms))

abbrev Later (n i j : Nat) : Prop := j = n + i

abbrev SameTokens (ls ms : List Lexeme) : Prop := tokens ms = tokens ls

theorem tokens_of_placed {m : Nat → Nat → Prop} (h : List.Forall₂ (Placed m) ls ms) :
    tokens ms = tokens ls := by
  induction h with
  | nil => rfl
  | cons hl _ ih => rw [tokens_cons, tokens_cons, hl.token, ih]

theorem complete_append {n : Nat} (hend : p.getLast? = some '\n')
    (hp : Scanner.complete {} 0 p n = .ok ls) (q : List Char) :
    Agree (Later (byteCount p)) (fun ms all => tokens all = tokens ls ++ tokens ms)
      (Scanner.complete {} 0 q (byteCount q))
      (Scanner.complete {} 0 (p ++ q) (byteCount (p ++ q))) := by
  obtain ⟨t, ht, hscripts, rfl, hrest⟩ := exists_settled (calm_of_held rfl) hend hp
  have hmoved : Moved (Later (byteCount p)) t.done {} t :=
    ⟨ht.mode, ht.held, fun hopen => absurd hopen not_isOpen_empty, hscripts, [], rfl, .nil⟩
  rw [hrest, Nat.zero_add, byteCount_append]
  have hfurther (i j n : Nat) (hij : Later (byteCount p) i j) :
      Later (byteCount p) (i + n) (j + n) := by
    unfold Later at hij ⊢
    omega
  apply (hmoved.complete hfurther rfl q rfl).imp
  rintro ms all ⟨later, rfl, hplaced⟩
  rw [tokens_append, tokens_of_placed hplaced]

theorem scan_append (hend : p.getLast? = some '\n') (hls : scan p = .ok ls)
    (hjoin : Joinable p q) :
    Agree (Later (byteCount p)) (Joins ls) (scan q) (scan (p ++ q)) := by
  -- If both are blank nothing is scanned. Otherwise all of `p` is, so a blank `p` gives line ends.
  by_cases hblank : p.all Text.isBlank ∧ q.all Text.isBlank
  · obtain ⟨hp, hq⟩ := hblank
    rw [scan_of_blank hp] at hls
    cases hls
    rw [scan_of_blank hq, scan_of_blank (by rw [List.all_append, hp, hq]; rfl)]
    exact .ok ⟨0, 0, rfl⟩
  · obtain ⟨hp, hq⟩ := hjoin.resolve_left hblank
    have hall : (p ++ q).all Text.isBlank = false := by
      rw [List.all_append, Bool.eq_false_iff, ne_eq, Bool.and_eq_true]
      exact hblank
    obtain ⟨all, m, hcomplete, htokens⟩ := complete_plain hp hls
    have hagree := complete_append hend hcomplete q
    rw [scan_of_not_blank hall]
    cases hqblank : q.all Text.isBlank with
    | false =>
      rw [scan_of_not_blank hqblank]
      apply hagree.imp
      intro ms both hboth
      exact ⟨m, 0, by simp [hboth, htokens]⟩
    | true =>
      rw [scan_of_blank hqblank]
      obtain ⟨ms, n, hms, hlineEnds⟩ := complete_plain hq (scan_of_blank hqblank)
      rw [hms] at hagree
      obtain ⟨both, hboth, hjoined⟩ := hagree.of_ok
      rw [hboth]
      exact .ok ⟨m, n, by simp [hjoined, htokens, hlineEnds]⟩

theorem scan_append_error (hend : p.getLast? = some '\n') (hls : scan p = .ok ls)
    (hjoin : ¬ Joinable p q) : ∃ e, scan (p ++ q) = .error e := by
  have hblank : ¬ (p.all Text.isBlank ∧ q.all Text.isBlank) := fun h => hjoin (.inl h)
  have hall : (p ++ q).all Text.isBlank = false := by
    rw [List.all_append, Bool.eq_false_iff, ne_eq, Bool.and_eq_true]
    exact hblank
  rw [scan_of_not_blank hall]
  by_cases hp : Plain p
  · have hq : ¬ Plain q := fun h => hjoin (.inr ⟨hp, h⟩)
    obtain ⟨hqblank, hqskip⟩ := Classical.not_imp.mp hq
    obtain ⟨all, m, hcomplete, -⟩ := complete_plain hp hls
    obtain ⟨t, ht, -, -, hrest⟩ := exists_settled (calm_of_held rfl) hend hcomplete
    obtain ⟨e, he⟩ := complete_unskipped ht (0 + byteCount p) hqblank (by simpa using hqskip)
    refine ⟨e, ?_⟩
    rw [hrest, ← List.append_nil q, he]
  · obtain ⟨hpblank, hpskip⟩ := Classical.not_imp.mp hp
    obtain ⟨e, he⟩ := complete_unskipped settled_empty 0 hpblank (by simpa using hpskip)
    exact ⟨e, he q _⟩

theorem before_append (offset : Nat) (p q : List Char) :
    before (byteCount p + offset) (p ++ q) = p ++ before offset q := by
  induction p with
  | nil => simp [byteCount]
  | cons c p ih =>
    have hsize : byteCount (c :: p) + offset - c.utf8Size = byteCount p + offset := by
      rw [byteCount_cons]
      omega
    rw [List.cons_append, before, if_pos (by rw [byteCount_cons]; omega), hsize, ih,
      List.cons_append]

theorem before_byteCount (front back : List Char) :
    before (byteCount front) (front ++ back) = front := by
  have hzero : before 0 back = [] := by
    cases back with
    | nil => rfl
    | cons c back =>
      have := c.utf8Size_pos
      rw [before, if_neg (by omega)]
  simpa [hzero] using before_append 0 front back

theorem lastLine_append (hend : p.getLast? = some '\n') (q : List Char) :
    lastLine (p ++ q) = lastLine q := by
  obtain ⟨front, rfl⟩ := List.getLast?_eq_some_iff.mp hend
  rw [lastLine, lastLine, List.reverse_append, List.reverse_append, List.takeWhile_append]
  split
  · rename_i hlength
    have hwhole : q.reverse.takeWhile (fun c => !isNewline c) = q.reverse :=
      (List.takeWhile_prefix _).eq_of_length hlength
    rw [hwhole]
    simp [isNewline]
  · rfl

structure Shifted (p : String) (d d' : Diagnostic) : Prop where
  reason : d'.reason = d.reason
  offset : d'.offset = p.utf8ByteSize + d.offset
  line : d'.line = d.line + p.toList.count '\n'
  column : d'.column = d.column

theorem shifted_diagnose {p : String} (hend : p.toList.getLast? = some '\n') (q : String)
    (offset : Nat) (reason : String) :
    Shifted p (diagnose q.toList offset reason)
      (diagnose (p ++ q).toList (p.utf8ByteSize + offset) reason) := by
  have hbefore : before (p.utf8ByteSize + offset) (p ++ q).toList =
      p.toList ++ before offset q.toList := by
    rw [← byteCount_toList, String.toList_append, before_append]
  refine ⟨rfl, rfl, ?_, ?_⟩
  · change (before _ _).count '\n' + 1 = (before _ _).count '\n' + 1 + _
    rw [hbefore, List.count_append]
    omega
  · change (lastLine (before _ _)).length + 1 = _
    rw [hbefore, lastLine_append hend]
    rfl

theorem lexemes_append {p q : String} (hend : p.toList.getLast? = some '\n')
    (hls : lexemes p = .ok ls) (hjoin : Joinable p.toList q.toList) :
    (∃ ms all, lexemes q = .ok ms ∧ lexemes (p ++ q) = .ok all ∧ Joins ls ms all) ∨
      ∃ d d', lexemes q = .error (.source d) ∧ lexemes (p ++ q) = .error (.source d') ∧
        Shifted p d d' := by
  have hagree := scan_append hend (scan_of_lexemes hls) hjoin
  rw [← String.toList_append, byteCount_toList] at hagree
  unfold lexemes
  generalize scan q.toList = x at hagree
  generalize scan (p ++ q).toList = y at hagree
  cases hagree with
  | ok h =>
    left
    exact ⟨_, _, rfl, rfl, h⟩
  | error h fault =>
    right
    subst h
    exact ⟨_, _, rfl, rfl, shifted_diagnose hend q _ _⟩

theorem lexemes_append_error {p q : String} (hend : p.toList.getLast? = some '\n')
    (hls : lexemes p = .ok ls) (hjoin : ¬ Joinable p.toList q.toList) :
    ∃ d, lexemes (p ++ q) = .error (.source d) := by
  obtain ⟨e, he⟩ := scan_append_error hend (scan_of_lexemes hls) hjoin
  unfold lexemes
  rw [String.toList_append, he]
  exact ⟨_, rfl⟩

end QbCodec.Source
