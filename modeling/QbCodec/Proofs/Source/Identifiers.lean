import QbCodec.Proofs.Source.Spans

/-!
Names that are scanned again. What the scanner holds in code it would hold of the same characters
alone, as long as the next character is there that the first of them asked for; and where a token
ends, none is asked for any more. So the text of a name, and that of an argument in its brackets,
is scanned as the same token wherever it stands.
-/

namespace QbCodec.Source

open Scanner (IsHeldAs isOpened_of_not_mem isClosed_of_not_mem isClosed_concat word_bracketed)

/-- The scanner comes to hold these characters if it starts with nothing held and they are followed
by the next one. As in the scanner, what came last is first. -/
inductive Gathered : List Char → Option Char → Prop
  | nil {next : Option Char} : Gathered [] next
  | cons {held : List Char} {c : Char} {next : Option Char} (h : Gathered held (some c))
      (hc : Prolongs held c next) : Gathered (c :: held) next

def IsWordChar (c : Char) : Prop := isNameChar c ∨ c = '.' ∨ c = '-'

def IsPlain (text : String) : Prop :=
  ∀ c ∈ text.toList, c ≠ '<' ∧ c ≠ '>' ∧ c ≠ '\'' ∧ c ≠ '"' ∧ Text.isBlank c = false

section

variable {held m text rest : List Char} {c d : Char} {next : Option Char} {token : Token}

theorem Prolongs.cases_char (h : Prolongs held c next) : held = [] ∧ c = '<' ∨ IsWordChar c := by
  cases h with
  | name h => exact .inr (.inl h)
  | bracket hheld => exact .inl ⟨hheld, rfl⟩
  | firstPoint | point => exact .inr (.inr (.inl rfl))
  | minus => exact .inr (.inr (.inr rfl))

theorem Prolongs.ended (h : Prolongs held c (some d)) (hd : ¬ Prolongs (c :: held) d next) :
    Prolongs held c none := by
  have hname : isNameChar d = false := by
    rw [← Bool.not_eq_true]
    exact fun hname => hd (.name hname)
  have hdigit : Text.isDigit d = false := by
    rw [← Bool.not_eq_true]
    exact fun hdigit => hd (.name (isNameChar_of_isDigit hdigit))
  cases h with
  | name h => exact .name h
  | bracket hheld h =>
    obtain rfl : d = '.' := by simpa [hname] using h
    exact absurd (.point (List.cons_ne_nil _ _) (.inl (by rw [hheld]; rfl))) hd
  | firstPoint hheld h =>
    rw [Option.any_some, hdigit] at h
    cases h
  | point hheld h => exact .point hheld h
  | minus hheld h =>
    obtain rfl : d = '.' := by simpa [hdigit] using h
    exact absurd (.point (List.cons_ne_nil _ _) (.inr (by rw [hheld]; rfl))) hd

theorem Prolongs.followed (h : Prolongs held c none) (next : Option Char) : Prolongs held c next := by
  cases h with
  | name h => exact .name h
  | bracket _ h => cases h
  | firstPoint _ h => cases h
  | point hheld h => exact .point hheld h
  | minus _ h => cases h

theorem Gathered.ended (h : Gathered held (some d)) (hd : ¬ Prolongs held d next) :
    Gathered held none := by
  cases h with
  | nil => exact .nil
  | cons h hc => exact .cons h (hc.ended hd)

theorem Gathered.followed (h : Gathered held none) (next : Option Char) : Gathered held next := by
  cases h with
  | nil => exact .nil
  | cons h hc => exact .cons h (hc.followed next)

theorem Gathered.chars (h : Gathered held next) :
    (∀ c ∈ held, IsWordChar c) ∨ ∃ m, held = m ++ ['<'] ∧ ∀ c ∈ m, IsWordChar c := by
  induction h with
  | nil => exact .inl (List.forall_mem_nil _)
  | @cons held c _ _ hc ih =>
    rcases hc.cases_char with ⟨rfl, rfl⟩ | hchar
    · exact .inr ⟨[], rfl, List.forall_mem_nil _⟩
    · rcases ih with hall | ⟨m, rfl, hall⟩
      · exact .inl (List.forall_mem_cons.mpr ⟨hchar, hall⟩)
      · exact .inr ⟨c :: m, rfl, List.forall_mem_cons.mpr ⟨hchar, hall⟩⟩

theorem Gathered.ne_nil (h : Gathered (m ++ ['<']) none) : m ≠ [] := by
  rintro rfl
  cases h with
  | cons _ hc =>
    cases hc with
    | name h => exact absurd h (by decide)
    | bracket _ h => cases h

theorem IsWordChar.plain (h : IsWordChar c) :
    c ≠ '<' ∧ c ≠ '>' ∧ c ≠ '\'' ∧ c ≠ '"' ∧ Text.isBlank c = false := by
  rcases h with h | rfl | rfl
  · have hne {d : Char} (hd : isNameChar d = false) : c ≠ d := ne_of_isNameChar h hd
    exact ⟨hne (by decide), hne (by decide), hne (by decide), hne (by decide),
      not_blank_of_isNameChar h⟩
  · decide
  · decide

theorem notMem_of_chars (h : ∀ c ∈ held, IsWordChar c) : '<' ∉ held ∧ '>' ∉ held :=
  ⟨fun hmem => (h _ hmem).plain.1 rfl, fun hmem => (h _ hmem).plain.2.1 rfl⟩

theorem isPlain_of_chars (h : ∀ c ∈ held, IsWordChar c) : IsPlain (String.ofList held.reverse) := by
  intro c hc
  rw [String.toList_ofList, List.mem_reverse] at hc
  exact (h c hc).plain

theorem hasName_number (h : number? text = some token) : hasName token = false := by
  rcases cases_number h with ⟨v, rfl, -⟩ | ⟨v, rfl, -⟩ <;> rfl

theorem word_of_keyword {k : Keyword} (h : Keyword.ofWord? (String.ofList text) = some k) :
    word text = .keyword k := by
  unfold word
  rw [h]

theorem word_of_not_opened (hkeyword : Keyword.ofWord? (String.ofList text) = none)
    (h : isOpened text = false) : word text = .name (String.ofList text) := by
  simp [word, hkeyword, h]

inductive Stands : Token → Prop
  | name {held : List Char} (h : Gathered held none) (hne : held ≠ [])
      (hchars : ∀ c ∈ held, IsWordChar c)
      (hheld : IsHeldAs held.reverse (.name (String.ofList held.reverse)))
      (hkeyword : Keyword.ofWord? (String.ofList held.reverse) = none) :
      Stands (.name (String.ofList held.reverse))
  | argument {m : List Char} (h : Gathered (m ++ ['<']) none) (hchars : ∀ c ∈ m, IsWordChar c)
      (hheld : IsHeldAs ('<' :: m.reverse ++ ['>']) (.argument (String.ofList m.reverse))) :
      Stands (.argument (String.ofList m.reverse))
  | other {token : Token} (h : hasName token = false) : Stands token

theorem stands_of_held (h : Gathered held none) (hne : held ≠ [])
    (hheld : IsHeldAs held.reverse token) : Stands token := by
  cases hheld with
  | number hnumber => exact .other (hasName_number hnumber)
  | word hnumber hbrackets =>
    rcases h.chars with hchars | ⟨m, rfl, hchars⟩
    · have hopened : isOpened held.reverse = false :=
        isOpened_of_not_mem (by simpa using (notMem_of_chars hchars).1)
      cases hkeyword : Keyword.ofWord? (String.ofList held.reverse) with
      | some k => exact word_of_keyword hkeyword ▸ .other rfl
      | none =>
        have hname := word_of_not_opened hkeyword hopened
        rw [hname]
        exact .name h hne hchars (hname ▸ .word hnumber hbrackets) hkeyword
    · -- An argument that is not closed is no token.
      have hpos : 0 < m.length := List.length_pos_iff.mpr h.ne_nil
      have htext : (m ++ ['<']).reverse = '<' :: m.reverse := by simp
      have hclosed : isClosed ('<' :: m.reverse) = false :=
        isClosed_of_not_mem (by simpa using (notMem_of_chars hchars).2)
      rw [htext] at hbrackets
      have heq : true = isClosed ('<' :: m.reverse) := hbrackets (by simpa using hpos)
      rw [hclosed] at heq
      cases heq

theorem stands_of_closed (h : Gathered held none) (hne : held ≠ [])
    (hheld : IsHeldAs ('>' :: held).reverse token) : Stands token := by
  cases hheld with
  | number hnumber => exact .other (hasName_number hnumber)
  | word hnumber hbrackets =>
    rcases h.chars with hchars | ⟨m, rfl, hchars⟩
    · -- A name does not end in a bracket.
      have hpos : 0 < held.length := List.length_pos_iff.mpr hne
      have hopened : isOpened ('>' :: held).reverse = false :=
        isOpened_of_not_mem (by simpa using (notMem_of_chars hchars).1)
      have hclosed : isClosed ('>' :: held).reverse = true := by
        rw [List.reverse_cons]
        exact isClosed_concat _
      rw [hopened, hclosed] at hbrackets
      cases hbrackets (by simpa using hpos)
    · have htext : ('>' :: (m ++ ['<'])).reverse = '<' :: m.reverse ++ ['>'] := by simp
      have hne : m.reverse ≠ [] := by simpa using h.ne_nil
      rw [htext] at hnumber hbrackets ⊢
      cases hkeyword : Keyword.ofWord? (String.ofList ('<' :: m.reverse ++ ['>'])) with
      | some k => exact word_of_keyword hkeyword ▸ .other rfl
      | none =>
        have hargument := word_bracketed hne hkeyword
        rw [hargument]
        exact .argument h hchars (hargument ▸ .word hnumber hbrackets)

end

namespace Scanner

variable {s t u : Scanner} {offset : Nat} {c : Char} {next next' : Option Char} {both : Bool}
  {held m rest text : List Char} {token : Token}

theorem run_gathered (h : Gathered held rest.head?) :
    Scanner.run {} 0 (held.reverse ++ rest) =
      ({ held } : Scanner).run (byteCount held.reverse) rest := by
  generalize hnext : rest.head? = next at h
  induction h generalizing rest with
  | nil => rfl
  | @cons held c next h hc ih =>
    have hstep : ({ held } : Scanner).step (byteCount held.reverse) c rest.head? =
        .ok ({ held := c :: held }, false) := by
      have hcode := codeStep_of_prolongs (s := { held }) (hnext ▸ hc) (byteCount held.reverse)
      cases held <;> exact hcode
    have hplace : byteCount (c :: held).reverse = byteCount held.reverse + c.utf8Size := by
      rw [List.reverse_cons, byteCount_append, byteCount_cons]
      rfl
    rw [List.reverse_cons, List.append_assoc, List.singleton_append, ih rfl, run_one hstep,
      ← List.reverse_cons, hplace]

theorem scan_of_run (hrun : Scanner.run {} 0 text = .ok t) (hblank : text.all Text.isBlank = false)
    {ls : List Lexeme} (hclose : t.close (byteCount text) = .ok ls) : scan text = .ok ls := by
  rw [scan, hblank, hrun]
  exact hclose

theorem scan_name (h : Gathered held none) (hne : held ≠ []) (hchars : ∀ c ∈ held, IsWordChar c)
    (hheld : IsHeldAs held.reverse (.name (String.ofList held.reverse))) :
    scan held.reverse = .ok [⟨.name (String.ofList held.reverse), 0⟩] := by
  have hrun : Scanner.run {} 0 held.reverse = .ok { held } := by
    have hgathered : Scanner.run {} 0 (held.reverse ++ []) = .ok { held } := run_gathered h
    rwa [List.append_nil] at hgathered
  have hblank : held.reverse.all Text.isBlank = false := by
    obtain ⟨c, cs, rfl⟩ := List.exists_cons_of_ne_nil hne
    rw [List.all_reverse, List.all_cons, (hchars c List.mem_cons_self).plain.2.2.2.2]
    rfl
  apply scan_of_run hrun hblank
  simp only [close, flush_of_isHeldAs (s := { held }) hne hheld]
  rfl

theorem scan_argument (h : Gathered (m ++ ['<']) none)
    (hheld : IsHeldAs ('<' :: m.reverse ++ ['>']) (.argument (String.ofList m.reverse))) :
    scan ('<' :: m.reverse ++ ['>']) = .ok [⟨.argument (String.ofList m.reverse), 0⟩] := by
  have htext : (m ++ ['<']).reverse ++ ['>'] = '<' :: m.reverse ++ ['>'] := by simp
  have hclosed : ('>' :: (m ++ ['<'])).reverse = '<' :: m.reverse ++ ['>'] := by simp
  have hflush : (({ held := m ++ ['<'] } : Scanner).hold '>').flush =
      .ok { done := [⟨.argument (String.ofList m.reverse), 0⟩] } := by
    rw [← hclosed] at hheld
    exact flush_of_isHeldAs (s := { held := '>' :: (m ++ ['<']) }) (List.cons_ne_nil _ _) hheld
  have hrun : Scanner.run {} 0 ('<' :: m.reverse ++ ['>']) =
      .ok { done := [⟨.argument (String.ofList m.reverse), 0⟩] } := by
    rw [← htext, run_gathered (h.followed (some '>')),
      run_one (step_close _ rfl (by simp) hflush _)]
    rfl
  exact scan_of_run hrun rfl rfl

structure Gathers (s : Scanner) (next : Option Char) : Prop where
  calm : s.Calm
  held : s.mode = .code → Gathered s.held next
  done : ∀ l ∈ s.done, Stands l.token

theorem stands_flush (h : ∀ l ∈ s.done, Stands l.token)
    (hheld : ∀ token, s.held ≠ [] → IsHeldAs s.held.reverse token → Stands token)
    (hflush : s.flush = .ok t) : ∀ l ∈ t.done, Stands l.token := by
  rcases cases_flush hflush with ⟨-, rfl⟩ | ⟨hne, token, htoken, hpush⟩
  · exact h
  · rw [done_of_pushWord hpush]
    exact List.forall_mem_cons.mpr ⟨hheld token hne htoken, h⟩

theorem stands_acts {f : Scanner → Scanner × Bool} (h : ∀ l ∈ u.done, Stands l.token)
    (hacts : Acts offset c next f) (hf : f u = (t, both)) :
    t.held = u.held ∧ ∀ l ∈ t.done, Stands l.token := by
  cases hacts with
  | enter | skip =>
    cases hf
    exact ⟨rfl, h⟩
  | newLine | mark =>
    cases hf
    exact ⟨rfl, List.forall_mem_cons.mpr ⟨.other rfl, h⟩⟩

theorem Gathers.codeStep (h : s.Gathers (some c)) (hmode : s.mode = .code)
    (hstep : s.codeStep offset c next = .ok (t, both)) (hnext : both = false → next' = next) :
    (t.mode = .code → Gathered t.held next') ∧ ∀ l ∈ t.done, Stands l.token := by
  have hgathered := h.held hmode
  by_cases hc : Prolongs s.held c next
  · rw [codeStep_of_prolongs hc] at hstep
    cases hstep
    rw [extend_eq, hnext rfl]
    exact ⟨fun _ => .cons hgathered hc, h.done⟩
  · have hended : Gathered s.held none := hgathered.ended hc
    rcases cases_codeStep hstep with ⟨f, u, hacts, hflush, hf⟩ | ⟨-, hne, hflush, -⟩ | ⟨hc', -, -⟩
    · have hdone := stands_flush h.done (fun _ => stands_of_held hended) hflush
      obtain ⟨hheld, hstands⟩ := stands_acts hdone hacts hf
      rw [hheld, (flush_spec hflush).2]
      exact ⟨fun _ => .nil, hstands⟩
    · rw [(flush_spec hflush).2]
      exact ⟨fun _ => .nil,
        stands_flush (s := s.hold '>') h.done (fun _ _ => stands_of_closed hended hne) hflush⟩
    · exact absurd hc' hc

theorem held_of_closed (h : s.Calm) (hmode : s.mode ≠ .code)
    (hstep : s.step offset c next = .ok (t, both)) (ht : t.mode = .code) : t.held = [] := by
  have keeps {u : Scanner} (hu : (.ok u : Except Stop Scanner) = .ok t) (hmode' : u.mode = s.mode) :
      t.held = [] := by
    cases hu
    exact absurd (hmode'.symm.trans ht) hmode
  unfold step at hstep
  split at hstep
  · split at hstep
    · cases (eq_of_one hstep).1
      exact h (.inl ‹_›)
    · exact keeps (eq_of_one hstep).1 rfl
  · split at hstep
    · cases (eq_of_two hstep).1
      exact h (.inr ‹_›)
    · exact keeps (eq_of_one hstep).1 rfl
  · split at hstep
    · obtain ⟨k, -, rfl⟩ := closeKey_spec (eq_of_one hstep).1
      rfl
    · exact keeps (eq_of_one hstep).1 rfl
  · unfold stringStep at hstep
    split at hstep
    · split at hstep
      · rw [closeString_spec (eq_of_one hstep).1]
        rfl
      · exact keeps (eq_of_one hstep).1 rfl
    · split at hstep
      · exact keeps (eq_of_two hstep).1 rfl
      · split at hstep
        · rw [closeString_spec (eq_of_one hstep).1]
          rfl
        · exact keeps (eq_of_one hstep).1 rfl
  · exact absurd ‹_› hmode

theorem Gathers.step (h : s.Gathers (some c)) (hstep : s.step offset c next = .ok (t, both))
    (hnext : both = false → next' = next) : t.Gathers next' := by
  have hcalm : t.Calm := (keeps_step h.calm offset c next t both hstep).1
  by_cases hmode : s.mode = .code
  · rw [Scanner.step, hmode] at hstep
    obtain ⟨hheld, hdone⟩ := h.codeStep hmode hstep hnext
    exact ⟨hcalm, hheld, hdone⟩
  · refine ⟨hcalm, fun ht => held_of_closed h.calm hmode hstep ht ▸ .nil, ?_⟩
    rcases (outside_step hmode hstep).done with hdone | ⟨l, -, hname, hdone⟩
    · rw [hdone]
      exact h.done
    · rw [hdone]
      exact List.forall_mem_cons.mpr ⟨.other hname, h.done⟩

theorem Gathers.run (h : s.Gathers text.head?) (hrun : s.run offset text = .ok t) :
    t.Gathers none := by
  fun_induction Scanner.run s offset text with
  | case1 =>
    cases hrun
    exact h
  | case2 s offset c =>
    obtain ⟨⟨u, both⟩, hstep, rfl⟩ := exists_of_map_eq_ok hrun
    exact h.step hstep fun _ => rfl
  | case3 => cases hrun
  | case4 s offset c d rest u hstep ih => exact ih (h.step hstep fun htwo => Bool.noConfusion htwo) hrun
  | case5 s offset c d rest u hstep ih => exact ih (h.step hstep fun _ => rfl) hrun

theorem Gathers.close (h : s.Gathers none) {ls : List Lexeme} (hclose : s.close offset = .ok ls) :
    ∀ l ∈ ls, Stands l.token := by
  have hgathered : Gathered s.held none := by
    rcases mode_of_close hclose with hmode | hmode
    · exact h.held hmode
    · rw [h.calm (.inl hmode)]
      exact .nil
  obtain ⟨t, hflush, -, rfl⟩ := flush_of_close hclose
  intro l hl
  exact stands_flush h.done (fun _ => stands_of_held hgathered) hflush l (List.mem_reverse.mp hl)

end Scanner

theorem stands_of_scan {text : List Char} {ls : List Lexeme} (h : scan text = .ok ls) :
    ∀ l ∈ ls, Stands l.token := by
  have hstart : Scanner.Gathers {} text.head? :=
    ⟨Scanner.calm_of_held rfl, fun _ => .nil, fun l hl => absurd hl List.not_mem_nil⟩
  unfold scan at h
  split at h
  · cases h
    exact fun l hl => absurd hl List.not_mem_nil
  · split at h
    · cases h
    · rename_i s hrun
      exact (hstart.run hrun).close h

/-- The text of a name in source text is scanned as that name, and so is the text of an argument in
its brackets. Neither has brackets, quotation marks or blanks in it, and no name is a reserved
word. -/
theorem names_stand {source : String} {ls : List Lexeme} (h : lexemes source = .ok ls) :
    (∀ n, .name n ∈ tokens ls → n ≠ "" ∧ Keyword.ofWord? n = none ∧ IsPlain n ∧
      lexemes n = .ok [⟨.name n, 0⟩]) ∧
    ∀ m, .argument m ∈ tokens ls → m ≠ "" ∧ IsPlain m ∧
      lexemes ("<" ++ m ++ ">") = .ok [⟨.argument m, 0⟩] := by
  have hstands (token : Token) (hmem : token ∈ tokens ls) : Stands token := by
    obtain ⟨l, hl, rfl⟩ := List.mem_map.mp hmem
    exact stands_of_scan (scan_of_lexemes h) l hl
  constructor
  · intro n hmem
    cases hstands _ hmem with
    | @name held h hne hchars hheld hkeyword =>
      refine ⟨by simpa using hne, hkeyword, isPlain_of_chars hchars, ?_⟩
      exact lexemes_of_scan (Scanner.scan_name h hne hchars hheld)
    | other hname => cases hname
  · intro n hmem
    cases hstands _ hmem with
    | @argument m h hchars hheld =>
      have htext : "<" ++ String.ofList m.reverse ++ ">" =
          String.ofList ('<' :: m.reverse ++ ['>']) := by
        rw [← String.toList_inj]
        simp
      refine ⟨by simpa using h.ne_nil, isPlain_of_chars hchars, ?_⟩
      rw [htext]
      exact lexemes_of_scan (Scanner.scan_argument h hheld)
    | other hname => cases hname

theorem names_stand_point :
    lexemes "-.5e = <a.b>" =
        .ok [⟨.name "-.5e", 0⟩, ⟨.mark .equals, 5⟩, ⟨.argument "a.b", 7⟩] ∧
      lexemes "-.5e" = .ok [⟨.name "-.5e", 0⟩] ∧ lexemes "<a.b>" = .ok [⟨.argument "a.b", 0⟩] := by
  have hlexemes : lexemes "-.5e = <a.b>" =
      .ok [⟨.name "-.5e", 0⟩, ⟨.mark .equals, 5⟩, ⟨.argument "a.b", 7⟩] := by
    apply lexemes_of_toOption
    decide +kernel
  obtain ⟨hnames, harguments⟩ := names_stand hlexemes
  obtain ⟨-, -, -, hname⟩ := hnames "-.5e" List.mem_cons_self
  obtain ⟨-, -, hargument⟩ := harguments "a.b" (by decide)
  exact ⟨hlexemes, hname, hargument⟩

end QbCodec.Source
