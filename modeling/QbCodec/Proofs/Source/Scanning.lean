import QbCodec.Proofs.Source.Spelling

namespace QbCodec.Source.Scanner

variable {s t u : Scanner} {offset total : Nat} {c d : Char} {rest : List Char} {token : Token}

def complete (s : Scanner) (offset : Nat) (text : List Char) (total : Nat) :
    Except Stop (List Lexeme) :=
  match s.run offset text with
  | .error e => .error e
  | .ok t => t.close total

theorem run_one (h : s.step offset c rest.head? = .ok (t, false)) :
    s.run offset (c :: rest) = t.run (offset + c.utf8Size) rest := by
  cases rest with
  | nil =>
    have hstep : s.step offset c none = .ok (t, false) := h
    simp only [run, hstep, Except.map]
  | cons d rest =>
    have hstep : s.step offset c (some d) = .ok (t, false) := h
    simp only [run, hstep]

theorem run_two (h : s.step offset c (some d) = .ok (t, true)) :
    s.run offset (c :: d :: rest) = t.run (offset + c.utf8Size + d.utf8Size) rest := by
  simp only [run, h]

theorem run_error {e : Stop} (h : s.step offset c rest.head? = .error e) :
    s.run offset (c :: rest) = .error e := by
  cases rest with
  | nil =>
    have hstep : s.step offset c none = .error e := h
    simp only [run, hstep, Except.map]
  | cons d rest =>
    have hstep : s.step offset c (some d) = .error e := h
    simp only [run, hstep]

theorem complete_one (h : s.step offset c rest.head? = .ok (t, false)) :
    s.complete offset (c :: rest) total = t.complete (offset + c.utf8Size) rest total := by
  rw [complete, complete, run_one h]

theorem complete_two (h : s.step offset c (some d) = .ok (t, true)) :
    s.complete offset (c :: d :: rest) total =
      t.complete (offset + c.utf8Size + d.utf8Size) rest total := by
  rw [complete, complete, run_two h]

structure Settled (s : Scanner) : Prop where
  mode : s.mode = .code
  held : s.held = []

theorem Settled.flush (h : s.Settled) : s.flush = .ok s := by
  rw [Scanner.flush, h.held]
  rfl

theorem Settled.complete_nil (h : s.Settled) (hscripts : s.scripts = []) (offset total : Nat) :
    s.complete offset [] total = .ok s.done.reverse := by
  simp only [complete, run, close, h.mode, h.flush, hscripts]

structure Takes (s : Scanner) (token : Token) (t : Scanner) : Prop where
  settled : t.Settled
  done : tokens t.done = token :: tokens s.done
  scripts : scriptStep s.scripts.length token = some t.scripts.length

abbrev Scans (s : Scanner) (offset total : Nat) (token : Token) (text rest : List Char) : Prop :=
  ∃ t offset', Takes s token t ∧
    s.complete offset (text ++ rest) total = t.complete offset' rest total

theorem takes_push (ht : t.Settled) (hdone : t.done = s.done) (hscripts : t.scripts = s.scripts)
    (h : isScriptBracket token = false) (offset : Nat) : Takes s token (t.push token offset) where
  settled := ⟨ht.mode, ht.held⟩
  done := by
    rw [← hdone]
    rfl
  scripts := by
    rw [scriptStep_of_not_bracket _ h, ← hscripts]
    rfl

theorem exists_pushWord (ht : t.Settled) (hdone : t.done = s.done)
    (hscripts : t.scripts = s.scripts) {n : Nat}
    (hstep : scriptStep s.scripts.length token = some n) :
    ∃ u, t.pushWord token = .ok u ∧ Takes s token u := by
  unfold pushWord
  split
  · refine ⟨_, rfl, ⟨ht.mode, ht.held⟩, by rw [← hdone]; rfl, ?_⟩
    rw [← hscripts]
    rfl
  · rw [← hscripts] at hstep
    cases hopen : t.scripts with
    | nil =>
      rw [hopen] at hstep
      cases hstep
    | cons i outer =>
      refine ⟨_, rfl, ⟨ht.mode, ht.held⟩, by rw [← hdone]; rfl, ?_⟩
      rw [← hscripts, hopen]
      rfl
  · rename_i hscript hend
    have htoken : isScriptBracket token = false :=
      not_bracket_of_ne (fun h => hscript h) fun h => hend h
    exact ⟨_, rfl, takes_push ht hdone hscripts htoken _⟩

theorem codeStep_of_isNameChar (h : isNameChar c) (next : Option Char) :
    s.codeStep offset c next = .ok (s.extend c offset, false) := by
  have hne {d : Char} (hd : isNameChar d = false) : c ≠ d := ne_of_isNameChar h hd
  have h₁ : c ≠ '/' := hne (by decide)
  have h₂ : c ≠ '\'' := hne (by decide)
  have h₃ : c ≠ '"' := hne (by decide)
  have h₄ : c ≠ '#' := hne (by decide)
  have h₅ : c ≠ '\n' := hne (by decide)
  have h₆ : c ≠ ' ' := hne (by decide)
  have h₇ : c ≠ '\t' := hne (by decide)
  have h₈ : c ≠ '\r' := hne (by decide)
  have h₉ : c ≠ '<' := hne (by decide)
  have h₁₀ : c ≠ '>' := hne (by decide)
  have h₁₁ : c ≠ '.' := hne (by decide)
  have h₁₂ : c ≠ '-' := hne (by decide)
  simp [codeStep, h₁, h₂, h₃, h₄, h₅, h₆, h₇, h₈, h₉, h₁₀, h₁₁, h₁₂, mark?_of_isNameChar h, h, one,
    Except.map]

theorem codeStep_of_prolongs {next : Option Char} (h : Prolongs s.held c next) (offset : Nat) :
    s.codeStep offset c next = .ok (s.extend c offset, false) := by
  cases h with
  | name h => exact codeStep_of_isNameChar h next
  | bracket hheld h => simp [codeStep, hheld, h, one, Except.map]
  | firstPoint hheld h =>
    have htakes : s.takesPoint next = true := takesPoint_iff.mpr (.firstPoint hheld h)
    simp [codeStep, htakes, one, Except.map]
  | point hheld h =>
    have htakes : s.takesPoint next = true := takesPoint_iff.mpr (.point hheld h)
    simp [codeStep, htakes, one, Except.map]
  | minus hheld h => simp [codeStep, hheld, h, one, Except.map]

theorem extend_eq (s : Scanner) (c : Char) (offset : Nat) :
    s.extend c offset =
      { s with held := c :: s.held, start := (s.extend c offset).start } := by
  unfold extend hold
  split
  · rename_i hempty
    rw [List.isEmpty_iff.mp hempty]
  · rfl

theorem complete_extend (offset total : Nat) (rest : List Char) {w : List Char}
    (hmode : s.mode = .code) (hw : w.all isNameChar) :
    ∃ start offset', s.complete offset (w ++ rest) total =
      ({ s with held := w.reverse ++ s.held, start } : Scanner).complete offset' rest total := by
  induction w generalizing s offset with
  | nil => exact ⟨s.start, offset, rfl⟩
  | cons c w ih =>
    rw [List.all_cons, Bool.and_eq_true] at hw
    have hstep : s.step offset c (w ++ rest).head? = .ok (s.extend c offset, false) := by
      rw [step, hmode]
      exact codeStep_of_isNameChar hw.1 _
    have hextend := extend_eq s c offset
    obtain ⟨start, offset', h⟩ := ih (offset + c.utf8Size) (s := s.extend c offset)
      (by rw [hextend]; exact hmode) hw.2
    refine ⟨start, offset', ?_⟩
    rw [List.cons_append, complete_one hstep, h, hextend]
    simp

def Stops (held : List Char) : List Char → Prop
  | [] => True
  | c :: rest => Token.isStopper c ∨ c = '.' ∧ held.all isIntChar = false ∧
      held.getLast? ≠ some '<' ∧ ∀ d, rest.head? = some d → Text.isDigit d = false

theorem takesPoint_of_stops (h : s.held.all isIntChar = false) (hlast : s.held.getLast? ≠ some '<')
    {next : Option Char} (hnext : ∀ d, next = some d → Text.isDigit d = false) :
    s.takesPoint next = false := by
  unfold takesPoint
  split
  · cases next with
    | none => rfl
    | some d => exact hnext d rfl
  · have hne : (s.held.getLast? == some '<') = false := by simpa using hlast
    rw [hne, h]
    rfl

theorem takesPoint_of_settled (hs : s.Settled) {next : Option Char}
    (hnext : ∀ d, next = some d → Text.isDigit d = false) : s.takesPoint next = false := by
  unfold takesPoint
  rw [hs.held]
  cases next with
  | none => rfl
  | some d => exact hnext d rfl

theorem codeStep_flush (hflush : s.flush = .ok t) (ht : t.Settled)
    (hstop : Stops s.held (c :: rest)) :
    s.codeStep offset c rest.head? = t.codeStep offset c rest.head? := by
  have hflush' := ht.flush
  -- Whatever stops a word flushes it first, and with nothing held a flush changes nothing.
  rcases hstop with hstop | ⟨rfl, hint, hlast, hnext⟩
  · simp only [Token.isStopper, Bool.or_eq_true, beq_iff_eq] at hstop
    rcases hstop with (((((rfl | rfl) | rfl) | rfl) | rfl) | rfl) | rfl
    · simp [codeStep, hflush, hflush']
    · simp [codeStep, hflush, hflush']
    · simp [codeStep, mark?, hflush, hflush']
    · simp [codeStep, mark?, hflush, hflush']
    · simp [codeStep, mark?, hflush, hflush']
    · unfold codeStep mark?
      simp only [hflush, hflush']
      rfl
    · simp [codeStep, mark?, hflush, hflush']
  · simp [codeStep, mark?, hflush, hflush', takesPoint_of_stops hint hlast hnext,
      takesPoint_of_settled ht hnext]

theorem complete_congr (h : s.step offset c rest.head? = t.step offset c rest.head?)
    (total : Nat) : s.complete offset (c :: rest) total = t.complete offset (c :: rest) total := by
  cases rest with
  | nil =>
    have hnone : s.step offset c none = t.step offset c none := h
    simp only [complete, run, hnone]
  | cons d rest =>
    have hsome : s.step offset c (some d) = t.step offset c (some d) := h
    simp only [complete, run, hsome]

theorem complete_of_codeStep (hmode : s.mode = .code) (hflush : s.flush = .ok t) (ht : t.Settled)
    (hstep : ∀ c cs, rest = c :: cs →
      s.codeStep offset c cs.head? = t.codeStep offset c cs.head?) :
    s.complete offset rest total = t.complete offset rest total := by
  cases rest with
  | nil =>
    have hclose : s.close total = t.close total := by
      simp only [close, hmode, ht.mode, hflush, ht.flush]
    exact hclose
  | cons c cs =>
    apply complete_congr
    rw [step, step, hmode, ht.mode]
    exact hstep c cs rfl

theorem complete_flush (hmode : s.mode = .code) (hflush : s.flush = .ok t) (ht : t.Settled)
    (hstop : Stops s.held rest) : s.complete offset rest total = t.complete offset rest total := by
  apply complete_of_codeStep hmode hflush ht
  rintro c cs rfl
  exact codeStep_flush hflush ht hstop

theorem number?_of_isNameChar {w : List Char} (hname : w.all isNameChar)
    (hint : w.all isIntChar = false) : number? w = none := by
  have hpoint : w.contains '.' = false := by
    rw [List.contains_eq_mem, decide_eq_false_iff_not]
    intro hmem
    have := List.all_eq_true.mp hname '.' hmem
    revert this
    decide
  unfold number?
  rw [hpoint, hint]
  rfl

theorem isOpened_of_not_mem {w : List Char} (h : '<' ∉ w) : isOpened w = false := by
  unfold isOpened
  split
  · exact absurd List.mem_cons_self h
  · rfl

theorem isClosed_of_not_mem {w : List Char} (h : '>' ∉ w) : isClosed w = false := by
  rw [isClosed, beq_eq_false_iff_ne]
  exact fun hlast => h (List.mem_of_getLast? hlast)

theorem flush_unread {w : List Char} (hheld : t.held = w.reverse) (hne : w ≠ [])
    (hnumber : number? w = none) (hopened : isOpened w = false) (hclosed : isClosed w = false) :
    t.flush = ({ t with held := [] } : Scanner).pushWord (word w) := by
  have hword : IsHeldAs t.held.reverse (word w) := by
    rw [hheld, List.reverse_reverse]
    exact .word hnumber fun _ => hopened.trans hclosed.symm
  exact flush_of_isHeldAs (by simpa [hheld] using hne) hword

theorem flush_word {w : List Char} (hheld : t.held = w.reverse) (hname : w.all isNameChar)
    (hint : w.all isIntChar = false) :
    t.flush = ({ t with held := [] } : Scanner).pushWord (word w) := by
  have hne : w ≠ [] := by
    rintro rfl
    cases hint
  have hspecial {c : Char} (hc : isNameChar c = false) : c ∉ w := by
    intro hmem
    rw [List.all_eq_true.mp hname c hmem] at hc
    cases hc
  exact flush_unread hheld hne (number?_of_isNameChar hname hint)
    (isOpened_of_not_mem (hspecial (by decide))) (isClosed_of_not_mem (hspecial (by decide)))

theorem exists_flush_word {w : List Char} {n : Nat} (hmode : t.mode = .code)
    (hheld : t.held = w.reverse) (hdone : t.done = s.done) (hscripts : t.scripts = s.scripts)
    (hname : w.all isNameChar) (hint : w.all isIntChar = false)
    (hstep : scriptStep s.scripts.length (word w) = some n) :
    ∃ u, t.flush = .ok u ∧ Takes s (word w) u := by
  obtain ⟨u, hu, htakes⟩ := exists_pushWord (s := s) (t := { t with held := [] }) ⟨hmode, rfl⟩ hdone
    hscripts hstep
  exact ⟨u, (flush_word hheld hname hint).trans hu, htakes⟩

theorem scans_of_held {w text : List Char} {start offset' : Nat} (hs : s.Settled)
    (hheld : s.complete offset (text ++ rest) total =
      ({ s with held := w.reverse, start } : Scanner).complete offset' rest total)
    (hflush : ∃ t, ({ s with held := w.reverse, start } : Scanner).flush = .ok t ∧ Takes s token t)
    (hstop : Stops w.reverse rest) : Scans s offset total token text rest := by
  obtain ⟨t, hflush, htakes⟩ := hflush
  refine ⟨t, offset', htakes, ?_⟩
  rw [hheld]
  exact complete_flush (s := { s with held := w.reverse, start }) hs.mode hflush htakes.settled
    hstop

theorem scans_word (offset total : Nat) (rest : List Char) {w : List Char} {n : Nat}
    (hs : s.Settled) (hname : w.all isNameChar) (hint : w.all isIntChar = false)
    (hstep : scriptStep s.scripts.length (word w) = some n) (hstop : Stops w.reverse rest) :
    Scans s offset total (word w) w rest := by
  obtain ⟨start, offset', hheld⟩ := complete_extend offset total rest hs.mode hname
  rw [hs.held, List.append_nil] at hheld
  apply scans_of_held hs hheld _ hstop
  exact exists_flush_word hs.mode rfl rfl rfl hname hint hstep

theorem step_minus (hs : s.Settled) (hd : Text.isDigit d ∨ d = '.') :
    s.step offset '-' (some d) = .ok ({ s with held := ['-'], start := offset }, false) := by
  have hprolongs : Prolongs s.held '-' (some d) := .minus hs.held (by simpa using hd)
  rw [step, hs.mode]
  simpa [extend, hs.held, hs.mode] using codeStep_of_prolongs hprolongs offset

theorem takesPoint_of_int (hne : s.held ≠ []) (hint : s.held.all isIntChar) (next : Option Char) :
    s.takesPoint next = true := by
  have hempty : s.held.isEmpty = false := List.isEmpty_eq_false_iff.mpr hne
  unfold takesPoint
  rw [hempty, hint, Bool.or_true]
  rfl

theorem step_takesPoint {next : Option Char} (htakes : s.takesPoint next = true) (offset : Nat)
    (hmode : s.mode = .code) : s.step offset '.' next = .ok (s.extend '.' offset, false) := by
  rw [step, hmode]
  exact codeStep_of_prolongs (takesPoint_iff.mp htakes) offset

theorem step_point {next : Option Char} (htakes : s.takesPoint next = true) (offset : Nat)
    (hmode : s.mode = .code) (hne : s.held ≠ []) :
    s.step offset '.' next = .ok (s.hold '.', false) := by
  have hempty : s.held.isEmpty = false := List.isEmpty_eq_false_iff.mpr hne
  rw [step_takesPoint htakes offset hmode, extend, hempty]
  rfl

theorem all_isNameChar_of_digits {w : List Char} (h : w.all Text.isDigit) : w.all isNameChar := by
  rw [List.all_eq_true] at h ⊢
  exact fun c hc => isNameChar_of_isDigit (h c hc)

theorem all_isIntChar_of_digits {w : List Char} (h : w.all Text.isDigit) : w.all isIntChar := by
  rw [List.all_eq_true] at h ⊢
  exact fun c hc => isIntChar_of_isDigit (h c hc)

theorem complete_signed (offset total : Nat) (rest : List Char) (negative : Bool) {w : List Char}
    (hs : s.Settled) (hdigits : w.all Text.isDigit) {d : Char} (hnext : (w ++ rest).head? = some d)
    (hd : Text.isDigit d ∨ d = '.') :
    ∃ start offset', s.complete offset ((if negative then ['-'] else []) ++ (w ++ rest)) total =
      ({ s with held := ((if negative then ['-'] else []) ++ w).reverse, start } :
        Scanner).complete offset' rest total := by
  have hname := all_isNameChar_of_digits hdigits
  cases negative with
  | false =>
    obtain ⟨start, offset', h⟩ := complete_extend offset total rest hs.mode hname
    rw [hs.held] at h
    exact ⟨start, offset', by simpa using h⟩
  | true =>
    have hminus : s.step offset '-' (w ++ rest).head? =
        .ok ({ s with held := ['-'], start := offset }, false) := by
      rw [hnext]
      exact step_minus hs hd
    obtain ⟨start, offset', h⟩ := complete_extend
      (s := { s with held := ['-'], start := offset }) (offset + '-'.utf8Size) total rest hs.mode
      hname
    refine ⟨start, offset', ?_⟩
    simp only [if_true, List.singleton_append]
    rw [complete_one hminus, h]
    simp

theorem complete_whole (offset total : Nat) (rest : List Char) (negative : Bool) {w : List Char}
    (hs : s.Settled) (hne : w ≠ []) (hdigits : w.all Text.isDigit) :
    ∃ start offset', s.complete offset ((if negative then ['-'] else []) ++ (w ++ rest)) total =
      ({ s with held := ((if negative then ['-'] else []) ++ w).reverse, start } :
        Scanner).complete offset' rest total := by
  obtain ⟨c, w, rfl⟩ := List.exists_cons_of_ne_nil hne
  exact complete_signed offset total rest negative hs hdigits rfl
    (.inl (List.all_eq_true.mp hdigits c List.mem_cons_self))

theorem all_isIntChar_signed {negative : Bool} {w : List Char} (h : w.all Text.isDigit) :
    ((if negative then ['-'] else []) ++ w).all isIntChar := by
  rw [List.all_append, all_isIntChar_of_digits h]
  cases negative <;> rfl

theorem complete_decimal (offset total : Nat) (rest : List Char) (negative : Bool)
    {whole fraction : List Char} (hs : s.Settled) (hne : whole ++ fraction ≠ [])
    (hwhole : whole.all Text.isDigit) (hfraction : fraction.all Text.isDigit) :
    ∃ start offset',
      s.complete offset ((if negative then ['-'] else []) ++ (whole ++ '.' :: (fraction ++ rest)))
          total =
        ({ s with
          held := ((if negative then ['-'] else []) ++ (whole ++ '.' :: fraction)).reverse, start } :
          Scanner).complete offset' rest total := by
  have hnext : ∃ d, (whole ++ '.' :: (fraction ++ rest)).head? = some d ∧
      (Text.isDigit d ∨ d = '.') := by
    cases whole with
    | nil => exact ⟨'.', rfl, .inr rfl⟩
    | cons c cs => exact ⟨c, rfl, .inl (List.all_eq_true.mp hwhole c List.mem_cons_self)⟩
  obtain ⟨d, hhead, hd⟩ := hnext
  obtain ⟨start, offset₁, h₁⟩ :=
    complete_signed offset total ('.' :: (fraction ++ rest)) negative hs hwhole hhead hd
  have htakes : ({ s with held := ((if negative then ['-'] else []) ++ whole).reverse, start } :
      Scanner).takesPoint (fraction ++ rest).head? = true := by
    by_cases hheld : (if negative then ['-'] else []) ++ whole = []
    · -- With nothing held, the point must stand before a digit.
      obtain ⟨-, rfl⟩ := List.append_eq_nil_iff.mp hheld
      obtain ⟨c, cs, rfl⟩ := List.exists_cons_of_ne_nil hne
      have hc : Text.isDigit c := List.all_eq_true.mp hfraction c List.mem_cons_self
      simp [takesPoint, hheld, hc]
    · apply takesPoint_of_int
      · exact fun h => hheld (List.reverse_eq_nil_iff.mp h)
      · rw [List.all_reverse]
        exact all_isIntChar_signed hwhole
  have hpoint := step_takesPoint htakes offset₁ hs.mode
  rw [extend_eq] at hpoint
  generalize (Scanner.extend _ '.' offset₁).start = start₂ at hpoint
  obtain ⟨start', offset₂, h₂⟩ := complete_extend (offset₁ + '.'.utf8Size) total rest
    (s := { s with
      held := '.' :: ((if negative then ['-'] else []) ++ whole).reverse, start := start₂ })
    hs.mode (all_isNameChar_of_digits hfraction)
  refine ⟨start', offset₂, ?_⟩
  rw [h₁, complete_one hpoint, h₂]
  simp

theorem exists_flush_number {w : List Char} (hmode : t.mode = .code)
    (hheld : t.held = w.reverse) (hne : w ≠ []) (hdone : t.done = s.done)
    (hscripts : t.scripts = s.scripts) (hnumber : number? w = some token)
    (hbracket : isScriptBracket token = false) : ∃ u, t.flush = .ok u ∧ Takes s token u := by
  have htakes : Takes s token (({ t with held := [] } : Scanner).push token t.start) :=
    takes_push (t := { t with held := [] }) ⟨hmode, rfl⟩ hdone hscripts hbracket t.start
  refine ⟨_, ?_, htakes⟩
  have hempty : t.held.isEmpty = false := by
    rw [hheld, List.isEmpty_reverse, List.isEmpty_eq_false_iff]
    exact hne
  unfold flush
  rw [hempty, hheld, List.reverse_reverse]
  simp only [Bool.false_eq_true, if_false, hnumber]

theorem signedNumeral_eq (n : Int) : Text.signedNumeral n =
    (if decide (n < 0) then ['-'] else []) ++ Text.numeral n.natAbs := by
  by_cases h : n < 0 <;> simp [Text.signedNumeral, h]

theorem isScriptBracket_of_number? {w : List Char} (h : number? w = some token) :
    isScriptBracket token = false := by
  rcases cases_number h with ⟨v, rfl, -⟩ | ⟨v, rfl, -⟩ <;> rfl

theorem number?_of_int {w : List Char} (hint : w.all isIntChar) :
    number? w = (int32? w).map .int := by
  have hpoint : w.contains '.' = false := by
    rw [List.contains_eq_mem, decide_eq_false_iff_not]
    intro hmem
    have := List.all_eq_true.mp hint '.' hmem
    revert this
    decide
  unfold number?
  rw [hpoint, hint]
  rfl

theorem isFloatChar_of_isIntChar (h : isIntChar c) : isFloatChar c := by
  rw [isFloatChar, h, Bool.or_true]

theorem all_isFloatChar_of_int {w : List Char} (h : w.all isIntChar) : w.all isFloatChar := by
  rw [List.all_eq_true] at h ⊢
  exact fun c hc => isFloatChar_of_isIntChar (h c hc)

theorem all_isFloatChar_pointed (negative : Bool) {whole fraction : List Char}
    (hwhole : whole.all Text.isDigit) (hfraction : fraction.all Text.isDigit) :
    ((if negative then ['-'] else []) ++ (whole ++ '.' :: fraction)).all isFloatChar := by
  rw [← List.append_assoc, List.all_append, List.all_cons,
    all_isFloatChar_of_int (all_isIntChar_signed hwhole),
    all_isFloatChar_of_int (all_isIntChar_of_digits hfraction)]
  rfl

theorem number?_of_point (negative : Bool) {whole fraction : List Char}
    (hwhole : whole.all Text.isDigit) (hfraction : fraction.all Text.isDigit) :
    number? ((if negative then ['-'] else []) ++ (whole ++ '.' :: fraction)) =
      (Single.parse? ((if negative then ['-'] else []) ++ (whole ++ '.' :: fraction))).map
        .float := by
  have hpoint : ((if negative then ['-'] else []) ++ (whole ++ '.' :: fraction)).contains '.' =
      true := by
    rw [List.contains_eq_mem, decide_eq_true_eq]
    simp
  unfold number?
  rw [hpoint, all_isFloatChar_pointed negative hwhole hfraction]
  rfl

theorem number?_signedNumeral (v : Int32) :
    number? (Text.signedNumeral v.toInt) = some (.int v) := by
  have hint : (Text.signedNumeral v.toInt).all isIntChar := by
    rw [signedNumeral_eq]
    exact all_isIntChar_signed (Text.all_isDigit_numeral _)
  rw [number?_of_int hint, int32?, Text.integer?_signedNumeral]
  simp only [if_pos (And.intro v.le_toInt v.toInt_lt)]
  simp

theorem scans_int (offset total : Nat) (rest : List Char) (hs : s.Settled) (v : Int32)
    (hstop : Stops (Text.signedNumeral v.toInt).reverse rest) :
    Scans s offset total (.int v) (Text.signedNumeral v.toInt) rest := by
  have hne := Text.numeral_ne_nil v.toInt.natAbs
  obtain ⟨start, offset', hheld⟩ := complete_whole offset total rest
    (decide (v.toInt < 0)) hs hne (Text.all_isDigit_numeral _)
  rw [← List.append_assoc, ← signedNumeral_eq] at hheld
  have hnumeral : Text.signedNumeral v.toInt ≠ [] := by simp [signedNumeral_eq, hne]
  apply scans_of_held hs hheld _ hstop
  exact exists_flush_number hs.mode rfl hnumeral rfl rfl (number?_signedNumeral v) rfl

theorem sourceText_signed {v : Single} {whole fraction : List Char}
    (h : v.sourceText = v.sign ++ (whole ++ '.' :: fraction)) :
    v.sourceText = (if v.isNegative then ['-'] else []) ++ (whole ++ '.' :: fraction) := h

theorem number?_sourceText {v : Single} (h : v.isFinite) :
    number? v.sourceText = some (.float v) := by
  obtain ⟨whole, fraction, htext, -, -, hwhole, hfraction, hparse⟩ := Single.sourceText_spec h
  have hnumber := number?_of_point v.isNegative hwhole hfraction
  rw [← sourceText_signed htext, hparse] at hnumber
  exact hnumber

theorem complete_float (offset total : Nat) (rest : List Char) (hs : s.Settled) {v : Single}
    (h : v.isFinite) :
    ∃ start offset', s.complete offset (v.sourceText ++ rest) total =
      ({ s with held := v.sourceText.reverse, start } : Scanner).complete offset' rest total := by
  obtain ⟨whole, fraction, htext, hne, -, hwhole, hfraction, -⟩ := Single.sourceText_spec h
  have hnonempty : whole ++ fraction ≠ [] := by simp [hne]
  obtain ⟨start, offset', hheld⟩ :=
    complete_decimal offset total rest v.isNegative hs hnonempty hwhole hfraction
  refine ⟨start, offset', ?_⟩
  rw [sourceText_signed htext]
  simpa using hheld

theorem sourceText_ne_nil {v : Single} (h : v.isFinite) : v.sourceText ≠ [] := by
  obtain ⟨whole, fraction, htext, -⟩ := Single.sourceText_spec h
  simp [sourceText_signed htext]

theorem scans_float (offset total : Nat) (rest : List Char) (hs : s.Settled) {v : Single}
    (h : v.isFinite) (hstop : Stops v.sourceText.reverse rest) :
    Scans s offset total (.float v) v.sourceText rest := by
  obtain ⟨start, offset', hheld⟩ := complete_float offset total rest hs h
  apply scans_of_held hs hheld _ hstop
  exact exists_flush_number hs.mode rfl (sourceText_ne_nil h) rfl rfl (number?_sourceText h) rfl

theorem complete_escaped (offset total : Nat) (cs rest : List Char)
    (hmode : s.mode = .string false)
    (hlast : cs.getLast? = some '\\' → rest.head? ≠ some '\'') :
    ∃ offset', s.complete offset (cs.flatMap Script.escapeChar ++ rest) total =
      ({ s with held := cs.reverse ++ s.held } : Scanner).complete offset' rest total := by
  induction cs generalizing s offset with
  | nil => exact ⟨offset, rfl⟩
  | cons c cs ih =>
    have hlast' : cs.getLast? = some '\\' → rest.head? ≠ some '\'' := by
      intro he
      apply hlast
      rw [List.getLast?_cons, he]
      rfl
    have hheld : (c :: cs).reverse ++ s.held = cs.reverse ++ (s.hold c).held := by simp [hold]
    by_cases hc : c = '\''
    · subst hc
      have hstep : s.step offset '\\' (some '\'') = .ok (s.hold '\'', true) := by
        rw [step, hmode]
        rfl
      obtain ⟨offset', h⟩ := ih (offset + '\\'.utf8Size + '\''.utf8Size) (s := s.hold '\'')
        hmode hlast'
      refine ⟨offset', ?_⟩
      rw [hheld]
      exact (complete_two hstep).trans h
    · have hnext : c = '\\' → (cs.flatMap Script.escapeChar ++ rest).head? ≠ some '\'' := by
        rintro rfl
        cases cs with
        | nil => exact hlast rfl
        | cons d cs =>
          by_cases hd : d = '\''
          · simp [Script.escapeChar, hd]
          · simp [Script.escapeChar, hd]
      have hstep : s.step offset c (cs.flatMap Script.escapeChar ++ rest).head? =
          .ok (s.hold c, false) := by
        rw [step, hmode]
        simp only [stringStep, Bool.false_eq_true, if_false]
        rw [if_neg, if_neg hc]
        · rfl
        · rintro ⟨rfl | rfl, hquote⟩
          · exact hnext rfl hquote
          · exact hc rfl
      obtain ⟨offset', h⟩ := ih (offset + c.utf8Size) (s := s.hold c) hmode hlast'
      refine ⟨offset', ?_⟩
      rw [hheld]
      have hescape : (c :: cs).flatMap Script.escapeChar ++ rest =
          c :: (cs.flatMap Script.escapeChar ++ rest) := by
        simp [Script.escapeChar, hc]
      rw [hescape]
      exact (complete_one hstep).trans h

theorem complete_hold (offset total : Nat) (rest : List Char) {cs : List Char}
    (hmode : s.mode = .string true ∨ s.mode = .rawKey) (hcs : ∀ c ∈ cs, c ≠ '"') :
    ∃ offset', s.complete offset (cs ++ rest) total =
      ({ s with held := cs.reverse ++ s.held } : Scanner).complete offset' rest total := by
  induction cs generalizing s offset with
  | nil => exact ⟨offset, rfl⟩
  | cons c cs ih =>
    obtain ⟨hc, hcs⟩ := List.forall_mem_cons.mp hcs
    have hstep : s.step offset c (cs ++ rest).head? = .ok (s.hold c, false) := by
      rcases hmode with hmode | hmode
      · rw [step, hmode]
        simp [stringStep, hc, one, Except.map]
      · rw [step, hmode]
        simp [hc, one, Except.map]
    obtain ⟨offset', h⟩ := ih (offset + c.utf8Size) (s := s.hold c) hmode hcs
    refine ⟨offset', ?_⟩
    have hheld : (c :: cs).reverse ++ s.held = cs.reverse ++ (s.hold c).held := by simp [hold]
    rw [hheld]
    exact (complete_one hstep).trans h

theorem scans_of_close {q : Char} {text : List Char} {offset' : Nat}
    (hheld : s.complete offset (text ++ rest) total = t.complete offset' (q :: rest) total)
    (hclose : t.step offset' q rest.head? = .ok (u, false)) (htakes : Takes s token u) :
    Scans s offset total token text rest := by
  refine ⟨u, offset' + q.utf8Size, htakes, ?_⟩
  rw [hheld, complete_one hclose]

theorem exists_closeString (wide : Bool) {text : String} (hheld : t.held = text.toList.reverse)
    (hdone : t.done = s.done) (hscripts : t.scripts = s.scripts) (htext : isStringText text) :
    ∃ u, t.closeString wide = .ok u ∧
      Takes s (if wide then .wideString text else .string text) u := by
  have hchar : ∀ c ∈ text.toList, c ≠ '"' ∧ isLineEnd c = false := by
    simpa [isStringText] using htext
  have hfilter : t.held.reverse.filter (fun c => !isLineEnd c) = text.toList := by
    rw [hheld, List.reverse_reverse, List.filter_eq_self]
    intro c hc
    rw [(hchar c hc).2]
    rfl
  have hquote : text.toList.contains '"' = false := by
    rw [List.contains_eq_mem, decide_eq_false_iff_not]
    exact fun hmem => (hchar '"' hmem).1 rfl
  unfold closeString
  simp only [hfilter, hquote, Bool.false_eq_true, if_false, String.ofList_toList]
  refine ⟨_, rfl, ?_⟩
  exact takes_push (t := { t with mode := .code, held := [] }) ⟨rfl, rfl⟩ hdone hscripts
    (by cases wide <;> rfl) _

theorem scans_string (offset total : Nat) (rest : List Char) (hs : s.Settled) {text : String}
    (htext : isStringText text) (hlast : text.toList.getLast? ≠ some '\\')
    (hrest : rest.head? ≠ some '\'') :
    Scans s offset total (.string text) (Token.spelling (.string text)) rest := by
  have hopen : s.step offset '\'' (text.toList.flatMap Script.escapeChar ++ '\'' :: rest).head? =
      .ok ({ s with mode := .string false, start := offset }, false) := by
    rw [step, hs.mode]
    simp [codeStep, enter, hs.flush, one, Except.map]
  obtain ⟨offset', h⟩ := complete_escaped (offset + '\''.utf8Size) total text.toList ('\'' :: rest)
    (s := { s with mode := .string false, start := offset }) rfl (fun he => absurd he hlast)
  have hheld : text.toList.reverse ++ s.held = text.toList.reverse := by
    rw [hs.held, List.append_nil]
  obtain ⟨t, hclose, htakes⟩ := exists_closeString false (s := s)
    (t := { s with mode := .string false, start := offset, held := text.toList.reverse })
    rfl rfl rfl htext
  have hend : ({ s with mode := .string false, start := offset, held := text.toList.reverse } :
      Scanner).step offset' '\'' rest.head? = .ok (t, false) := by
    simp only [step, stringStep, Bool.false_eq_true, if_false]
    rw [if_neg (fun hand => hrest hand.2), if_pos trivial, hclose]
    rfl
  have htail : Token.spelling (.string text) ++ rest =
      '\'' :: (text.toList.flatMap Script.escapeChar ++ '\'' :: rest) := by
    simp [Token.spelling]
  simp only [hheld] at h
  apply scans_of_close _ hend htakes
  rw [htail, complete_one hopen, h]

theorem scans_wideString (offset total : Nat) (rest : List Char) (hs : s.Settled) {text : String}
    (htext : isStringText text) :
    Scans s offset total (.wideString text) (Token.spelling (.wideString text)) rest := by
  have hquote : ∀ c ∈ text.toList, c ≠ '"' := by
    intro c hc
    have hchar : ∀ c ∈ text.toList, c ≠ '"' ∧ isLineEnd c = false := by
      simpa [isStringText] using htext
    exact (hchar c hc).1
  have hopen : s.step offset '"' (text.toList ++ '"' :: rest).head? =
      .ok ({ s with mode := .string true, start := offset }, false) := by
    rw [step, hs.mode]
    simp [codeStep, enter, hs.flush, one, Except.map]
  obtain ⟨offset', h⟩ := complete_hold (offset + '"'.utf8Size) total ('"' :: rest)
    (s := { s with mode := .string true, start := offset }) (.inl rfl) hquote
  have hheld : text.toList.reverse ++ s.held = text.toList.reverse := by
    rw [hs.held, List.append_nil]
  obtain ⟨t, hclose, htakes⟩ := exists_closeString true (s := s)
    (t := { s with mode := .string true, start := offset, held := text.toList.reverse })
    rfl rfl rfl htext
  have hend : ({ s with mode := .string true, start := offset, held := text.toList.reverse } :
      Scanner).step offset' '"' rest.head? = .ok (t, false) := by
    simp only [step, stringStep, if_true, hclose]
    rfl
  have htail : Token.spelling (.wideString text) ++ rest =
      '"' :: (text.toList ++ '"' :: rest) := by
    simp [Token.spelling]
  simp only [hheld] at h
  apply scans_of_close _ hend htakes
  rw [htail, complete_one hopen, h]

theorem scans_rawKey (offset total : Nat) (rest : List Char) (hs : s.Settled) (k : Key) :
    Scans s offset total (.rawKey k) (rawKeyText k) rest := by
  have hopen : s.step offset '#' (some '"') =
      .ok ({ s with mode := .rawKey, start := offset }, true) := by
    rw [step, hs.mode]
    simp [codeStep, enter, hs.flush, two, Except.map]
  have hquote : ∀ c ∈ k.spell.toList, c ≠ '"' := fun c hc => (Key.not_blank_of_mem_spell hc).2
  obtain ⟨offset', h⟩ := complete_hold (offset + '#'.utf8Size + '"'.utf8Size) total ('"' :: rest)
    (s := { s with mode := .rawKey, start := offset }) (.inr rfl) hquote
  have hheld : k.spell.toList.reverse ++ s.held = k.spell.toList.reverse := by
    rw [hs.held, List.append_nil]
  have htrim : Text.trim k.spell.toList = k.spell.toList :=
    Text.trim_of_not_blank fun c hc => (Key.not_blank_of_mem_spell hc).1
  have hclose : ({ s with mode := .rawKey, start := offset, held := k.spell.toList.reverse } :
      Scanner).step offset' '"' rest.head? =
      .ok (({ s with mode := .code, held := [], start := offset } : Scanner).push (.rawKey k)
        offset, false) := by
    simp only [step, closeKey, if_true, List.reverse_reverse, htrim, Key.parseText?_spell]
    rfl
  have htakes : Takes s (.rawKey k)
      (({ s with mode := .code, held := [], start := offset } : Scanner).push (.rawKey k) offset) :=
    takes_push (s := s) (t := { s with mode := .code, held := [], start := offset }) ⟨rfl, rfl⟩
      rfl rfl rfl offset
  have htail : rawKeyText k ++ rest = '#' :: '"' :: (k.spell.toList ++ '"' :: rest) := by
    simp [rawKeyText]
  simp only [hheld] at h
  apply scans_of_close _ hclose htakes
  rw [htail, complete_two hopen, h]

theorem step_close (offset : Nat) (hmode : s.mode = .code) (hne : s.held ≠ [])
    (hflush : (s.hold '>').flush = .ok t) (next : Option Char) :
    s.step offset '>' next = .ok (t, false) := by
  have hempty : s.held.isEmpty = false := List.isEmpty_eq_false_iff.mpr hne
  rw [step, hmode]
  simp [codeStep, hempty, hflush, one, Except.map]

theorem isClosed_concat (w : List Char) : isClosed (w ++ ['>']) = true := by
  rw [isClosed, List.getLast?_concat]
  rfl

theorem scans_bracketed (offset total : Nat) (rest : List Char) (hs : s.Settled) {w : List Char}
    (hne : w ≠ []) (hword : word ('<' :: w ++ ['>']) = token)
    (hbracket : isScriptBracket token = false)
    (hheld : ∀ offset, ∃ start offset',
      ({ s with held := ['<'], start := offset } : Scanner).complete (offset + '<'.utf8Size)
          (w ++ '>' :: rest) total =
        ({ s with held := w.reverse ++ ['<'], start } : Scanner).complete offset' ('>' :: rest)
          total)
    (hopen : ∀ c, w.head? = some c → isNameChar c ∨ c = '.') :
    Scans s offset total token ('<' :: w ++ ['>']) rest := by
  obtain ⟨start, offset', h⟩ := hheld offset
  have hfirst : s.step offset '<' (w ++ '>' :: rest).head? =
      .ok ({ s with held := ['<'], start := offset }, false) := by
    obtain ⟨c, w, rfl⟩ := List.exists_cons_of_ne_nil hne
    have hc : isNameChar c = true ∨ c = '.' := hopen c rfl
    rw [step, hs.mode]
    simp [codeStep, hs.held, hs.mode, hc, one, Except.map, extend]
  have hflush : (({ s with held := w.reverse ++ ['<'], start } : Scanner).hold '>').flush =
      .ok (({ s with held := [], start } : Scanner).push token start) := by
    have htext : ('>' :: (w.reverse ++ ['<'])).reverse = '<' :: w ++ ['>'] := by simp
    have hnumber : number? ('<' :: w ++ ['>']) = none := by
      have hint : ('<' :: w ++ ['>']).all isIntChar = false := rfl
      have hfloat : ('<' :: w ++ ['>']).all isFloatChar = false := rfl
      unfold number?
      rw [hint, hfloat, Bool.and_false]
      rfl
    have hclosed : isClosed ('<' :: w ++ ['>']) = true := isClosed_concat _
    have hheldAs : IsHeldAs ('>' :: (w.reverse ++ ['<'])).reverse token := by
      rw [htext, ← hword]
      exact .word hnumber fun _ => hclosed.symm
    rw [flush_of_isHeldAs (s := ({ s with held := w.reverse ++ ['<'], start } : Scanner).hold '>')
      (List.cons_ne_nil _ _) hheldAs]
    unfold pushWord
    split
    · cases hbracket
    · cases hbracket
    · rfl
  have hlast : ({ s with held := w.reverse ++ ['<'], start } : Scanner).step offset' '>' rest.head? =
      .ok (({ s with held := [], start } : Scanner).push token start, false) :=
    step_close (s := { s with held := w.reverse ++ ['<'], start }) offset' hs.mode (by simp) hflush
      rest.head?
  have htakes : Takes s token (({ s with held := [], start } : Scanner).push token start) :=
    takes_push (s := s) (t := { s with held := [], start }) ⟨hs.mode, rfl⟩ rfl rfl hbracket start
  have htail : '<' :: w ++ ['>'] ++ rest = '<' :: (w ++ '>' :: rest) := by simp
  apply scans_of_close _ hlast htakes
  rw [htail, complete_one hfirst, h]

theorem word_bracketed {w : List Char} (hne : w ≠ [])
    (hkeyword : Keyword.ofWord? (String.ofList ('<' :: w ++ ['>'])) = none) :
    word ('<' :: w ++ ['>']) = .argument (String.ofList w) := by
  have hpos : 0 < w.length := List.length_pos_iff.mpr hne
  have hlong : 2 < ('<' :: w ++ ['>']).length := by simpa using hpos
  have hclosed : isClosed ('<' :: w ++ ['>']) = true := isClosed_concat _
  have hopened : isOpened ('<' :: w ++ ['>']) = true := rfl
  unfold word
  simp only [hkeyword, hlong, hclosed, hopened, decide_true, Bool.and_true, if_true]
  simp

theorem scans_argument (offset total : Nat) (rest : List Char) (hs : s.Settled) {text : String}
    (hne : text ≠ "") (htext : text.toList.all isNameChar) :
    Scans s offset total (.argument text) (Token.spelling (.argument text)) rest := by
  have hnil : text.toList ≠ [] := by simpa using hne
  have hword : word ('<' :: text.toList ++ ['>']) = .argument text := by
    rw [word_bracketed hnil (ofWord?_argument hnil htext), String.ofList_toList]
  apply scans_bracketed offset total rest hs hnil hword rfl
  · intro offset
    exact complete_extend (offset + '<'.utf8Size) total ('>' :: rest)
      (s := { s with held := ['<'], start := offset }) hs.mode htext |>.imp fun _ h => h
  · intro c hc
    left
    exact List.all_eq_true.mp htext c (List.mem_of_mem_head? hc)

theorem scans_allArgs (offset total : Nat) (rest : List Char) (hs : s.Settled) :
    Scans s offset total (.keyword .allArgs) (Token.spelling (.keyword .allArgs)) rest := by
  have hpoint (held : List Char) (start offset : Nat) (rest : List Char) :
      ({ s with held := held ++ ['<'], start } : Scanner).complete offset ('.' :: rest) total =
        ({ s with held := '.' :: held ++ ['<'], start } : Scanner).complete
          (offset + '.'.utf8Size) rest total := by
    apply complete_one
    have htakes : ({ s with held := held ++ ['<'], start } : Scanner).takesPoint rest.head? =
        true := by
      simp [takesPoint]
    exact step_point htakes offset hs.mode (by simp)
  apply scans_bracketed offset total rest hs (w := ['.', '.', '.']) (by simp)
    (word_spelling .allArgs) rfl
  · intro offset
    refine ⟨offset, offset + '<'.utf8Size + '.'.utf8Size + '.'.utf8Size + '.'.utf8Size, ?_⟩
    have first := hpoint [] offset (offset + '<'.utf8Size) ('.' :: '.' :: '>' :: rest)
    have second := hpoint ['.'] offset (offset + '<'.utf8Size + '.'.utf8Size) ('.' :: '>' :: rest)
    have third := hpoint ['.', '.'] offset
      (offset + '<'.utf8Size + '.'.utf8Size + '.'.utf8Size) ('>' :: rest)
    exact first.trans (second.trans third)
  · intro c hc
    right
    cases hc
    rfl

theorem spaced_allows {m : Mark} (hspaced : m.isSpaced)
    (hrest : ∀ c, rest.head? = some c → Token.allows (.mark m) c) :
    rest.head? = none ∨ rest.head? = some ' ' ∨ rest.head? = some '\n' := by
  cases hhead : rest.head? with
  | none => exact .inl rfl
  | some c =>
    right
    have hc := hrest c hhead
    have hne : m ≠ .dot := by
      rintro rfl
      cases hspaced
    simpa [Token.allows, hspaced, hne] using hc

theorem step_mark (hs : s.Settled) (offset : Nat) {m : Mark}
    (hrest : ∀ c, rest.head? = some c → Token.allows (.mark m) c) :
    (∃ c, m.spelling = [c] ∧
      s.step offset c rest.head? = .ok (s.push (.mark m) offset, false)) ∨
    (∃ c d, m.spelling = [c, d] ∧
      s.step offset c (some d) = .ok (s.push (.mark m) offset, true)) := by
  have hflush := hs.flush
  have hcode (c : Char) (next : Option Char) : s.step offset c next = s.codeStep offset c next := by
    rw [step, hs.mode]
  simp only [hcode]
  have hname : isNameChar ' ' = false ∧ isNameChar '\n' = false ∧ isNameChar '=' = false ∧
      isNameChar '<' = false := by decide
  have hdigit : Text.isDigit ' ' = false ∧ Text.isDigit '\n' = false := by decide
  by_cases hspaced : m.isSpaced
  · have hnext := spaced_allows hspaced hrest
    cases m <;> first
      | exact absurd hspaced (by decide)
      | exact .inl ⟨_, rfl, by
          rcases hnext with h | h | h <;>
            simp [codeStep, mark?, h, hs.held, hflush, one, Except.map, hname, hdigit]⟩
      | exact .inr ⟨_, _, rfl, by
          simp [codeStep, mark?, hs.held, hflush, Except.map, hname]⟩
  · by_cases hdot : m = .dot
    · subst hdot
      have htakes : s.takesPoint rest.head? = false := by
        apply takesPoint_of_settled hs
        intro d hd
        simpa [Token.allows] using hrest d hd
      left
      exact ⟨_, rfl, by simp [codeStep, mark?, hs.held, hflush, Except.map, htakes]⟩
    · cases m <;> first
        | exact absurd (by decide) hspaced
        | exact absurd rfl hdot
        | exact .inl ⟨_, rfl, by simp [codeStep, mark?, hs.held, hflush, Except.map, one]⟩
        | exact .inr ⟨_, _, rfl, by simp [codeStep, mark?, hflush, Except.map]⟩

theorem scans_mark (offset total : Nat) (rest : List Char) (hs : s.Settled) {m : Mark}
    (hrest : ∀ c, rest.head? = some c → Token.allows (.mark m) c) :
    Scans s offset total (.mark m) m.spelling rest := by
  have htakes : Takes s (.mark m) (s.push (.mark m) offset) := takes_push hs rfl rfl rfl offset
  rcases step_mark hs offset hrest with ⟨c, hm, hstep⟩ | ⟨c, d, hm, hstep⟩
  · refine ⟨s.push (.mark m) offset, offset + c.utf8Size, htakes, ?_⟩
    rw [hm]
    exact complete_one hstep
  · refine ⟨s.push (.mark m) offset, offset + c.utf8Size + d.utf8Size, htakes, ?_⟩
    rw [hm]
    exact complete_two hstep

theorem stops_word {w : List Char} (hint : w.all isIntChar = false) (hopen : w.head? ≠ some '<')
    (hrest : ∀ c, rest.head? = some c → Token.isStopper c || c == '.')
    (hpoint : ∀ d, rest.take 2 = ['.', d] → Text.isDigit d = false) : Stops w.reverse rest := by
  cases rest with
  | nil => trivial
  | cons c rest =>
    have hc := hrest c rfl
    rw [Bool.or_eq_true, beq_iff_eq] at hc
    rcases hc with hstop | rfl
    · exact .inl hstop
    · refine .inr ⟨rfl, by rwa [List.all_reverse], by rwa [List.getLast?_reverse], ?_⟩
      intro d hd
      apply hpoint
      cases rest with
      | nil => cases hd
      | cons e rest =>
        cases hd
        rfl

theorem stops_int {w : List Char} (hrest : ∀ c, rest.head? = some c → Token.isStopper c) :
    Stops w rest := by
  cases rest with
  | nil => trivial
  | cons c rest => exact .inl (hrest c rfl)

theorem sourceText_not_int {v : Single} (h : v.isFinite) :
    v.sourceText.all isIntChar = false ∧ v.sourceText.head? ≠ some '<' := by
  obtain ⟨whole, fraction, htext, hne, -, hwhole, -⟩ := Single.sourceText_spec h
  constructor
  · rw [List.all_eq_false]
    exact ⟨'.', by simp [htext], by decide⟩
  · obtain ⟨c, whole, rfl⟩ := List.exists_cons_of_ne_nil hne
    rw [sourceText_signed htext]
    rw [List.all_cons, Bool.and_eq_true] at hwhole
    cases v.isNegative with
    | true => simp
    | false =>
      intro hhead
      cases hhead
      exact absurd hwhole.1 (by decide)

theorem head?_of_isWord {text : String} (h : IsWord text) : text.toList.head? ≠ some '<' := by
  intro hhead
  have := List.all_eq_true.mp h.chars '<' (List.mem_of_mem_head? hhead)
  exact absurd this (by decide)

theorem scans_token (offset total : Nat) (rest : List Char) (hs : s.Settled)
    (hlegible : Legible token) {n : Nat} (hstep : scriptStep s.scripts.length token = some n)
    (hrest : ∀ c, rest.head? = some c → token.allows c)
    (hpoint : ∀ d, rest.take 2 = ['.', d] → Text.isDigit d = false) :
    Scans s offset total token token.spelling rest := by
  cases token with
  | int v => exact scans_int offset total rest hs v (stops_int hrest)
  | float v =>
    obtain ⟨hint, hopen⟩ := sourceText_not_int hlegible
    exact scans_float offset total rest hs hlegible (stops_word hint hopen hrest hpoint)
  | string text =>
    apply scans_string offset total rest hs hlegible.1 hlegible.2
    intro hquote
    simpa [Token.allows] using hrest '\'' hquote
  | wideString text => exact scans_wideString offset total rest hs hlegible
  | name text =>
    have hword := word_of_isWord hlegible
    have := scans_word offset total rest hs hlegible.chars hlegible.not_number (n := n)
      (by rw [hword]; exact hstep)
      (stops_word hlegible.not_number (head?_of_isWord hlegible) hrest hpoint)
    rwa [hword] at this
  | argument text => exact scans_argument offset total rest hs hlegible.1 hlegible.2
  | rawKey k => exact scans_rawKey offset total rest hs k
  | keyword k =>
    by_cases hall : k = .allArgs
    · subst hall
      exact scans_allArgs offset total rest hs
    · obtain ⟨hname, hint, hopen⟩ := keyword_chars hall
      have := scans_word offset total rest hs hname hint (n := n)
        (by rw [word_spelling]; exact hstep) (stops_word hint hopen hrest hpoint)
      rwa [word_spelling] at this
  | mark m => exact scans_mark offset total rest hs hrest

end QbCodec.Source.Scanner
