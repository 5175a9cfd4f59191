import Mathlib.Data.List.TakeWhile
import QbCodec.Proofs.Guarded.Access
import QbCodec.Proofs.Source.Joining

namespace QbCodec.Guarded

open Source

def lastNewline? : List Char → Option Nat
  | [] => none
  | c :: cs =>
    match lastNewline? cs with
    | some place => some (c.utf8Size + place)
    | none => if c = '\n' then some 0 else none

def lineAndColumn? (source : List Char) (offset : Nat) : Option (Nat × Nat) := do
  let place := min offset (byteCount source)
  let front ← span? 0 place source
  let lineStart := match lastNewline? front with
    | some newline => newline + 1
    | none => 0
  let current ← span? lineStart place source
  return (front.count '\n' + 1, current.length + 1)

def report? (source : List Char) (offset : Nat) (reason : String) : Option (Failure × String) := do
  let (line, column) ← lineAndColumn? source offset
  let index ← minus? line 1
  let text := String.ofList (Text.dropEnd Text.isReturn ((Text.lines source).getD index []))
  let caret ← minus? column 1
  let message := s!"[Ln {line}, Col {column}, @{offset}] QBC LEXER FAIL: {reason}\n    {text}\n    "
    ++ String.ofList (List.replicate caret ' ') ++ "^"
  return (.source ⟨offset, line, column, reason, text⟩, message)

def word? (text : List Char) : Option Token :=
  match Keyword.ofWord? (String.ofList text) with
  | some k => some (.keyword k)
  | none =>
    if 2 < byteCount text && isOpened text && isClosed text then do
      let last ← minus? (byteCount text) 1
      let name ← span? 1 last text
      return .argument (String.ofList name)
    else some (.name (String.ofList text))

def pushWord? (s : Scanner) (token : Token) : Option (Except Stop Scanner) :=
  match token with
  | .keyword .endScript =>
    match s.scripts with
    | [] => some (.error ⟨s.start, .endWithoutScript⟩)
    | _ :: outer => do
      let depth ← minus? s.depth 1
      return .ok { s.push token s.start with depth, scripts := outer }
  | _ => some (s.pushWord token)

def flush? (s : Scanner) : Option (Except Stop Scanner) :=
  if s.held.isEmpty then some (.ok s)
  else
    let text := s.held.reverse
    let rest := { s with held := [] }
    match number? text with
    | some token => some (.ok (rest.push token s.start))
    | none =>
      if 1 < text.length && isOpened text && !isClosed text then
        some (.error ⟨s.start, .argumentNotClosed⟩)
      else if 1 < text.length && isClosed text && !isOpened text then
        some (.error ⟨s.start, .argumentNotOpened⟩)
      else do
        let token ← word? text
        pushWord? rest token

def enter? (s : Scanner) (mode : Mode) (offset : Nat) : Option (Except Stop Scanner) :=
  (flush? s).map fun r => r.map fun t => { t with mode, start := offset }

def codeStep? (s : Scanner) (offset : Nat) (c : Char) (next : Option Char) : Option Scanner.Step :=
  if c = '/' ∧ next = some '/' then (enter? s .lineComment offset).map Scanner.two
  else if c = '/' ∧ next = some '*' then (enter? s .blockComment offset).map Scanner.two
  else if c = '\'' then (enter? s (.string false) offset).map Scanner.one
  else if c = '"' then (enter? s (.string true) offset).map Scanner.one
  else if c = '#' ∧ next = some '"' then (enter? s .rawKey offset).map Scanner.two
  else if c = '\n' then
    ((flush? s).map fun r => r.map (·.push (.mark .newLine) offset)).map Scanner.one
  else if c = ' ' ∨ c = '\t' ∨ c = '\r' then (flush? s).map Scanner.one
  else if c = '<' ∧ s.held.isEmpty ∧ next.any fun n => isNameChar n || n == '.' then
    some (Scanner.one (.ok (s.extend '<' offset)))
  else if c = '>' ∧ !s.held.isEmpty then (flush? (s.hold '>')).map Scanner.one
  else if c = '.' ∧ s.takesPoint next then some (Scanner.one (.ok (s.extend '.' offset)))
  else if c = '-' ∧ s.held.isEmpty ∧ next.any fun n => Text.isDigit n || n == '.' then
    some (Scanner.one (.ok (s.extend '-' offset)))
  else match mark? c next with
    | some (m, both) => (flush? s).map fun r => r.map fun t => (t.push (.mark m) offset, both)
    | none =>
      if isNameChar c then some (Scanner.one (.ok (s.extend c offset)))
      else some (.error ⟨offset, .unexpected c⟩)

def step? (s : Scanner) (offset : Nat) (c : Char) (next : Option Char) : Option Scanner.Step :=
  if s.mode = .code then codeStep? s offset c next else some (s.step offset c next)

def located (place : Nat) : List Char → List (Nat × Char)
  | [] => []
  | c :: cs => (place, c) :: located (place + c.utf8Size) cs

def run? (cs : List (Nat × Char)) (index : Nat) (s : Scanner) : Option (Except Stop Scanner) :=
  if index < cs.length then do
    let (offset, c) ← cs[index]?
    match ← step? s offset c (cs[index + 1]?.map Prod.snd) with
    | .error e => some (.error e)
    | .ok (t, true) => run? cs (index + 2) t
    | .ok (t, false) => run? cs (index + 1) t
  else some (.ok s)
termination_by cs.length - index

def close? (s : Scanner) (offset : Nat) : Option (Except Stop (List Lexeme)) :=
  match s.mode with
  | .code | .lineComment => (flush? s).map fun r => r.bind (Scanner.finish offset)
  | _ => some (s.close offset)

def scan? (text : List Char) : Option (Except Stop (List Lexeme)) :=
  if text.all Text.isBlank then some (.ok [])
  else do
    match ← run? (located 0 text) 0 {} with
    | .error e => some (.error e)
    | .ok s => close? s (byteCount text)

def lexemes? (source : String) : Option (Except (Failure × String) (List Lexeme)) := do
  match ← scan? source.toList with
  | .ok ls => return .ok ls
  | .error stop => (report? source.toList stop.offset stop.fault.reason).map .error

theorem lastNewline?_cases (cs : List Char) :
    (lastNewline? cs = none ∧ '\n' ∉ cs) ∨
      ∃ front back, cs = front ++ '\n' :: back ∧ '\n' ∉ back ∧
        lastNewline? cs = some (byteCount front) := by
  induction cs with
  | nil => exact .inl ⟨rfl, List.not_mem_nil⟩
  | cons c cs ih =>
    rcases ih with ⟨hnone, hmem⟩ | ⟨front, back, rfl, hmem, hsome⟩
    · by_cases hc : c = '\n'
      · subst hc
        exact .inr ⟨[], cs, rfl, hmem, by simp [lastNewline?, hnone, byteCount]⟩
      · refine .inl ⟨by simp [lastNewline?, hnone, hc], ?_⟩
        rw [List.mem_cons]
        rintro (rfl | h)
        · exact hc rfl
        · exact hmem h
    · refine .inr ⟨c :: front, back, rfl, hmem, ?_⟩
      rw [lastNewline?, hsome, byteCount_cons]

theorem lastLine_of_notMem {cs : List Char} (h : '\n' ∉ cs) : lastLine cs = cs := by
  have hall : cs.reverse.takeWhile (fun c => !isNewline c) = cs.reverse := by
    rw [List.takeWhile_eq_self_iff]
    intro c hc
    have hne : c ≠ '\n' := by
      rintro rfl
      exact h (List.mem_reverse.mp hc)
    simpa [isNewline] using hne
  rw [lastLine, hall, List.reverse_reverse]

theorem lastLine_newline (front : List Char) {line : List Char} (h : '\n' ∉ line) :
    lastLine (front ++ '\n' :: line) = line := by
  have happend := lastLine_append (p := front ++ ['\n']) (by simp) line
  rwa [List.append_assoc, List.singleton_append, lastLine_of_notMem h] at happend

theorem lineAndColumn?_append (front back : List Char) :
    lineAndColumn? (front ++ back) (byteCount front) =
      some (lineAt (front ++ back) (byteCount front), columnAt (front ++ back) (byteCount front)) := by
  have hmin : min (byteCount front) (byteCount (front ++ back)) = byteCount front := by
    rw [byteCount_append]
    omega
  have hfront : span? 0 (byteCount front) (front ++ back) = some front := by
    simpa [byteCount] using span?_append [] front back
  rw [lineAt, columnAt, before_byteCount]
  rcases lastNewline?_cases front with ⟨hnone, hmem⟩ | ⟨earlier, line, rfl, hmem, hsome⟩
  · simp [lineAndColumn?, hmin, hfront, hnone, lastLine_of_notMem hmem]
  · have hline : lastLine (earlier ++ '\n' :: line) = line := lastLine_newline earlier hmem
    have hstart : byteCount earlier + 1 = byteCount (earlier ++ ['\n']) := by
      rw [byteCount_append]
      rfl
    have hplace : byteCount (earlier ++ '\n' :: line) =
        byteCount (earlier ++ ['\n']) + byteCount line := by
      rw [← byteCount_append, List.append_assoc, List.singleton_append]
    have hcurrent : span? (byteCount earlier + 1) (byteCount (earlier ++ '\n' :: line))
        (earlier ++ '\n' :: line ++ back) = some line := by
      rw [hstart, hplace]
      simpa using span?_append (earlier ++ ['\n']) line back
    simp only [lineAndColumn?, hmin, hfront, Option.bind_eq_bind, Option.bind_some, hsome,
      hcurrent, hline]
    rfl

theorem report?_of_isBoundary {source : List Char} {offset : Nat} (h : IsBoundary source offset)
    (reason : String) :
    report? source offset reason = some (.source (diagnose source offset reason),
      Failure.message (.source (diagnose source offset reason))) := by
  obtain ⟨front, back, rfl, rfl⟩ := h
  simp only [report?, lineAndColumn?_append]
  rw [lineAt, columnAt]
  rfl

theorem exists_inner {text : List Char} (hopen : isOpened text) (hclosed : isClosed text) :
    ∃ inner, text = '<' :: (inner ++ ['>']) := by
  cases text with
  | nil => cases hopen
  | cons c text =>
    obtain rfl : c = '<' := by
      unfold isOpened at hopen
      split at hopen
      · simp_all
      · cases hopen
    obtain ⟨front, hfront⟩ : ∃ front, '<' :: text = front ++ ['>'] :=
      List.getLast?_eq_some_iff.mp (by simpa [isClosed] using hclosed)
    cases front with
    | nil => simp at hfront
    | cons d inner =>
      rw [List.cons_append, List.cons.injEq] at hfront
      exact ⟨inner, by rw [hfront.2]⟩

theorem word?_eq (text : List Char) : word? text = some (word text) := by
  rw [word?, word]
  cases Keyword.ofWord? (String.ofList text) with
  | some k => rfl
  | none =>
    dsimp only
    by_cases hbrackets : isOpened text ∧ isClosed text
    · obtain ⟨inner, rfl⟩ := exists_inner hbrackets.1 hbrackets.2
      have hcount : byteCount ('<' :: (inner ++ ['>'])) = 1 + byteCount inner + 1 := by
        rw [byteCount_cons, byteCount_append]
        rfl
      have hname : span? 1 (1 + byteCount inner) ('<' :: (inner ++ ['>'])) = some inner :=
        span?_append ['<'] inner ['>']
      have hlong : 2 < byteCount ('<' :: (inner ++ ['>'])) ↔
          2 < ('<' :: (inner ++ ['>'])).length := by
        cases inner with
        | nil => decide
        | cons c inner =>
          have := c.utf8Size_pos
          rw [hcount, byteCount_cons]
          simp only [List.length_cons, List.length_append, List.length_nil]
          omega
      simp only [hbrackets, hlong, Bool.and_true]
      split
      · rw [minus?_of_le (by omega), hcount, Nat.add_sub_cancel, Option.bind_eq_bind,
          Option.bind_some, hname]
        simp
      · rfl
    · have hnot : (isOpened text && isClosed text) = false := by simpa using hbrackets
      rw [Bool.and_assoc, Bool.and_assoc, hnot, Bool.and_false, Bool.and_false]
      rfl

/-- The guarded result is the plain one. A success has a property, and a fault is at a boundary. -/
inductive Safe {α : Type} (cs : List Char) (P : α → Prop) :
    Option (Except Stop α) → Except Stop α → Prop
  | ok {a : α} (h : P a) : Safe cs P (some (.ok a)) (.ok a)
  | error {place : Nat} (h : IsBoundary cs place) (fault : Fault) :
      Safe cs P (some (.error ⟨place, fault⟩)) (.error ⟨place, fault⟩)

section

variable {α β : Type} {cs : List Char} {P : α → Prop} {Q : β → Prop} {x : Option (Except Stop α)}
  {y : Except Stop α}

theorem Safe.eq (h : Safe cs P x y) : x = some y := by cases h <;> rfl

theorem Safe.of_ok {a : α} (h : Safe cs P x (.ok a)) : x = some (.ok a) ∧ P a := by
  cases h with
  | ok h => exact ⟨rfl, h⟩

theorem Safe.of_error {e : Stop} (h : Safe cs P x (.error e)) :
    x = some (.error e) ∧ IsBoundary cs e.offset := by
  cases h with
  | error h fault => exact ⟨rfl, h⟩

theorem Safe.map {f : α → β} (h : Safe cs P x y) (hf : ∀ a, P a → Q (f a)) :
    Safe cs Q (x.map fun r => r.map f) (y.map f) := by
  cases h with
  | ok h => exact .ok (hf _ h)
  | error h fault => exact .error h fault

theorem Safe.bind {f : α → Except Stop β} (h : Safe cs P x y)
    (hf : ∀ a, P a → Safe cs Q (some (f a)) (f a)) :
    Safe cs Q (x.map fun r => r.bind f) (y.bind f) := by
  cases h with
  | ok h => exact hf _ h
  | error h fault => exact .error h fault

theorem safe_ite {p : Prop} [Decidable p] {x' : Option (Except Stop α)} {y' : Except Stop α}
    (h : p → Safe cs P x y) (h' : Safe cs P x' y') :
    Safe cs P (if p then x else x') (if p then y else y') := by
  split
  · rename_i hp
    exact h hp
  · exact h'

end

/-- The depth is the number of open scripts, and all places that are noted are boundaries. -/
structure Steady (cs : List Char) (s : Scanner) : Prop where
  depth : s.depth = s.scripts.length
  start : IsBoundary cs s.start
  done : ∀ l ∈ s.done, IsBoundary cs l.offset

namespace Steady

variable {cs : List Char} {s : Scanner} {offset : Nat}

theorem push (h : Steady cs s) (token : Token) (hoffset : IsBoundary cs offset) :
    Steady cs (s.push token offset) :=
  ⟨h.depth, h.start, List.forall_mem_cons.mpr ⟨hoffset, h.done⟩⟩

theorem extend (h : Steady cs s) (c : Char) (hoffset : IsBoundary cs offset) :
    Steady cs (s.extend c offset) := by
  unfold Scanner.extend
  split
  · exact ⟨h.depth, hoffset, h.done⟩
  · exact ⟨h.depth, h.start, h.done⟩

theorem pushWord (h : Steady cs s) (token : Token) :
    Safe cs (Steady cs) (pushWord? s token) (s.pushWord token) := by
  have hpush := h.push token h.start
  unfold pushWord?
  split
  · unfold Scanner.pushWord
    split
    · rename_i hscripts
      rw [hscripts]
      exact .error h.start _
    · rename_i script outer hscripts
      have hdepth : s.depth = outer.length + 1 := by rw [h.depth, hscripts, List.length_cons]
      rw [hscripts, minus?_of_le (by omega)]
      refine .ok ⟨?_, h.start, hpush.done⟩
      change s.depth - 1 = outer.length
      omega
  · rename_i hother
    unfold Scanner.pushWord
    split
    · refine .ok ⟨?_, h.start, hpush.done⟩
      change s.depth + 1 = (s.done.length :: s.scripts).length
      rw [h.depth, List.length_cons]
    · exact absurd rfl (hother)
    · exact .ok hpush

theorem holding (h : Steady cs s) (mode : Mode) (held : List Char) :
    Steady cs { s with mode, held } := ⟨h.depth, h.start, h.done⟩

theorem flush (h : Steady cs s) : Safe cs (Steady cs) (flush? s) s.flush := by
  unfold flush? Scanner.flush
  apply safe_ite fun _ => .ok h
  dsimp only
  cases number? s.held.reverse with
  | some token => exact .ok ((h.holding s.mode []).push _ h.start)
  | none =>
    apply safe_ite fun _ => .error h.start _
    apply safe_ite fun _ => .error h.start _
    rw [word?_eq]
    exact (h.holding s.mode []).pushWord _

theorem enter (h : Steady cs s) (mode : Mode) (hoffset : IsBoundary cs offset) :
    Safe cs (Steady cs) (enter? s mode offset) (s.enter mode offset) :=
  h.flush.map fun _ ht => ⟨ht.depth, hoffset, ht.done⟩

theorem closeString (h : Steady cs s) (wide : Bool) :
    Safe cs (Steady cs) (some (s.closeString wide)) (s.closeString wide) := by
  unfold Scanner.closeString
  dsimp only
  split
  · exact .error h.start _
  · exact .ok ((h.holding .code []).push _ h.start)

theorem closeKey (h : Steady cs s) : Safe cs (Steady cs) (some s.closeKey) s.closeKey := by
  unfold Scanner.closeKey
  dsimp only
  split
  · exact .ok ((h.holding .code []).push _ h.start)
  · exact .error h.start _

abbrev After (cs : List Char) (r : Scanner × Bool) : Prop := Steady cs r.1

theorem one {x : Option (Except Stop Scanner)} {y : Except Stop Scanner}
    (h : Safe cs (Steady cs) x y) : Safe cs (After cs) (x.map Scanner.one) (Scanner.one y) :=
  h.map fun _ h => h

theorem two {x : Option (Except Stop Scanner)} {y : Except Stop Scanner}
    (h : Safe cs (Steady cs) x y) : Safe cs (After cs) (x.map Scanner.two) (Scanner.two y) :=
  h.map fun _ h => h

theorem codeStep (h : Steady cs s) (hoffset : IsBoundary cs offset) (c : Char)
    (next : Option Char) :
    Safe cs (After cs) (codeStep? s offset c next) (s.codeStep offset c next) := by
  have hextend (c : Char) : Safe cs (After cs) (some (Scanner.one (.ok (s.extend c offset))))
      (Scanner.one (.ok (s.extend c offset))) := .ok (h.extend c hoffset)
  unfold codeStep? Scanner.codeStep
  apply safe_ite fun _ => two (h.enter _ hoffset)
  apply safe_ite fun _ => two (h.enter _ hoffset)
  apply safe_ite fun _ => one (h.enter _ hoffset)
  apply safe_ite fun _ => one (h.enter _ hoffset)
  apply safe_ite fun _ => two (h.enter _ hoffset)
  apply safe_ite fun _ => one (h.flush.map fun _ ht => ht.push _ hoffset)
  apply safe_ite fun _ => one h.flush
  apply safe_ite fun _ => hextend '<'
  apply safe_ite fun _ => one (h.holding s.mode ('>' :: s.held)).flush
  apply safe_ite fun _ => hextend '.'
  apply safe_ite fun _ => hextend '-'
  cases mark? c next with
  | some m => exact h.flush.map fun _ ht => ht.push _ hoffset
  | none => exact safe_ite (fun _ => hextend c) (.error hoffset _)

theorem ofHold (h : Steady cs s) (c : Char) (both : Bool) :
    Safe cs (After cs) (some (.ok (s.hold c, both))) (.ok (s.hold c, both)) :=
  .ok (h.holding s.mode (c :: s.held))

theorem stringStep (h : Steady cs s) (wide : Bool) (c : Char) (next : Option Char) :
    Safe cs (After cs) (some (s.stringStep wide c next)) (s.stringStep wide c next) := by
  unfold Scanner.stringStep
  split
  · split
    · exact one (h.closeString wide)
    · exact h.ofHold c false
  · split
    · exact h.ofHold '\'' true
    · split
      · exact one (h.closeString wide)
      · exact h.ofHold c false

theorem step (h : Steady cs s) (hoffset : IsBoundary cs offset) (c : Char) (next : Option Char) :
    Safe cs (After cs) (step? s offset c next) (s.step offset c next) := by
  have hcode : Steady cs { s with mode := .code } := h.holding .code s.held
  cases hmode : s.mode with
  | code =>
    rw [step?, if_pos hmode]
    simp only [Scanner.step, hmode]
    exact h.codeStep hoffset c next
  | lineComment =>
    rw [step?, if_neg (by simp [hmode])]
    simp only [Scanner.step, hmode]
    split
    · exact .ok (hcode.push _ hoffset)
    · exact .ok h
  | blockComment =>
    rw [step?, if_neg (by simp [hmode])]
    simp only [Scanner.step, hmode]
    split
    · exact .ok hcode
    · exact .ok h
  | string wide =>
    rw [step?, if_neg (by simp [hmode])]
    simp only [Scanner.step, hmode]
    exact h.stringStep wide c next
  | rawKey =>
    rw [step?, if_neg (by simp [hmode])]
    simp only [Scanner.step, hmode]
    split
    · exact one h.closeKey
    · exact h.ofHold c false

end Steady

theorem length_located (place : Nat) (cs : List Char) : (located place cs).length = cs.length := by
  induction cs generalizing place with
  | nil => rfl
  | cons c cs ih => rw [located, List.length_cons, List.length_cons, ih]

theorem located_append (place : Nat) (front back : List Char) :
    located place (front ++ back) =
      located place front ++ located (place + byteCount front) back := by
  induction front generalizing place with
  | nil => rfl
  | cons c front ih =>
    rw [List.cons_append, located, located, ih, byteCount_cons, Nat.add_assoc, List.cons_append]

theorem getElem?_located (front back : List Char) (n : Nat) :
    (located 0 (front ++ back))[front.length + n]? = (located (byteCount front) back)[n]? := by
  rw [located_append, List.getElem?_append_right (by rw [length_located]; omega), length_located,
    Nat.add_sub_cancel_left, Nat.zero_add]

theorem run?_of_le {cs : List Char} {index : Nat} (h : cs.length ≤ index) (s : Scanner) :
    run? (located 0 cs) index s = some (.ok s) := by
  rw [run?, if_neg (by rw [length_located]; omega)]

theorem run?_of_step {cs front rest : List Char} {c : Char} (hcs : cs = front ++ c :: rest)
    (s : Scanner) :
    run? (located 0 cs) front.length s =
      (step? s (byteCount front) c rest.head?).bind fun r =>
        match r with
        | .error e => some (.error e)
        | .ok (t, true) => run? (located 0 cs) (front.length + 2) t
        | .ok (t, false) => run? (located 0 cs) (front.length + 1) t := by
  have hlt : front.length < (located 0 cs).length := by
    rw [length_located, hcs, List.length_append, List.length_cons]
    omega
  have hhere : (located 0 cs)[front.length]? = some (byteCount front, c) := by
    rw [hcs]
    exact getElem?_located front (c :: rest) 0
  have hnext : (located 0 cs)[front.length + 1]?.map Prod.snd = rest.head? := by
    rw [hcs, getElem?_located]
    cases rest <;> rfl
  rw [run?, if_pos hlt, hhere, Option.bind_eq_bind, Option.bind_some, hnext]
  rfl

namespace Steady

variable {cs : List Char} {s : Scanner} {offset : Nat}

theorem run {front rest : List Char} (h : Steady cs s) (hcs : cs = front ++ rest) :
    Safe cs (Steady cs) (run? (located 0 cs) front.length s) (s.run (byteCount front) rest) := by
  generalize hoffset : byteCount front = offset
  -- The induction is on the plain run; the guarded one is as many characters further.
  fun_induction Scanner.run s offset rest generalizing front with
  | case1 s offset =>
    rw [run?_of_le (by simp [hcs])]
    exact .ok h
  | case2 s offset c =>
    subst hoffset
    have hlength : cs.length = front.length + 1 := by simp [hcs]
    have hstep := h.step ⟨front, [c], hcs, rfl⟩ c none
    rw [run?_of_step hcs]
    generalize s.step (byteCount front) c none = y at hstep
    cases y with
    | error e =>
      obtain ⟨hguarded, hplace⟩ := hstep.of_error
      rw [List.head?_nil, hguarded]
      exact .error hplace e.fault
    | ok r =>
      obtain ⟨t, both⟩ := r
      obtain ⟨hguarded, hsteady⟩ := hstep.of_ok
      rw [List.head?_nil, hguarded, Option.bind_some]
      cases both <;>
      · dsimp only
        rw [run?_of_le (by omega)]
        exact .ok hsteady
  | case3 s offset c d rest e hstep =>
    subst hoffset
    obtain ⟨hguarded, hplace⟩ := (hstep ▸ h.step ⟨front, _, hcs, rfl⟩ c (some d)).of_error
    rw [run?_of_step hcs, List.head?_cons, hguarded]
    exact .error hplace e.fault
  | case4 s offset c d rest t hstep ih =>
    subst hoffset
    obtain ⟨hguarded, hsteady⟩ := (hstep ▸ h.step ⟨front, _, hcs, rfl⟩ c (some d)).of_ok
    rw [run?_of_step hcs, List.head?_cons, hguarded]
    have hfront : cs = (front ++ [c, d]) ++ rest := by rw [hcs, List.append_assoc]; rfl
    have hplace : byteCount (front ++ [c, d]) = byteCount front + c.utf8Size + d.utf8Size := by
      rw [byteCount_append, byteCount_cons, byteCount_cons, Nat.add_assoc]
      rfl
    have hrest := ih hsteady hfront hplace
    rwa [List.length_append] at hrest
  | case5 s offset c d rest t hstep ih =>
    subst hoffset
    obtain ⟨hguarded, hsteady⟩ := (hstep ▸ h.step ⟨front, _, hcs, rfl⟩ c (some d)).of_ok
    rw [run?_of_step hcs, List.head?_cons, hguarded]
    have hfront : cs = (front ++ [c]) ++ d :: rest := by rw [hcs, List.append_assoc]; rfl
    have hplace : byteCount (front ++ [c]) = byteCount front + c.utf8Size := by
      rw [byteCount_append, byteCount_cons]
      rfl
    have hrest := ih hsteady hfront hplace
    rwa [List.length_append] at hrest

theorem finish (h : Steady cs s) (hoffset : IsBoundary cs offset) :
    Safe cs (fun _ => True) (some (s.finish offset)) (s.finish offset) := by
  unfold Scanner.finish
  split
  · exact .ok trivial
  · rename_i index outer hscripts
    refine .error ?_ _
    cases hlexeme : s.done.reverse[index]? with
    | none => exact hoffset
    | some l =>
      have hmem : l ∈ s.done := List.mem_reverse.mp (List.mem_of_getElem? hlexeme)
      exact h.done l hmem

theorem close (h : Steady cs s) (hoffset : IsBoundary cs offset) :
    Safe cs (fun _ => True) (close? s offset) (s.close offset) := by
  have hflush : Safe cs (fun _ => True) ((flush? s).map fun r => r.bind (Scanner.finish offset))
      (s.flush.bind (Scanner.finish offset)) := h.flush.bind fun _ ht => ht.finish hoffset
  cases hmode : s.mode with
  | code =>
    rw [Scanner.close_eq_bind (.inl hmode)]
    simpa only [close?, hmode] using hflush
  | lineComment =>
    rw [Scanner.close_eq_bind (.inr hmode)]
    simpa only [close?, hmode] using hflush
  | blockComment =>
    simp only [close?, Scanner.close, hmode]
    exact .error hoffset _
  | string wide =>
    simp only [close?, Scanner.close, hmode]
    exact .error h.start _
  | rawKey =>
    simp only [close?, Scanner.close, hmode]
    exact .error h.start _

end Steady

theorem safe_scan (text : List Char) : Safe text (fun _ => True) (scan? text) (scan text) := by
  have hstart : Steady text {} := ⟨rfl, isBoundary_zero text, fun l hl => absurd hl List.not_mem_nil⟩
  have hrun : Safe text (Steady text) (run? (located 0 text) 0 {}) (Scanner.run {} 0 text) :=
    hstart.run (List.nil_append text).symm
  unfold scan? scan
  apply safe_ite fun _ => .ok trivial
  generalize Scanner.run {} 0 text = y at hrun
  cases y with
  | ok s =>
    obtain ⟨hguarded, hsteady⟩ := hrun.of_ok
    rw [hguarded]
    exact hsteady.close (isBoundary_byteCount text)
  | error e =>
    obtain ⟨hguarded, hplace⟩ := hrun.of_error
    rw [hguarded]
    exact .error hplace e.fault

theorem lexemes?_eq (source : String) :
    lexemes? source = some ((lexemes source).mapError fun e => (e, e.message)) := by
  have hscan := safe_scan source.toList
  rw [lexemes?, lexemes]
  generalize scan source.toList = y at hscan
  cases y with
  | ok ls =>
    rw [hscan.eq]
    rfl
  | error stop =>
    rw [hscan.eq, Option.bind_eq_bind, Option.bind_some]
    dsimp only
    rw [report?_of_isBoundary hscan.of_error.2]
    rfl

end QbCodec.Guarded
