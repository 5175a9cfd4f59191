import QbCodec.Source.Scanner

/-!
What a step can do, said once. In code the scanner ends what it holds and acts on the character,
holds one character more, ends an argument at its bracket, or refuses the character.
-/

namespace QbCodec.Source

inductive Opens : Char → Option Char → Mode → Bool → Prop
  | lineComment : Opens '/' (some '/') .lineComment true
  | blockComment : Opens '/' (some '*') .blockComment true
  | string {next : Option Char} : Opens '\'' next (.string false) false
  | wideString {next : Option Char} : Opens '"' next (.string true) false
  | rawKey : Opens '#' (some '"') .rawKey true

def isHeldChar (c : Char) : Bool := isNameChar c || ['<', '>', '.', '-'].contains c

/-- The held text goes on with the character. One that stands first may need the next one. -/
inductive Prolongs (held : List Char) : Char → Option Char → Prop
  | name {c : Char} {next : Option Char} (h : isNameChar c) : Prolongs held c next
  | bracket {next : Option Char} (hheld : held = [])
      (h : next.any fun n => isNameChar n || n == '.') : Prolongs held '<' next
  | firstPoint {next : Option Char} (hheld : held = []) (h : next.any Text.isDigit) :
      Prolongs held '.' next
  | point {next : Option Char} (hheld : held ≠ [])
      (h : held.getLast? = some '<' ∨ held.all isIntChar) : Prolongs held '.' next
  | minus {next : Option Char} (hheld : held = [])
      (h : next.any fun n => Text.isDigit n || n == '.') : Prolongs held '-' next

theorem Prolongs.isHeldChar {held : List Char} {c : Char} {next : Option Char}
    (h : Prolongs held c next) : isHeldChar c := by
  cases h with
  | name h => rw [Source.isHeldChar, h, Bool.true_or]
  | _ => decide

theorem cases_number {text : List Char} {token : Token} (h : number? text = some token) :
    (∃ v, token = .float v ∧ '.' ∈ text ∧ text.all isFloatChar ∧ Single.parse? text = some v) ∨
      ∃ v, token = .int v ∧ text.all isIntChar ∧ int32? text = some v := by
  unfold number? at h
  split at h
  · rename_i hfloat
    rw [Bool.and_eq_true] at hfloat
    obtain ⟨v, hv, rfl⟩ := Option.map_eq_some_iff.mp h
    exact .inl ⟨v, rfl, by simpa using hfloat.1, hfloat.2, hv⟩
  · split at h
    · rename_i hint
      obtain ⟨v, hv, rfl⟩ := Option.map_eq_some_iff.mp h
      exact .inr ⟨v, rfl, hint, hv⟩
    · cases h

namespace Scanner

variable {s t : Scanner} {offset : Nat} {c : Char} {next : Option Char} {both : Bool}

theorem exists_of_map_eq_ok {α β : Type} {x : Except Stop α} {f : α → β} {b : β}
    (h : x.map f = .ok b) : ∃ a, x = .ok a ∧ f a = b := by
  cases x with
  | error e => cases h
  | ok a => exact ⟨a, rfl, Except.ok.inj h⟩

theorem error_of_map {α β : Type} {r : Except Stop α} {f : α → β} {e : Stop}
    (h : r.map f = .error e) : r = .error e := by
  cases r with
  | error e' =>
    cases h
    rfl
  | ok a => cases h

theorem map_map {α β γ : Type} (r : Except Stop α) (f : α → β) (g : β → γ) :
    (r.map f).map g = r.map fun a => g (f a) := by
  cases r <;> rfl

theorem eq_of_one {r : Except Stop Scanner} (h : one r = .ok (t, both)) :
    r = .ok t ∧ both = false := by
  obtain ⟨u, hu, heq⟩ := exists_of_map_eq_ok h
  cases heq
  exact ⟨hu, rfl⟩

theorem eq_of_two {r : Except Stop Scanner} (h : two r = .ok (t, both)) :
    r = .ok t ∧ both = true := by
  obtain ⟨u, hu, heq⟩ := exists_of_map_eq_ok h
  cases heq
  exact ⟨hu, rfl⟩

theorem cases_pushWord {token : Token} (h : s.pushWord token = .ok t) :
    (token = .keyword .script ∧ t = { s.push token s.start with
      depth := s.depth + 1, scripts := s.done.length :: s.scripts }) ∨
    (token = .keyword .endScript ∧ ∃ i outer, s.scripts = i :: outer ∧
      t = { s.push token s.start with depth := s.depth - 1, scripts := outer }) ∨
    (token ≠ .keyword .script ∧ token ≠ .keyword .endScript ∧ t = s.push token s.start) := by
  unfold pushWord at h
  split at h
  · cases h
    exact .inl ⟨rfl, rfl⟩
  · split at h
    · cases h
    · rename_i i outer hscripts
      cases h
      exact .inr (.inl ⟨rfl, i, outer, hscripts, rfl⟩)
  · rename_i hscript hend
    cases h
    exact .inr (.inr ⟨fun h => hscript h, fun h => hend h, rfl⟩)

theorem pushWord_of_number {text : List Char} {token : Token} (h : number? text = some token)
    (s : Scanner) : s.pushWord token = .ok (s.push token s.start) := by
  rcases cases_number h with ⟨v, rfl, -⟩ | ⟨v, rfl, -⟩ <;> rfl

/-- The token that a held text is: a number, or else a word, with both brackets or none. -/
inductive IsHeldAs (text : List Char) : Token → Prop
  | number {token : Token} (h : number? text = some token) : IsHeldAs text token
  | word (h : number? text = none) (hbrackets : 1 < text.length → isOpened text = isClosed text) :
      IsHeldAs text (word text)

theorem cases_flush (h : s.flush = .ok t) :
    s.held = [] ∧ t = s ∨ s.held ≠ [] ∧ ∃ token, IsHeldAs s.held.reverse token ∧
      ({ s with held := [] } : Scanner).pushWord token = .ok t := by
  unfold flush at h
  split at h
  · rename_i hempty
    cases h
    exact .inl ⟨List.isEmpty_iff.mp hempty, rfl⟩
  · rename_i hheld
    refine .inr ⟨by simpa using hheld, ?_⟩
    dsimp only at h
    split at h
    · rename_i token hnumber
      exact ⟨token, .number hnumber, (pushWord_of_number hnumber _).trans h⟩
    · rename_i hnumber
      split at h
      · cases h
      · split at h
        · cases h
        · rename_i hopened hclosed
          refine ⟨_, .word hnumber fun hlong => ?_, h⟩
          rw [decide_eq_true hlong, Bool.true_and] at hopened hclosed
          revert hopened hclosed
          cases isOpened s.held.reverse <;> cases isClosed s.held.reverse <;> simp

theorem flush_of_isHeldAs {token : Token} (hne : s.held ≠ []) (h : IsHeldAs s.held.reverse token) :
    s.flush = ({ s with held := [] } : Scanner).pushWord token := by
  unfold flush
  rw [if_neg (by simpa using hne)]
  cases h with
  | number h => simp only [h, pushWord_of_number h]
  | word h hbrackets =>
    by_cases hlong : 1 < s.held.reverse.length
    · simp only [h, hbrackets hlong, Bool.and_not_self, Bool.and_assoc, Bool.and_false,
        Bool.false_eq_true, if_false]
    · simp only [h, hlong, decide_false, Bool.false_and, Bool.false_eq_true, if_false]

theorem done_of_pushWord {token : Token} (h : s.pushWord token = .ok t) :
    t.done = ⟨token, s.start⟩ :: s.done := by
  rcases cases_pushWord h with ⟨-, rfl⟩ | ⟨-, i, outer, -, rfl⟩ | ⟨-, -, rfl⟩ <;> rfl

theorem mode_of_close {ls : List Lexeme} (h : s.close offset = .ok ls) :
    s.mode = .code ∨ s.mode = .lineComment := by
  unfold close at h
  split at h
  · cases h
  · cases h
  · cases h
  · exact .inl ‹_›
  · exact .inr ‹_›

inductive Acts (offset : Nat) (c : Char) (next : Option Char) : (Scanner → Scanner × Bool) → Prop
  | enter {mode : Mode} {both : Bool} (h : Opens c next mode both) :
      Acts offset c next fun t => ({ t with mode, start := offset }, both)
  | skip (h : c = ' ' ∨ c = '\t' ∨ c = '\r') : Acts offset c next fun t => (t, false)
  | newLine (h : c = '\n') : Acts offset c next fun t => (t.push (.mark .newLine) offset, false)
  | mark {m : Mark} {both : Bool} (h : mark? c next = some (m, both)) :
      Acts offset c next fun t => (t.push (.mark m) offset, both)

theorem takesPoint_iff : s.takesPoint next ↔ Prolongs s.held '.' next := by
  unfold takesPoint
  constructor
  · intro h
    split at h
    · rename_i hempty
      exact .firstPoint (List.isEmpty_iff.mp hempty) h
    · rename_i hheld
      exact .point (by simpa using hheld) (by simpa using h)
  · intro h
    cases h with
    | name h => exact absurd h (by decide)
    | firstPoint hheld h => rwa [hheld]
    | point hheld h =>
      rw [if_neg (by simpa using hheld)]
      simpa using h

inductive CodeStep (s : Scanner) (offset : Nat) (c : Char) (next : Option Char) : Step → Prop
  | acts {f : Scanner → Scanner × Bool} (h : Acts offset c next f) :
      CodeStep s offset c next (s.flush.map f)
  | closes (hc : c = '>') (hheld : s.held ≠ []) :
      CodeStep s offset c next (one (s.hold '>').flush)
  | holds (hc : Prolongs s.held c next) :
      CodeStep s offset c next (.ok (s.extend c offset, false))
  | refuses : CodeStep s offset c next (.error ⟨offset, .unexpected c⟩)

theorem codeStep_ite {p : Prop} [Decidable p] {a b : Step}
    (ha : p → CodeStep s offset c next a) (hb : CodeStep s offset c next b) :
    CodeStep s offset c next (if p then a else b) := by
  split
  · rename_i hp
    exact ha hp
  · exact hb

theorem codeStep_spec (s : Scanner) (offset : Nat) (c : Char) (next : Option Char) :
    CodeStep s offset c next (s.codeStep offset c next) := by
  have enters {mode : Mode} {both : Bool} (h : Opens c next mode both) :
      CodeStep s offset c next ((s.enter mode offset).map (·, both)) := by
    rw [enter, map_map]
    exact .acts (.enter h)
  have holds {d : Char} (hc : c = d) (hd : Prolongs s.held d next) :
      CodeStep s offset c next (one (.ok (s.extend d offset))) := by
    subst hc
    exact .holds hd
  -- One line for each branch, in the order in which they are tried.
  unfold codeStep
  apply codeStep_ite fun h => enters (by rw [h.1, h.2]; exact .lineComment)
  apply codeStep_ite fun h => enters (by rw [h.1, h.2]; exact .blockComment)
  apply codeStep_ite fun h => enters (by rw [h]; exact .string)
  apply codeStep_ite fun h => enters (by rw [h]; exact .wideString)
  apply codeStep_ite fun h => enters (by rw [h.1, h.2]; exact .rawKey)
  apply codeStep_ite fun h => by
    rw [one, map_map]
    exact .acts (.newLine h)
  apply codeStep_ite fun h => .acts (.skip h)
  apply codeStep_ite fun h => holds h.1 (.bracket (List.isEmpty_iff.mp h.2.1) h.2.2)
  apply codeStep_ite fun h => .closes h.1 (by simpa using h.2)
  apply codeStep_ite fun h => holds h.1 (takesPoint_iff.mp h.2)
  apply codeStep_ite fun h => holds h.1 (.minus (List.isEmpty_iff.mp h.2.1) h.2.2)
  split
  · rename_i hmark
    exact .acts (.mark hmark)
  · exact codeStep_ite (fun h => holds rfl (.name h)) .refuses

theorem cases_codeStep (h : s.codeStep offset c next = .ok (t, both)) :
    (∃ f u, Acts offset c next f ∧ s.flush = .ok u ∧ f u = (t, both)) ∨
      (c = '>' ∧ s.held ≠ [] ∧ (s.hold '>').flush = .ok t ∧ both = false) ∨
      (Prolongs s.held c next ∧ t = s.extend c offset ∧ both = false) := by
  have hspec := codeStep_spec s offset c next
  rw [h] at hspec
  generalize hr : Except.ok (t, both) = r at hspec
  cases hspec with
  | acts hf =>
    obtain ⟨u, hflush, hu⟩ := exists_of_map_eq_ok hr.symm
    exact .inl ⟨_, u, hf, hflush, hu⟩
  | closes hc hheld =>
    obtain ⟨u, hflush, hu⟩ := exists_of_map_eq_ok hr.symm
    cases hu
    exact .inr (.inl ⟨hc, hheld, hflush, rfl⟩)
  | holds hc =>
    cases hr
    exact .inr (.inr ⟨hc, rfl, rfl⟩)
  | refuses => cases hr

theorem fault_codeStep {e : Stop} (h : s.codeStep offset c next = .error e) :
    s.flush = .error e ∨ (s.hold '>').flush = .error e ∨ e = ⟨offset, .unexpected c⟩ := by
  have hspec := codeStep_spec s offset c next
  rw [h] at hspec
  generalize hr : Except.error e = r at hspec
  cases hspec with
  | acts => exact .inl (error_of_map hr.symm)
  | closes => exact .inr (.inl (error_of_map hr.symm))
  | holds => cases hr
  | refuses =>
    cases hr
    exact .inr (.inr rfl)

end Scanner

end QbCodec.Source
