import Mathlib.Data.List.Induction
import QbCodec.Proofs.Source.BlankSeams

namespace QbCodec

namespace Source

def withReturns (cs : List Char) : List Char :=
  cs.flatMap fun c => if c = '\n' then ['\r', '\n'] else [c]

variable {c : Char} {cs : List Char}

@[simp] theorem withReturns_nil : withReturns [] = [] := rfl

@[simp] theorem withReturns_lineEnd (cs : List Char) :
    withReturns ('\n' :: cs) = '\r' :: '\n' :: withReturns cs := rfl

theorem withReturns_cons (h : c ≠ '\n') (cs : List Char) :
    withReturns (c :: cs) = c :: withReturns cs := by
  simp [withReturns, h]

theorem withReturns_append (cs ds : List Char) :
    withReturns (cs ++ ds) = withReturns cs ++ withReturns ds := List.flatMap_append

theorem withReturns_concat_lineEnd (cs : List Char) :
    withReturns (cs ++ ['\n']) = withReturns cs ++ ['\r'] ++ ['\n'] := by
  rw [withReturns_append, List.append_assoc]
  rfl

theorem withReturns_concat (h : c ≠ '\n') (cs : List Char) :
    withReturns (cs ++ [c]) = withReturns cs ++ [c] := by
  rw [withReturns_append, withReturns_cons h, withReturns_nil]

theorem withReturns_of_not_mem (h : '\n' ∉ cs) : withReturns cs = cs := by
  induction cs with
  | nil => rfl
  | cons c cs ih =>
    rw [List.mem_cons, not_or] at h
    rw [withReturns_cons (Ne.symm h.1), ih h.2]

theorem mem_withReturns (h : '\n' ∈ cs) : '\n' ∈ withReturns cs :=
  List.mem_flatMap.mpr ⟨'\n', h, by simp⟩

theorem all_isBlank_withReturns (cs : List Char) :
    (withReturns cs).all Text.isBlank = cs.all Text.isBlank := by
  induction cs with
  | nil => rfl
  | cons c cs ih =>
    by_cases hline : c = '\n'
    · subst hline
      rw [withReturns_lineEnd, List.all_cons, List.all_cons, List.all_cons, ih]
      rfl
    · rw [withReturns_cons hline, List.all_cons, List.all_cons, ih]

theorem count_withReturns (cs : List Char) : (withReturns cs).count '\n' = cs.count '\n' := by
  induction cs with
  | nil => rfl
  | cons c cs ih =>
    by_cases hline : c = '\n'
    · subst hline
      rw [withReturns_lineEnd, List.count_cons_of_ne (by decide), List.count_cons_self,
        List.count_cons_self, ih]
    · rw [withReturns_cons hline, List.count_cons_of_ne hline, List.count_cons_of_ne hline, ih]

theorem lastLine_concat (cs : List Char) (c : Char) :
    lastLine (cs ++ [c]) = if c = '\n' then [] else lastLine cs ++ [c] := by
  simp only [lastLine, List.reverse_append, List.reverse_singleton, List.singleton_append,
    List.takeWhile_cons, isNewline]
  split <;> simp_all

theorem lastLine_withReturns (cs : List Char) : lastLine (withReturns cs) = lastLine cs := by
  induction cs using List.reverseRecOn with
  | nil => rfl
  | append_singleton cs c ih =>
    by_cases hline : c = '\n'
    · subst hline
      rw [withReturns_concat_lineEnd, lastLine_concat (withReturns cs ++ ['\r']),
        lastLine_concat cs, if_pos rfl, if_pos rfl]
    · rw [withReturns_concat hline, lastLine_concat, lastLine_concat, if_neg hline, if_neg hline, ih]

end Source

namespace Text

open Source

theorem trimEnd_concat (cs : List Char) (c : Char) :
    trimEnd (cs ++ [c]) = if isBlank c then trimEnd cs else cs ++ [c] := by
  simp only [trimEnd, dropEnd, List.reverse_append, List.reverse_singleton, List.singleton_append,
    List.dropWhile_cons]
  split <;> simp

theorem trimStart_withReturns (cs : List Char) :
    trimStart (withReturns cs) = withReturns (trimStart cs) := by
  induction cs with
  | nil => rfl
  | cons c cs ih =>
    rw [trimStart] at ih ⊢
    by_cases hline : c = '\n'
    · subst hline
      exact ih
    · rw [withReturns_cons hline, List.dropWhile_cons, trimStart, List.dropWhile_cons]
      split
      · exact ih
      · rw [withReturns_cons hline]

theorem trimEnd_withReturns (cs : List Char) :
    trimEnd (withReturns cs) = withReturns (trimEnd cs) := by
  induction cs using List.reverseRecOn with
  | nil => rfl
  | append_singleton cs c ih =>
    by_cases hline : c = '\n'
    · subst hline
      rw [withReturns_concat_lineEnd, trimEnd_concat, trimEnd_concat, trimEnd_concat, ih]
      rfl
    · rw [withReturns_concat hline, trimEnd_concat, trimEnd_concat]
      split
      · exact ih
      · rw [withReturns_concat hline]

theorem trim_withReturns (cs : List Char) : trim (withReturns cs) = withReturns (trim cs) := by
  rw [trim, trimStart_withReturns, trimEnd_withReturns, trim]

theorem hexValueFrom?_lineEnd {cs : List Char} (h : '\n' ∈ cs) (n : Nat) :
    hexValueFrom? n cs = none := by
  induction cs generalizing n with
  | nil => cases h
  | cons c cs ih =>
    rw [hexValueFrom?]
    rcases List.mem_cons.mp h with rfl | hmem
    · rfl
    · cases hexDigit? c with
      | none => rfl
      | some d => exact ih hmem _

end Text

namespace Key

theorem mem_dropMark {cs : List Char} (h : '\n' ∈ cs) : '\n' ∈ dropMark cs := by
  unfold dropMark
  split <;> simp_all

theorem mem_dropPlus {cs : List Char} (h : '\n' ∈ cs) : '\n' ∈ dropPlus cs := by
  unfold dropPlus
  split <;> simp_all

theorem parseText?_lineEnd {cs : List Char} (h : '\n' ∈ cs) : parseText? cs = none := by
  have hvalue : Text.hexValue? (dropPlus (dropMark cs)) = none := by
    have hmem := mem_dropPlus (mem_dropMark h)
    unfold Text.hexValue?
    split
    · rfl
    · exact Text.hexValueFrom?_lineEnd hmem 0
  rw [parseText?, hvalue]
  split <;> rfl

open Source Text in
theorem parseText?_withReturns (cs : List Char) :
    parseText? (trim (withReturns cs)) = parseText? (trim cs) := by
  rw [trim_withReturns]
  by_cases hline : '\n' ∈ trim cs
  · rw [parseText?_lineEnd hline, parseText?_lineEnd (mem_withReturns hline)]
  · rw [withReturns_of_not_mem hline]

end Key

namespace Source

theorem filter_withReturns (cs : List Char) :
    (withReturns cs).filter (fun c => !isLineEnd c) = cs.filter fun c => !isLineEnd c := by
  induction cs with
  | nil => rfl
  | cons c cs ih =>
    by_cases hline : c = '\n'
    · subst hline
      exact ih
    · rw [withReturns_cons hline, List.filter_cons, List.filter_cons, ih]

/-- The places in front of the same character of a text with and without returns, or behind the
text. -/
def SamePlace (source : List Char) (i j : Nat) : Prop :=
  ∃ front back, source = front ++ back ∧ i = byteCount front ∧ j = byteCount (withReturns front)

inductive Likewise {α β : Type} (m : Nat → Nat → Prop) (R : α → β → Prop) :
    Except Stop α → Except Stop β → Prop
  | ok {a : α} {b : β} (h : R a b) : Likewise m R (.ok a) (.ok b)
  | error {e e' : Stop} (h : m e.offset e'.offset) : Likewise m R (.error e) (.error e')

section

variable {α β α' β' : Type} {m : Nat → Nat → Prop} {R : α → β → Prop} {R' : α' → β' → Prop}
  {x : Except Stop α} {y : Except Stop β}

theorem Likewise.map {f : α → α'} {g : β → β'} (h : Likewise m R x y)
    (hf : ∀ a b, x = .ok a → R a b → R' (f a) (g b)) : Likewise m R' (x.map f) (y.map g) := by
  cases h with
  | ok h => exact .ok (hf _ _ rfl h)
  | error h => exact .error h

theorem Likewise.bind {f : α → Except Stop α'} {g : β → Except Stop β'} (h : Likewise m R x y)
    (hf : ∀ a b, R a b → Likewise m R' (f a) (g b)) : Likewise m R' (x.bind f) (y.bind g) := by
  cases h with
  | ok h => exact hf _ _ h
  | error h => exact .error h

theorem likewise_ite {p : Prop} [Decidable p] {x' : Except Stop α} {y' : Except Stop β}
    (h : p → Likewise m R x y) (h' : ¬ p → Likewise m R x' y') :
    Likewise m R (if p then x else x') (if p then y else y') := by
  split
  · rename_i hp
    exact h hp
  · rename_i hp
    exact h' hp

end

namespace Scanner

def heldWithReturns (mode : Mode) (held : List Char) : List Char :=
  match mode with
  | .string _ | .rawKey => (withReturns held.reverse).reverse
  | _ => held

@[simp] theorem heldWithReturns_nil (mode : Mode) : heldWithReturns mode [] = [] := by
  cases mode <;> rfl

theorem heldWithReturns_cons (h : c ≠ '\n') (mode : Mode) (held : List Char) :
    heldWithReturns mode (c :: held) = c :: heldWithReturns mode held := by
  cases mode <;> simp [heldWithReturns, withReturns_concat h]

def PlacedAt (m : Nat → Nat → Prop) (ls ms : List Lexeme) (k : Nat) : Prop :=
  ∃ a b, ls[k]? = some a ∧ ms[k]? = some b ∧ m a.offset b.offset

/-- `t` reads the text with returns and is as far as `s`. They have made the same tokens, and a
token that is being read and the scripts that are open start at places in relation `m`. Other
lexemes need not, since a line end stands behind its return. -/
structure Paired (m : Nat → Nat → Prop) (s t : Scanner) : Prop where
  mode : t.mode = s.mode
  held : t.held = heldWithReturns s.mode s.held
  start : s.IsOpen → m s.start t.start
  scripts : t.scripts = s.scripts
  done : tokens t.done = tokens s.done
  opened : ∀ k ∈ s.scripts, PlacedAt m s.done.reverse t.done.reverse k

variable {m : Nat → Nat → Prop} {s t : Scanner} {i j : Nat}

theorem getElem?_push {k : Nat} {l : Lexeme} (h : s.done.reverse[k]? = some l) (token : Token)
    (offset : Nat) : (s.push token offset).done.reverse[k]? = some l := by
  have hlt : k < s.done.reverse.length := (List.getElem?_eq_some_iff.mp h).1
  rw [push, List.reverse_cons, List.getElem?_append_left hlt, h]

theorem getElem?_pushed (s : Scanner) (token : Token) (offset : Nat) :
    (s.push token offset).done.reverse[s.done.length]? = some ⟨token, offset⟩ := by
  simp [push]

namespace Paired

theorem length_done (h : Paired m s t) : t.done.length = s.done.length := by
  simpa [tokens] using congrArg List.length h.done

theorem held_eq (h : Paired m s t) (hmode : s.mode = .code ∨ s.mode = .lineComment) :
    t.held = s.held := by
  rcases hmode with hmode | hmode <;>
  · rw [h.held, hmode]
    rfl

theorem opened_push (h : Paired m s t) (token : Token) (i j : Nat) {k : Nat} (hk : k ∈ s.scripts) :
    PlacedAt m (s.push token i).done.reverse (t.push token j).done.reverse k := by
  obtain ⟨a, b, ha, hb, hab⟩ := h.opened k hk
  exact ⟨a, b, getElem?_push ha token i, getElem?_push hb token j, hab⟩

theorem opened_pushed (h : Paired m s t) (token : Token) (hij : m i j) :
    PlacedAt m (s.push token i).done.reverse (t.push token j).done.reverse s.done.length := by
  refine ⟨⟨token, i⟩, ⟨token, j⟩, getElem?_pushed s token i, ?_, hij⟩
  rw [← h.length_done]
  exact getElem?_pushed t token j

theorem push (h : Paired m s t) (token : Token) (i j : Nat) :
    Paired m (s.push token i) (t.push token j) where
  mode := h.mode
  held := h.held
  start := h.start
  scripts := h.scripts
  done := congrArg (token :: ·) h.done
  opened := fun _ hk => h.opened_push token i j hk

theorem pushWord (h : Paired m s t) (hstart : m s.start t.start) (token : Token) :
    Likewise m (Paired m) (s.pushWord token) (t.pushWord token) := by
  have hpush := h.push token s.start t.start
  unfold Scanner.pushWord
  split
  · refine .ok ⟨h.mode, h.held, h.start, ?_, hpush.done, ?_⟩
    · change t.done.length :: t.scripts = _
      rw [h.length_done, h.scripts]
    · intro k hk
      rcases List.mem_cons.mp hk with rfl | hk
      · exact h.opened_pushed _ hstart
      · exact h.opened_push _ _ _ hk
  · rw [h.scripts]
    cases hscripts : s.scripts with
    | nil => exact .error hstart
    | cons k outer =>
      refine .ok ⟨h.mode, h.held, h.start, rfl, hpush.done, fun k' hk' => ?_⟩
      exact h.opened_push _ _ _ (hscripts ▸ List.mem_cons_of_mem k hk')
  · exact .ok hpush

theorem hold (h : Paired m s t) (hopen : s.IsOpen) (hc : c ≠ '\n') :
    Paired m (s.hold c) (t.hold c) where
  mode := h.mode
  held := by
    change c :: t.held = heldWithReturns s.mode (c :: s.held)
    rw [h.held, heldWithReturns_cons hc]
  start := fun _ => h.start hopen
  scripts := h.scripts
  done := h.done
  opened := h.opened

theorem drop (h : Paired m s t) (mode : Mode) (hstart : m s.start t.start) :
    Paired m { s with mode, held := [] } { t with mode, held := [] } :=
  ⟨rfl, (heldWithReturns_nil mode).symm, fun _ => hstart, h.scripts, h.done, h.opened⟩

theorem extend (h : Paired m s t) (hmode : s.mode = .code) (hc : c ≠ '\n') (hij : m i j) :
    Paired m (s.extend c i) (t.extend c j) := by
  unfold Scanner.extend
  rw [h.held_eq (.inl hmode)]
  split
  · refine ⟨h.mode, ?_, fun _ => hij, h.scripts, h.done, h.opened⟩
    change [c] = heldWithReturns s.mode [c]
    rw [hmode]
    rfl
  · rename_i hne
    exact h.hold (.inl (by simpa using hne)) hc

theorem flush (h : Paired m s t) (hmode : s.mode = .code ∨ s.mode = .lineComment) :
    Likewise m (Paired m) s.flush t.flush := by
  unfold Scanner.flush
  rw [h.held_eq hmode]
  apply likewise_ite
  · exact fun _ => .ok h
  · intro hne
    have hstart : m s.start t.start := h.start (.inl (by simpa using hne))
    have hdrop : Paired m { s with held := [] } { t with held := [] } :=
      ⟨h.mode, (heldWithReturns_nil s.mode).symm, fun _ => hstart, h.scripts, h.done, h.opened⟩
    dsimp only
    split
    · exact .ok (hdrop.push _ _ _)
    · apply likewise_ite fun _ => .error hstart
      intro _
      apply likewise_ite fun _ => .error hstart
      exact fun _ => hdrop.pushWord hstart _

theorem enter (h : Paired m s t) (hcode : s.mode = .code) (mode : Mode) (hij : m i j) :
    Likewise m (Paired m) (s.enter mode i) (t.enter mode j) := by
  apply (h.flush (.inl hcode)).map
  intro a b ha hab
  refine ⟨rfl, ?_, fun _ => hij, hab.scripts, hab.done, hab.opened⟩
  change b.held = heldWithReturns mode a.held
  rw [hab.held, (flush_spec ha).2, heldWithReturns_nil, heldWithReturns_nil]

theorem closeString {wide : Bool} (h : Paired m s t) (hmode : s.mode = .string wide) :
    Likewise m (Paired m) (s.closeString wide) (t.closeString wide) := by
  have hstart : m s.start t.start := h.start (.inr (.inr ⟨wide, hmode⟩))
  have hheld : t.held.reverse = withReturns s.held.reverse := by
    rw [h.held, hmode]
    exact List.reverse_reverse _
  unfold Scanner.closeString
  rw [hheld, filter_withReturns]
  apply likewise_ite fun _ => .error hstart
  exact fun _ => .ok ((h.drop .code hstart).push _ _ _)

theorem closeKey (h : Paired m s t) (hmode : s.mode = .rawKey) :
    Likewise m (Paired m) s.closeKey t.closeKey := by
  have hstart : m s.start t.start := h.start (.inr (.inl hmode))
  have hheld : t.held.reverse = withReturns s.held.reverse := by
    rw [h.held, hmode]
    exact List.reverse_reverse _
  unfold Scanner.closeKey
  rw [hheld]
  dsimp only
  rw [Key.parseText?_withReturns]
  split
  · exact .ok ((h.drop .code hstart).push _ _ _)
  · exact .error hstart

abbrev Steps (m : Nat → Nat → Prop) : Step → Step → Prop :=
  Likewise m fun a b => Paired m a.1 b.1 ∧ b.2 = a.2

theorem one {x y : Except Stop Scanner} (h : Likewise m (Paired m) x y) :
    Steps m (Scanner.one x) (Scanner.one y) := h.map fun _ _ _ h => ⟨h, rfl⟩

theorem two {x y : Except Stop Scanner} (h : Likewise m (Paired m) x y) :
    Steps m (Scanner.two x) (Scanner.two y) := h.map fun _ _ _ h => ⟨h, rfl⟩

theorem codeStep (h : Paired m s t) (hmode : s.mode = .code) (hij : m i j) (hc : c ≠ '\n')
    (next : Option Char) : Steps m (s.codeStep i c next) (t.codeStep j c next) := by
  have hheld := h.held_eq (.inl hmode)
  have htakes : t.takesPoint next = s.takesPoint next := by rw [takesPoint, takesPoint, hheld]
  have hextend {c : Char} (hc : c ≠ '\n') :
      Steps m (Scanner.one (.ok (s.extend c i))) (Scanner.one (.ok (t.extend c j))) :=
    one (.ok (h.extend hmode hc hij))
  unfold Scanner.codeStep
  rw [hheld, htakes]
  refine likewise_ite (fun _ => two (h.enter hmode _ hij)) fun _ => ?_
  refine likewise_ite (fun _ => two (h.enter hmode _ hij)) fun _ => ?_
  refine likewise_ite (fun _ => one (h.enter hmode _ hij)) fun _ => ?_
  refine likewise_ite (fun _ => one (h.enter hmode _ hij)) fun _ => ?_
  refine likewise_ite (fun _ => two (h.enter hmode _ hij)) fun _ => ?_
  refine likewise_ite (fun hline => absurd hline hc) fun _ => ?_
  refine likewise_ite (fun _ => one (h.flush (.inl hmode))) fun _ => ?_
  refine likewise_ite (fun _ => hextend (by decide)) fun _ => ?_
  refine likewise_ite (fun hclose => ?_) fun _ => ?_
  · have hhold := h.hold (c := '>') (.inl (by simpa using hclose.2)) (by decide)
    exact one (hhold.flush (.inl hmode))
  refine likewise_ite (fun _ => hextend (by decide)) fun _ => ?_
  refine likewise_ite (fun _ => hextend (by decide)) fun _ => ?_
  split
  · exact (h.flush (.inl hmode)).map fun _ _ _ hflush => ⟨hflush.push _ _ _, rfl⟩
  · exact likewise_ite (fun _ => hextend hc) fun _ => .error hij

theorem stringStep {wide : Bool} (h : Paired m s t) (hmode : s.mode = .string wide)
    (hc : c ≠ '\n') (next : Option Char) :
    Steps m (s.stringStep wide c next) (t.stringStep wide c next) := by
  have hopen : s.IsOpen := .inr (.inr ⟨wide, hmode⟩)
  unfold Scanner.stringStep
  refine likewise_ite (fun _ => ?_) fun _ => ?_
  · refine likewise_ite (fun _ => one (h.closeString hmode)) fun _ => ?_
    exact one (.ok (h.hold hopen hc))
  · refine likewise_ite (fun _ => two (.ok (h.hold hopen (by decide)))) fun _ => ?_
    refine likewise_ite (fun _ => one (h.closeString hmode)) fun _ => ?_
    exact one (.ok (h.hold hopen hc))

theorem leave (h : Paired m s t) (hmode : s.mode = .lineComment ∨ s.mode = .blockComment) :
    Paired m { s with mode := .code } { t with mode := .code } where
  mode := rfl
  held := by
    rcases hmode with hmode | hmode <;>
    · change t.held = s.held
      rw [h.held, hmode]
      rfl
  start := by
    rintro (hheld | hcode | ⟨wide, hcode⟩)
    · exact h.start (.inl hheld)
    · cases hcode
    · cases hcode
  scripts := h.scripts
  done := h.done
  opened := h.opened

theorem step (h : Paired m s t) (hij : m i j) (hc : c ≠ '\n') (next : Option Char) :
    Steps m (s.step i c next) (t.step j c next) := by
  unfold Scanner.step
  rw [h.mode]
  cases hmode : s.mode with
  | code => exact h.codeStep hmode hij hc next
  | lineComment =>
    exact likewise_ite (fun hline => absurd hline hc) fun _ => one (.ok h)
  | blockComment =>
    exact likewise_ite (fun _ => two (.ok (h.leave (.inr hmode)))) fun _ => one (.ok h)
  | string wide => exact h.stringStep hmode hc next
  | rawKey =>
    refine likewise_ite (fun _ => one (h.closeKey hmode)) fun _ => ?_
    exact one (.ok (h.hold (.inr (.inl hmode)) hc))

theorem step_hold (hmode : s.mode = .rawKey ∨ ∃ wide, s.mode = .string wide) (hc : isLineEnd c)
    (offset : Nat) (next : Option Char) : s.step offset c next = .ok (s.hold c, false) := by
  have hne {d : Char} (hd : isLineEnd d = false) : c ≠ d := by
    rintro rfl
    rw [hc] at hd
    cases hd
  have h₁ : c ≠ '"' := hne (by decide)
  have h₂ : c ≠ '\\' := hne (by decide)
  have h₃ : c ≠ '\'' := hne (by decide)
  rcases hmode with hmode | ⟨wide, hmode⟩
  · simp [Scanner.step, hmode, h₁, Scanner.one, Except.map]
  · cases wide <;> simp [Scanner.step, Scanner.stringStep, hmode, h₁, h₂, h₃, Scanner.one,
      Except.map]

def Doubled (m : Nat → Nat → Prop) (s : Scanner) (i : Nat) (t : Scanner) (j : Nat) : Prop :=
  ∃ x y : Except Stop Scanner, (∀ next, s.step i '\n' next = Scanner.one x) ∧
    (∀ rest, t.run j ('\r' :: '\n' :: rest) =
      y.bind fun u => u.run (j + '\r'.utf8Size + '\n'.utf8Size) rest) ∧
    Likewise m (Paired m) x y

theorem doubled_ok {s' t' u : Scanner} (hs : ∀ next, s.step i '\n' next = .ok (s', false))
    (hreturn : ∀ next, t.step j '\r' next = .ok (u, false))
    (hline : ∀ next, u.step (j + '\r'.utf8Size) '\n' next = .ok (t', false))
    (h : Paired m s' t') : Doubled m s i t j := by
  refine ⟨.ok s', .ok t', hs, fun rest => ?_, .ok h⟩
  rw [run_one (hreturn _), run_one (hline _)]
  rfl

theorem hold_lineEnd (h : Paired m s t) (hmode : s.mode = .rawKey ∨ ∃ wide, s.mode = .string wide) :
    Paired m (s.hold '\n') ((t.hold '\r').hold '\n') where
  mode := h.mode
  held := by
    change '\n' :: '\r' :: t.held = heldWithReturns s.mode ('\n' :: s.held)
    rw [h.held]
    rcases hmode with hmode | ⟨wide, hmode⟩ <;> simp [hmode, heldWithReturns, withReturns_append]
  start := fun _ => h.start (.inr hmode)
  scripts := h.scripts
  done := h.done
  opened := h.opened

theorem doubled_hold (h : Paired m s t)
    (hmode : s.mode = .rawKey ∨ ∃ wide, s.mode = .string wide) (i j : Nat) :
    Doubled m s i t j := by
  have hmode' : t.mode = .rawKey ∨ ∃ wide, t.mode = .string wide := by rwa [h.mode]
  exact doubled_ok (step_hold hmode (by decide) i) (step_hold hmode' (by decide) j)
    (step_hold (s := t.hold '\r') hmode' (by decide) _) (h.hold_lineEnd hmode)

theorem doubled (h : Paired m s t) (i j : Nat) : Doubled m s i t j := by
  have hmode' := h.mode
  cases hmode : s.mode with
  | code =>
    rw [hmode] at hmode'
    have hreturn (next : Option Char) : t.step j '\r' next = Scanner.one t.flush := by
      rw [Scanner.step, hmode']
      exact codeStep_skipped t (by decide) j next
    refine ⟨s.flush.map (·.push (.mark .newLine) i),
      t.flush.map (·.push (.mark .newLine) (j + '\r'.utf8Size)), fun next => ?_, fun rest => ?_, ?_⟩
    · rw [Scanner.step, hmode]
      exact codeStep_skipped s (by decide) i next
    · cases hflush : t.flush with
      | error e =>
        rw [hflush] at hreturn
        rw [run_error (hreturn _)]
        rfl
      | ok u =>
        rw [hflush] at hreturn
        have hsettled : u.Settled := ⟨(flush_spec hflush).1.trans hmode', (flush_spec hflush).2⟩
        rw [run_one (hreturn _), run_one (step_skipped hsettled (by decide) _ _)]
        rfl
    · exact (h.flush (.inl hmode)).map fun _ _ _ hflush => hflush.push _ _ _
  | lineComment =>
    rw [hmode] at hmode'
    have hnext := (h.leave (.inl hmode)).push (.mark .newLine) i (j + '\r'.utf8Size)
    refine doubled_ok (u := t) (fun _ => ?_) (fun _ => ?_) (fun _ => ?_) hnext <;>
    · simp only [Scanner.step, hmode, hmode']
      rfl
  | blockComment =>
    rw [hmode] at hmode'
    refine doubled_ok (u := t) (fun _ => ?_) (fun _ => ?_) (fun _ => ?_) h <;>
    · simp only [Scanner.step, hmode, hmode']
      rfl
  | string wide => exact h.doubled_hold (.inr ⟨wide, hmode⟩) i j
  | rawKey => exact h.doubled_hold (.inl hmode) i j

end Paired

theorem byteCount_concat (cs : List Char) (c : Char) :
    byteCount (cs ++ [c]) = byteCount cs + c.utf8Size := by
  rw [byteCount_append, byteCount_cons]
  rfl

theorem step_head?_withReturns (s : Scanner) (offset : Nat) (c : Char) (rest : List Char) :
    s.step offset c (withReturns rest).head? = s.step offset c rest.head? := by
  have hunnoticed {d : Char} (hd : isLineEnd d) :
      s.step offset c (some d) = s.step offset c none := by
    simp only [isLineEnd, Bool.or_eq_true, beq_iff_eq] at hd
    rcases hd with rfl | rfl <;>
    exact step_unnoticed ⟨by decide, fun _ _ => by decide, fun _ _ => by decide⟩ offset
  cases rest with
  | nil => rfl
  | cons d rest =>
    by_cases hline : d = '\n'
    · subst hline
      exact (hunnoticed (by decide)).trans (hunnoticed (by decide)).symm
    · rw [withReturns_cons hline]
      rfl

variable {source : List Char}

theorem Paired.run {s t : Scanner} (h : Paired (SamePlace source) s t) (front rest : List Char)
    (hsource : source = front ++ rest) :
    Likewise (SamePlace source) (Paired (SamePlace source)) (s.run (byteCount front) rest)
      (t.run (byteCount (withReturns front)) (withReturns rest)) := by
  -- The induction is on the characters. A step of `s` takes one or two, and never a line end as its
  -- second; `t` takes the same ones, or a line end in two steps.
  match rest with
  | [] => exact .ok h
  | c :: rest =>
    have hplace : SamePlace source (byteCount front) (byteCount (withReturns front)) :=
      ⟨front, _, hsource, rfl, rfl⟩
    have hnext : source = (front ++ [c]) ++ rest := by
      rw [hsource, List.append_assoc]
      rfl
    by_cases hline : c = '\n'
    · subst hline
      obtain ⟨x, y, hx, hy, hxy⟩ := h.doubled (byteCount front) (byteCount (withReturns front))
      rw [withReturns_lineEnd, hy]
      cases hxy with
      | error h =>
        rw [run_error (hx _)]
        exact .error h
      | ok hpaired =>
        rw [run_one (hx _)]
        have hrest := hpaired.run (front ++ ['\n']) rest hnext
        rwa [withReturns_concat_lineEnd, byteCount_concat, byteCount_concat, byteCount_concat] at hrest
    · have hlook := step_head?_withReturns t (byteCount (withReturns front)) c rest
      have hstep := h.step hplace hline rest.head?
      generalize hx : s.step (byteCount front) c rest.head? = x at hstep
      generalize hy : t.step (byteCount (withReturns front)) c rest.head? = y at hstep
      rw [hy] at hlook
      rw [withReturns_cons hline]
      cases hstep with
      | error h =>
        rw [run_error hx, run_error hlook]
        exact .error h
      | @ok a b hpaired =>
        obtain ⟨u, both⟩ := a
        obtain ⟨v, both'⟩ := b
        obtain ⟨hpaired, rfl⟩ := hpaired
        cases both' with
        | false =>
          rw [run_one hx, run_one hlook]
          have hrest := hpaired.run (front ++ [c]) rest hnext
          rwa [withReturns_concat hline, byteCount_concat, byteCount_concat] at hrest
        | true =>
          cases rest with
          | nil => cases takesOne_none s _ c u true hx
          | cons d rest =>
            have hd : d ≠ '\n' := by
              rintro rfl
              cases takesOne_step (d := '\n') (by decide) s _ c u true hx
            rw [withReturns_cons hd] at hlook ⊢
            rw [run_two hx, run_two hlook]
            have hrest := hpaired.run (front ++ [c] ++ [d]) rest (by rw [hnext]; simp)
            rwa [withReturns_concat hd, withReturns_concat hline, byteCount_concat,
              byteCount_concat, byteCount_concat, byteCount_concat] at hrest
termination_by rest.length

theorem Paired.finish {m : Nat → Nat → Prop} {i j : Nat} (h : Paired m s t) :
    Likewise m SameTokens (finish i s) (finish j t) := by
  unfold Scanner.finish
  rw [h.scripts]
  cases hscripts : s.scripts with
  | nil =>
    refine .ok ?_
    rw [SameTokens, tokens, tokens, List.map_reverse, List.map_reverse]
    exact congrArg List.reverse h.done
  | cons k outer =>
    obtain ⟨a, b, ha, hb, hab⟩ := h.opened k (hscripts ▸ List.mem_cons_self)
    simp only [ha, hb]
    exact .error hab

theorem Paired.close {m : Nat → Nat → Prop} {i j : Nat} (h : Paired m s t) (hij : m i j) :
    Likewise m SameTokens (s.close i) (t.close j) := by
  have hclose (hmode : s.mode = .code ∨ s.mode = .lineComment) :
      Likewise m SameTokens (s.close i) (t.close j) := by
    rw [close_eq_bind hmode, close_eq_bind (h.mode ▸ hmode)]
    exact (h.flush hmode).bind fun _ _ hflush => hflush.finish
  cases hmode : s.mode with
  | code => exact hclose (.inl hmode)
  | lineComment => exact hclose (.inr hmode)
  | blockComment =>
    simp only [Scanner.close, h.mode, hmode]
    exact .error hij
  | string wide =>
    simp only [Scanner.close, h.mode, hmode]
    exact .error (h.start (.inr (.inr ⟨wide, hmode⟩)))
  | rawKey =>
    simp only [Scanner.close, h.mode, hmode]
    exact .error (h.start (.inr (.inl hmode)))

end Scanner

open Scanner

theorem scan_withReturns (source : List Char) :
    Likewise (SamePlace source) SameTokens (scan source) (scan (withReturns source)) := by
  unfold scan
  rw [all_isBlank_withReturns]
  refine likewise_ite (fun _ => .ok rfl) fun _ => ?_
  have hempty : Paired (SamePlace source) {} {} :=
    ⟨rfl, rfl, fun hopen => absurd hopen not_isOpen_empty, rfl, rfl,
      fun k hk => absurd hk List.not_mem_nil⟩
  have htotal : SamePlace source (byteCount source) (byteCount (withReturns source)) :=
    ⟨source, [], (List.append_nil source).symm, rfl, rfl⟩
  have hstart : Likewise (SamePlace source) (Paired (SamePlace source)) (Scanner.run {} 0 source)
      (Scanner.run {} 0 (withReturns source)) := hempty.run [] source rfl
  generalize Scanner.run {} 0 source = x at hstart
  generalize Scanner.run {} 0 (withReturns source) = y at hstart
  cases hstart with
  | error h => exact .error h
  | ok h => exact h.close htotal

theorem SamePlace.line_column {source : List Char} {i j : Nat} (h : SamePlace source i j) :
    lineAt (withReturns source) j = lineAt source i ∧
      columnAt (withReturns source) j = columnAt source i := by
  obtain ⟨front, back, rfl, rfl, rfl⟩ := h
  simp only [lineAt, columnAt, withReturns_append, before_byteCount, count_withReturns,
    lastLine_withReturns, and_self]

theorem lexemes_withReturns (source : String) :
    (∃ ls ms, lexemes source = .ok ls ∧
      lexemes (String.ofList (withReturns source.toList)) = .ok ms ∧ tokens ms = tokens ls) ∨
    ∃ d d', lexemes source = .error (.source d) ∧
      lexemes (String.ofList (withReturns source.toList)) = .error (.source d') ∧
      d'.line = d.line ∧ d'.column = d.column := by
  have hscan := scan_withReturns source.toList
  simp only [lexemes, String.toList_ofList]
  generalize scan source.toList = x at hscan
  generalize scan (withReturns source.toList) = y at hscan
  cases hscan with
  | ok h =>
    left
    exact ⟨_, _, rfl, rfl, h⟩
  | error h =>
    right
    obtain ⟨hline, hcolumn⟩ := h.line_column
    exact ⟨_, _, rfl, rfl, hline, hcolumn⟩

end Source

end QbCodec
