import Mathlib.Data.List.Forall2
import QbCodec.Proofs.Source.Scanning

/-!
Scanning the same characters at other places. Two scanners that differ only in the places they have
noted, and in lexemes that one of them had before, take the same steps and stop with the same fault.
-/

namespace QbCodec.Source

structure Placed (m : Nat → Nat → Prop) (a b : Lexeme) : Prop where
  token : b.token = a.token
  offset : m a.offset b.offset

inductive Agree {α β : Type} (m : Nat → Nat → Prop) (R : α → β → Prop) :
    Except Stop α → Except Stop β → Prop
  | ok {a : α} {b : β} (h : R a b) : Agree m R (.ok a) (.ok b)
  | error {i j : Nat} (h : m i j) (fault : Fault) : Agree m R (.error ⟨i, fault⟩) (.error ⟨j, fault⟩)

section

variable {α β α' β' : Type} {m : Nat → Nat → Prop} {R : α → β → Prop} {R' : α' → β' → Prop}
  {x : Except Stop α} {y : Except Stop β}

theorem Agree.imp {S : α → β → Prop} (h : Agree m R x y) (hRS : ∀ a b, R a b → S a b) :
    Agree m S x y := by
  cases h with
  | ok h => exact .ok (hRS _ _ h)
  | error h fault => exact .error h fault

theorem Agree.map {f : α → α'} {g : β → β'} (h : Agree m R x y)
    (hf : ∀ a b, R a b → R' (f a) (g b)) : Agree m R' (x.map f) (y.map g) := by
  cases h with
  | ok h => exact .ok (hf _ _ h)
  | error h fault => exact .error h fault

theorem Agree.bind {f : α → Except Stop α'} {g : β → Except Stop β'} (h : Agree m R x y)
    (hf : ∀ a b, R a b → Agree m R' (f a) (g b)) : Agree m R' (x.bind f) (y.bind g) := by
  cases h with
  | ok h => exact hf _ _ h
  | error h fault => exact .error h fault

theorem Agree.of_ok {a : α} (h : Agree m R (.ok a) y) : ∃ b, y = .ok b ∧ R a b := by
  cases h with
  | ok h => exact ⟨_, rfl, h⟩

theorem Agree.of_error {e : Stop} (h : Agree m R (.error e) y) :
    ∃ j, y = .error ⟨j, e.fault⟩ ∧ m e.offset j := by
  cases h with
  | error h fault => exact ⟨_, rfl, h⟩

theorem agree_ite {p : Prop} [Decidable p] {x' : Except Stop α} {y' : Except Stop β}
    (h : p → Agree m R x y) (h' : Agree m R x' y') :
    Agree m R (if p then x else x') (if p then y else y') := by
  split
  · rename_i hp
    exact h hp
  · exact h'

end

namespace Scanner

def IsOpen (s : Scanner) : Prop := s.held ≠ [] ∨ s.mode = .rawKey ∨ ∃ wide, s.mode = .string wide

theorem not_isOpen_empty : ¬ ({} : Scanner).IsOpen := by
  rintro (hheld | hmode | ⟨wide, hmode⟩)
  · exact absurd rfl hheld
  · cases hmode
  · cases hmode

/-- `t` is in the state of `s` at other places, and has the lexemes `front` before those of `s`. -/
structure Moved (m : Nat → Nat → Prop) (front : List Lexeme) (s t : Scanner) : Prop where
  mode : t.mode = s.mode
  held : t.held = s.held
  start : s.IsOpen → m s.start t.start
  scripts : t.scripts = s.scripts.map (· + front.length)
  done : ∃ ls, t.done = ls ++ front ∧ List.Forall₂ (Placed m) s.done ls

variable {m : Nat → Nat → Prop} {front : List Lexeme} {s t : Scanner} {i j : Nat}

theorem Moved.length_done (h : Moved m front s t) :
    t.done.length = s.done.length + front.length := by
  obtain ⟨ls, hdone, hplaced⟩ := h.done
  rw [hdone, List.length_append, hplaced.length_eq]

theorem Moved.push (h : Moved m front s t) (token : Token) (hij : m i j) :
    Moved m front (s.push token i) (t.push token j) := by
  obtain ⟨ls, hdone, hplaced⟩ := h.done
  refine ⟨h.mode, h.held, h.start, h.scripts, ⟨token, j⟩ :: ls, ?_, .cons ⟨rfl, hij⟩ hplaced⟩
  change _ :: t.done = _
  rw [hdone]
  rfl

theorem Moved.hold (h : Moved m front s t) (hopen : s.IsOpen) (c : Char) :
    Moved m front (s.hold c) (t.hold c) where
  mode := h.mode
  held := congrArg (c :: ·) h.held
  start := fun _ => h.start hopen
  scripts := h.scripts
  done := h.done

theorem Moved.extend (h : Moved m front s t) (c : Char) (hij : m i j) :
    Moved m front (s.extend c i) (t.extend c j) := by
  unfold Scanner.extend
  rw [h.held]
  split
  · exact ⟨h.mode, rfl, fun _ => hij, h.scripts, h.done⟩
  · rename_i hne
    exact h.hold (.inl (by simpa using hne)) c

theorem Moved.pushWord (h : Moved m front s t) (hstart : m s.start t.start) (token : Token) :
    Agree m (Moved m front) (s.pushWord token) (t.pushWord token) := by
  have hpush := h.push token hstart
  unfold Scanner.pushWord
  split
  · refine .ok ⟨h.mode, h.held, h.start, ?_, hpush.done⟩
    change t.done.length :: t.scripts = _
    rw [h.length_done, h.scripts]
    rfl
  · rw [h.scripts]
    cases hscripts : s.scripts with
    | nil => exact .error hstart _
    | cons k outer => exact .ok ⟨h.mode, h.held, h.start, rfl, hpush.done⟩
  · exact .ok hpush

theorem Moved.drop (h : Moved m front s t) (mode : Mode) (hstart : m s.start t.start) :
    Moved m front { s with mode, held := [] } { t with mode, held := [] } :=
  ⟨rfl, rfl, fun _ => hstart, h.scripts, h.done⟩

theorem Moved.flush (h : Moved m front s t) : Agree m (Moved m front) s.flush t.flush := by
  unfold Scanner.flush
  rw [h.held]
  split
  · exact .ok h
  · rename_i hne
    have hstart : m s.start t.start := h.start (.inl (by simpa using hne))
    have hdrop : Moved m front { s with held := [] } { t with held := [] } :=
      ⟨h.mode, rfl, fun _ => hstart, h.scripts, h.done⟩
    dsimp only
    split
    · exact .ok (hdrop.push _ hstart)
    · apply agree_ite fun _ => .error hstart _
      apply agree_ite fun _ => .error hstart _
      exact hdrop.pushWord hstart _

theorem Moved.closeString {wide : Bool} (h : Moved m front s t) (hmode : s.mode = .string wide) :
    Agree m (Moved m front) (s.closeString wide) (t.closeString wide) := by
  have hstart : m s.start t.start := h.start (.inr (.inr ⟨wide, hmode⟩))
  unfold Scanner.closeString
  rw [h.held]
  exact agree_ite (fun _ => .error hstart _) (.ok ((h.drop .code hstart).push _ hstart))

theorem Moved.closeKey (h : Moved m front s t) (hmode : s.mode = .rawKey) :
    Agree m (Moved m front) s.closeKey t.closeKey := by
  have hstart : m s.start t.start := h.start (.inr (.inl hmode))
  unfold Scanner.closeKey
  rw [h.held]
  dsimp only
  split
  · exact .ok ((h.drop .code hstart).push _ hstart)
  · exact .error hstart _

theorem Moved.enter (h : Moved m front s t) (mode : Mode) (hij : m i j) :
    Agree m (Moved m front) (s.enter mode i) (t.enter mode j) :=
  h.flush.map fun _ _ hflush => ⟨rfl, hflush.held, fun _ => hij, hflush.scripts, hflush.done⟩

abbrev Together (m : Nat → Nat → Prop) (front : List Lexeme) : Step → Step → Prop :=
  Agree m fun a b => Moved m front a.1 b.1 ∧ b.2 = a.2

theorem together_one {x y : Except Stop Scanner} (h : Agree m (Moved m front) x y) :
    Together m front (one x) (one y) :=
  h.map fun _ _ h => ⟨h, rfl⟩

theorem together_two {x y : Except Stop Scanner} (h : Agree m (Moved m front) x y) :
    Together m front (two x) (two y) :=
  h.map fun _ _ h => ⟨h, rfl⟩

theorem Moved.codeStep (h : Moved m front s t) (hij : m i j) (c : Char) (next : Option Char) :
    Together m front (s.codeStep i c next) (t.codeStep j c next) := by
  have htakes : t.takesPoint next = s.takesPoint next := by
    unfold takesPoint
    rw [h.held]
  have hextend (c : Char) : Together m front (one (.ok (s.extend c i))) (one (.ok (t.extend c j))) :=
    together_one (.ok (h.extend c hij))
  unfold Scanner.codeStep
  rw [h.held, htakes]
  apply agree_ite fun _ => together_two (h.enter _ hij)
  apply agree_ite fun _ => together_two (h.enter _ hij)
  apply agree_ite fun _ => together_one (h.enter _ hij)
  apply agree_ite fun _ => together_one (h.enter _ hij)
  apply agree_ite fun _ => together_two (h.enter _ hij)
  apply agree_ite fun _ => together_one (h.flush.map fun _ _ hflush => hflush.push _ hij)
  apply agree_ite fun _ => together_one h.flush
  apply agree_ite fun _ => hextend '<'
  apply agree_ite fun hclose => together_one (h.hold (.inl (by simpa using hclose.2)) '>').flush
  apply agree_ite fun _ => hextend '.'
  apply agree_ite fun _ => hextend '-'
  split
  · exact h.flush.map fun _ _ hflush => ⟨hflush.push _ hij, rfl⟩
  · exact agree_ite (fun _ => hextend c) (.error hij _)

theorem Moved.stringStep {wide : Bool} (h : Moved m front s t) (hmode : s.mode = .string wide)
    (c : Char) (next : Option Char) :
    Together m front (s.stringStep wide c next) (t.stringStep wide c next) := by
  have hopen : s.IsOpen := .inr (.inr ⟨wide, hmode⟩)
  unfold Scanner.stringStep
  apply agree_ite
  · intro _
    apply agree_ite fun _ => together_one (h.closeString hmode)
    exact together_one (.ok (h.hold hopen c))
  · apply agree_ite fun _ => together_two (.ok (h.hold hopen '\''))
    apply agree_ite fun _ => together_one (h.closeString hmode)
    exact together_one (.ok (h.hold hopen c))

theorem Moved.leave (h : Moved m front s t) :
    Moved m front { s with mode := .code } { t with mode := .code } where
  mode := rfl
  held := h.held
  start := by
    rintro (hheld | hmode | ⟨wide, hmode⟩)
    · exact h.start (.inl hheld)
    · cases hmode
    · cases hmode
  scripts := h.scripts
  done := h.done

theorem Moved.step (h : Moved m front s t) (hij : m i j) (c : Char) (next : Option Char) :
    Together m front (s.step i c next) (t.step j c next) := by
  unfold Scanner.step
  rw [h.mode]
  cases hmode : s.mode with
  | code => exact h.codeStep hij c next
  | lineComment =>
    apply agree_ite fun _ => together_one (.ok (h.leave.push _ hij))
    exact together_one (.ok h)
  | blockComment =>
    apply agree_ite fun _ => together_two (.ok h.leave)
    exact together_one (.ok h)
  | string wide => exact h.stringStep hmode c next
  | rawKey =>
    apply agree_ite fun _ => together_one (h.closeKey hmode)
    exact together_one (.ok (h.hold (.inr (.inl hmode)) c))

theorem Moved.run (hm : ∀ i j n, m i j → m (i + n) (j + n)) (h : Moved m front s t) (hij : m i j)
    (text : List Char) : Agree m (Moved m front) (s.run i text) (t.run j text) := by
  -- The induction is on the run of `s`; at each step `t` has taken as many characters.
  fun_induction Scanner.run s i text generalizing t j with
  | case1 s i => exact .ok h
  | case2 s i c => exact (h.step hij c none).map fun _ _ hstep => hstep.1
  | case3 s i c d rest e hstep =>
    obtain ⟨j', hstep', hplace⟩ := (hstep ▸ h.step hij c (some d)).of_error
    simp only [Scanner.run, hstep']
    exact .error hplace e.fault
  | case4 s i c d rest u hstep ih =>
    obtain ⟨⟨v, both⟩, hstep', hmoved, rfl⟩ := (hstep ▸ h.step hij c (some d)).of_ok
    simp only [Scanner.run, hstep']
    exact ih hmoved (hm _ _ _ (hm _ _ _ hij))
  | case5 s i c d rest u hstep ih =>
    obtain ⟨⟨v, both⟩, hstep', hmoved, rfl⟩ := (hstep ▸ h.step hij c (some d)).of_ok
    simp only [Scanner.run, hstep']
    exact ih hmoved (hm _ _ _ hij)

def finish (total : Nat) (s : Scanner) : Except Stop (List Lexeme) :=
  match s.scripts with
  | [] => .ok s.done.reverse
  | k :: _ => .error ⟨(s.done.reverse[k]?.map Lexeme.offset).getD total, .scriptNotClosed⟩

theorem close_eq_bind (h : s.mode = .code ∨ s.mode = .lineComment) (total : Nat) :
    s.close total = s.flush.bind (finish total) := by
  unfold Scanner.close
  rcases h with h | h <;>
  · rw [h]
    dsimp only
    cases s.flush <;> rfl

theorem placed_getD {ls ms : List Lexeme} (h : List.Forall₂ (Placed m) ls ms) (hij : m i j)
    (k : Nat) :
    m ((ls[k]?.map Lexeme.offset).getD i) ((ms[k]?.map Lexeme.offset).getD j) := by
  induction h generalizing k with
  | nil => exact hij
  | cons hl _ ih =>
    cases k with
    | zero => exact hl.offset
    | succ k => exact ih k

abbrev Extends (m : Nat → Nat → Prop) (front : List Lexeme) (ls ms : List Lexeme) : Prop :=
  ∃ later, ms = front.reverse ++ later ∧ List.Forall₂ (Placed m) ls later

theorem Moved.finish (h : Moved m front s t) (hij : m i j) :
    Agree m (Extends m front) (finish i s) (finish j t) := by
  obtain ⟨later, hdone, hplaced⟩ := h.done
  have hreverse : List.Forall₂ (Placed m) s.done.reverse later.reverse :=
    List.forall₂_reverse_iff.mpr hplaced
  have htotal : t.done.reverse = front.reverse ++ later.reverse := by
    rw [hdone, List.reverse_append]
  unfold Scanner.finish
  rw [h.scripts, htotal]
  cases s.scripts with
  | nil => exact .ok ⟨later.reverse, rfl, hreverse⟩
  | cons k outer =>
    have hindex : (front.reverse ++ later.reverse)[k + front.length]? = later.reverse[k]? := by
      rw [List.getElem?_append_right (by simp)]
      simp
    rw [List.map_cons]
    dsimp only
    rw [hindex]
    exact .error (placed_getD hreverse hij k) _

theorem Moved.close (h : Moved m front s t) (hij : m i j) :
    Agree m (Extends m front) (s.close i) (t.close j) := by
  have hclose (hmode : s.mode = .code ∨ s.mode = .lineComment) :
      Agree m (Extends m front) (s.close i) (t.close j) := by
    rw [close_eq_bind hmode, close_eq_bind (h.mode ▸ hmode)]
    exact h.flush.bind fun _ _ hflush => hflush.finish hij
  cases hmode : s.mode with
  | code => exact hclose (.inl hmode)
  | lineComment => exact hclose (.inr hmode)
  | blockComment =>
    simp only [Scanner.close, h.mode, hmode]
    exact .error hij _
  | string wide =>
    simp only [Scanner.close, h.mode, hmode]
    exact .error (h.start (.inr (.inr ⟨wide, hmode⟩))) _
  | rawKey =>
    simp only [Scanner.close, h.mode, hmode]
    exact .error (h.start (.inr (.inl hmode))) _

theorem Moved.complete (hm : ∀ i j n, m i j → m (i + n) (j + n)) (h : Moved m front s t)
    (hij : m i j) (text : List Char) {total total' : Nat} (htotal : m total total') :
    Agree m (Extends m front) (s.complete i text total) (t.complete j text total') := by
  have hrun := h.run hm hij text
  unfold Scanner.complete
  generalize s.run i text = x at hrun
  generalize t.run j text = y at hrun
  cases hrun with
  | error hplace fault => exact .error hplace fault
  | ok hmoved => exact hmoved.close htotal

end Scanner

end QbCodec.Source
