import QbCodec.Proofs.Source.Places

/-!
Text that goes on behind a line end. Whatever the scanner is doing there, it looks at the two sides
apart, and if the first side is complete it starts on the second side with nothing held.
-/

namespace QbCodec.Source

theorem byteCount_cons (c : Char) (cs : List Char) :
    byteCount (c :: cs) = c.utf8Size + byteCount cs := by
  have from_any (n : Nat) : cs.foldl (fun n c => n + c.utf8Size) n = n + byteCount cs := by
    induction cs generalizing n with
    | nil => rfl
    | cons d cs ih =>
      rw [byteCount, List.foldl_cons, List.foldl_cons, ih, ih]
      omega
  rw [byteCount, List.foldl_cons, from_any, Nat.zero_add]

theorem byteCount_append (cs ds : List Char) :
    byteCount (cs ++ ds) = byteCount cs + byteCount ds := by
  induction cs with
  | nil => simp [byteCount]
  | cons c cs ih => rw [List.cons_append, byteCount_cons, byteCount_cons, ih, Nat.add_assoc]

theorem byteCount_toList (s : String) : byteCount s.toList = s.utf8ByteSize := by
  have of_list (cs : List Char) : byteCount cs = (String.ofList cs).utf8ByteSize := by
    induction cs with
    | nil => simp [byteCount]
    | cons c cs ih =>
      have hsplit : String.ofList (c :: cs) = String.singleton c ++ String.ofList cs := by
        rw [String.singleton_eq_ofList, ← String.ofList_append]
        rfl
      rw [byteCount_cons, ih, hsplit, String.utf8ByteSize_append, String.utf8ByteSize_singleton]
  rw [of_list, String.ofList_toList]

theorem mem_of_mark? {c d : Char} {m : Mark} (h : mark? c (some d) = some (m, true)) :
    d ∈ ['\x7b', '=', '<', '>', '|', ':'] := by
  unfold mark? at h
  split at h <;> simp_all

namespace Scanner

variable {s t : Scanner} {offset : Nat} {c : Char} {next : Option Char} {both : Bool}

def Calm (s : Scanner) : Prop := s.mode = .lineComment ∨ s.mode = .blockComment → s.held = []

theorem calm_of_held (h : s.held = []) : s.Calm := fun _ => h

theorem calm_of_mode (h : s.mode ≠ .lineComment) (h' : s.mode ≠ .blockComment) : s.Calm := by
  rintro (hmode | hmode)
  · exact absurd hmode h
  · exact absurd hmode h'

theorem pushWord_spec {token : Token} (h : s.pushWord token = .ok t) :
    t.mode = s.mode ∧ t.held = s.held := by
  rcases cases_pushWord h with ⟨-, rfl⟩ | ⟨-, i, outer, -, rfl⟩ | ⟨-, -, rfl⟩ <;> exact ⟨rfl, rfl⟩

theorem flush_spec (h : s.flush = .ok t) : t.mode = s.mode ∧ t.held = [] := by
  rcases cases_flush h with ⟨hempty, rfl⟩ | ⟨-, token, -, hpush⟩
  · exact ⟨rfl, hempty⟩
  · exact pushWord_spec hpush

def Keeps (next : Option Char) (r : Step) : Prop :=
  ∀ t both, r = .ok (t, both) → t.Calm ∧ (both → next ≠ some '\n')

theorem keeps_map {r : Except Stop Scanner} {f : Scanner → Scanner × Bool}
    (h : ∀ t, r = .ok t → (f t).1.Calm ∧ ((f t).2 → next ≠ some '\n')) :
    Keeps next (r.map f) := by
  intro t both ht
  obtain ⟨u, hu, hf⟩ := exists_of_map_eq_ok ht
  have hkeeps := h u hu
  rwa [hf] at hkeeps

theorem keeps_one {r : Except Stop Scanner} (h : ∀ t, r = .ok t → t.Calm) : Keeps next (one r) :=
  keeps_map fun t ht => ⟨h t ht, by simp⟩

theorem keeps_two {r : Except Stop Scanner} (hnext : next ≠ some '\n')
    (h : ∀ t, r = .ok t → t.Calm) : Keeps next (two r) :=
  keeps_map fun t ht => ⟨h t ht, fun _ => hnext⟩

theorem keeps_ite {p : Prop} [Decidable p] {a b : Step} (ha : p → Keeps next a)
    (hb : Keeps next b) : Keeps next (if p then a else b) := by
  split
  · rename_i hp
    exact ha hp
  · exact hb

theorem calm_code (h : s.mode = .code) : s.Calm := by
  apply calm_of_mode <;>
  · rw [h]
    decide

theorem mode_extend (s : Scanner) (c : Char) (offset : Nat) : (s.extend c offset).mode = s.mode := by
  unfold extend
  split <;> rfl

theorem keeps_acts {f : Scanner → Scanner × Bool} (h : Acts offset c next f) (hs : s.held = []) :
    (f s).1.Calm ∧ ((f s).2 → next ≠ some '\n') := by
  cases h with
  | enter hopens =>
    refine ⟨calm_of_held hs, ?_⟩
    cases hopens <;> simp
  | skip => exact ⟨calm_of_held hs, by simp⟩
  | newLine => exact ⟨calm_of_held hs, by simp⟩
  | mark hmark =>
    refine ⟨calm_of_held hs, ?_⟩
    rintro rfl rfl
    exact absurd (mem_of_mark? hmark) (by decide)

theorem keeps_codeStep (hmode : s.mode = .code) (offset : Nat) (c : Char) (next : Option Char) :
    Keeps next (s.codeStep offset c next) := by
  intro t both h
  rcases cases_codeStep h with ⟨f, u, hacts, hflush, hf⟩ | ⟨-, -, hflush, rfl⟩ | ⟨-, rfl, rfl⟩
  · have hkeeps := keeps_acts hacts (flush_spec hflush).2
    rwa [hf] at hkeeps
  · exact ⟨calm_of_held (flush_spec hflush).2, by simp⟩
  · exact ⟨calm_code ((mode_extend s c offset).trans hmode), by simp⟩

theorem keeps_ok (h : t.Calm) : Keeps next (one (.ok t)) := by
  apply keeps_one
  rintro u ⟨⟩
  exact h

theorem keeps_stringStep {wide : Bool} (hmode : s.mode = .string wide) (c : Char)
    (next : Option Char) : Keeps next (s.stringStep wide c next) := by
  have hhold (c : Char) : (s.hold c).Calm := by
    apply calm_of_mode <;> simp [hold, hmode]
  have hclose : Keeps next (one (s.closeString wide)) := by
    apply keeps_one
    intro t ht
    unfold closeString at ht
    dsimp only at ht
    split at ht
    · cases ht
    · cases ht
      exact calm_of_held rfl
  unfold stringStep
  apply keeps_ite
  · intro _
    exact keeps_ite (fun _ => hclose) (keeps_ok (hhold c))
  · apply keeps_ite
    · rintro ⟨-, rfl⟩
      apply keeps_two (by decide)
      rintro t ⟨⟩
      exact hhold '\''
    · exact keeps_ite (fun _ => hclose) (keeps_ok (hhold c))

theorem keeps_step (h : s.Calm) (offset : Nat) (c : Char) (next : Option Char) :
    Keeps next (s.step offset c next) := by
  unfold step
  cases hmode : s.mode with
  | code => exact keeps_codeStep hmode offset c next
  | lineComment =>
    have hheld : s.held = [] := h (.inl hmode)
    exact keeps_ite (fun _ => keeps_ok (calm_of_held hheld)) (keeps_ok h)
  | blockComment =>
    have hheld : s.held = [] := h (.inr hmode)
    apply keeps_ite _ (keeps_ok h)
    rintro ⟨-, rfl⟩
    apply keeps_two (by decide)
    rintro t ⟨⟩
    exact calm_of_held hheld
  | string wide => exact keeps_stringStep hmode c next
  | rawKey =>
    apply keeps_ite
    · intro _
      apply keeps_one
      intro t ht
      unfold closeKey at ht
      dsimp only at ht
      split at ht
      · cases ht
        exact calm_of_held rfl
      · cases ht
    · apply keeps_ok
      apply calm_of_mode <;> simp [hold, hmode]

structure Fresh (s : Scanner) : Prop where
  mode : s.mode ≠ .lineComment
  held : s.mode = .code → s.held = []

theorem step_lineEnd (h : s.Calm) (offset : Nat) :
    (∃ e, ∀ next, s.step offset '\n' next = .error e) ∨
      ∃ t, Fresh t ∧ ∀ next, s.step offset '\n' next = .ok (t, false) := by
  cases hmode : s.mode with
  | code =>
    cases hflush : s.flush with
    | error e =>
      left
      exact ⟨e, fun next => by simp [step, hmode, codeStep, hflush, one, Except.map]⟩
    | ok t =>
      right
      refine ⟨t.push (.mark .newLine) offset, ⟨?_, fun _ => (flush_spec hflush).2⟩, ?_⟩
      · change t.mode ≠ _
        rw [(flush_spec hflush).1, hmode]
        decide
      · intro next
        simp [step, hmode, codeStep, hflush, one, Except.map]
  | lineComment =>
    right
    have hheld : s.held = [] := h (.inl hmode)
    refine ⟨{ s with mode := .code }.push (.mark .newLine) offset, ⟨?_, fun _ => hheld⟩, ?_⟩
    · rintro ⟨⟩
    · intro next
      rw [step, hmode]
      rfl
  | blockComment =>
    right
    refine ⟨s, ⟨by simp [hmode], by simp [hmode]⟩, fun next => ?_⟩
    rw [step, hmode]
    rfl
  | string wide =>
    right
    refine ⟨s.hold '\n', ⟨by simp [hold, hmode], by simp [hold, hmode]⟩, fun next => ?_⟩
    cases wide <;> simp [step, hmode, stringStep, one, Except.map]
  | rawKey =>
    right
    refine ⟨s.hold '\n', ⟨by simp [hold, hmode], by simp [hold, hmode]⟩, fun next => ?_⟩
    rw [step, hmode]
    rfl

theorem complete_error {e : Stop} {rest : List Char} (h : s.step offset c rest.head? = .error e)
    (total : Nat) : s.complete offset (c :: rest) total = .error e := by
  rw [complete, run_error h]

def Parts (s : Scanner) (offset : Nat) (text : List Char) : Prop :=
  (∃ e, ∀ rest total, s.complete offset (text ++ rest) total = .error e) ∨
    ∃ t, Fresh t ∧ ∀ rest total,
      s.complete offset (text ++ rest) total = t.complete (offset + byteCount text) rest total

theorem Parts.of_eq {text after : List Char} {offset' : Nat} (h : Parts t offset' after)
    (hplace : offset' + byteCount after = offset + byteCount text)
    (heq : ∀ rest total, s.complete offset (text ++ rest) total =
      t.complete offset' (after ++ rest) total) : Parts s offset text := by
  rcases h with ⟨e, he⟩ | ⟨u, hu, hrest⟩
  · left
    exact ⟨e, fun rest total => (heq rest total).trans (he rest total)⟩
  · right
    refine ⟨u, hu, fun rest total => ?_⟩
    rw [heq, hrest, hplace]

theorem parts_lineEnd {s : Scanner} (h : s.Calm) (offset : Nat) (text : List Char) :
    Parts s offset (text ++ ['\n']) := by
  -- The induction is on the characters, of which a step takes one or two, but never the line end.
  match text with
  | [] =>
    rcases step_lineEnd h offset with ⟨e, he⟩ | ⟨t, ht, hstep⟩
    · left
      exact ⟨e, fun rest total => complete_error (he _) total⟩
    · right
      exact ⟨t, ht, fun rest total => complete_one (hstep _)⟩
  | c :: text =>
    have hhead (rest : List Char) :
        (text ++ ['\n'] ++ rest).head? = some (text.headD '\n') := by
      cases text <;> rfl
    have hkeeps := keeps_step h offset c (some (text.headD '\n'))
    cases hstep : s.step offset c (some (text.headD '\n')) with
    | error e =>
      left
      exact ⟨e, fun rest total => complete_error ((congrArg _ (hhead rest)).trans hstep) total⟩
    | ok r =>
      obtain ⟨t, both⟩ := r
      obtain ⟨hcalm, hnext⟩ := hkeeps t both hstep
      cases both with
      | false =>
        apply (parts_lineEnd hcalm (offset + c.utf8Size) text).of_eq
        · rw [List.cons_append, byteCount_cons, Nat.add_assoc]
        · intro rest total
          exact complete_one ((congrArg _ (hhead rest)).trans hstep)
      | true =>
        cases text with
        | nil => exact absurd rfl (hnext rfl)
        | cons d text =>
          apply (parts_lineEnd hcalm (offset + c.utf8Size + d.utf8Size) text).of_eq
          · simp only [List.cons_append, byteCount_cons, Nat.add_assoc]
          · intro rest total
            exact complete_two hstep
termination_by text.length

theorem Fresh.settled {total : Nat} {ls : List Lexeme} (h : Fresh s)
    (hclose : s.close total = .ok ls) : s.Settled := by
  cases hmode : s.mode with
  | code => exact ⟨hmode, h.held hmode⟩
  | lineComment => exact absurd hmode h.mode
  | blockComment => simp [close, hmode] at hclose
  | string wide => simp [close, hmode] at hclose
  | rawKey => simp [close, hmode] at hclose

theorem exists_settled {text : List Char} {total : Nat} {ls : List Lexeme} (h : s.Calm)
    (hend : text.getLast? = some '\n') (hls : s.complete offset text total = .ok ls) :
    ∃ t : Scanner, t.Settled ∧ t.scripts = [] ∧ t.done.reverse = ls ∧ ∀ rest total,
      s.complete offset (text ++ rest) total = t.complete (offset + byteCount text) rest total := by
  obtain ⟨front, rfl⟩ := List.getLast?_eq_some_iff.mp hend
  rcases parts_lineEnd h offset front with ⟨e, he⟩ | ⟨t, ht, hrest⟩
  · have hstop := he [] total
    rw [List.append_nil, hls] at hstop
    cases hstop
  · have hclose := hrest [] total
    rw [List.append_nil, hls] at hclose
    have hsettled : t.Settled := ht.settled hclose.symm
    obtain ⟨u, hflush, hscripts, rfl⟩ := flush_of_close hclose.symm
    rw [hsettled.flush] at hflush
    cases hflush
    exact ⟨t, hsettled, hscripts, rfl, hrest⟩

end Scanner

end QbCodec.Source
