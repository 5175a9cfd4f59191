import QbCodec.Proofs.Source.Joining

namespace QbCodec.Source

namespace Scanner

variable {s t : Scanner} {offset total : Nat} {c d : Char} {rest : List Char}

theorem ne_of_isSkipped (hd : isSkipped d) (hc : isSkipped c = false) : some d ≠ some c := by
  rintro ⟨⟩
  rw [hd] at hc
  cases hc

def TakesOne (r : Step) : Prop := ∀ t both, r = .ok (t, both) → both = false

theorem takesOne_one (r : Except Stop Scanner) : TakesOne (one r) := by
  intro t both h
  obtain ⟨u, -, hu⟩ := exists_of_map_eq_ok h
  cases hu
  rfl

theorem takesOne_ite {p : Prop} [Decidable p] {a b : Step} (ha : p → TakesOne a)
    (hb : TakesOne b) : TakesOne (if p then a else b) := by
  split
  · rename_i hp
    exact ha hp
  · exact hb

theorem takesOne_codeStep (hd : isSkipped d) (s : Scanner) (offset : Nat) (c : Char) :
    TakesOne (s.codeStep offset c (some d)) := by
  intro t both h
  rcases cases_codeStep h with ⟨f, u, hacts, -, hf⟩ | ⟨-, -, -, rfl⟩ | ⟨-, -, rfl⟩
  · -- No blank is the second character of those that take two.
    cases hacts with
    | enter hopens =>
      cases hf
      cases hopens with
      | string => rfl
      | wideString => rfl
      | _ => exact absurd hd (by decide)
    | skip =>
      cases hf
      rfl
    | newLine =>
      cases hf
      rfl
    | mark hmark =>
      cases hf
      rw [← Bool.not_eq_true]
      rintro rfl
      have hall : ['\x7b', '=', '<', '>', '|', ':'].all (fun e => !isSkipped e) := by decide
      have hsecond := List.all_eq_true.mp hall d (mem_of_mark? hmark)
      rw [hd] at hsecond
      cases hsecond
  · rfl
  · rfl

theorem takesOne_step (hd : isSkipped d) (s : Scanner) (offset : Nat) (c : Char) :
    TakesOne (s.step offset c (some d)) := by
  have hne {e : Char} (he : isSkipped e = false) (h : some d = some e) {r : Step} : TakesOne r :=
    absurd h (ne_of_isSkipped hd he)
  unfold step
  cases s.mode with
  | code => exact takesOne_codeStep hd s offset c
  | lineComment => exact takesOne_ite (fun _ => takesOne_one _) (takesOne_one _)
  | blockComment => exact takesOne_ite (fun h => hne (by decide) h.2) (takesOne_one _)
  | string wide =>
    unfold stringStep
    apply takesOne_ite fun _ => takesOne_ite (fun _ => takesOne_one _) (takesOne_one _)
    apply takesOne_ite fun h => hne (by decide) h.2
    exact takesOne_ite (fun _ => takesOne_one _) (takesOne_one _)
  | rawKey => exact takesOne_ite (fun _ => takesOne_one _) (takesOne_one _)

def isNoticed (d : Char) : Bool :=
  isNameChar d || ['"', '\'', '\x7b', '=', '<', '>', '|', ':', '.'].contains d

/-- To `c` the text might as well end in front of `d`. -/
structure Unnoticed (mode : Mode) (c d : Char) : Prop where
  noticed : isNoticed d = false
  opens : mode = .code → c = '/' → d ≠ '/' ∧ d ≠ '*'
  closes : mode = .blockComment → c = '*' → d ≠ '/'

theorem ne_of_not_noticed {e : Char} (hd : isNoticed d = false) (he : isNoticed e) : d ≠ e := by
  rintro rfl
  rw [hd] at he
  cases he

theorem mark?_unnoticed (hd : isNoticed d = false) : mark? c (some d) = mark? c none := by
  unfold mark?
  split
  case h_26 => simp_all
  all_goals first
    | rfl
    | rename_i h
      exact absurd (Option.some.inj h) (ne_of_not_noticed hd (by decide))

theorem step_unnoticed (h : Unnoticed s.mode c d) (offset : Nat) :
    s.step offset c (some d) = s.step offset c none := by
  have hne {e : Char} (he : isNoticed e) : d ≠ e := ne_of_not_noticed h.noticed he
  have hname : isNameChar d = false := by
    have hd := h.noticed
    rw [isNoticed, Bool.or_eq_false_iff] at hd
    exact hd.1
  have hdigit : Text.isDigit d = false := by
    by_contra hdigit
    rw [isNameChar_of_isDigit (by simpa using hdigit)] at hname
    cases hname
  unfold step
  cases hmode : s.mode with
  | code =>
    have hslash (hc : c = '/') : d ≠ '/' ∧ d ≠ '*' := h.opens hmode hc
    have hopens : ¬ (c = '/' ∧ d = '/') := fun hc => (hslash hc.1).1 hc.2
    have hopens' : ¬ (c = '/' ∧ d = '*') := fun hc => (hslash hc.1).2 hc.2
    simp [codeStep, takesPoint, hopens, hopens', hname, hdigit, hne (e := '"') (by decide),
      hne (e := '.') (by decide), mark?_unnoticed h.noticed]
  | lineComment => rfl
  | blockComment =>
    have hcloses : ¬ (c = '*' ∧ d = '/') := fun hc => h.closes hmode hc.1 hc.2
    simp [hcloses]
  | string wide => simp [stringStep, hne (e := '\'') (by decide)]
  | rawKey => rfl

theorem takesOne_none (s : Scanner) (offset : Nat) (c : Char) : TakesOne (s.step offset c none) := by
  have hspace : Unnoticed s.mode c ' ' := ⟨by decide, fun _ _ => by decide, fun _ _ => by decide⟩
  rw [← step_unnoticed hspace]
  exact takesOne_step (by decide) s offset c

theorem complete_flush_skipped (hmode : s.mode = .code) (hflush : s.flush = .ok t)
    (ht : t.Settled) (hrest : rest.head?.all isSkipped) :
    s.complete offset rest total = t.complete offset rest total := by
  apply complete_of_codeStep hmode hflush ht
  rintro c cs rfl
  rw [codeStep_skipped s hrest, codeStep_skipped t hrest, hflush, ht.flush]

theorem exists_step_skipped (h : s.Calm) (hc : isSkipped c) (offset : Nat) :
    ∃ r : Except Stop Scanner, (∀ next, s.step offset c next = one r) ∧
      ∀ t, r = .ok t → t.mode = .code → t.held = [] := by
  have hne {e : Char} (he : isSkipped e = false) : c ≠ e :=
    fun hce => ne_of_isSkipped hc he (congrArg some hce)
  cases hmode : s.mode with
  | code =>
    refine ⟨if c = '\n' then s.flush.map (·.push (.mark .newLine) offset) else s.flush,
      fun next => ?_, ?_⟩
    · rw [step, hmode]
      exact codeStep_skipped s hc offset next
    · intro t ht _
      split at ht
      · obtain ⟨u, hu, rfl⟩ := exists_of_map_eq_ok ht
        exact (flush_spec hu).2
      · exact (flush_spec ht).2
  | lineComment =>
    have hheld : s.held = [] := h (.inl hmode)
    by_cases hline : c = '\n'
    · refine ⟨.ok ({ s with mode := .code }.push (.mark .newLine) offset), fun next => ?_, ?_⟩
      · rw [step, hmode]
        exact if_pos hline
      · rintro t ⟨⟩ _
        exact hheld
    · refine ⟨.ok s, fun next => ?_, ?_⟩
      · rw [step, hmode]
        exact if_neg hline
      · rintro t ⟨⟩ _
        exact hheld
  | blockComment =>
    refine ⟨.ok s, fun next => ?_, ?_⟩
    · rw [step, hmode]
      exact if_neg fun hstar => hne (by decide) hstar.1
    · rintro t ⟨⟩ _
      exact h (.inr hmode)
  | string wide =>
    refine ⟨.ok (s.hold c), fun next => ?_, ?_⟩
    · rw [step, hmode]
      have h₁ : c ≠ '"' := hne (by decide)
      have h₂ : c ≠ '\\' := hne (by decide)
      have h₃ : c ≠ '\'' := hne (by decide)
      cases wide <;> simp [stringStep, h₁, h₂, h₃]
    · rintro t ⟨⟩ hcode
      exact absurd (hmode.symm.trans hcode) (by simp)
  | rawKey =>
    refine ⟨.ok (s.hold c), fun next => ?_, ?_⟩
    · rw [step, hmode]
      exact if_neg (hne (by decide))
    · rintro t ⟨⟩ hcode
      exact absurd (hmode.symm.trans hcode) (by simp)

theorem complete_of_run {s t : Scanner} {offset : Nat} (h : s.Calm) (hc : isSkipped c)
    (text : List Char) (hrun : s.run offset (text ++ [c]) = .ok t) :
    (t.mode = .code → t.held = []) ∧ ∀ rest total,
      s.complete offset (text ++ c :: rest) total =
        t.complete (offset + byteCount (text ++ [c])) rest total := by
  -- The induction is on the characters, of which a step takes one or two, but never the blank.
  match text with
  | [] =>
    obtain ⟨r, hstep, hheld⟩ := exists_step_skipped h hc offset
    cases r with
    | error e =>
      rw [List.nil_append, run_error (hstep _)] at hrun
      cases hrun
    | ok u =>
      rw [List.nil_append, run_one (hstep _)] at hrun
      cases hrun
      have hsize : byteCount [c] = c.utf8Size := byteCount_cons c []
      refine ⟨hheld _ rfl, fun rest total => ?_⟩
      rw [List.nil_append, List.nil_append, complete_one (hstep _), hsize]
  | b :: text =>
    have hhead (rest : List Char) : (text ++ c :: rest).head? = some (text.headD c) := by
      cases text <;> rfl
    cases hstep : s.step offset b (some (text.headD c)) with
    | error e =>
      rw [List.cons_append, run_error ((congrArg _ (hhead [])).trans hstep)] at hrun
      cases hrun
    | ok r =>
      obtain ⟨u, both⟩ := r
      obtain ⟨hcalm, -⟩ := keeps_step h offset b (some (text.headD c)) u both hstep
      cases both with
      | false =>
        rw [List.cons_append, run_one ((congrArg _ (hhead [])).trans hstep)] at hrun
        obtain ⟨hheld, hrest⟩ := complete_of_run hcalm hc text hrun
        refine ⟨hheld, fun rest total => ?_⟩
        rw [List.cons_append, complete_one ((congrArg _ (hhead rest)).trans hstep), hrest,
          List.cons_append, byteCount_cons, Nat.add_assoc]
      | true =>
        cases text with
        | nil => cases takesOne_step hc s offset b u true hstep
        | cons d text =>
          have htwo : s.step offset b (some d) = .ok (u, true) := hstep
          rw [List.cons_append, List.cons_append, run_two htwo] at hrun
          obtain ⟨hheld, hrest⟩ := complete_of_run hcalm hc text hrun
          refine ⟨hheld, fun rest total => ?_⟩
          rw [List.cons_append, List.cons_append, complete_two htwo, hrest, List.cons_append,
            List.cons_append, byteCount_cons, byteCount_cons, Nat.add_assoc, Nat.add_assoc]
termination_by text.length

theorem settled_behind {front : List Char} (hfront : front.getLast?.all isSkipped)
    (hrun : ({} : Scanner).run 0 front = .ok s) (hmode : s.mode = .code) :
    s.Settled ∧ ∀ rest total,
      ({} : Scanner).complete 0 (front ++ rest) total = s.complete (byteCount front) rest total := by
  rcases List.eq_nil_or_concat front with rfl | ⟨text, c, rfl⟩
  · cases hrun
    exact ⟨settled_empty, fun rest total => rfl⟩
  · rw [List.concat_eq_append, List.getLast?_concat] at hfront
    rw [List.concat_eq_append] at hrun ⊢
    obtain ⟨hheld, hrest⟩ := complete_of_run (calm_of_held rfl) hfront text hrun
    refine ⟨⟨hmode, hheld hmode⟩, fun rest total => ?_⟩
    rw [List.append_assoc, List.singleton_append, hrest, Nat.zero_add]

end Scanner

end QbCodec.Source
