import QbCodec.Proofs.Source.Spans

namespace QbCodec.Source

inductive Balanced : List Token → Prop
  | nil : Balanced []
  | plain {t : Token} {ts : List Token} (ht : isScriptBracket t = false) (h : Balanced ts) :
      Balanced (t :: ts)
  | script {inner rest : List Token} (hinner : Balanced inner) (hrest : Balanced rest) :
      Balanced (.keyword .script :: (inner ++ .keyword .endScript :: rest))

def IsMatched (ts : List Token) (i : Nat) : Prop :=
  ∃ inner rest, ts.drop (i + 1) = inner ++ .keyword .endScript :: rest ∧ Balanced inner

structure IsUnmatched (ts : List Token) (i : Nat) : Prop where
  script : ts[i]? = some (.keyword .script)
  not_matched : ¬ IsMatched ts i

section

variable {ts us inner outer : List Token} {i j n m : Nat} {scripts : List Nat}

theorem Balanced.append (ht : Balanced ts) (hu : Balanced us) : Balanced (ts ++ us) := by
  induction ht with
  | nil => exact hu
  | plain ht _ ih => exact .plain ht ih
  | script hinner _ _ ih =>
    rw [List.cons_append, List.append_assoc, List.cons_append]
    exact .script hinner ih

theorem openScripts_of_balanced (h : Balanced ts) (n : Nat) : openScripts n ts = some n := by
  induction h generalizing n with
  | nil => rfl
  | plain ht _ ih => rw [openScripts_cons, scriptStep_of_not_bracket n ht, Option.bind_some, ih]
  | script _ _ ihinner ihrest =>
    rw [openScripts_cons, scriptStep_script, Option.bind_some, openScripts_append, ihinner,
      Option.bind_some, openScripts_cons, scriptStep_endScript, Option.bind_some, ihrest]

theorem openScripts_add (h : openScripts n ts = some m) (k : Nat) :
    openScripts (n + k) ts = some (m + k) := by
  induction ts generalizing n with
  | nil =>
    cases h
    rfl
  | cons t ts ih =>
    rw [openScripts_cons] at h ⊢
    obtain ⟨l, hl, hrest⟩ := Option.bind_eq_some_iff.mp h
    have hstep : scriptStep (n + k) t = some (l + k) := by
      unfold scriptStep at hl ⊢
      split at hl
      · cases hl
        simp only [Nat.add_right_comm]
      · split at hl
        · cases hl
        · cases hl
          rw [if_neg (by omega), Nat.sub_add_comm (by omega)]
      · cases hl
        rfl
    rw [hstep]
    exact ih hrest

theorem openScripts_behind_end (h : openScripts n us = some 0) (rest : List Token) :
    openScripts n (us ++ .keyword .endScript :: rest) = none := by
  rw [openScripts_append, h]
  rfl

theorem lt_of_balanced (h : Balanced (us ++ .keyword .endScript :: ts))
    (hopen : openScripts n us = some m) : n < m := by
  cases hus : openScripts 0 us with
  | none =>
    have hnone := openScripts_of_balanced h 0
    rw [openScripts_append, hus] at hnone
    cases hnone
  | some k =>
    have hadd := openScripts_add hus n
    rw [Nat.zero_add, hopen, Option.some.injEq] at hadd
    have hpos : k ≠ 0 := by
      rintro rfl
      have hnone := openScripts_of_balanced h 0
      rw [openScripts_behind_end hus] at hnone
      cases hnone
    omega

inductive Stacked : List Token → List Nat → Prop
  | closed {ts : List Token} (h : Balanced ts) : Stacked ts []
  | opened {outer inner : List Token} {scripts : List Nat} (h : Stacked outer scripts)
      (hinner : Balanced inner) :
      Stacked (outer ++ .keyword .script :: inner) (outer.length :: scripts)

theorem Stacked.append (h : Stacked ts scripts) (hu : Balanced us) :
    Stacked (ts ++ us) scripts := by
  cases h with
  | closed hbalanced => exact .closed (hbalanced.append hu)
  | opened houter hinner =>
    rw [List.append_assoc, List.cons_append]
    exact .opened houter (hinner.append hu)

theorem Stacked.plain {t : Token} (h : Stacked ts scripts) (ht : isScriptBracket t = false) :
    Stacked (ts ++ [t]) scripts := h.append (.plain ht .nil)

theorem Stacked.script (h : Stacked ts scripts) :
    Stacked (ts ++ [.keyword .script]) (ts.length :: scripts) := .opened h .nil

theorem Stacked.endScript (h : Stacked ts (i :: scripts)) :
    Stacked (ts ++ [.keyword .endScript]) scripts := by
  cases h with
  | opened houter hinner =>
    rw [List.append_assoc, List.cons_append]
    exact houter.append (.script hinner .nil)

theorem Stacked.lt_length (h : Stacked ts scripts) : ∀ i ∈ scripts, i < ts.length := by
  induction h with
  | closed => exact fun i hi => absurd hi List.not_mem_nil
  | opened _ _ ih =>
    intro i hi
    rw [List.length_append, List.length_cons]
    rcases List.mem_cons.mp hi with rfl | hi
    · omega
    · have := ih i hi
      omega

theorem Stacked.pairwise (h : Stacked ts scripts) : scripts.Pairwise (· > ·) := by
  induction h with
  | closed => exact .nil
  | opened houter _ ih => exact .cons houter.lt_length ih

theorem isMatched_append_right (h : IsMatched ts i) (us : List Token) : IsMatched (ts ++ us) i := by
  obtain ⟨inner, rest, hdrop, hinner⟩ := h
  have hle : i + 1 ≤ ts.length := by
    have hlength := congrArg List.length hdrop
    simp only [List.length_drop, List.length_append, List.length_cons] at hlength
    omega
  refine ⟨inner, rest ++ us, ?_, hinner⟩
  rw [List.drop_append_of_le_length hle, hdrop, List.append_assoc, List.cons_append]

theorem isMatched_cons {t : Token} : IsMatched (t :: ts) (i + 1) ↔ IsMatched ts i := Iff.rfl

theorem isMatched_append_left : IsMatched (us ++ ts) (us.length + i) ↔ IsMatched ts i := by
  unfold IsMatched
  rw [Nat.add_assoc, List.drop_length_add_append]

theorem isMatched_of_balanced (h : Balanced ts) (hi : ts[i]? = some (.keyword .script)) :
    IsMatched ts i := by
  induction h generalizing i with
  | nil => cases hi
  | plain ht _ ih =>
    cases i with
    | zero =>
      cases hi
      cases ht
    | succ i => exact isMatched_cons.mpr (ih hi)
  | @script inner rest hinner _ ihinner ihrest =>
    cases i with
    | zero => exact ⟨inner, rest, rfl, hinner⟩
    | succ i =>
      rw [List.getElem?_cons_succ] at hi
      apply isMatched_cons.mpr
      by_cases hlt : i < inner.length
      · rw [List.getElem?_append_left hlt] at hi
        exact isMatched_append_right (ihinner hi) _
      · obtain ⟨k, rfl⟩ := Nat.exists_eq_add_of_le (Nat.le_of_not_lt hlt)
        rw [List.getElem?_append_right (by omega), Nat.add_sub_cancel_left] at hi
        cases k with
        | zero => cases hi
        | succ k => exact isMatched_append_left.mpr (isMatched_cons.mpr (ihrest hi))

theorem isMatched_outer (hinner : Balanced inner) (hi : i < outer.length)
    (h : IsMatched (outer ++ .keyword .script :: inner) i) : IsMatched outer i := by
  obtain ⟨us, rest, hdrop, hus⟩ := h
  rw [List.drop_append_of_le_length hi] at hdrop
  rcases List.append_eq_append_iff.mp hdrop with ⟨vs, rfl, hvs⟩ | ⟨vs, houter, hvs⟩
  · cases vs with
    | nil => cases hvs
    | cons v vs =>
      rw [List.cons_append, List.cons.injEq] at hvs
      obtain ⟨rfl, rfl⟩ := hvs
      have hopen := openScripts_of_balanced hus 0
      rw [openScripts_append] at hopen
      obtain ⟨k, -, hopen⟩ := Option.bind_eq_some_iff.mp hopen
      have := lt_of_balanced hinner hopen
      omega
  · cases vs with
    | nil => cases hvs
    | cons v vs =>
      rw [List.cons_append, List.cons.injEq] at hvs
      obtain ⟨rfl, -⟩ := hvs
      exact ⟨us, vs, houter, hus⟩

theorem Stacked.mem_iff (h : Stacked ts scripts) (i : Nat) : i ∈ scripts ↔ IsUnmatched ts i := by
  induction h with
  | closed hbalanced =>
    refine iff_of_false List.not_mem_nil fun hi => ?_
    exact hi.not_matched (isMatched_of_balanced hbalanced hi.script)
  | @opened outer inner scripts houter hinner ih =>
    rw [List.mem_cons]
    rcases Nat.lt_trichotomy i outer.length with hlt | rfl | hgt
    · rw [or_iff_right (Nat.ne_of_lt hlt), ih]
      constructor
      · rintro ⟨hscript, hnot⟩
        exact ⟨by rwa [List.getElem?_append_left hlt], fun h => hnot (isMatched_outer hinner hlt h)⟩
      · rintro ⟨hscript, hnot⟩
        rw [List.getElem?_append_left hlt] at hscript
        exact ⟨hscript, fun h => hnot (isMatched_append_right h _)⟩
    · refine iff_of_true (.inl rfl) ⟨by simp, ?_⟩
      rw [← Nat.add_zero outer.length, isMatched_append_left]
      rintro ⟨us, rest, hdrop, hus⟩
      rw [List.drop_one, List.tail_cons] at hdrop
      subst hdrop
      exact absurd (lt_of_balanced hinner (openScripts_of_balanced hus 0)) (Nat.lt_irrefl 0)
    · obtain ⟨k, rfl⟩ := Nat.exists_eq_add_of_le (Nat.succ_le_of_lt hgt)
      rw [Nat.succ_eq_add_one, Nat.add_assoc, Nat.add_comm 1 k]
      refine iff_of_false ?_ ?_
      · rintro (heq | hmem)
        · omega
        · have := houter.lt_length _ hmem
          omega
      · rintro ⟨hscript, hnot⟩
        rw [List.getElem?_append_right (by omega), Nat.add_sub_cancel_left,
          List.getElem?_cons_succ] at hscript
        exact hnot (isMatched_append_left.mpr
          (isMatched_cons.mpr (isMatched_of_balanced hinner hscript)))

theorem count_scripts (h : openScripts n ts = some m) :
    ts.count (.keyword .endScript) + m = ts.count (.keyword .script) + n := by
  induction ts generalizing n with
  | nil =>
    cases h
    rfl
  | cons t ts ih =>
    rw [openScripts_cons] at h
    obtain ⟨k, hk, hrest⟩ := Option.bind_eq_some_iff.mp h
    have hcount := ih hrest
    unfold scriptStep at hk
    split at hk
    · cases hk
      rw [List.count_cons_self, List.count_cons_of_ne (by decide)]
      omega
    · split at hk
      · cases hk
      · cases hk
        rw [List.count_cons_self, List.count_cons_of_ne (by decide)]
        omega
    · rename_i hscript hend
      cases hk
      rw [List.count_cons_of_ne fun heq => hend heq, List.count_cons_of_ne fun heq => hscript heq]
      exact hcount

theorem count_take_le (h : openScripts 0 ts = some 0) (n : Nat) :
    (ts.take n).count (.keyword .endScript) ≤ (ts.take n).count (.keyword .script) := by
  rw [← List.take_append_drop n ts, openScripts_append] at h
  obtain ⟨m, hm, -⟩ := Option.bind_eq_some_iff.mp h
  have := count_scripts hm
  omega

end

namespace Scanner

variable {s t : Scanner} {offset : Nat} {c : Char} {next : Option Char} {both : Bool}

/-- The states that the scanner can come to, whatever characters it is given. -/
inductive Reachable : Scanner → Prop
  | start : Reachable {}
  | step {s t : Scanner} {offset : Nat} {c : Char} {next : Option Char} {both : Bool}
      (h : Reachable s) (hstep : s.step offset c next = .ok (t, both)) : Reachable t
  | flush {s t : Scanner} (h : Reachable s) (hflush : s.flush = .ok t) : Reachable t

theorem Reachable.run {text : List Char} (h : Reachable s) (hrun : s.run offset text = .ok t) :
    Reachable t := by
  fun_induction Scanner.run s offset text with
  | case1 =>
    cases hrun
    exact h
  | case2 s offset c =>
    obtain ⟨⟨u, both⟩, hstep, rfl⟩ := exists_of_map_eq_ok hrun
    exact h.step hstep
  | case3 => cases hrun
  | case4 s offset c d rest u hstep ih => exact ih (h.step hstep) hrun
  | case5 s offset c d rest u hstep ih => exact ih (h.step hstep) hrun

structure Stacks (s : Scanner) : Prop where
  depth : s.depth = s.scripts.length
  stacked : Stacked (tokens s.done.reverse) s.scripts

theorem Stacks.of_eq (h : Stacks s) (hdepth : t.depth = s.depth) (hscripts : t.scripts = s.scripts)
    (hdone : t.done = s.done) : Stacks t :=
  ⟨by rw [hdepth, hscripts, h.depth], by rw [hdone, hscripts]; exact h.stacked⟩

theorem Stacks.push {token : Token} (h : Stacks s) (htoken : isScriptBracket token = false)
    (offset : Nat) : Stacks (s.push token offset) where
  depth := h.depth
  stacked := by
    rw [Scanner.push, tokens_reverse_cons]
    exact h.stacked.plain htoken

theorem Stacks.pushWord {token : Token} (h : Stacks s) (hpush : s.pushWord token = .ok t) :
    Stacks t := by
  have hstacked := h.stacked
  rcases cases_pushWord hpush with
    ⟨rfl, rfl⟩ | ⟨rfl, i, outer, hscripts, rfl⟩ | ⟨hscript, hend, rfl⟩
  · refine ⟨congrArg (· + 1) h.depth, ?_⟩
    have hlength : s.done.length = (tokens s.done.reverse).length := by simp [tokens]
    rw [Scanner.push, tokens_reverse_cons, hlength]
    exact hstacked.script
  · rw [hscripts] at hstacked
    refine ⟨?_, ?_⟩
    · rw [h.depth, hscripts]
      rfl
    · rw [Scanner.push, tokens_reverse_cons]
      exact hstacked.endScript
  · exact h.push (not_bracket_of_ne hscript hend) _

theorem Stacks.flush (h : Stacks s) (hflush : s.flush = .ok t) : Stacks t := by
  rcases cases_flush hflush with ⟨-, rfl⟩ | ⟨-, token, -, hpush⟩
  · exact h
  · have hrest : Stacks { s with held := [] } := h.of_eq rfl rfl rfl
    exact hrest.pushWord hpush

theorem Stacks.extend (h : Stacks s) (c : Char) (offset : Nat) : Stacks (s.extend c offset) := by
  rw [extend_eq]
  exact h.of_eq rfl rfl rfl

theorem Stacks.acts {f : Scanner → Scanner × Bool} (h : Stacks s) (hacts : Acts offset c next f)
    (hf : f s = (t, both)) : Stacks t := by
  cases hacts with
  | enter =>
    cases hf
    exact h.of_eq rfl rfl rfl
  | skip =>
    cases hf
    exact h
  | newLine =>
    cases hf
    exact h.push rfl _
  | mark =>
    cases hf
    exact h.push rfl _

theorem Stacks.codeStep (h : Stacks s) (hstep : s.codeStep offset c next = .ok (t, both)) :
    Stacks t := by
  rcases cases_codeStep hstep with ⟨f, u, hacts, hflush, hf⟩ | ⟨-, -, hflush, -⟩ | ⟨-, rfl, -⟩
  · exact (h.flush hflush).acts hacts hf
  · have hhold : Stacks (s.hold '>') := h.of_eq rfl rfl rfl
    exact hhold.flush hflush
  · exact h.extend c offset

theorem Stacks.outside (h : Stacks s) (houtside : Outside s t) : Stacks t := by
  rcases houtside.done with hdone | ⟨l, hfree, -, hdone⟩
  · exact h.of_eq houtside.depth houtside.scripts hdone
  · have hpush := h.push (not_bracket_of_isFree hfree) l.offset
    exact hpush.of_eq houtside.depth houtside.scripts hdone

theorem Stacks.step (h : Stacks s) (hstep : s.step offset c next = .ok (t, both)) : Stacks t := by
  by_cases hmode : s.mode = .code
  · rw [Scanner.step, hmode] at hstep
    exact h.codeStep hstep
  · exact h.outside (outside_step hmode hstep)

theorem Reachable.stacks (h : Reachable s) : Stacks s := by
  induction h with
  | start => exact ⟨rfl, .closed .nil⟩
  | step _ hstep ih => exact ih.step hstep
  | flush _ hflush ih => exact ih.flush hflush

theorem fault_pushWord {token : Token} {e : Stop} (h : s.pushWord token = .error e) :
    e.fault ≠ .scriptNotClosed := by
  unfold pushWord at h
  split at h
  · cases h
  · split at h
    · cases h
      rintro ⟨⟩
    · cases h
  · cases h

theorem fault_flush {e : Stop} (h : s.flush = .error e) : e.fault ≠ .scriptNotClosed := by
  unfold flush at h
  split at h
  · cases h
  · dsimp only at h
    split at h
    · cases h
    · split at h
      · cases h
        rintro ⟨⟩
      · split at h
        · cases h
          rintro ⟨⟩
        · exact fault_pushWord h

theorem fault_closeString {wide : Bool} {e : Stop} (h : s.closeString wide = .error e) :
    e.fault ≠ .scriptNotClosed := by
  unfold closeString at h
  dsimp only at h
  split at h
  · cases h
    rintro ⟨⟩
  · cases h

theorem fault_closeKey {e : Stop} (h : s.closeKey = .error e) : e.fault ≠ .scriptNotClosed := by
  unfold closeKey at h
  dsimp only at h
  split at h
  · cases h
  · cases h
    rintro ⟨⟩

theorem fault_step {e : Stop} (h : s.step offset c next = .error e) :
    e.fault ≠ .scriptNotClosed := by
  unfold step at h
  split at h
  · split at h <;> cases h
  · split at h <;> cases h
  · split at h
    · exact fault_closeKey (error_of_map h)
    · cases h
  · unfold stringStep at h
    split at h
    · split at h
      · exact fault_closeString (error_of_map h)
      · cases h
    · split at h
      · cases h
      · split at h
        · exact fault_closeString (error_of_map h)
        · cases h
  · rcases fault_codeStep h with hflush | hflush | rfl
    · exact fault_flush hflush
    · exact fault_flush hflush
    · rintro ⟨⟩

theorem fault_run {text : List Char} {e : Stop} (h : s.run offset text = .error e) :
    e.fault ≠ .scriptNotClosed := by
  fun_induction Scanner.run s offset text with
  | case1 => cases h
  | case2 s offset c => exact fault_step (error_of_map h)
  | case3 s offset c d rest e' hstep =>
    cases h
    exact fault_step hstep
  | case4 s offset c d rest u hstep ih => exact ih h
  | case5 s offset c d rest u hstep ih => exact ih h

theorem unclosed_of_close {place : Nat} (h : s.close offset = .error ⟨place, .scriptNotClosed⟩) :
    (s.mode = .code ∨ s.mode = .lineComment) ∧ ∃ t i outer, s.flush = .ok t ∧
      t.scripts = i :: outer ∧ place = (t.done.reverse[i]?.map Lexeme.offset).getD offset := by
  unfold close at h
  split at h
  · cases h
  · cases h
  · cases h
  all_goals
    rename_i hmode
    split at h
    · rename_i hflush
      cases h
      exact absurd rfl (fault_flush hflush)
    · rename_i t hflush
      split at h
      · cases h
      · rename_i hscripts
        cases h
        exact ⟨by simp [hmode], t, _, _, hflush, hscripts, rfl⟩

end Scanner

structure Lexed (text : List Char) (ls : List Lexeme) : Prop where
  scanned : ∃ s t : Scanner, Scanner.run {} 0 text = .ok s ∧ s.flush = .ok t ∧ t.done.reverse = ls
  woven : ∃ spans, Woven text spans [] ∧ spans.map Span.lexeme = ls

theorem unmatched_of_scan {text : List Char} {place : Nat}
    (h : scan text = .error ⟨place, .scriptNotClosed⟩) :
    ∃ ls i l, Lexed text ls ∧ ls[i]? = some l ∧ l.offset = place ∧ IsUnmatched (tokens ls) i ∧
      ∀ j, IsUnmatched (tokens ls) j → j ≤ i := by
  unfold scan at h
  split at h
  · cases h
  · split at h
    · rename_i hrun
      cases h
      exact absurd rfl (Scanner.fault_run hrun)
    · rename_i s hrun
      obtain ⟨hmode, t, i, outer, hflush, hscripts, hplace⟩ := Scanner.unclosed_of_close h
      have hstacked := ((Scanner.Reachable.start.run hrun).flush hflush).stacks.stacked
      have htop : IsUnmatched (tokens t.done.reverse) i := by
        rw [← hstacked.mem_iff, hscripts]
        exact List.mem_cons_self
      have hscript := htop.script
      rw [tokens, List.getElem?_map, Option.map_eq_some_iff] at hscript
      obtain ⟨l, hl, -⟩ := hscript
      obtain ⟨spans, hwoven, hspans⟩ :=
        ((Scanner.tracks_empty text).run rfl hrun).ended hmode hflush
      refine ⟨_, i, l, ⟨⟨s, t, hrun, hflush, rfl⟩, spans, hwoven, hspans.symm⟩, hl, ?_, htop, ?_⟩
      · rw [hplace, hl]
        rfl
      · intro j hj
        have hpairwise := hstacked.pairwise
        rw [← hstacked.mem_iff, hscripts] at hj
        rw [hscripts, List.pairwise_cons] at hpairwise
        rcases List.mem_cons.mp hj with rfl | hj
        · exact Nat.le_refl _
        · exact Nat.le_of_lt (hpairwise.1 j hj)

def Fault.initial : Fault → Char
  | unexpected _ | unterminatedString _ | unterminatedKey | unterminatedComment => 'U'
  | quoteInString .. => 'I'
  | argumentNotClosed | argumentNotOpened => 'L'
  | endWithoutScript => 'e'
  | malformedKey _ => 'M'
  | scriptNotClosed => 's'

theorem Fault.head?_reason (f : Fault) : f.reason.toList.head? = some f.initial := by
  unfold reason
  cases f <;>
  · simp only [toString, String.append_assoc, String.toList_append]
    simp [initial]

theorem Fault.eq_scriptNotClosed {f : Fault} (h : f.reason = scriptNotClosed.reason) :
    f = .scriptNotClosed := by
  have hinitial := congrArg (·.toList.head?) h
  simp only [head?_reason, Option.some.injEq] at hinitial
  cases f with
  | scriptNotClosed => rfl
  | _ => cases hinitial

/-- The scanner's depth is the height of its stack, and the stack has the scripts that are still
without an end. So texts that are read have an end for each script, and a text that is not because
of a script without one is at fault at the last such script. -/
theorem scripts_balanced :
    (∀ s : Scanner, s.Reachable → s.depth = s.scripts.length ∧ s.scripts.Pairwise (· > ·) ∧
      ∀ i, i ∈ s.scripts ↔ IsUnmatched (tokens s.done.reverse) i) ∧
    (∀ source ls, lexemes source = .ok ls →
      (∀ n, ((tokens ls).take n).count (.keyword .endScript) ≤
        ((tokens ls).take n).count (.keyword .script)) ∧
      (tokens ls).count (.keyword .endScript) = (tokens ls).count (.keyword .script)) ∧
    ∀ source d, lexemes source = .error (.source d) → d.reason = Fault.scriptNotClosed.reason →
      ∃ ls i l, Lexed source.toList ls ∧ ls[i]? = some l ∧ l.offset = d.offset ∧
        IsUnmatched (tokens ls) i ∧ ∀ j, IsUnmatched (tokens ls) j → j ≤ i := by
  refine ⟨fun s hs => ?_, fun source ls hls => ?_, fun source d hd hreason => ?_⟩
  · obtain ⟨hdepth, hstacked⟩ := hs.stacks
    exact ⟨hdepth, hstacked.pairwise, hstacked.mem_iff⟩
  · have hopen := openScripts_of_lexemes hls
    exact ⟨count_take_le hopen, count_scripts hopen⟩
  · unfold lexemes at hd
    cases hscan : scan source.toList with
    | ok ls =>
      rw [hscan] at hd
      cases hd
    | error e =>
      rw [hscan] at hd
      cases hd
      obtain ⟨place, fault⟩ := e
      obtain rfl := Fault.eq_scriptNotClosed hreason
      exact unmatched_of_scan hscan

theorem scripts_balanced_unclosed :
    (∃ s, Scanner.run {} 0 "script a script b ".toList = .ok s ∧ s.depth = s.scripts.length ∧
      s.scripts.Pairwise (· > ·) ∧ ∀ i, i ∈ s.scripts ↔ IsUnmatched (tokens s.done.reverse) i) ∧
    ((∀ n, ([Token.keyword .script, .name "a", .keyword .endScript].take n).count
          (.keyword .endScript) ≤
        ([Token.keyword .script, .name "a", .keyword .endScript].take n).count (.keyword .script)) ∧
      [Token.keyword .script, .name "a", .keyword .endScript].count (.keyword .endScript) =
        [Token.keyword .script, .name "a", .keyword .endScript].count (.keyword .script)) ∧
    ∃ ls i l, Lexed "x script a script b endscript".toList ls ∧ ls[i]? = some l ∧ l.offset = 2 ∧
      IsUnmatched (tokens ls) i ∧ ∀ j, IsUnmatched (tokens ls) j → j ≤ i := by
  obtain ⟨hstate, hread, hunclosed⟩ := scripts_balanced
  have hrun : ∃ s, Scanner.run {} 0 "script a script b ".toList = .ok s := by
    have hsome : (Scanner.run {} 0 "script a script b ".toList).toOption.isSome := by
      decide +kernel
    cases hrun : Scanner.run {} 0 "script a script b ".toList with
    | ok s => exact ⟨s, rfl⟩
    | error e =>
      rw [hrun] at hsome
      cases hsome
  have hclosed : lexemes "script a endscript" =
      .ok [⟨.keyword .script, 0⟩, ⟨.name "a", 7⟩, ⟨.keyword .endScript, 9⟩] := by
    apply lexemes_of_toOption
    decide +kernel
  have hfault : ∃ d, lexemes "x script a script b endscript" = .error (.source d) ∧ d.offset = 2 ∧
      d.reason = Fault.scriptNotClosed.reason := by
    have hchecked : (match lexemes "x script a script b endscript" with
        | .error (.source d) => d.offset == 2 && d.reason == Fault.scriptNotClosed.reason
        | _ => false) = true := by decide +kernel
    split at hchecked
    · rename_i d hd
      simp only [Bool.and_eq_true, beq_iff_eq] at hchecked
      exact ⟨d, hd, hchecked⟩
    · cases hchecked
  obtain ⟨s, hrun⟩ := hrun
  obtain ⟨d, hd, hplace, hreason⟩ := hfault
  refine ⟨⟨s, hrun, hstate s (Scanner.Reachable.start.run hrun)⟩, hread _ _ hclosed, ?_⟩
  rw [← hplace]
  exact hunclosed _ d hd hreason

end QbCodec.Source
