import Mathlib.Data.List.Induction
import QbCodec.Proofs.File.Acceptance

namespace QbCodec

namespace Statement

variable {game : Game} {depth : Nat} {ts us : List Token} {ns ms : List String}
  {is js : List Instruction}

theorem Body.unique (h : Body game depth ts ns is) (h' : Body game depth ts ms js) :
    ns = ms ∧ is = js := by
  have hls : tokens (ts.map fun t => ⟨t, 0⟩) = ts := by
    rw [tokens, List.map_map]
    exact List.map_id ts
  have heq := (h.readBody hls).symm.trans (h'.readBody hls)
  simp only [Reading.mk.injEq, Except.ok.injEq] at heq
  exact heq

theorem Tuple.exists_concat {i : Instruction} (h : Tuple us i) :
    ∃ vs, us = vs ++ [.mark .closeParen] := by
  cases h with
  | @pair a b _ _ _ _ => exact ⟨[a, .mark .comma, b], rfl⟩
  | @vector a b c _ _ _ _ _ _ => exact ⟨[a, .mark .comma, b, .mark .comma, c], rfl⟩

theorem exists_of_append_lineEnd {i : Instruction} {rest : List Token} (hu : Tuple us i)
    (h : ts ++ [.mark .newLine] = us ++ rest) : ∃ after, ts = us ++ after := by
  obtain ⟨vs, rfl⟩ := hu.exists_concat
  rcases List.eq_nil_or_concat rest with rfl | ⟨after, t, rfl⟩
  · rw [List.append_nil] at h
    have hlast := (List.append_inj' h rfl).2
    cases hlast
  · rw [List.concat_eq_append, ← List.append_assoc] at h
    exact ⟨after, (List.append_inj' h rfl).1⟩

theorem Body.concat_lineEnd (h : Body game depth ts ns is) :
    Body game depth (ts ++ [.mark .newLine]) ns (is ++ [.bare .endOfLine]) := by
  induction h with
  | nil => exact .mark rfl .nil
  | int v _ ih => exact .int v ih
  | float v _ ih => exact .float v ih
  | string text _ ih => exact .string text ih
  | wideString text _ ih => exact .wideString text ih
  | naming hk _ ih => exact .naming hk ih
  | argument text _ ih => exact .argument text ih
  | phrase hp _ ih => exact .phrase hp ih
  | keyword hne hk _ ih => exact .keyword hne hk ih
  | tuple hi _ ih =>
    rw [List.cons_append, List.append_assoc]
    exact .tuple hi ih
  | openParen hne _ ih =>
    refine .openParen ?_ ih
    intro us i rest hu happend
    obtain ⟨after, hafter⟩ := exists_of_append_lineEnd hu happend
    exact hne us i after hu hafter
  | closeParen _ ih => exact .closeParen ih
  | mark hm _ ih => exact .mark hm ih

theorem PhrasesClosed.of_concat (h : PhrasesClosed (ts ++ [.mark .newLine])) :
    PhrasesClosed ts := by
  intro before after hts
  obtain ⟨p, rest, hp, hrest⟩ := h before (after ++ [.mark .newLine]) (by rw [hts]; simp)
  rcases List.eq_nil_or_concat rest with rfl | ⟨front, t, rfl⟩
  · have hlast := congrArg List.getLast? hrest
    rw [List.getLast?_concat] at hlast
    cases hlast
  · rw [List.concat_eq_append] at hrest
    have happend : after ++ [.mark .newLine] =
        (.mark .openParen :: p :: .mark .closeParen :: front) ++ [t] := hrest
    exact ⟨p, front, hp, (List.append_inj' happend rfl).1⟩

theorem Body.of_concat_lineEnd (h : Body game depth (ts ++ [.mark .newLine]) ns is) :
    ∃ js, is = js ++ [.bare .endOfLine] ∧ Body game depth ts ns js := by
  have hacceptable : Acceptable ts :=
    ⟨fun hmem => h.acceptable.noScript (List.mem_append_left _ hmem), h.acceptable.phrasesClosed.of_concat⟩
  -- A meaning without the line end gives one with it, and there is only one.
  obtain ⟨ms, js, hbody⟩ := hacceptable.exists_body game depth
  obtain ⟨rfl, rfl⟩ := h.unique hbody.concat_lineEnd
  exact ⟨js, rfl, hbody⟩

theorem Body.of_append_lineEnds {n : Nat}
    (h : Body game depth (ts ++ List.replicate n (.mark .newLine)) ns is) :
    ∃ js, is = js ++ List.replicate n (.bare .endOfLine) ∧ Body game depth ts ns js := by
  induction n generalizing is with
  | zero =>
    refine ⟨is, by simp, ?_⟩
    simpa using h
  | succ n ih =>
    rw [List.replicate_succ', ← List.append_assoc] at h
    obtain ⟨js, rfl, hbody⟩ := h.of_concat_lineEnd
    obtain ⟨ks, rfl, hks⟩ := ih hbody
    refine ⟨ks, ?_, hks⟩
    rw [List.replicate_succ', List.append_assoc]

theorem exists_lineEnds (ts : List Token) :
    ∃ us n, ts = us ++ List.replicate n (.mark .newLine) ∧
      us.getLast? ≠ some (.mark .newLine) := by
  induction ts using List.reverseRecOn with
  | nil => exact ⟨[], 0, rfl, by simp⟩
  | append_singleton ts t ih =>
    by_cases ht : t = .mark .newLine
    · obtain ⟨us, n, rfl, hlast⟩ := ih
      refine ⟨us, n + 1, ?_, hlast⟩
      rw [ht, List.replicate_succ', List.append_assoc]
    · refine ⟨ts ++ [t], 0, by simp, ?_⟩
      rw [List.getLast?_concat]
      simpa using ht

def EndsOnce (ts : List Token) : Prop :=
  ∀ before name body after,
    ts = before ++ .keyword .script :: name :: (body ++ .keyword .endScript :: after) →
    .keyword .endScript ∉ body →
    ∃ front, body = front ++ [.mark .newLine] ∧ front.getLast? ≠ some (.mark .newLine)

theorem EndsOnce.of_append (before : List Token) {ts : List Token} (h : EndsOnce (before ++ ts)) :
    EndsOnce ts := by
  intro front name body after hts
  exact h (before ++ front) name body after (by rw [hts, List.append_assoc])

theorem EndsOnce.of_cons {t : Token} {ts : List Token} (h : EndsOnce (t :: ts)) : EndsOnce ts :=
  .of_append [t] h

theorem eq_one_of_lineEnds {front : List Token} {n : Nat}
    (hus : us.getLast? ≠ some (.mark .newLine)) (hfront : front.getLast? ≠ some (.mark .newLine))
    (h : us ++ List.replicate n (.mark .newLine) = front ++ [.mark .newLine]) : n = 1 := by
  cases n with
  | zero =>
    rw [List.replicate_zero, List.append_nil] at h
    rw [h, List.getLast?_concat] at hus
    exact absurd rfl hus
  | succ n =>
    rw [List.replicate_succ', ← List.append_assoc] at h
    have hfront' := (List.append_inj' h rfl).1
    cases n with
    | zero => rfl
    | succ n =>
      rw [← hfront', List.replicate_succ', ← List.append_assoc, List.getLast?_concat] at hfront
      exact absurd rfl hfront

end Statement

end QbCodec
