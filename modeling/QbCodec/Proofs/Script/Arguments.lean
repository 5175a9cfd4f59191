import QbCodec.Proofs.File.Respelling
import QbCodec.Proofs.Script.Rereading

namespace QbCodec

open Source Layout

namespace Script

variable {r : Registry} {indent : List Char} {order : ByteOrder} {k : Key}

def argumentText (r : Registry) (k : Key) : List Char := '<' :: r.keyText k ++ ['>']

def argumentBody (k : Key) : List Instruction := [.bare .arg, .word .name k]

theorem wellFormed_argumentBody (k : Key) :
    ∀ i ∈ argumentBody k, i.WellFormed ∧ i ≠ .bare .endScript := by
  intro i hi
  simp only [argumentBody, List.mem_cons, List.not_mem_nil, or_false] at hi
  rcases hi with rfl | rfl
  · exact ⟨rfl, by decide⟩
  · exact ⟨rfl, by simp⟩

theorem render_argumentBody (r : Registry) (indent : List Char) (k : Key) :
    render r indent (argumentBody k) = argumentText r k :=
  render_of_write rfl List.getLast?_concat (by decide)

theorem allActions_argument (r : Registry) (k : Key) (asArgument : Bool)
    (before after : List Instruction) :
    allActions r asArgument (before ++ (argumentBody k ++ after)) =
      allActions r asArgument before ++
        .write .word (argumentText r k) :: allActions r false after := by
  induction before generalizing asArgument with
  | nil => rfl
  | cons i before ih =>
    rw [List.cons_append, allActions, ih, allActions, List.append_assoc]

theorem head?_rawKeyText (k : Key) (rest : List Char) :
    (rawKeyText k ++ rest).head? = some '#' := by
  simp [rawKeyText]

open Scanner in
theorem exists_scan_rawKey (k : Key) :
    ∃ ls, scan ('<' :: rawKeyText k ++ ['>']) = .ok ls ∧
      tokens ls = [.mark .lessThan, .rawKey k, .mark .greaterThan] := by
  let total := byteCount ('<' :: rawKeyText k ++ ['>'])
  let opened : Scanner := ({} : Scanner).push (.mark .lessThan) 0
  have hopen : ({} : Scanner).step 0 '<' (rawKeyText k ++ ['>']).head? = .ok (opened, false) := by
    rw [head?_rawKeyText]
    rfl
  obtain ⟨t, offset, htakes, hkey⟩ :=
    scans_rawKey (0 + '<'.utf8Size) total ['>'] (s := opened) ⟨rfl, rfl⟩ k
  have hscripts : t.scripts = [] := by
    have hlength : some 0 = some t.scripts.length := htakes.scripts
    exact List.length_eq_zero_iff.mp (Option.some.inj hlength).symm
  have hclose : t.step offset '>' ([] : List Char).head? =
      .ok (t.push (.mark .greaterThan) offset, false) := by
    rw [Scanner.step, htakes.settled.mode]
    simp [codeStep, htakes.settled.held, htakes.settled.flush, mark?, Except.map]
  have hend : (t.push (.mark .greaterThan) offset).Settled :=
    ⟨htakes.settled.mode, htakes.settled.held⟩
  refine ⟨(t.push (.mark .greaterThan) offset).done.reverse, ?_, ?_⟩
  · rw [scan_of_not_blank (by simp [show Text.isBlank '<' = false by decide]), List.cons_append,
      complete_one hopen]
    refine hkey.trans ?_
    rw [complete_one hclose, hend.complete_nil hscripts]
  · rw [tokens, List.map_reverse, ← tokens]
    have hdone : tokens t.done = [.rawKey k, .mark .lessThan] := htakes.done
    simp [push, hdone]

/-- A name behind an argument marker is written between angle brackets. With a literal of its own it
is read back as the argument; without one the text is a raw key between two comparisons, which
compiles to a comparison, the name and another comparison. -/
theorem reread_argument (game : Game) (r : Registry) (indent : List Char) (order : ByteOrder)
    (k : Key) (before after : List Instruction) :
    allActions r false (before ++ (argumentBody k ++ after)) =
        allActions r false before ++
          .write .word (argumentText r k) :: allActions r false after ∧
      (r.resolve k = none →
        reread r indent order (argumentBody k) =
            .ok [.mark .lessThan, .rawKey k, .mark .greaterThan] ∧
          recompile game r indent order (argumentBody k) =
            .ok [.bare .lessThan, .word .name k, .bare .greaterThan]) ∧
      ∀ literal, r.resolve k = some literal → literal ≠ "" → literal.toList.all isNameChar →
        reread r indent order (argumentBody k) = .ok [.argument literal] ∧
          recompile game r indent order (argumentBody k) =
            .ok (argumentBody (Key.ofLiteral literal)) := by
  have hrender := render_argumentBody r indent k
  refine ⟨allActions_argument r k false before after, ?_, ?_⟩
  · intro hk
    obtain ⟨ls, hls, htokens⟩ := exists_scan_rawKey k
    have htext : argumentText r k = '<' :: rawKeyText k ++ ['>'] := by
      rw [argumentText, Registry.keyText, hk]
    rw [← htext, ← hrender] at hls
    have hreread := reread_of_scan order (wellFormed_argumentBody k) hls
    rw [htokens] at hreread
    have hbody : Statement.Body game 0 [.mark .lessThan, .rawKey k, .mark .greaterThan] []
        [.bare .lessThan, .word .name k, .bare .greaterThan] :=
      .mark rfl (.naming (.rawKey k) (.mark rfl .nil))
    exact ⟨hreread, recompile_of_body hreread hbody⟩
  · intro literal hk hne hchars
    obtain ⟨ls, hls, htokens⟩ :=
      scan_spelling (t := .argument literal) ⟨hne, hchars⟩ (by simp) rfl
    have htext : argumentText r k = Token.spelling (.argument literal) := by
      rw [argumentText, Registry.keyText, hk]
      rfl
    rw [← htext, ← hrender] at hls
    have hreread := reread_of_scan order (wellFormed_argumentBody k) hls
    rw [htokens] at hreread
    exact ⟨hreread, recompile_of_body hreread (.argument literal .nil)⟩

theorem not_reread_argument :
    reread {} [] .big (argumentBody 0x0000BEEF) =
        .ok [.mark .lessThan, .rawKey 0x0000BEEF, .mark .greaterThan] ∧
      recompile .ghwt {} [] .big (argumentBody 0x0000BEEF) ≠ .ok (argumentBody 0x0000BEEF) := by
  obtain ⟨-, hunknown, -⟩ := reread_argument .ghwt {} [] .big 0x0000BEEF [] []
  obtain ⟨hreread, hrecompile⟩ := hunknown rfl
  refine ⟨hreread, ?_⟩
  rw [hrecompile]
  simp [argumentBody]

end Script

end QbCodec
