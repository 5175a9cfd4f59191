import QbCodec.Proofs.File.RoundTrip

namespace QbCodec

namespace Instruction

def retarget (game : Game) : Instruction → Instruction
  | .word .localString k | .word .stringQs k => .word game.phraseTag k
  | i => i

theorem retarget_phrase (old new : Game) (k : Key) :
    (word old.phraseTag k).retarget new = .word new.phraseTag k := by
  cases old <;> rfl

theorem length_retarget (o : ByteOrder) (game : Game) (i : Instruction) :
    ((i.retarget game).encode o).length = (i.encode o).length := by
  unfold retarget
  split <;> simp [encode, leading, operand]

theorem length_encodeBody_retarget (o : ByteOrder) (game : Game) (is : List Instruction) :
    (encodeBody o (is.map (retarget game))).length = (encodeBody o is).length := by
  simp [encodeBody, List.length_flatMap, List.map_map, Function.comp_def, length_retarget]

theorem actions_retarget (r : Registry) (asArgument : Bool) (game : Game) (i : Instruction) :
    Script.actions r asArgument (i.retarget game) = Script.actions r asArgument i := by
  unfold retarget
  split
  · cases game <;> rfl
  · cases game <;> rfl
  · rfl

theorem marksArgument_retarget (asArgument : Bool) (game : Game) (i : Instruction) :
    Script.marksArgument asArgument (i.retarget game) = Script.marksArgument asArgument i := by
  unfold retarget
  split
  · cases game <;> rfl
  · cases game <;> rfl
  · rfl

theorem render_retarget (r : Registry) (indent : List Char) (game : Game)
    (is : List Instruction) :
    Script.render r indent (is.map (retarget game)) = Script.render r indent is := by
  have hstep (s : Script.State) (i : Instruction) :
      Script.step r indent s (i.retarget game) = Script.step r indent s i := by
    rw [Script.step, Script.step, actions_retarget, marksArgument_retarget]
  rw [Script.render, Script.render, List.foldl_map]
  simp only [hstep]

end Instruction

namespace Statement

def retarget (game : Game) : Statement → Statement
  | .value k v => .value k v
  | .script k is => .script k (is.map (Instruction.retarget game))

theorem Body.retarget {old : Game} {depth : Nat} {ts : List Token} {ns : List String}
    {is : List Instruction} (h : Body old depth ts ns is) (new : Game) :
    Body new depth ts ns (is.map (Instruction.retarget new)) := by
  induction h with
  | nil => exact .nil
  | int v _ ih => exact .int v ih
  | float v _ ih => exact .float v ih
  | string text _ ih => exact .string text ih
  | wideString text _ ih => exact .wideString text ih
  | naming hk _ ih => exact .naming hk ih
  | argument text _ ih => exact .argument text ih
  | phrase hp _ ih =>
    rw [List.map_cons, Instruction.retarget_phrase]
    exact .phrase hp ih
  | keyword hne hk _ ih => exact .keyword hne hk ih
  | tuple hi _ ih => cases hi with
    | pair ha hb => exact .tuple (.pair ha hb) ih
    | vector ha hb hc => exact .tuple (.vector ha hb hc) ih
  | openParen hne _ ih => exact .openParen hne ih
  | closeParen _ ih => exact .closeParen ih
  | mark hm _ ih => exact .mark hm ih

theorem Text.retarget {old : Game} {ts : List Token} {ns : List String} {ss : List Statement}
    (h : Text old ts ns ss) (new : Game) : Text new ts ns (ss.map (Statement.retarget new)) := by
  induction h with
  | nil => exact .nil
  | newLine _ ih => exact .newLine ih
  | value hk v _ ih => exact .value hk v ih
  | script hk hend hbody _ ih => exact .script hk hend (hbody.retarget new) ih

theorem Small.retarget {s : Statement} (h : s.Small) (game : Game) : (s.retarget game).Small := by
  cases s with
  | value => trivial
  | script k is =>
    change (Instruction.encodeBody .big (is.map (Instruction.retarget game))).length < 2 ^ 32
    rwa [Instruction.length_encodeBody_retarget]

theorem lines_retarget (r : Registry) (indent : List Char) (game : Game) (s : Statement) :
    (s.retarget game).lines r indent = s.lines r indent := by
  cases s with
  | value => rfl
  | script k is =>
    change scriptLines r indent k _ = scriptLines r indent k is
    unfold scriptLines
    rw [Instruction.render_retarget]

end Statement

namespace Compiled

open Statement

/-- If lexemes compile for one target, they compile for every other, and the files have the same
text. -/
theorem ofBytes_ofLexemes_target {t : Target} {ls : List Lexeme} {r : Registry} {file : List UInt8}
    (h : (ofLexemes t ls r).1 = .ok file)
    (hsmall : ∀ ss, (Statement.readAll t.game 0 ls).outcome = .ok ss → ∀ s ∈ ss, s.Small)
    (r' : Registry) (indent : String) (x : Expander) :
    ∃ text, ∀ t' : Target, ∃ file', (ofLexemes t' ls r).1 = .ok file' ∧
      Readable.ofBytes r' { order := t'.order, indent } x file' = .ok text := by
  obtain ⟨ns, ss, hread, -⟩ := ofLexemes_eq_ok h
  have hss : ∀ s ∈ ss, s.Small := hsmall ss (by rw [hread])
  have hgrammar := readAll_iff.mp hread
  refine ⟨String.ofList (ss.flatMap (lines r' indent.toList)), fun t' => ?_⟩
  have hgrammar' := hgrammar.retarget t'.game
  have hsmall' : ∀ s ∈ ss.map (Statement.retarget t'.game), s.Small := by
    intro s hs
    obtain ⟨p, hp, rfl⟩ := List.mem_map.mp hs
    exact (hss p hp).retarget t'.game
  refine ⟨_, congrArg Prod.fst (ofLexemes_of_text hgrammar' r), ?_⟩
  rw [readable_bytes r' indent x hsmall', text_items hsmall' fun k is hmem => hgrammar'.emitted hmem,
    List.flatMap_map]
  simp only [lines_retarget]

theorem ofBytes_ofLexemes_target_phrase :
    ∃ text, ∀ t' : Target, ∃ file', (ofLexemes t' [⟨.keyword .script, 0⟩, ⟨.rawKey 1, 7⟩,
        ⟨.keyword .qs, 12⟩, ⟨.mark .openParen, 14⟩, ⟨.rawKey 2, 15⟩, ⟨.mark .closeParen, 20⟩,
        ⟨.keyword .endScript, 22⟩] {}).1 = .ok file' ∧
      Readable.ofBytes {} { order := t'.order, indent := "" } (fun _ => .error (.compile "")) file' = .ok text := by
  let ls : List Lexeme := [⟨.keyword .script, 0⟩, ⟨.rawKey 1, 7⟩, ⟨.keyword .qs, 12⟩,
    ⟨.mark .openParen, 14⟩, ⟨.rawKey 2, 15⟩, ⟨.mark .closeParen, 20⟩, ⟨.keyword .endScript, 22⟩]
  have hread : readAll .ghwt 0 ls = ⟨[], .ok [.script 1 [.word .stringQs 2]]⟩ := by rfl
  have hfile : (ofLexemes ⟨0, .big, .ghwt⟩ ls {}).1 =
      .ok (bytes ⟨0, .big, .ghwt⟩ [.script 1 [.word .stringQs 2]]) := by
    simp only [ofLexemes, hread]
  have hsmall : ∀ ss, (readAll .ghwt 0 ls).outcome = .ok ss → ∀ s ∈ ss, s.Small := by
    intro ss hss
    rw [hread] at hss
    cases hss
    simp only [List.mem_singleton, forall_eq]
    change (Instruction.encodeBody .big [.word .stringQs 2]).length < 2 ^ 32
    decide
  exact ofBytes_ofLexemes_target hfile hsmall {} "" (fun _ => .error (.compile ""))

end Compiled

end QbCodec
