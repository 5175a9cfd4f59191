import QbCodec.File.Statement
import QbCodec.Proofs.Bytes.Record
import QbCodec.Proofs.Key.Canonical

namespace QbCodec

theorem Output.keyOf_eq (text : String) : Output.keyOf text = Output.u32 (Key.ofLiteral text) := by
  funext out
  unfold Output.keyOf
  cases hcanonical : Key.isCanonical text with
  | true =>
    obtain ⟨k, rfl⟩ := Key.exists_eq_spell hcanonical
    rw [if_pos rfl, Key.parse?, Key.parseText?_spell, Key.ofLiteral_spell, Option.getD_some]
  | false => rw [Key.ofLiteral_eq_ofName hcanonical, if_neg (by decide)]

namespace Registry

variable {r : Registry} {k : Key} {literal : String}

theorem setEntry_self {entries : List (Key × String)} (h : entries.lookup k = some literal) :
    setEntry k literal entries = entries := by
  induction entries with
  | nil => cases h
  | cons e entries ih =>
    obtain ⟨j, t⟩ := e
    rw [List.lookup_cons] at h
    by_cases hj : j = k
    · subst hj
      simp only [beq_self_eq_true, Option.some.injEq] at h
      rw [setEntry, if_pos rfl, h]
    · have hne : (k == j) = false := by simpa using Ne.symm hj
      rw [hne] at h
      rw [setEntry, if_neg hj, ih h]

theorem assign_self (h : r.resolve k = some literal) : r.assign k literal = r := by
  rw [resolve] at h
  simp only [assign, resolve, h, if_true, setEntry_self h]

def Hashed (r : Registry) : Prop :=
  ∀ k literal, r.resolve k = some literal → Key.ofName literal = k ∧ ¬ Key.isCanonical literal

theorem hashed_empty : empty.Hashed := by
  intro k literal h
  cases h

theorem Hashed.add {name : String} (h : r.Hashed) (hname : ¬ Key.isCanonical name) :
    (r.add name).Hashed := by
  intro k literal hk
  rw [resolve_add] at hk
  split at hk
  · rename_i heq
    obtain rfl := Option.some.inj hk
    exact ⟨heq.symm, hname⟩
  · exact h k literal hk

theorem Hashed.add_resolved (h : r.Hashed) (hk : r.resolve k = some literal) :
    r.add literal = r := by
  rw [Registry.add, (h k literal hk).1, assign_self hk]

theorem Hashed.ofLiteral_spellKey (h : r.Hashed) (k : Key) :
    Key.ofLiteral (r.spellKey k) = k := by
  rw [spellKey]
  cases hk : r.resolve k with
  | none => exact Key.ofLiteral_spell k
  | some literal =>
    obtain ⟨hname, hcanonical⟩ := h k literal hk
    rw [Option.getD_some, Key.ofLiteral_eq_ofName (by simpa using hcanonical), hname]

theorem Hashed.addAll_spellKey (h : r.Hashed) (k : Key) :
    r.addAll (Statement.nameKey (r.spellKey k)).names = r := by
  rw [spellKey]
  cases hk : r.resolve k with
  | none =>
    rw [Option.getD_none, Statement.nameKey, if_pos (Key.isCanonical_spell k)]
    rfl
  | some literal =>
    rw [Option.getD_some, Statement.nameKey, if_neg (h k literal hk).2]
    exact h.add_resolved hk

/-- The name of a key is read as that key in source text, where it is known already, and is written
as that key. Of any text source text and the writing have the same key. -/
theorem spellKey_reread (r : Registry) :
    (r.Hashed → ∀ k,
      (∃ names, Statement.nameKey (r.spellKey k) = ⟨names, .ok k⟩ ∧ r.addAll names = r) ∧
        Reads Cursor.u32 k (Output.keyOf (r.spellKey k))) ∧
      ∀ text, ∃ names k, Statement.nameKey text = ⟨names, .ok k⟩ ∧
        ∀ out, Output.keyOf text out = Output.u32 k out := by
  refine ⟨fun h k => ⟨⟨_, ?_, h.addAll_spellKey k⟩, ?_⟩, fun text => ⟨_, _, rfl, fun out => ?_⟩⟩
  · rw [Statement.nameKey, h.ofLiteral_spellKey]
  · rw [Output.keyOf_eq, h.ofLiteral_spellKey]
    exact Reads.u32 k
  · rw [Output.keyOf_eq]

theorem spellKey_reread_name : let r := empty.add "GetTrueElapsedTime"
    r.spellKey 0x28DDB24A = "GetTrueElapsedTime" ∧ r.spellKey 0xBEEF = "0x0000BEEF" ∧
      (∃ names, Statement.nameKey (r.spellKey 0x28DDB24A) = ⟨names, .ok 0x28DDB24A⟩ ∧
        r.addAll names = r) ∧
      Reads Cursor.u32 0xBEEF (Output.keyOf (r.spellKey 0xBEEF)) := by
  intro r
  have hhashed : r.Hashed := hashed_empty.add (by decide)
  have hname : r.spellKey 0x28DDB24A = "GetTrueElapsedTime" := by decide +kernel
  have hspelling : r.spellKey 0xBEEF = "0x0000BEEF" := by decide +kernel
  exact ⟨hname, hspelling, ((spellKey_reread r).1 hhashed 0x28DDB24A).1,
    ((spellKey_reread r).1 hhashed 0xBEEF).2⟩

end Registry

end QbCodec
