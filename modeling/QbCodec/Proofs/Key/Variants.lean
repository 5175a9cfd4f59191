import Mathlib.Data.List.Forall2
import QbCodec.Proofs.Key.Indexes
import QbCodec.Proofs.Text.LowerCase

namespace QbCodec

namespace Key

/-- The same character but for the case of a letter from `a` to `z`, or two slashes. -/
def Interchangeable (c d : Char) : Prop :=
  c.toLower = d.toLower ∨ (c = '/' ∨ c = '\\') ∧ (d = '/' ∨ d = '\\')

instance (c d : Char) : Decidable (Interchangeable c d) :=
  inferInstanceAs (Decidable (c.toLower = d.toLower ∨ (c = '/' ∨ c = '\\') ∧ (d = '/' ∨ d = '\\')))

def IsVariant (s t : String) : Prop := List.Forall₂ Interchangeable s.toList t.toList

instance (s t : String) : Decidable (IsVariant s t) :=
  inferInstanceAs (Decidable (List.Forall₂ Interchangeable s.toList t.toList))

variable {c d : Char} {before before' cs ds : List Char} {s t : String}

theorem Interchangeable.symm (h : Interchangeable c d) : Interchangeable d c :=
  h.imp Eq.symm And.symm

theorem IsVariant.symm (h : IsVariant s t) : IsVariant t s :=
  List.Forall₂.flip (h.imp fun _ _ => Interchangeable.symm)

theorem Interchangeable.congr {α : Type} {f : Char → α} (hlower : ∀ c, f c.toLower = f c)
    (hslash : f '/' = f '\\') (h : Interchangeable c d) : f c = f d := by
  rcases h with h | ⟨rfl | rfl, rfl | rfl⟩
  · rw [← hlower c, h, hlower]
  · rfl
  · exact hslash
  · exact hslash.symm
  · rfl

theorem Interchangeable.isCased (h : Interchangeable c d) : Text.isCased c = Text.isCased d :=
  h.congr Text.isCased_toLower (by decide +kernel)

theorem Interchangeable.isCaseIgnorable (h : Interchangeable c d) :
    Text.isCaseIgnorable c = Text.isCaseIgnorable d :=
  h.congr Text.isCaseIgnorable_toLower (by decide +kernel)

theorem Interchangeable.map_lowerChar (h : Interchangeable c d) (before after : List Char) :
    (Text.lowerChar before c after).map backslash = (Text.lowerChar before d after).map backslash := by
  refine h.congr (f := fun c => (Text.lowerChar before c after).map backslash) (fun c => ?_) ?_
  · rw [Text.lowerChar_toLower]
  · have hslash : Text.mapRuns Text.lowerRuns '/' = '/' := Text.mapRuns_lowerRuns (by decide)
    have hbackslash : Text.mapRuns Text.lowerRuns '\\' = '\\' := Text.mapRuns_lowerRuns (by decide)
    simp [Text.lowerChar, hslash, hbackslash, backslash]

theorem meetsCased_eq (h : List.Forall₂ Interchangeable cs ds) :
    Text.meetsCased cs = Text.meetsCased ds := by
  induction h with
  | nil => rfl
  | @cons c d cs ds hcd _ ih =>
    unfold Text.meetsCased at ih ⊢
    rw [List.dropWhile_cons, List.dropWhile_cons, hcd.isCaseIgnorable]
    cases Text.isCaseIgnorable d with
    | true => exact ih
    | false => exact hcd.isCased

theorem map_lowerAfter (hbefore : List.Forall₂ Interchangeable before before')
    (h : List.Forall₂ Interchangeable cs ds) :
    (Text.lowerAfter before cs).map backslash = (Text.lowerAfter before' ds).map backslash := by
  -- The induction is on the two texts together; what was read of them are variants too.
  induction h generalizing before before' with
  | nil => rfl
  | @cons c d cs ds hcd hrest ih =>
    rw [Text.lowerAfter, Text.lowerAfter, List.map_append, List.map_append, ih (.cons hcd hbefore),
      Text.lowerChar_congr c (meetsCased_eq hbefore) (meetsCased_eq hrest), hcd.map_lowerChar]

theorem IsVariant.ofName_eq (h : IsVariant s t) : ofName s = ofName t := by
  have hnormal : normalize s = normalize t := map_lowerAfter .nil h
  rw [ofName, ofName, hnormal]

end Key

namespace Registry

variable {r : Registry} {k : Key} {s t : String}

theorem mem_of_resolve (h : (r.resolve k).isSome) : k ∈ r.entries.map Prod.fst := by
  rw [resolve, List.lookup_isSome_iff] at h
  simpa using h

theorem size_assign (h : (r.resolve k).isSome) (literal : String) :
    (r.assign k literal).size = r.size := by
  have hkeys := congrArg List.length (map_fst_setEntry k literal r.entries)
  rw [if_pos (mem_of_resolve h), List.length_map, List.length_map] at hkeys
  rw [size, entries_assign, hkeys, size]

theorem isSome_resolve_foldl (h : (r.resolve k).isSome) (cs : List Change) :
    ((cs.foldl Change.apply r).resolve k).isSome := by
  rw [foldl_apply, resolve_assignAll, Option.isSome_or, h, Bool.or_true]

theorem add_variant (h : Key.IsVariant s t) (r : Registry) (cs : List Change) :
    ((cs.foldl Change.apply (r.add s)).add t).size = (cs.foldl Change.apply (r.add s)).size ∧
      ((cs.foldl Change.apply (r.add s)).add t).resolve (Key.ofName s) = some t := by
  have hadd : ((r.add s).resolve (Key.ofName s)).isSome := by
    rw [resolve_add, if_pos rfl]
    rfl
  have hknown := isSome_resolve_foldl hadd cs
  rw [h.ofName_eq] at hknown
  refine ⟨size_assign hknown t, ?_⟩
  rw [resolve_add, if_pos h.ofName_eq]

end Registry

end QbCodec
