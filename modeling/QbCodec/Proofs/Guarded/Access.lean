import QbCodec.Proofs.Source.LineSeams

namespace QbCodec.Guarded

open Source (byteCount byteCount_cons byteCount_append)

def minus? (a b : Nat) : Option Nat := if b ≤ a then some (a - b) else none

theorem minus?_of_le {a b : Nat} (h : b ≤ a) : minus? a b = some (a - b) := if_pos h

def behind? {α : Type} (first : Nat) (row : List α) : Option (List α) :=
  if first ≤ row.length then some (row.drop first) else none

theorem behind?_of_le {α : Type} {first : Nat} {row : List α} (h : first ≤ row.length) :
    behind? first row = some (row.drop first) := if_pos h

def slice? {α : Type} (first last : Nat) (row : List α) : Option (List α) :=
  if first ≤ last ∧ last ≤ row.length then some ((row.drop first).take (last - first)) else none

theorem slice?_of_le {α : Type} {first last : Nat} {row : List α} (h : first ≤ last)
    (h' : last ≤ row.length) : slice? first last row = some ((row.drop first).take (last - first)) :=
  if_pos ⟨h, h'⟩

/-- The two sides of a place counted in bytes, which has to lie between two characters. -/
def cut? : Nat → List Char → Option (List Char × List Char)
  | 0, cs => some ([], cs)
  | _ + 1, [] => none
  | n + 1, c :: cs =>
    if c.utf8Size ≤ n + 1 then
      (cut? (n + 1 - c.utf8Size) cs).map fun (front, back) => (c :: front, back)
    else none

theorem cut?_append (front back : List Char) :
    cut? (byteCount front) (front ++ back) = some (front, back) := by
  induction front with
  | nil => simp [byteCount, cut?]
  | cons c front ih =>
    obtain ⟨n, hn⟩ : ∃ n, byteCount (c :: front) = n + 1 := by
      have := c.utf8Size_pos
      exact ⟨byteCount (c :: front) - 1, by rw [byteCount_cons]; omega⟩
    have hrest : n + 1 - c.utf8Size = byteCount front := by
      rw [← hn, byteCount_cons]
      omega
    have hle : c.utf8Size ≤ n + 1 := by
      rw [← hn, byteCount_cons]
      omega
    rw [hn, List.cons_append, cut?, if_pos hle, hrest, ih]
    rfl

def span? (first last : Nat) (cs : List Char) : Option (List Char) := do
  let (_, back) ← cut? first cs
  let length ← minus? last first
  let (inner, _) ← cut? length back
  return inner

theorem span?_append (front inner back : List Char) :
    span? (byteCount front) (byteCount front + byteCount inner) (front ++ (inner ++ back)) =
      some inner := by
  have hlength : minus? (byteCount front + byteCount inner) (byteCount front) =
      some (byteCount inner) := by
    rw [minus?_of_le (by omega), Nat.add_sub_cancel_left]
  simp [span?, cut?_append, hlength]

def IsBoundary (cs : List Char) (place : Nat) : Prop :=
  ∃ front back, cs = front ++ back ∧ place = byteCount front

theorem isBoundary_zero (cs : List Char) : IsBoundary cs 0 := ⟨[], cs, rfl, rfl⟩

theorem isBoundary_byteCount (cs : List Char) : IsBoundary cs (byteCount cs) :=
  ⟨cs, [], (List.append_nil cs).symm, rfl⟩

end QbCodec.Guarded
