import QbCodec.File.Item
import QbCodec.Script.Reading

namespace QbCodec

structure Expansion where
  stored : List UInt8
  size : Nat
  deriving DecidableEq

abbrev Expander := Expansion → Except Failure (List UInt8)

namespace Item

def expansion? : Item → Option Expansion
  | script s =>
    if s.fullSize.toNat = s.stored.length then none else some ⟨s.stored, s.fullSize.toNat⟩
  | _ => none

def withBody (body : List UInt8) : Item → Item
  | script s => script { s with fullSize := body.length.toUInt32, stored := body }
  | i => i

def expand (f : Expander) (i : Item) : Except Failure Item :=
  match i.expansion? with
  | none => .ok i
  | some e => (f e).map (i.withBody ·)

end Item

structure Format where
  order : ByteOrder := .big
  headerSize : Nat := 28
  indent : String := "\t"

/-- The text of an item. Integers name their key by its bare spelling if it has no literal. -/
def Item.text (r : Registry) (f : Format) : Item → List Char
  | .integer name _ value =>
    (r.spellKey name).toList ++ " = ".toList ++ Text.signedNumeral value.toInt
  | .script s =>
    "script ".toList ++ r.keyText s.name ++ ' ' ::
      Script.bodyText r f.indent.toList f.order s.stored ++ "\nendscript".toList
  | .pointer name _ target => r.keyText name ++ " = $".toList ++ r.keyText target

structure Contents where
  items : List Item
  failure : Option Failure

namespace Contents

theorem take_remaining {n : Nat} {c d : Cursor} {bytes : List UInt8}
    (h : Cursor.take n c = (.ok bytes, d)) : d.remaining + n = c.remaining := by
  unfold Cursor.take at h
  split at h
  · simp only [Prod.mk.injEq] at h
    simp only [← h.2, Cursor.remaining]
    omega
  · simp at h

def Shrinks {α : Type} (r : Read α) : Prop :=
  ∀ c a d, r c = (.ok a, d) → d.remaining ≤ c.remaining

theorem shrinks_bind {α β : Type} {r : Read α} {f : α → Read β} (hr : Shrinks r)
    (hf : ∀ a, Shrinks (f a)) : Shrinks (r >>= f) := by
  intro c b d h
  change Read.bind r f c = _ at h
  unfold Read.bind at h
  split at h
  case h_1 a c' hc => exact Nat.le_trans (hf a c' b d h) (hr c a c' hc)
  case h_2 => simp at h

theorem shrinks_pure {α : Type} (a : α) : Shrinks (pure a : Read α) := by
  intro c b d h
  cases h
  exact Nat.le_refl _

theorem shrinks_take (n : Nat) : Shrinks (Cursor.take n) := by
  intro c bytes d h
  have := take_remaining h
  omega

theorem shrinks_number (width : Nat) : Shrinks (Cursor.number width) := by
  intro c n d h
  unfold Cursor.number at h
  split at h
  case h_1 bytes c' hc =>
    cases h
    exact shrinks_take width c bytes _ hc
  case h_2 => simp at h

theorem shrinks_u32 : Shrinks Cursor.u32 :=
  shrinks_bind (shrinks_number 4) fun _ => shrinks_pure _

theorem shrinks_i32 : Shrinks Cursor.i32 :=
  shrinks_bind shrinks_u32 fun _ => shrinks_pure _

theorem shrinks_align (n : Nat) : Shrinks (Cursor.align n) := by
  intro c u d h
  cases h
  have inside := c.inside
  have : c.offset ≤ Cursor.alignUp n c.offset := by
    unfold Cursor.alignUp
    split <;> omega
  simp only [Cursor.remaining]
  omega

theorem shrinks_readKind (kind : ItemKind) : Shrinks (Item.readKind kind) := by
  cases kind with
  | integer =>
    exact shrinks_bind shrinks_u32 fun _ => shrinks_bind shrinks_u32 fun _ =>
      shrinks_bind shrinks_i32 fun _ => shrinks_pure _
  | script =>
    exact shrinks_bind shrinks_u32 fun _ => shrinks_bind shrinks_u32 fun _ =>
      shrinks_bind shrinks_i32 fun _ => shrinks_bind shrinks_u32 fun _ =>
      shrinks_bind shrinks_u32 fun _ => shrinks_bind shrinks_u32 fun _ =>
      shrinks_bind shrinks_u32 fun _ => shrinks_bind (shrinks_take _) fun _ =>
      shrinks_bind (shrinks_align 4) fun _ => shrinks_pure _
  | pointer =>
    exact shrinks_bind shrinks_u32 fun _ => shrinks_bind shrinks_u32 fun _ =>
      shrinks_bind shrinks_u32 fun _ => shrinks_pure _

theorem remaining_read {c d : Cursor} {i : Item} (h : Item.read c = (.ok i, d)) :
    d.remaining < c.remaining := by
  unfold Item.read at h
  split at h
  · simp at h
  · rename_i quad c' hc
    have four := take_remaining hc
    dsimp only at h
    split at h
    · simp at h
    · rename_i kind _
      have := shrinks_readKind kind c' i d h
      omega

def readAll (c : Cursor) : Contents :=
  if c.isAtEnd then ⟨[], none⟩
  else
    match h : Item.read c with
    | (.error e, _) => ⟨[], some e⟩
    | (.ok i, d) =>
      have := remaining_read h
      let rest := readAll d
      ⟨i :: rest.items, rest.failure⟩
termination_by c.remaining

def ofBytes (f : Format) (data : List UInt8) : Contents :=
  if data.length < f.headerSize then ⟨[], some (.shortHeader f.headerSize data.length)⟩
  else readAll (Cursor.ofBytes data f.order f.headerSize)

def expandAll (f : Expander) : List Item → Except Failure (List Item)
  | [] => .ok []
  | i :: rest =>
    match i.expand f with
    | .error e => .error e
    | .ok j => (expandAll f rest).map (j :: ·)

def expansions (f : Expander) : List Item → List Expansion
  | [] => []
  | i :: rest =>
    match i.expansion? with
    | none => expansions f rest
    | some e =>
      match f e with
      | .error _ => [e]
      | .ok _ => e :: expansions f rest

/-- The items with their bodies expanded. An item that fails to expand comes before one that
cannot be read. -/
def expanded (f : Expander) (c : Contents) : Except Failure (List Item) :=
  match expandAll f c.items with
  | .error e => .error e
  | .ok items =>
    match c.failure with
    | some e => .error e
    | none => .ok items

end Contents

namespace Readable

def text (r : Registry) (f : Format) (items : List Item) : String :=
  String.ofList (items.flatMap fun i => i.text r f ++ ['\n'])

def ofBytes (r : Registry) (f : Format) (expander : Expander) (data : List UInt8) :
    Except Failure String :=
  ((Contents.ofBytes f data).expanded expander).map (text r f)

def expansions (f : Format) (expander : Expander) (data : List UInt8) : List Expansion :=
  Contents.expansions expander (Contents.ofBytes f data).items

end Readable

end QbCodec
