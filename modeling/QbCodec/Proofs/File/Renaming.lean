import QbCodec.Proofs.File.RoundTrip

namespace QbCodec

variable {r s : Registry} {f : Format}

def Item.Names (f : Format) (i : Item) (k : Key) : Prop :=
  match i with
  | .integer name _ _ => k = name
  | .script s => k = s.name ∨ .word .name k ∈ Instruction.decodeBody f.order.inverse s.stored
  | .pointer name _ target => k = name ∨ k = target

theorem Item.text_congr {i : Item} (h : ∀ k, i.Names f k → s.resolve k = r.resolve k) :
    i.text s f = i.text r f := by
  unfold text
  cases i with
  | integer name file value =>
    have hname : s.spellKey name = r.spellKey name := by
      rw [Registry.spellKey, Registry.spellKey, h name rfl]
    dsimp only
    rw [hname]
  | script script =>
    have hname := Statement.keyText_congr (h script.name (.inl rfl))
    have hbody : Script.bodyText s f.indent.toList f.order script.stored =
        Script.bodyText r f.indent.toList f.order script.stored := by
      rw [Script.bodyText, Script.bodyText, Script.render_eq, Script.render_eq,
        Statement.allActions_congr fun k hk => h k (.inr hk)]
    dsimp only
    rw [hname, hbody]
  | pointer name file target =>
    have hname := Statement.keyText_congr (h name (.inl rfl))
    have htarget := Statement.keyText_congr (h target (.inr rfl))
    dsimp only
    rw [hname, htarget]

theorem Readable.text_congr {items : List Item}
    (h : ∀ i ∈ items, ∀ k, i.Names f k → s.resolve k = r.resolve k) :
    text s f items = text r f items := by
  rw [text, text]
  congr 1
  apply List.flatMap_congr
  intro i hi
  rw [Item.text_congr (h i hi)]

end QbCodec
