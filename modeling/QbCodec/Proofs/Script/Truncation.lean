import QbCodec.Proofs.Script.Coding
import QbCodec.Proofs.Script.Spelling

/-!
Bodies that are cut short. An instruction that is read whole is read the same whatever follows it, so
a cut leaves the instructions in front of it as they are. What is written later never takes back a
visible character, and the blanks that it may take back are no part of the text either way.
-/

namespace QbCodec

open Layout

namespace Instruction

variable {α β : Type} {read : List UInt8 → Option (α × List UInt8)}

def IsSteady (read : List UInt8 → Option (α × List UInt8)) : Prop :=
  ∀ ⦃bs a rest⦄, read bs = some (a, rest) → ∀ more, read (bs ++ more) = some (a, rest ++ more)

theorem IsSteady.bind (h : IsSteady read) {next : α → List UInt8 → Option (β × List UInt8)}
    (hnext : ∀ a, IsSteady (next a)) :
    IsSteady fun bs => (read bs).bind fun (a, rest) => next a rest := by
  intro bs b rest hbs more
  obtain ⟨⟨a, mid⟩, ha, hb⟩ := Option.bind_eq_some_iff.mp hbs
  simp only [h ha more, Option.bind_some]
  exact hnext a hb more

theorem IsSteady.map (h : IsSteady read) (f : α → β) :
    IsSteady fun bs => (read bs).map fun (a, rest) => (f a, rest) := by
  intro bs b rest hbs more
  obtain ⟨⟨a, mid⟩, ha, hb⟩ := Option.map_eq_some_iff.mp hbs
  cases hb
  simp only [h ha more, Option.map_some]

theorem isSteady_split? (n : Nat) : IsSteady (split? n) := by
  induction n with
  | zero =>
    rintro bs first rest ⟨⟩ more
    rfl
  | succ n ih =>
    intro bs first rest h more
    cases bs with
    | nil => cases h
    | cons b bs => exact ih.map (b :: ·) h more

theorem isSteady_number? (o : ByteOrder) (width : Nat) : IsSteady (number? o width) :=
  (isSteady_split? width).map o.decode

theorem isSteady_single? (o : ByteOrder) : IsSteady (single? o) :=
  (isSteady_number? o 4).map fun n => Single.mk n.toUInt32

theorem isSteady_text? (o : ByteOrder) (wide : Bool) : IsSteady (text? o wide) := by
  have hvalid (stored : List UInt8) : IsSteady fun rest =>
      (Text.ofUtf8? stored).map fun s => (text wide s, rest) := by
    intro rest i rest' h more
    obtain ⟨s, hs, hi⟩ := Option.map_eq_some_iff.mp h
    cases hi
    simp only [hs, Option.map_some]
  have hcounted := (isSteady_number? (lengthOrder o wide) 4).bind fun n =>
    (isSteady_split? n).bind hvalid
  exact hcounted

theorem isSteady_afterTag? (o : ByteOrder) (t : Tag) : IsSteady (afterTag? o t) := by
  have hsingle := isSteady_single? o
  unfold afterTag?
  cases t.shape with
  | bare =>
    rintro bs i rest ⟨⟩ more
    rfl
  | half => exact (isSteady_number? o 2).map fun n => half t n.toUInt16
  | word => exact (isSteady_number? o 4).map fun n => word t n.toUInt32
  | pair => exact hsingle.bind fun x => hsingle.map fun y => pair x y
  | triple => exact hsingle.bind fun x => hsingle.bind fun y => hsingle.map fun z => vector x y z
  | text => exact isSteady_text? o _

theorem isSteady_next? (o : ByteOrder) : IsSteady (next? o) := by
  intro bs i rest h more
  cases bs with
  | nil => cases h
  | cons b bs =>
    simp only [next?, List.cons_append] at h ⊢
    cases ht : Tag.ofByte? b with
    | none =>
      rw [ht] at h
      cases h
      rfl
    | some t =>
      rw [ht] at h
      exact isSteady_afterTag? o t h more

theorem decodeBody_prefix (o : ByteOrder) (bs more : List UInt8) :
    decodeBody o bs <+: decodeBody o (bs ++ more) := by
  fun_induction decodeBody o bs with
  | case1 bs h => exact List.nil_prefix
  | case2 bs rest h => exact List.nil_prefix
  | case3 bs i rest h _ hne ih =>
    rw [decodeBody_of_some (isSteady_next? o h more), if_neg hne]
    exact List.cons_prefix_cons.mpr ⟨rfl, ih⟩

end Instruction

namespace Layout

theorem dropWhile_suffix (p : Char → Bool) (later earlier : List Char) :
    earlier.dropWhile p <:+ (later ++ earlier).dropWhile p := by
  induction later with
  | nil => exact List.suffix_rfl
  | cons c later ih =>
    by_cases hc : p c = true
    · rw [List.cons_append, List.dropWhile_cons_of_pos hc]
      exact ih
    · rw [List.cons_append, List.dropWhile_cons_of_neg hc]
      exact (List.dropWhile_suffix p).trans (List.suffix_append (c :: later) earlier)

theorem text_prefix_of_suffix {l l' : Layout} (h : l.written <:+ l'.written) : l.text <+: l'.text := by
  obtain ⟨later, hlater⟩ := h
  rw [Layout.text, Layout.text, List.reverse_prefix, ← hlater]
  exact dropWhile_suffix Text.isBlank later l.written

theorem written_suffix_writeAt (indent : List Char) (depth : Nat) (piece : Piece) (cs : List Char)
    (l : Layout) : l.written <:+ (l.writeAt indent depth piece cs).written := by
  unfold writeAt
  split
  · exact (List.suffix_append _ _).trans (List.suffix_append _ _)
  · refine List.IsSuffix.trans ?_ (List.suffix_append _ _)
    split
    · exact List.suffix_cons _ _
    · exact List.suffix_rfl

theorem written_leave (block : Block) (l : Layout) : (l.leave block).written = l.written := by
  unfold leave
  split
  · rfl
  · split <;> rfl

theorem text_prefix_act (indent : List Char) (l : Layout) (a : Action) :
    l.text <+: (l.act indent a).text := by
  cases a with
  | newLine => exact (text_newLine l).symm ▸ List.prefix_rfl
  | write piece cs => exact text_prefix_of_suffix (written_suffix_writeAt indent _ piece cs l)
  | writeOutdented piece cs =>
    exact text_prefix_of_suffix (written_suffix_writeAt indent _ piece cs l)
  | enter block => exact List.prefix_rfl
  | leave block => exact text_prefix_of_suffix ((written_leave block l).symm ▸ List.suffix_rfl)

theorem text_prefix_acts (indent : List Char) (l : Layout) (as : List Action) :
    l.text <+: (l.acts indent as).text := by
  induction as generalizing l with
  | nil => exact List.prefix_rfl
  | cons a as ih => exact (text_prefix_act indent l a).trans (ih (l.act indent a))

end Layout

namespace Script

theorem render_prefix (r : Registry) (indent : List Char) {is js : List Instruction}
    (h : is <+: js) : render r indent is <+: render r indent js := by
  obtain ⟨later, rfl⟩ := h
  rw [render, render, List.foldl_append, layout_foldl r indent _ later]
  exact text_prefix_acts indent _ _

/-- A body that is cut after any number of its bytes, within an operand too, gives the start of the
text of the whole body. -/
theorem bodyText_take_prefix (r : Registry) (indent : List Char) (order : ByteOrder)
    (body : List UInt8) (n : Nat) :
    bodyText r indent order (body.take n) <+: bodyText r indent order body := by
  have hdecode := Instruction.decodeBody_prefix order.inverse (body.take n) (body.drop n)
  rw [List.take_append_drop] at hdecode
  exact render_prefix r indent hdecode

end Script

end QbCodec
