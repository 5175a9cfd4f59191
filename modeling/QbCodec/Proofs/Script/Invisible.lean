import Mathlib.Logic.Relation
import QbCodec.Proofs.Script.Truncation

namespace QbCodec

namespace Tag

def isIgnored : Tag → Bool
  | .endOfFile | .debugInfo | .enumeration | .atSign | .undefined | .checksumName => true
  | _ => false

def isUnsupported : Tag → Bool
  | .array | .script | .xor | .runtimeCFunction | .runtimeMemberFunction | .useHeap | .unknown =>
    true
  | _ => false

end Tag

def Shape.Holds (o : ByteOrder) : Shape → List UInt8 → Prop
  | .bare, operand => operand.length = 0
  | .half, operand => operand.length = 2
  | .word, operand => operand.length = 4
  | .pair, operand => operand.length = 8
  | .triple, operand => operand.length = 12
  | .text, operand =>
    ∃ size stored, operand = size ++ stored ∧ size.length = 4 ∧ o.decode size = stored.length

namespace Instruction

variable {o : ByteOrder} {front entry entry' operand bs rest : List UInt8} {t : Tag}

inductive Entry (o : ByteOrder) : List UInt8 → Prop
  | tag (t : Tag) {operand : List UInt8}
      (h : t.shape.Holds (lengthOrder o (t = .wideString)) operand) : Entry o (t.byte :: operand)
  | other {b : UInt8} (h : Tag.ofByte? b = none) : Entry o [b]

inductive Whole (o : ByteOrder) : List UInt8 → Prop
  | nil : Whole o []
  | cons {entry bs : List UInt8} (h : Entry o entry) (rest : Whole o bs) : Whole o (entry ++ bs)

def ReadsAs (o : ByteOrder) (bs : List UInt8) (i : Instruction) : Prop :=
  ∀ rest, next? o (bs ++ rest) = some (i, rest)

theorem number?_of_length {width : Nat} (h : bs.length = width) (rest : List UInt8) :
    number? o width (bs ++ rest) = some (o.decode bs, rest) := by
  rw [number?, ← h, split?_append]
  rfl

theorem single?_of_length (h : bs.length = 4) (rest : List UInt8) :
    single? o (bs ++ rest) = some (⟨(o.decode bs).toUInt32⟩, rest) := by
  rw [single?, number?_of_length h]
  rfl

theorem exists_parts {n m : Nat} (h : bs.length = n + m) :
    ∃ first last, bs = first ++ last ∧ first.length = n ∧ last.length = m :=
  ⟨bs.take n, bs.drop n, (List.take_append_drop n bs).symm, by simp [h], by simp [h]⟩

theorem next?_tag (o : ByteOrder) (t : Tag) (bs : List UInt8) :
    next? o (t.byte :: bs) = afterTag? o t bs := by
  simp only [next?, Tag.ofByte?_byte]

theorem readsAs_bare (o : ByteOrder) (hshape : t.shape = .bare) : ReadsAs o [t.byte] (.bare t) :=
  fun rest => by simp only [List.cons_append, List.nil_append, next?_tag, afterTag?, hshape]

theorem readsAs_half (o : ByteOrder) (hshape : t.shape = .half) (h : operand.length = 2) :
    ReadsAs o (t.byte :: operand) (.half t (o.decode operand).toUInt16) := by
  intro rest
  simp only [List.cons_append, next?_tag, afterTag?, hshape, number?_of_length h, Option.map_some]

theorem readsAs_word (o : ByteOrder) (hshape : t.shape = .word) (h : operand.length = 4) :
    ReadsAs o (t.byte :: operand) (.word t (o.decode operand).toUInt32) := by
  intro rest
  simp only [List.cons_append, next?_tag, afterTag?, hshape, number?_of_length h, Option.map_some]

theorem readsAs_other {b : UInt8} (h : Tag.ofByte? b = none) : ReadsAs o [b] (.other b) := by
  intro rest
  simp only [List.cons_append, List.nil_append, next?, h]

theorem readsAs_pair {x y : List UInt8} (hshape : t.shape = .pair) (hx : x.length = 4)
    (hy : y.length = 4) :
    ReadsAs o (t.byte :: (x ++ y)) (.pair ⟨(o.decode x).toUInt32⟩ ⟨(o.decode y).toUInt32⟩) := by
  intro rest
  simp only [List.cons_append, next?_tag, afterTag?, hshape, List.append_assoc,
    single?_of_length hx, single?_of_length hy, Option.bind_some, Option.map_some]

theorem readsAs_vector {x y z : List UInt8} (hshape : t.shape = .triple) (hx : x.length = 4)
    (hy : y.length = 4) (hz : z.length = 4) :
    ReadsAs o (t.byte :: (x ++ (y ++ z))) (.vector ⟨(o.decode x).toUInt32⟩
      ⟨(o.decode y).toUInt32⟩ ⟨(o.decode z).toUInt32⟩) := by
  intro rest
  simp only [List.cons_append, next?_tag, afterTag?, hshape, List.append_assoc,
    single?_of_length hx, single?_of_length hy, single?_of_length hz, Option.bind_some,
    Option.map_some]

theorem next?_text {size stored : List UInt8} (hshape : t.shape = .text) (hsize : size.length = 4)
    (hstored : (lengthOrder o (t = .wideString)).decode size = stored.length) (rest : List UInt8) :
    next? o (t.byte :: (size ++ stored) ++ rest) =
      (Text.ofUtf8? stored).map fun s => (text (t = .wideString) s, rest) := by
  simp only [List.cons_append, next?_tag, afterTag?, hshape, text?, List.append_assoc,
    number?_of_length hsize, hstored, split?_append, Option.bind_some]

theorem Entry.reads (h : Entry o entry) :
    (∀ rest, next? o (entry ++ rest) = none) ∨ ∃ i, ReadsAs o entry i := by
  cases h with
  | other h => exact .inr ⟨_, readsAs_other h⟩
  | @tag t operand h =>
    cases hshape : t.shape with
    | bare =>
      rw [hshape] at h
      obtain rfl := List.length_eq_zero_iff.mp h
      exact .inr ⟨_, readsAs_bare o hshape⟩
    | half =>
      rw [hshape] at h
      exact .inr ⟨_, readsAs_half o hshape h⟩
    | word =>
      rw [hshape] at h
      exact .inr ⟨_, readsAs_word o hshape h⟩
    | pair =>
      rw [hshape] at h
      obtain ⟨x, y, rfl, hx, hy⟩ := exists_parts (n := 4) (m := 4) h
      exact .inr ⟨_, readsAs_pair hshape hx hy⟩
    | triple =>
      rw [hshape] at h
      obtain ⟨x, yz, rfl, hx, hyz⟩ := exists_parts (n := 4) (m := 8) h
      obtain ⟨y, z, rfl, hy, hz⟩ := exists_parts (n := 4) (m := 4) hyz
      exact .inr ⟨_, readsAs_vector hshape hx hy hz⟩
    | text =>
      rw [hshape] at h
      obtain ⟨size, stored, rfl, hsize, hstored⟩ := h
      have hnext := next?_text hshape hsize hstored
      cases hvalid : Text.ofUtf8? stored with
      | none => exact .inl fun rest => by rw [hnext, hvalid, Option.map_none]
      | some s => exact .inr ⟨_, fun rest => by rw [hnext, hvalid, Option.map_some]⟩

theorem Whole.decodes (h : Whole o front) :
    (∃ is, ∀ rest, decodeBody o (front ++ rest) = is) ∨
      ∃ is, ∀ rest, decodeBody o (front ++ rest) = is ++ decodeBody o rest := by
  induction h with
  | nil => exact .inr ⟨[], fun rest => rfl⟩
  | @cons entry bs hentry _ ih =>
    simp only [List.append_assoc]
    rcases hentry.reads with hnone | ⟨i, hi⟩
    · exact .inl ⟨[], fun rest => decodeBody_of_none (hnone _)⟩
    · by_cases hend : i = .bare .endScript
      · exact .inl ⟨[], fun rest => by rw [decodeBody_of_some (hi _), if_pos hend]⟩
      · rcases ih with ⟨is, his⟩ | ⟨is, his⟩
        · exact .inl ⟨i :: is, fun rest => by rw [decodeBody_of_some (hi _), if_neg hend, his]⟩
        · refine .inr ⟨i :: is, fun rest => ?_⟩
          rw [decodeBody_of_some (hi _), if_neg hend, his, List.cons_append]

theorem ReadsAs.decodeBody {i : Instruction} (h : ReadsAs o entry i) (hend : i ≠ .bare .endScript)
    (rest : List UInt8) : decodeBody o (entry ++ rest) = i :: decodeBody o rest := by
  rw [decodeBody_of_some (h rest), if_neg hend]

end Instruction

namespace Script

open Instruction

variable {o : ByteOrder} {r : Registry} {indent : List Char} {i i' : Instruction}
  {entry entry' body body' front back : List UInt8}

inductive Hidden : List UInt8 → Prop
  | ignored {t : Tag} (h : t.isIgnored) : Hidden [t.byte]
  | unsupported {t : Tag} (h : t.isUnsupported) : Hidden [t.byte]
  | unknown {b : UInt8} (h : Tag.ofByte? b = none) : Hidden [b]
  | jump {target : List UInt8} (h : target.length = 4) : Hidden (Tag.jump.byte :: target)
  | shortJump {distance : List UInt8} (h : distance.length = 2) :
      Hidden (Tag.shortJump.byte :: distance)

inductive Synonym : List UInt8 → List UInt8 → Prop
  | ifWord {distance : List UInt8} (h : distance.length = 2) :
      Synonym [Tag.ifWord.byte] (Tag.fastIf.byte :: distance)
  | elseWord {distance : List UInt8} (h : distance.length = 2) :
      Synonym [Tag.elseWord.byte] (Tag.fastElse.byte :: distance)
  | lineEnd : Synonym [Tag.endOfLine.byte] [Tag.endOfLineNumber.byte]
  | comparison : Synonym [Tag.equals.byte] [Tag.sameAs.byte]
  | phrase {key : List UInt8} (h : key.length = 4) :
      Synonym (Tag.localString.byte :: key) (Tag.stringQs.byte :: key)

/-- One change of a body behind complete tags. -/
inductive Edit (o : ByteOrder) : List UInt8 → List UInt8 → Prop
  | insert {front entry : List UInt8} (hfront : Whole o front) (h : Hidden entry)
      (back : List UInt8) : Edit o (front ++ back) (front ++ (entry ++ back))
  | replace {front entry entry' : List UInt8} (hfront : Whole o front) (h : Synonym entry entry')
      (back : List UInt8) : Edit o (front ++ (entry ++ back)) (front ++ (entry' ++ back))
  | extend {front : List UInt8} (hfront : Whole o front) (more : List UInt8) :
      Edit o (front ++ [Tag.endScript.byte]) (front ++ Tag.endScript.byte :: more)

abbrev Edits (o : ByteOrder) : List UInt8 → List UInt8 → Prop := Relation.EqvGen (Edit o)

def IsSilent (i : Instruction) : Prop :=
  ∀ (r : Registry) (asArgument : Bool),
    actions r asArgument i = [] ∧ marksArgument asArgument i = asArgument

theorem IsSilent.step (h : IsSilent i) (r : Registry) (indent : List Char) (s : State) :
    step r indent s i = s := by
  obtain ⟨hactions, hmarks⟩ := h r s.asArgument
  rw [Script.step, hactions, hmarks]
  rfl

theorem silent_of_hidden {t : Tag} (h : t.isIgnored ∨ t.isUnsupported) :
    t.shape = .bare ∧ t ≠ .endScript ∧ IsSilent (.bare t) := by
  cases t <;> first
    | exact absurd h (by decide)
    | exact ⟨rfl, by decide, fun _ _ => ⟨rfl, rfl⟩⟩

theorem Hidden.exists_silent (h : Hidden entry) (o : ByteOrder) :
    ∃ i, ReadsAs o entry i ∧ i ≠ .bare .endScript ∧ IsSilent i := by
  cases h with
  | ignored h =>
    obtain ⟨hshape, hend, hsilent⟩ := silent_of_hidden (.inl h)
    exact ⟨_, readsAs_bare o hshape, by simpa using hend, hsilent⟩
  | unsupported h =>
    obtain ⟨hshape, hend, hsilent⟩ := silent_of_hidden (.inr h)
    exact ⟨_, readsAs_bare o hshape, by simpa using hend, hsilent⟩
  | unknown h => exact ⟨_, readsAs_other h, by simp, fun _ _ => ⟨rfl, rfl⟩⟩
  | jump h => exact ⟨_, readsAs_word o rfl h, by simp, fun _ _ => ⟨rfl, rfl⟩⟩
  | shortJump h => exact ⟨_, readsAs_half o rfl h, by simp, fun _ _ => ⟨rfl, rfl⟩⟩

def IsSame (i i' : Instruction) : Prop :=
  ∀ (r : Registry) (asArgument : Bool), actions r asArgument i = actions r asArgument i' ∧
    marksArgument asArgument i = marksArgument asArgument i'

theorem IsSame.step (h : IsSame i i') (r : Registry) (indent : List Char) (s : State) :
    step r indent s i = step r indent s i' := by
  obtain ⟨hactions, hmarks⟩ := h r s.asArgument
  rw [Script.step, Script.step, hactions, hmarks]

theorem Synonym.exists_same (h : Synonym entry entry') (o : ByteOrder) :
    ∃ i i', ReadsAs o entry i ∧ ReadsAs o entry' i' ∧ i ≠ .bare .endScript ∧
      i' ≠ .bare .endScript ∧ IsSame i i' := by
  cases h with
  | ifWord h =>
    exact ⟨_, _, readsAs_bare o rfl, readsAs_half o rfl h, by simp, by simp, fun _ _ => ⟨rfl, rfl⟩⟩
  | elseWord h =>
    exact ⟨_, _, readsAs_bare o rfl, readsAs_half o rfl h, by simp, by simp, fun _ _ => ⟨rfl, rfl⟩⟩
  | lineEnd =>
    exact ⟨_, _, readsAs_bare o rfl, readsAs_bare o rfl, by simp, by simp, fun _ _ => ⟨rfl, rfl⟩⟩
  | comparison =>
    exact ⟨_, _, readsAs_bare o rfl, readsAs_bare o rfl, by simp, by simp, fun _ _ => ⟨rfl, rfl⟩⟩
  | phrase h =>
    exact ⟨_, _, readsAs_word o rfl h, readsAs_word o rfl h, by simp, by simp,
      fun _ _ => ⟨rfl, rfl⟩⟩

theorem render_behind (hfront : Whole o front)
    (h : ∀ s, (decodeBody o body).foldl (step r indent) s =
      (decodeBody o body').foldl (step r indent) s) :
    render r indent (decodeBody o (front ++ body)) =
      render r indent (decodeBody o (front ++ body')) := by
  rcases hfront.decodes with ⟨is, his⟩ | ⟨is, his⟩
  · rw [his, his]
  · rw [his, his, render, render, List.foldl_append, List.foldl_append, h]

theorem render_edit (r : Registry) (indent : List Char) (h : Edit o body body') :
    render r indent (decodeBody o body) = render r indent (decodeBody o body') := by
  cases h with
  | @insert front entry hfront h back =>
    obtain ⟨i, hi, hend, hsilent⟩ := h.exists_silent o
    apply render_behind hfront
    intro s
    rw [hi.decodeBody hend, List.foldl_cons, hsilent.step]
  | @replace front entry entry' hfront h back =>
    obtain ⟨i, i', hi, hi', hend, hend', hsame⟩ := h.exists_same o
    apply render_behind hfront
    intro s
    rw [hi.decodeBody hend, hi'.decodeBody hend', List.foldl_cons, List.foldl_cons, hsame.step]
  | @extend front hfront more =>
    have hreads : ReadsAs o [Tag.endScript.byte] (.bare .endScript) := readsAs_bare o rfl
    have hend (more : List UInt8) : decodeBody o (Tag.endScript.byte :: more) = [] := by
      rw [← List.singleton_append, decodeBody_of_some (hreads more), if_pos rfl]
    apply render_behind hfront
    intro s
    rw [hend, hend]

/-- Hidden tags that are put in or left out at boundaries between tags, tags that are replaced by
others that are written alike, and bytes behind an end tag leave the text of a body as it is. -/
theorem bodyText_of_edits (r : Registry) (indent : List Char) (order : ByteOrder)
    {body body' : List UInt8} (h : Edits order.inverse body body') :
    bodyText r indent order body = bodyText r indent order body' := by
  induction h with
  | rel _ _ hedit => exact render_edit r indent hedit
  | refl _ => rfl
  | symm _ _ _ ih => exact ih.symm
  | trans _ _ _ _ _ ih ih' => exact ih.trans ih'

theorem bodyText_of_edits_argument :
    Edits .little [0x2D, 0x16, 1, 0, 0, 0, 0x24] [0x2D, 0x2E, 9, 9, 9, 9, 0x16, 1, 0, 0, 0, 0x24, 7] ∧
      bodyText {} ['\t'] .big [0x2D, 0x16, 1, 0, 0, 0, 0x24] =
        bodyText {} ['\t'] .big [0x2D, 0x2E, 9, 9, 9, 9, 0x16, 1, 0, 0, 0, 0x24, 7] := by
  have hmarker : Entry .little [0x2D] := .tag .arg rfl
  have hjump : Entry .little [0x2E, 9, 9, 9, 9] := .tag .jump rfl
  have hname : Entry .little [0x16, 1, 0, 0, 0] := .tag .name rfl
  have hfront : Whole .little [0x2D] := .cons hmarker .nil
  have hhidden : Hidden [0x2E, 9, 9, 9, 9] := .jump rfl
  have hinsert : Edit .little [0x2D, 0x16, 1, 0, 0, 0, 0x24]
      [0x2D, 0x2E, 9, 9, 9, 9, 0x16, 1, 0, 0, 0, 0x24] := .insert hfront hhidden _
  have hextend : Edit .little [0x2D, 0x2E, 9, 9, 9, 9, 0x16, 1, 0, 0, 0, 0x24]
      [0x2D, 0x2E, 9, 9, 9, 9, 0x16, 1, 0, 0, 0, 0x24, 7] :=
    .extend (.cons hmarker (.cons hjump (.cons hname .nil))) [7]
  have hedits := (Relation.EqvGen.rel _ _ hinsert).trans _ _ _ (.rel _ _ hextend)
  exact ⟨hedits, bodyText_of_edits {} ['\t'] .big hedits⟩

end Script

end QbCodec
