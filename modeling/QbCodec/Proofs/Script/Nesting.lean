import QbCodec.Proofs.Script.Truncation

namespace QbCodec

open Layout

namespace Instruction

def opens? : Instruction → Option Block
  | .bare .startStruct | .bare .inlinePackStruct => some .struct
  | .bare .startArray => some .array
  | .bare .begin => some .loop
  | .bare .ifWord | .half .fastIf _ => some .conditional
  | .bare .switch => some .switch
  | _ => none

def closes? : Instruction → Option Block
  | .bare .endStruct => some .struct
  | .bare .endArray => some .array
  | .bare .repeatWord => some .loop
  | .bare .endIf => some .conditional
  | .bare .endSwitch => some .switch
  | _ => none

def isBranch : Instruction → Bool
  | .bare .elseWord | .half .fastElse _ | .bare .elseIf => true
  | _ => false

def isLabel : Instruction → Bool
  | .bare .caseWord | .bare .defaultWord => true
  | _ => false

structure IsPlain (i : Instruction) : Prop where
  opens : i.opens? = none
  closes : i.closes? = none
  branch : i.isBranch = false
  label : i.isLabel = false
  ne_end : i ≠ .bare .endScript

abbrev Row := List (Nat × Instruction)

/-- The constructs of a row that lies inside of `n` constructs are nested properly. -/
inductive Nested : Nat → Row → Prop
  | nil {n : Nat} : Nested n []
  | plain {n : Nat} {i : Instruction} {row : Row} (h : i.IsPlain) (rest : Nested n row) :
      Nested n ((n, i) :: row)
  | block {n : Nat} {b : Block} {i j : Instruction} {inner row : Row} (hopen : i.opens? = some b)
      (hb : b = .struct ∨ b = .array ∨ b = .loop) (hinner : Nested (n + 1) inner)
      (hclose : j.closes? = some b) (rest : Nested n row) :
      Nested n ((n, i) :: (inner ++ (n, j) :: row))
  | conditional {n : Nat} {i j : Instruction} {first row : Row}
      (branches : List (Instruction × Row)) (hopen : i.opens? = some .conditional)
      (hfirst : Nested (n + 1) first) (hwords : ∀ b ∈ branches, b.1.isBranch)
      (hbranches : ∀ b ∈ branches, Nested (n + 1) b.2) (hclose : j.closes? = some .conditional)
      (rest : Nested n row) :
      Nested n ((n, i) ::
        (first ++ (branches.flatMap (fun b => (n, b.1) :: b.2) ++ (n, j) :: row)))
  | switch {n : Nat} {i j : Instruction} {head row : Row} (arms : List (Instruction × Row))
      (hopen : i.opens? = some .switch) (hhead : Nested (n + 1) head)
      (hlabels : ∀ a ∈ arms, a.1.isLabel) (harms : ∀ a ∈ arms, Nested (n + 2) a.2)
      (hclose : j.closes? = some .switch) (rest : Nested n row) :
      Nested n ((n, i) ::
        (head ++ (arms.flatMap (fun a => (n + 1, a.1) :: a.2) ++ (n, j) :: row)))

theorem decodeBody_flatMap (o : ByteOrder) {is : List Instruction}
    (h : ∀ i ∈ is, i.WellFormed ∧ i ≠ .bare .endScript) (rest : List UInt8) :
    decodeBody o (is.flatMap (encode o) ++ rest) = is ++ decodeBody o rest := by
  induction is with
  | nil => rfl
  | cons i is ih =>
    rw [List.forall_mem_cons] at h
    rw [List.flatMap_cons, List.append_assoc, decodeBody_of_some (next?_encode o h.1.1 _),
      if_neg h.1.2, ih h.2, List.cons_append]

theorem decodeBody_tail (o : ByteOrder) {tail : List UInt8}
    (h : tail = [] ∨ tail = [Tag.endScript.byte]) : decodeBody o tail = [] := by
  rcases h with rfl | rfl
  · exact decodeBody_of_none rfl
  · exact decodeBody_encodeBody o (List.forall_mem_nil _)

theorem forall_mem_segments {segments : List (Instruction × Row)} {n : Nat}
    {p : Nat × Instruction → Prop} (hwords : ∀ b ∈ segments, p (n, b.1))
    (hrows : ∀ b ∈ segments, ∀ x ∈ b.2, p x) :
    ∀ x ∈ segments.flatMap fun b => (n, b.1) :: b.2, p x := by
  intro x hx
  obtain ⟨b, hb, hx⟩ := List.mem_flatMap.mp hx
  rcases List.mem_cons.mp hx with rfl | hx
  · exact hwords b hb
  · exact hrows b hb x hx

theorem Nested.ne_end {n : Nat} {row : Row} (h : Nested n row) :
    ∀ x ∈ row, x.2 ≠ .bare .endScript := by
  have hopen {i : Instruction} {b : Block} (h : i.opens? = some b) : i ≠ .bare .endScript := by
    rintro rfl
    cases h
  have hclose {i : Instruction} {b : Block} (h : i.closes? = some b) : i ≠ .bare .endScript := by
    rintro rfl
    cases h
  have hbranch {i : Instruction} (h : i.isBranch) : i ≠ .bare .endScript := by
    rintro rfl
    cases h
  have hlabel {i : Instruction} (h : i.isLabel) : i ≠ .bare .endScript := by
    rintro rfl
    cases h
  induction h with
  | nil => simp
  | plain h _ ih => exact List.forall_mem_cons.mpr ⟨h.ne_end, ih⟩
  | block hi _ _ hj _ ihinner ihrest =>
    refine List.forall_mem_cons.mpr ⟨hopen hi, List.forall_mem_append.mpr ⟨ihinner, ?_⟩⟩
    exact List.forall_mem_cons.mpr ⟨hclose hj, ihrest⟩
  | conditional branches hi _ hwords _ hj _ ihfirst ihbranches ihrest =>
    refine List.forall_mem_cons.mpr ⟨hopen hi, List.forall_mem_append.mpr ⟨ihfirst, ?_⟩⟩
    refine List.forall_mem_append.mpr ⟨?_, List.forall_mem_cons.mpr ⟨hclose hj, ihrest⟩⟩
    exact forall_mem_segments (fun b hb => hbranch (hwords b hb)) ihbranches
  | switch arms hi _ hlabels _ hj _ ihhead iharms ihrest =>
    refine List.forall_mem_cons.mpr ⟨hopen hi, List.forall_mem_append.mpr ⟨ihhead, ?_⟩⟩
    refine List.forall_mem_append.mpr ⟨?_, List.forall_mem_cons.mpr ⟨hclose hj, ihrest⟩⟩
    exact forall_mem_segments (fun a ha => hlabel (hlabels a ha)) iharms

end Instruction

namespace Layout

variable {l : Layout} {indent : List Char}

structure OnNewLine (l : Layout) : Prop where
  start : l.atLineStart = true
  written : l.written.head? = some '\n'

theorem onNewLine_newLine (l : Layout) : l.newLine.OnNewLine := ⟨rfl, rfl⟩

theorem writeAt_with (indent : List Char) (depth : Nat) (p : Piece) (cs : List Char) (l : Layout)
    (blocks : List Block) : ({ l with blocks } : Layout).writeAt indent depth p cs =
      { l.writeAt indent depth p cs with blocks } := by
  unfold writeAt
  split <;> rfl

theorem writeAt_self (indent : List Char) (depth : Nat) (p : Piece) (cs : List Char) (l : Layout) :
    l.writeAt indent depth p cs = { l.writeAt indent depth p cs with blocks := l.blocks } :=
  writeAt_with indent depth p cs l l.blocks

theorem written_writeAt (h : l.atLineStart = true) (indent : List Char) (depth : Nat) (p : Piece)
    (cs : List Char) : (l.writeAt indent depth p cs).written =
      (Text.trimStart cs).reverse ++ ((indentation indent depth).reverse ++ l.written) := by
  rw [writeAt, if_pos h]

theorem leave_eq {b : Block} {outer : List Block} (h : l.blocks = b :: outer) :
    l.leave b = { l with blocks := outer } := by
  rw [leave, h]
  exact if_pos rfl

def InSwitch (blocks outer : List Block) : Prop :=
  blocks = .switch :: outer ∨ blocks = .arm :: .switch :: outer

theorem leave_arm {outer : List Block} (h : InSwitch l.blocks outer) :
    l.leave .arm = { l with blocks := .switch :: outer } := by
  rcases h with h | h
  · rw [leave, h]
    exact congrArg (fun blocks => { l with blocks }) h
  · exact leave_eq h

theorem leave_switch {outer : List Block} (h : InSwitch l.blocks outer) :
    (l.leave .arm).leave .switch = { l with blocks := outer } := by
  rw [leave_arm h]
  exact leave_eq rfl

theorem text_of_written {cs front : List Char} (h : l.written = cs.reverse ++ front)
    (hne : Text.trimEnd cs ≠ []) : l.text = front.reverse ++ Text.trimEnd cs := by
  have hdrop : (cs.reverse.dropWhile Text.isBlank).isEmpty = false := by
    rw [List.isEmpty_eq_false_iff]
    intro hnil
    apply hne
    rw [Text.trimEnd, Text.dropEnd, hnil, List.reverse_nil]
  rw [text, h, List.dropWhile_append, hdrop, if_neg (by simp), List.reverse_append]
  rfl

end Layout

def Action.text? : Action → Option (List Char)
  | .write _ text | .writeOutdented _ text => some text
  | _ => none

namespace Layout

theorem OnNewLine.act {l : Layout} (h : l.OnNewLine) (indent : List Char) {a : Action}
    (ha : a.text? = none) : (l.act indent a).OnNewLine := by
  cases a with
  | newLine => exact onNewLine_newLine l
  | write p text => cases ha
  | writeOutdented p text => cases ha
  | enter b => exact ⟨h.start, h.written⟩
  | leave b =>
    unfold Layout.act Layout.leave
    dsimp only
    split
    · exact h
    · split
      · exact ⟨h.start, h.written⟩
      · exact h

theorem OnNewLine.acts {l : Layout} (h : l.OnNewLine) (indent : List Char) {as : List Action}
    (has : ∀ a ∈ as, a.text? = none) : (l.acts indent as).OnNewLine := by
  induction as generalizing l with
  | nil => exact h
  | cons a as ih =>
    rw [List.forall_mem_cons] at has
    exact ih (h.act indent has.1) has.2

end Layout

namespace Script

open Instruction

variable {r : Registry} {indent : List Char} {asArgument : Bool} {i j : Instruction} {b : Block}
  {s t : State} {n : Nat} {row : Row}

def fragment? (r : Registry) (asArgument : Bool) (i : Instruction) : Option (List Char) :=
  (actions r asArgument i).findSome? Action.text?

def IndentsTo (r : Registry) (indent : List Char) (s : State) (i : Instruction) (depth : Nat) :
    Prop :=
  s.layout.atLineStart = true → ∀ text, fragment? r s.asArgument i = some text →
    (step r indent s i).layout.written = (Text.trimStart text).reverse ++
      ((indentation indent depth).reverse ++ s.layout.written)

theorem actions_plain (h : i.IsPlain) (r : Registry) (asArgument : Bool) :
    actions r asArgument i = [] ∨ actions r asArgument i = [.newLine] ∨
      ∃ p text, actions r asArgument i = [.write p text] := by
  cases i with
  | bare t =>
    cases t <;> first
      | exact .inl rfl
      | exact .inr (.inl rfl)
      | exact .inr (.inr ⟨_, _, rfl⟩)
      | exact absurd h.opens (Option.some_ne_none _)
      | exact absurd h.closes (Option.some_ne_none _)
      | exact absurd h.branch.symm Bool.false_ne_true
      | exact absurd h.label.symm Bool.false_ne_true
  | half t v =>
    cases t <;> first
      | exact .inl rfl
      | exact absurd h.opens (Option.some_ne_none _)
      | exact absurd h.branch.symm Bool.false_ne_true
  | word t v => cases t <;> first | exact .inl rfl | exact .inr (.inr ⟨_, _, rfl⟩)
  | pair x y => exact .inr (.inr ⟨_, _, rfl⟩)
  | vector x y z => exact .inr (.inr ⟨_, _, rfl⟩)
  | text wide stored => exact .inr (.inr ⟨_, _, rfl⟩)
  | other b => exact .inl rfl

theorem actions_opens (h : i.opens? = some b) (r : Registry) (asArgument : Bool) :
    ∃ p text, actions r asArgument i = [.write p text, .enter b] := by
  cases i with
  | bare t => cases t <;> cases h <;> exact ⟨_, _, rfl⟩
  | half t v => cases t <;> cases h; exact ⟨_, _, rfl⟩
  | _ => cases h

theorem actions_closes (h : i.closes? = some b) (hb : b ≠ .switch) (r : Registry)
    (asArgument : Bool) : ∃ p text, actions r asArgument i = [.leave b, .write p text] := by
  unfold closes? at h
  split at h <;> cases h <;> first | exact absurd rfl hb | exact ⟨_, _, rfl⟩

theorem actions_endSwitch (h : i.closes? = some .switch) (r : Registry) (asArgument : Bool) :
    ∃ p text, actions r asArgument i = [.leave .arm, .leave .switch, .write p text] := by
  unfold closes? at h
  split at h <;> cases h
  exact ⟨_, _, rfl⟩

theorem actions_branch (h : i.isBranch) (r : Registry) (asArgument : Bool) :
    ∃ p text, actions r asArgument i = [.writeOutdented p text] := by
  cases i with
  | bare t => cases t <;> cases h <;> exact ⟨_, _, rfl⟩
  | half t v => cases t <;> cases h; exact ⟨_, _, rfl⟩
  | _ => cases h

theorem actions_label (h : i.isLabel) (r : Registry) (asArgument : Bool) :
    ∃ p text, actions r asArgument i = [.leave .arm, .write p text, .enter .arm] := by
  unfold isLabel at h
  split at h <;> first | exact ⟨_, _, rfl⟩ | cases h

structure Turns (r : Registry) (indent : List Char) (s : State) (i : Instruction)
    (blocks : List Block) (depth : Nat) : Prop where
  blocks : (step r indent s i).layout.blocks = blocks
  indents : IndentsTo r indent s i depth

theorem layout_step (r : Registry) (indent : List Char) (s : State) (i : Instruction) :
    (step r indent s i).layout = s.layout.acts indent (actions r s.asArgument i) := rfl

theorem turns_of_step (p : Piece) (cs : List Char) {blocks : List Block} {depth : Nat}
    (hfragment : fragment? r s.asArgument i = some cs)
    (hstep : (step r indent s i).layout = { s.layout.writeAt indent depth p cs with blocks }) :
    Turns r indent s i blocks depth := by
  refine ⟨by rw [hstep], fun hstart text htext => ?_⟩
  rw [hfragment] at htext
  cases htext
  rw [hstep]
  exact written_writeAt hstart indent depth p cs

theorem turns_of_silent (hfragment : fragment? r s.asArgument i = none)
    (hblocks : (step r indent s i).layout.blocks = s.layout.blocks) (depth : Nat) :
    Turns r indent s i s.layout.blocks depth := by
  refine ⟨hblocks, fun _ text htext => ?_⟩
  rw [hfragment] at htext
  cases htext

theorem turns_plain (h : i.IsPlain) (r : Registry) (indent : List Char) (s : State) :
    Turns r indent s i s.layout.blocks s.layout.depth := by
  rcases actions_plain h r s.asArgument with hactions | hactions | ⟨p, text, hactions⟩
  · exact turns_of_silent (by rw [fragment?, hactions]; rfl) (by rw [layout_step, hactions]; rfl) _
  · exact turns_of_silent (by rw [fragment?, hactions]; rfl) (by rw [layout_step, hactions]; rfl) _
  · apply turns_of_step p text (by rw [fragment?, hactions]; rfl)
    rw [layout_step, hactions]
    exact writeAt_self ..

theorem turns_opens (h : i.opens? = some b) (r : Registry) (indent : List Char) (s : State) :
    Turns r indent s i (b :: s.layout.blocks) s.layout.depth := by
  obtain ⟨p, text, hactions⟩ := actions_opens h r s.asArgument
  apply turns_of_step p text (by rw [fragment?, hactions]; rfl)
  have hacts : s.layout.acts indent [.write p text, .enter b] =
      { s.layout.writeAt indent s.layout.depth p text with
        blocks := b :: (s.layout.writeAt indent s.layout.depth p text).blocks } := rfl
  rw [layout_step, hactions, hacts, writeAt_self]

theorem turns_closes {outer : List Block} (h : i.closes? = some b) (hb : b ≠ .switch) (r : Registry)
    (indent : List Char) (hblocks : s.layout.blocks = b :: outer) :
    Turns r indent s i outer (outer.length + 1) := by
  obtain ⟨p, text, hactions⟩ := actions_closes h hb r s.asArgument
  apply turns_of_step p text (by rw [fragment?, hactions]; rfl)
  have hacts : s.layout.acts indent [.leave b, .write p text] =
      (s.layout.leave b).writeAt indent (s.layout.leave b).depth p text := rfl
  rw [layout_step, hactions, hacts, leave_eq hblocks, writeAt_with]
  rfl

theorem turns_branch (h : i.isBranch) (r : Registry) (indent : List Char) (s : State) :
    Turns r indent s i s.layout.blocks s.layout.blocks.length := by
  obtain ⟨p, text, hactions⟩ := actions_branch h r s.asArgument
  apply turns_of_step p text (by rw [fragment?, hactions]; rfl)
  rw [layout_step, hactions]
  exact writeAt_self ..

theorem turns_label {outer : List Block} (h : i.isLabel) (r : Registry) (indent : List Char)
    (hblocks : InSwitch s.layout.blocks outer) :
    Turns r indent s i (.arm :: .switch :: outer) (outer.length + 2) := by
  obtain ⟨p, text, hactions⟩ := actions_label h r s.asArgument
  apply turns_of_step p text (by rw [fragment?, hactions]; rfl)
  have hacts : s.layout.acts indent [.leave .arm, .write p text, .enter .arm] =
      { (s.layout.leave .arm).writeAt indent (s.layout.leave .arm).depth p text with
        blocks := .arm ::
          ((s.layout.leave .arm).writeAt indent (s.layout.leave .arm).depth p text).blocks } := rfl
  rw [layout_step, hactions, hacts, leave_arm hblocks, writeAt_with]
  rfl

theorem turns_endSwitch {outer : List Block} (h : i.closes? = some .switch) (r : Registry)
    (indent : List Char) (hblocks : InSwitch s.layout.blocks outer) :
    Turns r indent s i outer (outer.length + 1) := by
  obtain ⟨p, text, hactions⟩ := actions_endSwitch h r s.asArgument
  apply turns_of_step p text (by rw [fragment?, hactions]; rfl)
  have hacts : s.layout.acts indent [.leave .arm, .leave .switch, .write p text] =
      ((s.layout.leave .arm).leave .switch).writeAt indent
        ((s.layout.leave .arm).leave .switch).depth p text := rfl
  rw [layout_step, hactions, hacts, leave_switch hblocks, writeAt_with]
  rfl

inductive Passes (r : Registry) (indent : List Char) : State → Row → State → Prop
  | nil {s : State} : Passes r indent s [] s
  | cons {s t : State} {n : Nat} {i : Instruction} {row : Row}
      (h : IndentsTo r indent s i (n + 1)) (rest : Passes r indent (step r indent s i) row t) :
      Passes r indent s ((n, i) :: row) t

theorem Passes.append {u : State} {row' : Row} (h : Passes r indent s row t)
    (h' : Passes r indent t row' u) : Passes r indent s (row ++ row') u := by
  induction h with
  | nil => exact h'
  | cons h _ ih => exact .cons h (ih h')

theorem Passes.eq_foldl (h : Passes r indent s row t) :
    t = (row.map Prod.snd).foldl (step r indent) s := by
  induction h with
  | nil => rfl
  | cons _ _ ih => exact ih

theorem Passes.indentsTo {before after : Row}
    (h : Passes r indent s (before ++ (n, i) :: after) t) :
    IndentsTo r indent ((before.map Prod.snd).foldl (step r indent) s) i (n + 1) := by
  induction before generalizing s with
  | nil =>
    cases h with
    | cons h _ => exact h
  | cons x before ih =>
    cases h with
    | cons _ rest => exact ih rest

/-- Inside of `n` blocks the row is passed, and the blocks are the same behind it. -/
def Balances (r : Registry) (indent : List Char) (n : Nat) (row : Row) : Prop :=
  ∀ s : State, s.layout.blocks.length = n →
    ∃ t, Passes r indent s row t ∧ t.layout.blocks = s.layout.blocks

theorem balances_branches {branches : List (Instruction × Row)}
    (hwords : ∀ b ∈ branches, b.1.isBranch)
    (hbranches : ∀ b ∈ branches, Balances r indent (n + 1) b.2) :
    ∀ s : State, s.layout.blocks.length = n + 1 →
      ∃ t, Passes r indent s (branches.flatMap fun b => (n, b.1) :: b.2) t ∧
        t.layout.blocks = s.layout.blocks := by
  induction branches with
  | nil => exact fun s _ => ⟨s, .nil, rfl⟩
  | cons b branches ih =>
    rw [List.forall_mem_cons] at hwords hbranches
    intro s hs
    have hword := turns_branch hwords.1 r indent s
    obtain ⟨t, ht, htblocks⟩ := hbranches.1 (step r indent s b.1) (by rw [hword.blocks, hs])
    rw [hword.blocks] at htblocks
    obtain ⟨u, hu, hublocks⟩ := ih hwords.2 hbranches.2 t (by rw [htblocks, hs])
    rw [hs] at hword
    exact ⟨u, (Passes.cons hword.indents ht).append hu, hublocks.trans htblocks⟩

theorem passes_arms {arms : List (Instruction × Row)} {outer : List Block}
    (houter : outer.length = n) (hlabels : ∀ a ∈ arms, a.1.isLabel)
    (harms : ∀ a ∈ arms, Balances r indent (n + 2) a.2) :
    ∀ s : State, InSwitch s.layout.blocks outer →
      ∃ t, Passes r indent s (arms.flatMap fun a => (n + 1, a.1) :: a.2) t ∧
        InSwitch t.layout.blocks outer := by
  induction arms with
  | nil => exact fun s hs => ⟨s, .nil, hs⟩
  | cons a arms ih =>
    rw [List.forall_mem_cons] at hlabels harms
    intro s hs
    have hlabel := turns_label hlabels.1 r indent hs
    obtain ⟨t, ht, htblocks⟩ := harms.1 (step r indent s a.1)
      (by rw [hlabel.blocks, List.length_cons, List.length_cons, houter])
    rw [hlabel.blocks] at htblocks
    obtain ⟨u, hu, hublocks⟩ := ih hlabels.2 harms.2 t (.inr htblocks)
    rw [houter] at hlabel
    exact ⟨u, (Passes.cons hlabel.indents ht).append hu, hublocks⟩

theorem balances_of_nested (h : Nested n row) (r : Registry) (indent : List Char) :
    Balances r indent n row := by
  induction h with
  | nil => exact fun s _ => ⟨s, .nil, rfl⟩
  | @plain n i row h _ ih =>
    intro s hs
    have hturns := turns_plain h r indent s
    obtain ⟨t, ht, hblocks⟩ := ih (step r indent s i) (by rw [hturns.blocks, hs])
    rw [depth, hs] at hturns
    exact ⟨t, .cons hturns.indents ht, hblocks.trans hturns.blocks⟩
  | @block n b i j inner row hopen hb _ hclose _ ihinner ihrest =>
    intro s hs
    have hi := turns_opens hopen r indent s
    obtain ⟨t, ht, htblocks⟩ := ihinner (step r indent s i) (by rw [hi.blocks, List.length_cons, hs])
    rw [hi.blocks] at htblocks
    have hne : b ≠ .switch := by rcases hb with rfl | rfl | rfl <;> decide
    have hj := turns_closes hclose hne r indent htblocks
    obtain ⟨u, hu, hublocks⟩ := ihrest (step r indent t j) (by rw [hj.blocks, hs])
    rw [depth, hs] at hi
    rw [hs] at hj
    exact ⟨u, .cons hi.indents (ht.append (.cons hj.indents hu)), hublocks.trans hj.blocks⟩
  | @conditional n i j first row branches hopen _ hwords _ hclose _ ihfirst ihbranches ihrest =>
    intro s hs
    have hi := turns_opens hopen r indent s
    have hlength : (step r indent s i).layout.blocks.length = n + 1 := by
      rw [hi.blocks, List.length_cons, hs]
    obtain ⟨t, ht, htblocks⟩ := ihfirst (step r indent s i) hlength
    obtain ⟨u, hu, hublocks⟩ := balances_branches hwords ihbranches t (by rw [htblocks, hlength])
    rw [htblocks, hi.blocks] at hublocks
    have hj := turns_closes hclose (by decide) r indent hublocks
    obtain ⟨v, hv, hvblocks⟩ := ihrest (step r indent u j) (by rw [hj.blocks, hs])
    rw [depth, hs] at hi
    rw [hs] at hj
    exact ⟨v, .cons hi.indents (ht.append (hu.append (.cons hj.indents hv))),
      hvblocks.trans hj.blocks⟩
  | @switch n i j head row arms hopen _ hlabels _ hclose _ ihhead iharms ihrest =>
    intro s hs
    have hi := turns_opens hopen r indent s
    obtain ⟨t, ht, htblocks⟩ := ihhead (step r indent s i) (by rw [hi.blocks, List.length_cons, hs])
    rw [hi.blocks] at htblocks
    obtain ⟨u, hu, hublocks⟩ := passes_arms hs hlabels iharms t (.inl htblocks)
    have hj := turns_endSwitch hclose r indent hublocks
    obtain ⟨v, hv, hvblocks⟩ := ihrest (step r indent u j) (by rw [hj.blocks, hs])
    rw [depth, hs] at hi
    rw [hs] at hj
    exact ⟨v, .cons hi.indents (ht.append (hu.append (.cons hj.indents hv))),
      hvblocks.trans hj.blocks⟩

def stateAfter (r : Registry) (indent : List Char) (is : List Instruction) : State :=
  is.foldl (step r indent) {}

theorem onNewLine_lineEnd (h : i = .bare .endOfLine ∨ i = .bare .endOfLineNumber) (r : Registry)
    (indent : List Char) (s : State) : (step r indent s i).layout.OnNewLine := by
  rcases h with rfl | rfl <;> exact onNewLine_newLine s.layout

theorem onNewLine_silent {is : List Instruction} (h : s.layout.OnNewLine)
    (his : ∀ i ∈ is, ∀ asArgument, fragment? r asArgument i = none) :
    (is.foldl (step r indent) s).layout.OnNewLine := by
  induction is generalizing s with
  | nil => exact h
  | cons i is ih =>
    rw [List.forall_mem_cons] at his
    have hnone := List.findSome?_eq_none_iff.mp (his.1 s.asArgument)
    exact ih (h.acts indent hnone) his.2

theorem onNewLine_stateAfter {before between : Row} {lineEnd : Nat × Instruction}
    (hline : lineEnd.2 = .bare .endOfLine ∨ lineEnd.2 = .bare .endOfLineNumber)
    (hbetween : ∀ x ∈ between, ∀ asArgument, fragment? r asArgument x.2 = none) :
    (stateAfter r indent
      ((before ++ lineEnd :: between).map Prod.snd)).layout.OnNewLine := by
  rw [stateAfter, List.map_append, List.map_cons, List.foldl_append, List.foldl_cons]
  apply onNewLine_silent (onNewLine_lineEnd hline r indent _)
  rintro i hi
  obtain ⟨x, hx, rfl⟩ := List.mem_map.mp hi
  exact hbetween x hx

theorem text_prefix_render (r : Registry) (indent : List Char) (is js : List Instruction) :
    (stateAfter r indent is).layout.text <+: render r indent (is ++ js) := by
  rw [render, List.foldl_append, layout_foldl r indent _ js]
  exact text_prefix_acts indent _ _

/-- If the constructs of a body are nested properly, no block is open at its end. The first piece
behind a line end stands on its line behind one copy of the indentation for the body and one for
each construct around the piece, and a piece that is not all blank stays there in the text. -/
theorem indented_of_nested {row : Row} (h : Nested 0 row) (hwell : ∀ x ∈ row, x.2.WellFormed)
    (r : Registry) (indent : List Char) (order : ByteOrder) {tail : List UInt8}
    (htail : tail = [] ∨ tail = [Tag.endScript.byte]) :
    let body := (row.map Prod.snd).flatMap (encode order.inverse) ++ tail
    decodeBody order.inverse body = row.map Prod.snd ∧
      (stateAfter r indent (row.map Prod.snd)).layout.blocks = [] ∧
      ∀ (before between after : Row) (lineEnd : Nat × Instruction) (n : Nat) (i : Instruction)
        (piece : List Char), row = before ++ lineEnd :: (between ++ (n, i) :: after) →
        lineEnd.2 = .bare .endOfLine ∨ lineEnd.2 = .bare .endOfLineNumber →
        (∀ x ∈ between, ∀ asArgument, fragment? r asArgument x.2 = none) →
        let s := stateAfter r indent ((before ++ lineEnd :: between).map Prod.snd)
        fragment? r s.asArgument i = some piece →
          ∃ front, s.layout.written.reverse = front ++ ['\n'] ∧
            (step r indent s i).layout.written.reverse =
              front ++ '\n' :: (indentation indent (n + 1) ++ Text.trimStart piece) ∧
            (Text.trim piece ≠ [] →
              front ++ '\n' :: (indentation indent (n + 1) ++ Text.trim piece) <+:
                bodyText r indent order body) := by
  intro body
  obtain ⟨t, ht, hblocks⟩ := balances_of_nested h r indent {} rfl
  have hdecode : decodeBody order.inverse body = row.map Prod.snd := by
    have hall : ∀ i ∈ row.map Prod.snd, i.WellFormed ∧ i ≠ .bare .endScript := by
      intro i hi
      obtain ⟨x, hx, rfl⟩ := List.mem_map.mp hi
      exact ⟨hwell x hx, h.ne_end x hx⟩
    rw [decodeBody_flatMap _ hall, decodeBody_tail _ htail, List.append_nil]
  refine ⟨hdecode, by rw [stateAfter, ← ht.eq_foldl, hblocks], ?_⟩
  intro before between after lineEnd n i piece hrow hline hbetween s hpiece
  have hnew : s.layout.OnNewLine := onNewLine_stateAfter hline hbetween
  have hsplit : row = (before ++ lineEnd :: between) ++ (n, i) :: after := by
    rw [hrow, List.append_assoc, List.cons_append]
  rw [hsplit] at ht
  have hwritten := ht.indentsTo hnew.start piece hpiece
  obtain ⟨front, hfront⟩ : ∃ front, s.layout.written = '\n' :: front :=
    List.head?_eq_some_iff.mp hnew.written
  have hbehind : (step r indent s i).layout.written = (Text.trimStart piece).reverse ++
      ((indentation indent (n + 1)).reverse ++ '\n' :: front) := by
    rw [← hfront]
    exact hwritten
  refine ⟨front.reverse, by rw [hfront, List.reverse_cons], by rw [hbehind]; simp, fun hne => ?_⟩
  have htext := text_of_written hbehind hne
  have hstate : stateAfter r indent ((before ++ lineEnd :: between).map Prod.snd ++ [i]) =
      step r indent s i := by
    rw [stateAfter, List.foldl_append]
    rfl
  have hprefix := text_prefix_render r indent
    ((before ++ lineEnd :: between).map Prod.snd ++ [i]) (after.map Prod.snd)
  rw [hstate, htext] at hprefix
  have hrender : bodyText r indent order body = render r indent
      ((before ++ lineEnd :: between).map Prod.snd ++ [i] ++ after.map Prod.snd) := by
    rw [bodyText, hdecode, hsplit, List.map_append, List.map_cons, List.append_assoc]
    rfl
  rw [hrender]
  simpa [Text.trim] using hprefix

theorem indented_of_nested_label :
    let row : Row := [(0, .bare .ifWord), (1, .bare .allArgs), (1, .bare .endOfLine),
      (1, .bare .switch), (2, .bare .endOfLine), (2, .bare .caseWord), (3, .word .integer 1),
      (3, .bare .endOfLine), (3, .word .name 2), (1, .bare .endSwitch), (0, .bare .elseWord),
      (0, .bare .endIf)]
    let body := (row.map Prod.snd).flatMap (encode .little) ++ [Tag.endScript.byte]
    Nested 0 row ∧ (∀ x ∈ row, x.2.WellFormed) ∧
      (stateAfter {} ['\t'] (row.map Prod.snd)).layout.blocks = [] ∧
      ∃ front, front ++ "\n\t\t\t\t#\"0x00000002\"".toList <+: bodyText {} ['\t'] .big body := by
  intro row body
  have hplain {i : Instruction} (h : i.opens? = none) (h' : i.closes? = none)
      (hbranch : i.isBranch = false) (hlabel : i.isLabel = false) (hend : i ≠ .bare .endScript) :
      i.IsPlain := ⟨h, h', hbranch, hlabel, hend⟩
  have hline : IsPlain (.bare .endOfLine) := hplain rfl rfl rfl rfl (by decide)
  have harm : Nested 3 [(3, .word .integer 1), (3, .bare .endOfLine), (3, .word .name 2)] :=
    .plain (hplain rfl rfl rfl rfl (by decide))
      (.plain hline (.plain (hplain rfl rfl rfl rfl (by decide)) .nil))
  have hswitch : Nested 1 [(1, .bare .switch), (2, .bare .endOfLine), (2, .bare .caseWord),
      (3, .word .integer 1), (3, .bare .endOfLine), (3, .word .name 2), (1, .bare .endSwitch)] :=
    .switch [(.bare .caseWord, _)] rfl (.plain hline .nil) (by decide)
      (List.forall_mem_singleton.mpr harm) rfl .nil
  have hnested : Nested 0 row :=
    .conditional [(.bare .elseWord, [])] rfl
      (.plain (hplain rfl rfl rfl rfl (by decide)) (.plain hline hswitch)) (by decide)
      (List.forall_mem_singleton.mpr .nil) rfl .nil
  have hwell : ∀ x ∈ row, x.2.WellFormed := by
    simp [row, WellFormed, Tag.shape]
  obtain ⟨-, hblocks, hindents⟩ := indented_of_nested hnested hwell {} ['\t'] .big (.inr rfl)
  obtain ⟨front, -, -, hprefix⟩ := hindents (row.take 7) [] (row.drop 9) (3, .bare .endOfLine) 3
    (.word .name 2) "#\"0x00000002\"".toList rfl (.inl rfl) (by simp) rfl
  exact ⟨hnested, hwell, hblocks, front, hprefix (by decide)⟩

end Script

end QbCodec
