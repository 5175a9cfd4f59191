import QbCodec.Proofs.Guarded.Probing
import QbCodec.Proofs.Script.Coding
import QbCodec.Script.Reading

namespace QbCodec.Guarded

open Source (byteCount)

namespace Probe

def byte : Probe UInt8 := fun d p => do
  match ← take 1 d p with
  | (.error e, q) => return (.error e, q)
  | (.ok bytes, q) => do
    let first ← bytes[0]?
    return (.ok first, q)

def single : Probe Single := do return ⟨(← number 4).toUInt32⟩

def utf8 (n : Nat) : Probe String := fun d p => do
  match ← take n d p with
  | (.error e, q) => return (.error e, q)
  | (.ok bytes, q) =>
    match Text.ofUtf8? bytes with
    | none => return (.error (.invalidText p.offset), q)
    | some s => return (.ok s, q)

def countedText : Probe String := do utf8 (← number 4)

def inverted {α : Type} (g : Probe α) : Probe α := fun d p =>
  (g d { p with order := p.order.inverse }).map fun (result, q) =>
    (result, { q with order := q.order.inverse })

def operand (t : Tag) : Probe Instruction :=
  match t.shape with
  | .bare => pure (.bare t)
  | .half => do return .half t (← number 2).toUInt16
  | .word => do return .word t (← number 4).toUInt32
  | .pair => do
    let x ← single
    let y ← single
    return .pair x y
  | .triple => do
    let x ← single
    let y ← single
    let z ← single
    return .vector x y z
  | .text =>
    if t = .wideString then do return .text true (← inverted countedText)
    else do return .text false (← countedText)

def skipped (b : UInt8) : Probe Instruction := fun _ p =>
  (minus? p.offset 1).map fun _ => (.ok (.other b), p)

def instruction : Probe Instruction := do
  let b ← byte
  match Tag.ofByte? b with
  | some t => operand t
  | none => skipped b

theorem byte_of_le {d : List UInt8} {o : ByteOrder} {a : Nat} (h : a < d.length) :
    byte d ⟨a, o⟩ = some (.ok d[a], ⟨a + 1, o⟩) := by
  have hfirst : ((d.drop a).take 1)[0]? = some d[a] := by
    simp [h]
  simp [byte, take_of_le (n := 1) h, hfirst]

theorem byte_of_lt {d : List UInt8} {o : ByteOrder} {a : Nat} (ha : a ≤ d.length)
    (h : d.length < a + 1) :
    byte d ⟨a, o⟩ = some (.error (.endOfData a 1 (d.length - a)), ⟨a, o⟩) := by
  simp [byte, take_of_lt ha h]

end Probe

def newLine? (l : Layout) : Option Layout := do
  let kept := byteCount (Text.dropEnd Layout.isPadding l.written.reverse)
  let (front, _) ← cut? kept l.written.reverse
  return { l with written := '\n' :: front.reverse, atLineStart := true, previous := none }

def act? (indent : List Char) (l : Layout) : Action → Option Layout
  | .newLine => newLine? l
  | a => some (l.act indent a)

def perform? (r : Registry) (indent : List Char) (s : Script.State) (i : Instruction) :
    Option Script.State := do
  let layout ← (Script.actions r s.asArgument i).foldlM (act? indent) s.layout
  return ⟨layout, Script.marksArgument s.asArgument i⟩

def translate? (r : Registry) (indent : List Char) (d : List UInt8) (p : Place)
    (s : Script.State) : Option (List Char) :=
  if _ : p.offset < d.length then
    match Probe.instruction d p with
    | none => none
    | some (.error _, _) => some s.layout.text
    | some (.ok i, q) =>
      if i = .bare .endScript then some s.layout.text
      else do
        let next ← perform? r indent s i
        if _ : p.offset < q.offset then translate? r indent d q next else none
  else some s.layout.text
termination_by d.length - p.offset

def bodyText? (r : Registry) (indent : List Char) (order : ByteOrder) (body : List UInt8) :
    Option (List Char) :=
  translate? r indent body ⟨0, order.inverse⟩ {}

def Parses {α : Type} (g : Probe α) (parse : ByteOrder → List UInt8 → Option (α × List UInt8)) :
    Prop :=
  ∀ (d : List UInt8) (o : ByteOrder) (a : Nat), a ≤ d.length →
    (parse o (d.drop a) = none ∧ ∃ e q, g d ⟨a, o⟩ = some (.error e, q)) ∨
    ∃ v, ∃ b ≤ d.length, parse o (d.drop a) = some (v, d.drop b) ∧ g d ⟨a, o⟩ = some (.ok v, ⟨b, o⟩)

namespace Parses

open Instruction

variable {α β : Type} {g : Probe α} {parse : ByteOrder → List UInt8 → Option (α × List UInt8)}

theorem pure (v : α) : Parses (Pure.pure v) fun _ bs => some (v, bs) :=
  fun _ _ a ha => .inr ⟨v, a, ha, rfl, rfl⟩

theorem bind {f : α → Probe β} {later : α → ByteOrder → List UInt8 → Option (β × List UInt8)}
    (h : Parses g parse) (hf : ∀ v, Parses (f v) (later v)) :
    Parses (g >>= f) fun o bs => (parse o bs).bind fun (v, rest) => later v o rest := by
  intro d o a ha
  rcases h d o a ha with ⟨hnone, e, q, hg⟩ | ⟨v, b, hb, hsome, hg⟩
  · exact .inl ⟨by simp only [hnone, Option.bind_none], e, q, Probe.bind_of_error hg⟩
  · simp only [hsome, Probe.bind_of_ok hg, Option.bind_some]
    exact hf v d o b hb

theorem map (k : α → β) (h : Parses g parse) :
    Parses (g >>= fun v => Pure.pure (k v)) fun o bs =>
      (parse o bs).map fun (v, rest) => (k v, rest) := by
  have hparse : (fun o bs => (parse o bs).map fun (v, rest) => (k v, rest)) =
      fun o bs => (parse o bs).bind fun (v, rest) => some (k v, rest) := by
    funext o bs
    cases parse o bs <;> rfl
  rw [hparse]
  exact h.bind fun v => pure (k v)

theorem inverted (h : Parses g parse) : Parses (Probe.inverted g) fun o => parse o.inverse := by
  intro d o a ha
  rcases h d o.inverse a ha with ⟨hnone, e, q, hg⟩ | ⟨v, b, hb, hsome, hg⟩
  · exact .inl ⟨hnone, e, { q with order := q.order.inverse }, by simp [Probe.inverted, hg]⟩
  · exact .inr ⟨v, b, hb, hsome, by simp [Probe.inverted, hg]⟩

theorem split?_of_le {n : Nat} {bs : List UInt8} (h : n ≤ bs.length) :
    split? n bs = some (bs.take n, bs.drop n) := by
  have hsplit := split?_append (bs.take n) (bs.drop n)
  rwa [List.take_append_drop, List.length_take, Nat.min_eq_left h] at hsplit

theorem split?_of_lt {n : Nat} {bs : List UInt8} (h : bs.length < n) : split? n bs = none := by
  induction n generalizing bs with
  | zero => omega
  | succ n ih =>
    cases bs with
    | nil => rfl
    | cons b bs =>
      rw [split?, ih (by rw [List.length_cons] at h; omega), Option.map_none]

theorem split?_drop {n a : Nat} {d : List UInt8} (ha : a ≤ d.length) :
    split? n (d.drop a) =
      if a + n ≤ d.length then some ((d.drop a).take n, d.drop (a + n)) else none := by
  split
  · rw [split?_of_le (by rw [List.length_drop]; omega), List.drop_drop]
  · rw [split?_of_lt (by rw [List.length_drop]; omega)]

theorem number (n : Nat) : Parses (Probe.number n) fun o => number? o n := by
  intro d o a ha
  simp only [number?, split?_drop ha]
  rcases Nat.lt_or_ge d.length (a + n) with hlt | hge
  · exact .inl ⟨by rw [if_neg (by omega), Option.map_none], _, _, Probe.number_of_lt ha hlt⟩
  · exact .inr ⟨_, a + n, hge, by rw [if_pos hge, Option.map_some], Probe.number_of_le hge⟩

theorem single : Parses Probe.single single? := (number 4).map fun n : Nat => Single.mk n.toUInt32

theorem utf8 (n : Nat) : Parses (Probe.utf8 n) fun _ bs =>
    (split? n bs).bind fun (stored, rest) => (Text.ofUtf8? stored).map fun s => (s, rest) := by
  intro d o a ha
  simp only [split?_drop ha]
  rcases Nat.lt_or_ge d.length (a + n) with hlt | hge
  · refine .inl ⟨by rw [if_neg (by omega), Option.bind_none], ?_⟩
    simp [Probe.utf8, Probe.take_of_lt ha hlt]
  rw [if_pos hge, Option.bind_some]
  cases htext : Text.ofUtf8? ((d.drop a).take n) with
  | none =>
    refine .inl ⟨rfl, ?_⟩
    simp [Probe.utf8, Probe.take_of_le hge, htext]
  | some s =>
    refine .inr ⟨s, a + n, hge, rfl, ?_⟩
    simp [Probe.utf8, Probe.take_of_le hge, htext]

def countedText? (o : ByteOrder) (bs : List UInt8) : Option (String × List UInt8) :=
  (number? o 4 bs).bind fun (n, rest) => (split? n rest).bind fun (stored, rest) =>
    (Text.ofUtf8? stored).map fun s => (s, rest)

theorem countedText : Parses Probe.countedText countedText? := (number 4).bind utf8

theorem text?_eq (o : ByteOrder) (wide : Bool) (bs : List UInt8) :
    text? o wide bs =
      (countedText? (lengthOrder o wide) bs).map fun (s, rest) => (text wide s, rest) := by
  rw [text?, countedText?]
  cases number? (lengthOrder o wide) 4 bs with
  | none => rfl
  | some counted =>
    dsimp only [Option.bind_some]
    cases split? counted.1 counted.2 with
    | none => rfl
    | some parts =>
      dsimp only [Option.bind_some]
      cases Text.ofUtf8? parts.1 <;> rfl

theorem operand (t : Tag) : Parses (Probe.operand t) fun o => afterTag? o t := by
  unfold Probe.operand afterTag?
  cases t.shape with
  | bare => exact pure _
  | half => exact (number 2).map _
  | word => exact (number 4).map _
  | pair => exact single.bind fun x => single.map _
  | triple => exact single.bind fun x => single.bind fun y => single.map _
  | text =>
    simp only [text?_eq]
    by_cases hwide : t = .wideString
    · simp only [hwide, lengthOrder, if_true, decide_true]
      exact countedText.inverted.map _
    · simp only [hwide, lengthOrder, if_false, decide_false]
      exact countedText.map _

theorem instruction : Parses Probe.instruction next? := by
  intro d o a ha
  rcases Nat.lt_or_ge d.length (a + 1) with hlt | hge
  · have hnil : d.drop a = [] := List.drop_eq_nil_of_le (by omega)
    have hbyte := Probe.byte_of_lt (o := o) ha hlt
    exact .inl ⟨by rw [hnil]; rfl, _, _, Probe.bind_of_error hbyte⟩
  have hcons : d.drop a = d[a] :: d.drop (a + 1) := List.drop_eq_getElem_cons hge
  have hbyte := Probe.byte_of_le (o := o) hge
  rw [hcons, next?, Probe.instruction, Probe.bind_of_ok hbyte]
  cases Tag.ofByte? d[a] with
  | some t => exact operand t d o (a + 1) hge
  | none => exact .inr ⟨_, a + 1, hge, rfl, by simp [Probe.skipped, minus?_of_le]⟩

end Parses

theorem newLine?_eq (l : Layout) : newLine? l = some l.newLine := by
  have hkept : Text.dropEnd Layout.isPadding l.written.reverse =
      (l.written.dropWhile Layout.isPadding).reverse := by
    rw [Text.dropEnd, List.reverse_reverse]
  have hparts : l.written.reverse = (l.written.dropWhile Layout.isPadding).reverse ++
      (l.written.takeWhile Layout.isPadding).reverse := by
    rw [← List.reverse_append, List.takeWhile_append_dropWhile]
  have hcut : cut? (byteCount (l.written.dropWhile Layout.isPadding).reverse) l.written.reverse =
      some ((l.written.dropWhile Layout.isPadding).reverse,
        (l.written.takeWhile Layout.isPadding).reverse) := by
    rw [hparts, cut?_append]
  simp [newLine?, hkept, hcut, Layout.newLine]

theorem act?_eq (indent : List Char) (l : Layout) (a : Action) :
    act? indent l a = some (l.act indent a) := by
  cases a with
  | newLine => exact newLine?_eq l
  | write | writeOutdented | enter | leave => rfl

theorem acts?_eq (indent : List Char) (l : Layout) (as : List Action) :
    as.foldlM (act? indent) l = some (l.acts indent as) := by
  induction as generalizing l with
  | nil => rfl
  | cons a as ih =>
    rw [List.foldlM_cons, act?_eq]
    exact ih _

theorem perform?_eq (r : Registry) (indent : List Char) (s : Script.State) (i : Instruction) :
    perform? r indent s i = some (Script.step r indent s i) := by
  simp [perform?, acts?_eq, Script.step]

theorem translate?_eq (r : Registry) (indent : List Char) {d : List UInt8} (o : ByteOrder) {a : Nat}
    (ha : a ≤ d.length) (s : Script.State) :
    translate? r indent d ⟨a, o⟩ s =
      some ((Instruction.decodeBody o (d.drop a)).foldl (Script.step r indent) s).layout.text := by
  induction hn : d.length - a using Nat.strongRecOn generalizing a s with
  | _ n ih =>
    rw [translate?]
    by_cases hmore : a < d.length
    · rw [dif_pos hmore]
      rcases Parses.instruction d o a ha with ⟨hnone, e, q, hg⟩ | ⟨i, b, hb, hsome, hg⟩
      · rw [hg, Instruction.decodeBody_of_none hnone]
        rfl
      -- what an instruction leaves is shorter, so that the place behind it is further on
      have hshorter := Instruction.length_of_next? hsome
      rw [List.length_drop, List.length_drop] at hshorter
      have hfurther : a < b := by omega
      rw [hg, Instruction.decodeBody_of_some hsome]
      dsimp only
      by_cases hend : i = .bare .endScript
      · rw [if_pos hend, if_pos hend]
        rfl
      · rw [if_neg hend, if_neg hend, perform?_eq]
        dsimp only [Option.bind_eq_bind, Option.bind_some]
        rw [dif_pos hfurther, ih (d.length - b) (by omega) hb _ rfl, List.foldl_cons]
    · have hnil : d.drop a = [] := List.drop_eq_nil_of_le (by omega)
      have hnone : Instruction.next? o [] = none := rfl
      rw [dif_neg hmore, hnil, Instruction.decodeBody_of_none hnone]
      rfl

theorem bodyText?_eq (r : Registry) (indent : List Char) (order : ByteOrder) (body : List UInt8) :
    bodyText? r indent order body = some (Script.bodyText r indent order body) := by
  rw [bodyText?, translate?_eq r indent order.inverse (Nat.zero_le _), List.drop_zero]
  rfl

end QbCodec.Guarded
