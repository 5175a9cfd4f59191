import Mathlib.Order.Bounds.Basic
import QbCodec.Proofs.Bytes.Record

namespace QbCodec.Cursor

open Record (Kind)

inductive Operation
  | read (kind : Kind)
  | text (length : Nat)
  | keyName (names : Registry)
  | seek (target : Nat)
  | advance (delta : Int)
  | align (alignment : Nat)
  | setOrder (order : ByteOrder)
  | invertOrder

namespace Operation

def perform : Operation → Read Unit
  | read kind => do let _ ← kind.read; return ()
  | text length => do let _ ← Cursor.text length; return ()
  | keyName names => do let _ ← Cursor.keyName names; return ()
  | seek target => Cursor.seek target
  | advance delta => Cursor.advance delta
  | align alignment => Cursor.align alignment
  | setOrder order => Cursor.setOrder order
  | invertOrder => Cursor.invertOrder

/-- How many bytes have to be left before anything is done. -/
def asks (c : Cursor) : Operation → Nat
  | read kind =>
    match kind with
    | .u8 | .i8 | .bool => 1
    | .u16 | .i16 => 2
    | .u32 | .i32 | .single | .countedText => 4
    | .u64 | .i64 | .double => 8
    | .raw length => length
    | .zeroEndedText => (c.zeroDistance?.getD c.remaining) + 1
  | text length => length
  | keyName _ => 4
  | seek target => target - c.offset
  | advance delta => delta.toNat
  | align _ | setOrder _ | invertOrder => 0

/-- Nothing if the program stops, which it does only where it aligns. -/
def perform? (checked : Bool) (c : Cursor) : Operation → Option (Except Failure Unit × Cursor)
  | align alignment => (c.align? checked alignment).map fun d => (.ok (), d)
  | op => some (op.perform c)

def isText : Operation → Bool
  | read .countedText | read .zeroEndedText | text _ => true
  | _ => false

end Operation

def performAll? (checked : Bool) (ops : List Operation) (c : Cursor) : Option Cursor :=
  ops.foldlM (fun c op => (op.perform? checked c).map Prod.snd) c

def Overflows (c : Cursor) (alignment : Nat) : Prop :=
  1 < alignment ∧ ¬ alignment ∣ c.offset ∧ 2 ^ 64 ≤ c.offset + alignment

variable {checked : Bool} {c d : Cursor} {n : Nat} {e : Failure}

def forward (c : Cursor) (n : Nat) (h : n ≤ c.remaining) : Cursor :=
  { c with
    offset := c.offset + n
    inside := by
      have := c.inside
      unfold remaining at h
      omega }

def ahead (c : Cursor) (n : Nat) : List UInt8 :=
  (c.data.extract c.offset (c.offset + n)).toList

def count (c : Cursor) : Nat := (c.order.decode (c.ahead 4)).toUInt32.toNat

/-- The failures of an operation, each with the cursor that it leaves. -/
inductive Fails : Cursor → Operation → Failure → Cursor → Prop
  | short {c : Cursor} {op : Operation} (h : c.remaining < op.asks c) :
      Fails c op (.endOfData c.offset (op.asks c) c.remaining) c
  | belowStart {c : Cursor} {delta : Int} (h : c.offset + delta < 0) :
      Fails c (.advance delta) (.endOfData c.offset 0 c.remaining) c
  | invalidText {c : Cursor} {n : Nat} (h : n ≤ c.remaining)
      (htext : Text.ofUtf8? (c.ahead n) = none) :
      Fails c (.text n) (.invalidText c.offset) (c.forward n h)
  | counted {c d : Cursor} {e : Failure} (h : 4 ≤ c.remaining)
      (htext : Fails (c.forward 4 h) (.text c.count) e d) : Fails c (.read .countedText) e d
  | zeroEnded {c : Cursor} {n : Nat} (hzero : c.zeroDistance? = some n) (h : n ≤ c.remaining)
      (htext : Text.ofUtf8? (c.ahead n) = none) :
      Fails c (.read .zeroEndedText) (.invalidText c.offset) (c.forward n h)

theorem take_of_le (h : n ≤ c.remaining) : take n c = (.ok (c.ahead n), c.forward n h) := by
  have hinside : c.offset + n ≤ c.data.size := (c.forward n h).inside
  rw [take, dif_pos hinside]
  rfl

theorem take_of_lt (h : c.remaining < n) :
    take n c = (.error (.endOfData c.offset n c.remaining), c) := by
  have houtside : ¬ c.offset + n ≤ c.data.size := by
    unfold remaining at h
    omega
  rw [take, dif_neg houtside]

structure Asks {α : Type} (n : Nat) (r : Read α) : Prop where
  short : ∀ c, c.remaining < n → r c = (.error (.endOfData c.offset n c.remaining), c)
  enough : ∀ c, n ≤ c.remaining → ∃ a d, r c = (.ok a, d)

namespace Asks

variable {α β : Type} {r : Read α}

theorem map (h : Asks n r) (f : α → β) : Asks n (do return f (← r)) where
  short c hc := Read.bind_of_error (h.short c hc)
  enough c hc := by
    obtain ⟨a, d, hr⟩ := h.enough c hc
    exact ⟨f a, d, Read.bind_of_ok hr⟩

theorem take (n : Nat) : Asks n (Cursor.take n) where
  short _ hc := take_of_lt hc
  enough _ hc := ⟨_, _, take_of_le hc⟩

theorem number (width : Nat) : Asks width (Cursor.number width) where
  short c hc := by rw [Cursor.number, take_of_lt hc]
  enough c hc := by
    rw [Cursor.number, take_of_le hc]
    exact ⟨_, _, rfl⟩

theorem u8 : Asks 1 Cursor.u8 := (number 1).map Nat.toUInt8

theorem u16 : Asks 2 Cursor.u16 := (number 2).map Nat.toUInt16

theorem u32 : Asks 4 Cursor.u32 := (number 4).map Nat.toUInt32

theorem u64 : Asks 8 Cursor.u64 := (number 8).map Nat.toUInt64

end Asks

theorem zeroDistance?_lt (h : c.zeroDistance? = some n) : n < c.remaining := by
  obtain ⟨hlt, -⟩ := List.findIdx?_eq_some_iff_findIdx_eq.mp h
  simpa [remaining] using hlt

theorem u32_of_le (h : 4 ≤ c.remaining) :
    u32 c = (.ok (c.order.decode (c.ahead 4)).toUInt32, c.forward 4 h) := by
  apply Read.bind_of_ok
  rw [number, take_of_le h]

theorem text_of_lt (h : c.remaining < n) :
    text n c = (.error (.endOfData c.offset n c.remaining), c) := by
  rw [text, take_of_lt h]

theorem text_of_some (h : n ≤ c.remaining) {s : String} (htext : Text.ofUtf8? (c.ahead n) = some s) :
    text n c = (.ok s, c.forward n h) := by
  rw [text, take_of_le h]
  simp only [htext]

theorem text_of_none (h : n ≤ c.remaining) (htext : Text.ofUtf8? (c.ahead n) = none) :
    text n c = (.error (.invalidText c.offset), c.forward n h) := by
  rw [text, take_of_le h]
  simp only [htext]

theorem countedText_of_lt (h : c.remaining < 4) :
    countedText c = (.error (.endOfData c.offset 4 c.remaining), c) :=
  Read.bind_of_error (Asks.u32.short c h)

theorem countedText_of_le (h : 4 ≤ c.remaining) : countedText c = text c.count (c.forward 4 h) :=
  Read.bind_of_ok (u32_of_le h)

theorem zeroEndedText_of_none (h : c.zeroDistance? = none) :
    zeroEndedText c = (.error (.endOfData c.offset (c.remaining + 1) c.remaining), c) := by
  simp only [zeroEndedText, h]

theorem zeroEndedText_of_some (hzero : c.zeroDistance? = some n) (h : n ≤ c.remaining) :
    zeroEndedText c = match Text.ofUtf8? (c.ahead n) with
      | some s => (.ok s, (take 1 (c.forward n h)).2)
      | none => (.error (.invalidText c.offset), c.forward n h) := by
  simp only [zeroEndedText, hzero]
  cases htext : Text.ofUtf8? (c.ahead n) with
  | some s => simp only [text_of_some h htext]
  | none => simp only [text_of_none h htext]

namespace Asks

theorem read {kind : Kind} (htext : kind ≠ .countedText) (hzero : kind ≠ .zeroEndedText)
    (c : Cursor) : Asks ((Operation.read kind).asks c) kind.read := by
  cases kind with
  | u8 => exact u8
  | i8 => exact u8.map UInt8.toInt8
  | bool => exact u8.map (· != 0)
  | u16 => exact u16
  | i16 => exact u16.map UInt16.toInt16
  | u32 => exact u32
  | i32 => exact u32.map UInt32.toInt32
  | u64 => exact u64
  | i64 => exact u64.map UInt64.toInt64
  | single => exact u32.map Single.mk
  | double => exact u64.map Double.mk
  | raw length => exact take length
  | countedText => exact absurd rfl htext
  | zeroEndedText => exact absurd rfl hzero

end Asks

theorem error_of_void {α : Type} {r : Read α}
    (h : (do let _ ← r; return () : Read Unit) c = (.error e, d)) : r c = (.error e, d) := by
  change Read.bind r _ c = _ at h
  unfold Read.bind at h
  split at h
  · cases h
  · rename_i hr
    cases h
    exact hr

theorem seek_of_le {target : Nat} (h : target ≤ c.data.size) :
    seek target c = (.ok (), { c with offset := target, inside := h }) := dif_pos h

theorem seek_of_lt {target : Nat} (h : c.data.size < target) :
    seek target c = (.error (.endOfData c.offset (target - c.offset) c.remaining), c) :=
  dif_neg (by omega)

theorem advance_of_neg {delta : Int} (h : c.offset + delta < 0) :
    advance delta c = (.error (.endOfData c.offset 0 c.remaining), c) := if_pos h

theorem advance_of_le {delta : Int} (h : 0 ≤ c.offset + delta) :
    advance delta c = seek (c.offset + delta).toNat c := if_neg (by omega)

theorem zeroEndedText_of_lt (h : c.remaining < (Operation.read .zeroEndedText).asks c) :
    zeroEndedText c =
      (.error (.endOfData c.offset ((Operation.read .zeroEndedText).asks c) c.remaining), c) := by
  cases hzero : c.zeroDistance? with
  | none => simp only [zeroEndedText_of_none hzero, Operation.asks, hzero, Option.getD_none]
  | some n =>
    have hn := zeroDistance?_lt hzero
    simp only [Operation.asks, hzero, Option.getD_some] at h
    omega

theorem perform_of_lt {op : Operation} (h : c.remaining < op.asks c) :
    op.perform c = (.error (.endOfData c.offset (op.asks c) c.remaining), c) := by
  have hinside := c.inside
  cases op with
  | read kind =>
    apply Read.bind_of_error
    by_cases htext : kind = .countedText
    · subst htext
      exact countedText_of_lt h
    · by_cases hzero : kind = .zeroEndedText
      · subst hzero
        exact zeroEndedText_of_lt h
      · exact (Asks.read htext hzero c).short c h
  | text length => exact Read.bind_of_error (text_of_lt h)
  | keyName names => exact Read.bind_of_error ((Asks.u32.map names.spellKey).short c h)
  | seek target =>
    simp only [Operation.asks, remaining] at h
    exact seek_of_lt (by omega)
  | advance delta =>
    simp only [Operation.asks, remaining] at h
    have hneeded : (c.offset + delta).toNat - c.offset = delta.toNat := by omega
    rw [Operation.perform, advance_of_le (by omega), seek_of_lt (by omega), hneeded]
    rfl
  | align | setOrder | invertOrder => exact absurd h (Nat.not_lt_zero _)

theorem Fails.perform {op : Operation} (h : Fails c op e d) : op.perform c = (.error e, d) := by
  induction h with
  | short h => exact perform_of_lt h
  | belowStart h => exact advance_of_neg h
  | invalidText h htext => exact Read.bind_of_error (text_of_none h htext)
  | counted h _ ih =>
    apply Read.bind_of_error
    rw [Kind.read, countedText_of_le h]
    exact error_of_void ih
  | zeroEnded hzero h htext =>
    apply Read.bind_of_error
    rw [Kind.read, zeroEndedText_of_some hzero h, htext]

theorem fails_of_asks {op : Operation} {α : Type} {r : Read α} (hr : Asks (op.asks c) r)
    (h : r c = (.error e, d)) : Fails c op e d := by
  by_cases hshort : c.remaining < op.asks c
  · rw [hr.short c hshort] at h
    cases h
    exact .short hshort
  · obtain ⟨a, d', hok⟩ := hr.enough c (by omega)
    rw [hok] at h
    cases h

theorem fails_of_text (h : text n c = (.error e, d)) : Fails c (.text n) e d := by
  by_cases hn : c.remaining < n
  · rw [text_of_lt hn] at h
    cases h
    exact .short hn
  · have hle : n ≤ c.remaining := by omega
    cases htext : Text.ofUtf8? (c.ahead n) with
    | some s =>
      rw [text_of_some hle htext] at h
      cases h
    | none =>
      rw [text_of_none hle htext] at h
      cases h
      exact .invalidText hle htext

theorem fails_of_countedText (h : countedText c = (.error e, d)) :
    Fails c (.read .countedText) e d := by
  by_cases hcount : c.remaining < 4
  · rw [countedText_of_lt hcount] at h
    cases h
    exact .short hcount
  · have hle : 4 ≤ c.remaining := by omega
    rw [countedText_of_le hle] at h
    exact .counted hle (fails_of_text h)

theorem fails_of_zeroEndedText (h : zeroEndedText c = (.error e, d)) :
    Fails c (.read .zeroEndedText) e d := by
  by_cases hshort : c.remaining < (Operation.read .zeroEndedText).asks c
  · rw [zeroEndedText_of_lt hshort] at h
    cases h
    exact .short hshort
  · cases hzero : c.zeroDistance? with
    | none =>
      simp only [Operation.asks, hzero, Option.getD_none] at hshort
      omega
    | some n =>
      have hle : n ≤ c.remaining := Nat.le_of_lt (zeroDistance?_lt hzero)
      rw [zeroEndedText_of_some hzero hle] at h
      cases htext : Text.ofUtf8? (c.ahead n) with
      | some s =>
        rw [htext] at h
        cases h
      | none =>
        rw [htext] at h
        cases h
        exact .zeroEnded hzero hle htext

theorem fails_of_seek {target : Nat} (h : seek target c = (.error e, d)) :
    Fails c (.seek target) e d := by
  by_cases htarget : target ≤ c.data.size
  · rw [seek_of_le htarget] at h
    cases h
  · rw [seek_of_lt (by omega)] at h
    cases h
    have hshort : c.remaining < (Operation.seek target).asks c := by
      have := c.inside
      simp only [Operation.asks, remaining]
      omega
    exact .short hshort

theorem fails_of_advance {delta : Int} (h : advance delta c = (.error e, d)) :
    Fails c (.advance delta) e d := by
  by_cases hbelow : c.offset + delta < 0
  · rw [advance_of_neg hbelow] at h
    cases h
    exact .belowStart hbelow
  · by_cases hshort : c.remaining < (Operation.advance delta).asks c
    · rw [← Operation.perform, perform_of_lt hshort] at h
      cases h
      exact .short hshort
    · have hinside := c.inside
      simp only [Operation.asks, remaining] at hshort
      rw [advance_of_le (by omega), seek_of_le (by omega)] at h
      cases h

theorem perform_eq_error_iff {op : Operation} :
    op.perform c = (.error e, d) ↔ Fails c op e d := by
  refine ⟨fun h => ?_, Fails.perform⟩
  cases op with
  | read kind =>
    have hread := error_of_void h
    by_cases htext : kind = .countedText
    · subst htext
      exact fails_of_countedText hread
    · by_cases hzero : kind = .zeroEndedText
      · subst hzero
        exact fails_of_zeroEndedText hread
      · exact fails_of_asks (Asks.read htext hzero c) hread
  | text length => exact fails_of_text (error_of_void h)
  | keyName names => exact fails_of_asks (Asks.u32.map names.spellKey) (error_of_void h)
  | seek target => exact fails_of_seek h
  | advance delta => exact fails_of_advance h
  | align | setOrder | invertOrder => cases h

theorem Fails.refused {op : Operation} (h : Fails c op e d)
    (htext : op.isText → c.remaining < op.asks c) :
    d = c ∧ ((∃ needed, e = .endOfData c.offset needed c.remaining ∧ c.remaining < needed) ∨
      ∃ delta, op = .advance delta ∧ c.offset + delta < 0) := by
  cases h with
  | short h => exact ⟨rfl, .inl ⟨_, rfl, h⟩⟩
  | belowStart h => exact ⟨rfl, .inr ⟨_, rfl, h⟩⟩
  | invalidText h => exact absurd (htext rfl) (Nat.not_lt_of_le h)
  | counted h => exact absurd (htext rfl) (Nat.not_lt_of_le h)
  | zeroEnded hzero h =>
    have hlt := zeroDistance?_lt hzero
    have hshort := htext rfl
    simp only [Operation.asks, hzero, Option.getD_some] at hshort
    omega

def Keeps {α : Type} (r : Read α) : Prop := ∀ c, (r c).2.data = c.data

section

variable {α β : Type} {r : Read α}

theorem keeps_bind {f : α → Read β} (hr : Keeps r) (hf : ∀ a, Keeps (f a)) : Keeps (r >>= f) := by
  intro c
  change (Read.bind r f c).2.data = c.data
  have hfirst := hr c
  unfold Read.bind
  split
  · rename_i a c' hc
    rw [hf a c', ← hfirst, hc]
  · rename_i hc
    rw [← hfirst, hc]

theorem keeps_map (hr : Keeps r) (f : α → β) : Keeps (do return f (← r)) :=
  keeps_bind hr fun _ _ => rfl

theorem keeps_take (n : Nat) : Keeps (take n) := by
  intro c
  by_cases h : c.remaining < n
  · rw [take_of_lt h]
  · rw [take_of_le (by omega)]
    rfl

theorem keeps_number (width : Nat) : Keeps (number width) := by
  intro c
  by_cases h : c.remaining < width
  · rw [number, take_of_lt h]
  · rw [number, take_of_le (by omega)]
    rfl

theorem keeps_u32 : Keeps u32 := keeps_map (keeps_number 4) Nat.toUInt32

theorem keeps_text (n : Nat) : Keeps (text n) := by
  intro c
  by_cases h : c.remaining < n
  · rw [text_of_lt h]
  · have hle : n ≤ c.remaining := by omega
    cases htext : Text.ofUtf8? (c.ahead n) with
    | some s =>
      rw [text_of_some hle htext]
      rfl
    | none =>
      rw [text_of_none hle htext]
      rfl

theorem keeps_zeroEndedText : Keeps zeroEndedText := by
  intro c
  cases hzero : c.zeroDistance? with
  | none => rw [zeroEndedText_of_none hzero]
  | some n =>
    have hle : n ≤ c.remaining := Nat.le_of_lt (zeroDistance?_lt hzero)
    rw [zeroEndedText_of_some hzero hle]
    split
    · exact keeps_take 1 (c.forward n hle)
    · rfl

end

theorem keeps_read (kind : Kind) : Keeps kind.read := by
  have keeps_u8 : Keeps u8 := keeps_map (keeps_number 1) Nat.toUInt8
  have keeps_u16 : Keeps u16 := keeps_map (keeps_number 2) Nat.toUInt16
  have keeps_u64 : Keeps u64 := keeps_map (keeps_number 8) Nat.toUInt64
  cases kind with
  | u8 => exact keeps_u8
  | i8 => exact keeps_map keeps_u8 UInt8.toInt8
  | bool => exact keeps_map keeps_u8 (· != 0)
  | u16 => exact keeps_u16
  | i16 => exact keeps_map keeps_u16 UInt16.toInt16
  | u32 => exact keeps_u32
  | i32 => exact keeps_map keeps_u32 UInt32.toInt32
  | u64 => exact keeps_u64
  | i64 => exact keeps_map keeps_u64 UInt64.toInt64
  | single => exact keeps_map keeps_u32 Single.mk
  | double => exact keeps_map keeps_u64 Double.mk
  | raw length => exact keeps_take length
  | countedText => exact keeps_bind keeps_u32 fun n => keeps_text n.toNat
  | zeroEndedText => exact keeps_zeroEndedText

theorem keeps_seek (target : Nat) : Keeps (seek target) := by
  intro c
  unfold seek
  split <;> rfl

theorem keeps_perform (op : Operation) : Keeps op.perform := by
  cases op with
  | read kind => exact keeps_map (keeps_read kind) fun _ => ()
  | text length => exact keeps_map (keeps_text length) fun _ => ()
  | keyName names => exact keeps_map (keeps_map keeps_u32 names.spellKey) fun _ => ()
  | seek target => exact keeps_seek target
  | advance delta =>
    intro c
    by_cases h : c.offset + delta < 0
    · rw [Operation.perform, advance_of_neg h]
    · rw [Operation.perform, advance_of_le (by omega)]
      exact keeps_seek _ c
  | align | setOrder | invertOrder =>
    intro c
    rfl

theorem dvd_alignUp {n : Nat} (h : 0 < n) (a : Nat) : n ∣ alignUp n a := by
  unfold alignUp
  split
  · exact Nat.dvd_of_mod_eq_zero ‹_›
  · have hdiv := Nat.div_add_mod a n
    have hlt := Nat.mod_lt a h
    refine ⟨a / n + 1, ?_⟩
    rw [Nat.mul_add]
    omega

theorem isLeast_alignUp {n : Nat} (h : 0 < n) (a : Nat) :
    IsLeast {m | n ∣ m ∧ a ≤ m} (alignUp n a) := by
  refine ⟨⟨dvd_alignUp h a, le_alignUp n a⟩, ?_⟩
  rintro m ⟨hm, hle⟩
  by_contra hlt
  -- Two multiples less than `n` apart are one.
  have hgap : alignUp n a < a + n := by
    unfold alignUp
    split <;> omega
  obtain ⟨i, hi⟩ := dvd_alignUp h a
  obtain ⟨j, rfl⟩ := hm
  have hji : j < i := by
    by_contra hij
    have := Nat.mul_le_mul_left n (Nat.le_of_not_lt hij)
    omega
  have := Nat.mul_le_mul_left n hji
  rw [Nat.succ_eq_add_one, Nat.mul_add] at this
  omega

theorem alignUp_of_le_one {n : Nat} (h : n ≤ 1) (a : Nat) : alignUp n a = a := by
  unfold alignUp
  split
  · rfl
  · omega

theorem align_of_alignUp_eq (h : alignUp n c.offset = c.offset) : align n c = (.ok (), c) := by
  have hoffset : min (alignUp n c.offset) c.data.size = c.offset := by
    rw [h]
    exact Nat.min_eq_left c.inside
  simp only [align, hoffset]

theorem align_of_le_one (h : n ≤ 1) (c : Cursor) : align n c = (.ok (), c) :=
  align_of_alignUp_eq (alignUp_of_le_one h c.offset)

theorem align?_eq_none_iff : c.align? checked n = none ↔ checked ∧ c.Overflows n := by
  have hdvd := Nat.dvd_iff_mod_eq_zero (m := n) (n := c.offset)
  unfold align? Overflows
  split
  · rename_i hstays
    refine ⟨nofun, fun ⟨_, hn, hrest, _⟩ => ?_⟩
    rcases hstays with hle | hmod
    · omega
    · exact absurd (hdvd.mpr hmod) hrest
  · rename_i hmoves
    rw [not_or, ← hdvd] at hmoves
    split
    · rename_i hsum
      exact ⟨fun _ => ⟨hsum.1, by omega, hmoves.2, hsum.2⟩, fun _ => rfl⟩
    · rename_i hsum
      exact ⟨nofun, fun ⟨hchecked, _, _, hword⟩ => absurd ⟨hchecked, hword⟩ hsum⟩

theorem toNat_alignWords {a : Nat} (ha : a < 2 ^ 63) (hn : n < 2 ^ 64) (hpos : 1 < n)
    (hmod : a % n ≠ 0) :
    (a.toUInt64 + n.toUInt64 - (a % n).toUInt64).toNat = alignUp n a := by
  have hlt := Nat.mod_lt a (Nat.lt_of_succ_lt hpos)
  have hle := Nat.mod_le a n
  have hsmall : n ≤ a ∨ a % n = a := by
    rcases Nat.lt_or_ge a n with h | h
    · exact .inr (Nat.mod_eq_of_lt h)
    · exact .inl h
  unfold alignUp
  rw [if_neg hmod, UInt64.toNat_sub, UInt64.toNat_add]
  simp only [Nat.toUInt64, UInt64.toNat_ofNat']
  omega

theorem align?_eq_some (hsize : c.data.size < 2 ^ 63) (hn : n < 2 ^ 64)
    (h : ¬ (checked ∧ c.Overflows n)) : c.align? checked n = some (align n c).2 := by
  have hinside := c.inside
  rw [← align?_eq_none_iff] at h
  unfold align? at h ⊢
  split
  · rename_i hstays
    rcases hstays with hle | hmod
    · rw [align_of_le_one hle]
    · rw [align_of_alignUp_eq (if_pos hmod)]
  · rename_i hmoves
    rw [if_neg hmoves] at h
    split
    · rename_i hsum
      exact absurd (if_pos hsum) h
    · rw [not_or] at hmoves
      simp only [align, toNat_alignWords (by omega) hn (by omega) hmoves.2]

theorem data_of_align? (h : c.align? checked n = some d) : d.data = c.data := by
  unfold align? at h
  split at h
  · cases h
    rfl
  · split at h
    · cases h
    · cases h
      rfl

theorem perform?_eq_none_iff {op : Operation} :
    op.perform? checked c = none ↔ checked ∧ ∃ n, op = .align n ∧ c.Overflows n := by
  cases op with
  | align n =>
    rw [Operation.perform?, Option.map_eq_none_iff, align?_eq_none_iff]
    simp only [Operation.align.injEq, exists_eq_left']
  | _ => simp [Operation.perform?]

theorem perform?_eq_error_iff {op : Operation} :
    op.perform? checked c = some (.error e, d) ↔ Fails c op e d := by
  rw [← perform_eq_error_iff]
  cases op with
  | align n => simp [Operation.perform?, Operation.perform, align]
  | _ => simp [Operation.perform?]

theorem data_of_perform? {op : Operation} {answer : Except Failure Unit}
    (h : op.perform? checked c = some (answer, d)) : d.data = c.data := by
  have hkeeps := keeps_perform op c
  cases op with
  | align n =>
    obtain ⟨d', hd, he⟩ := Option.map_eq_some_iff.mp h
    cases he
    exact data_of_align? hd
  | _ =>
    rw [Option.some.inj h] at hkeeps
    exact hkeeps

theorem performAll?_cons (op : Operation) (ops : List Operation) (c : Cursor) :
    performAll? checked (op :: ops) c =
      (op.perform? checked c).bind fun p => performAll? checked ops p.2 := by
  rw [performAll?, List.foldlM_cons]
  cases op.perform? checked c with
  | none => rfl
  | some p => rfl

theorem data_of_performAll? {ops : List Operation} (h : performAll? checked ops c = some d) :
    d.data = c.data := by
  induction ops generalizing c with
  | nil =>
    cases h
    rfl
  | cons op ops ih =>
    rw [performAll?_cons] at h
    obtain ⟨p, hp, hrest⟩ := Option.bind_eq_some_iff.mp h
    exact (ih hrest).trans (data_of_perform? hp)

theorem performAll?_eq_none_iff {ops : List Operation} :
    performAll? checked ops c = none ↔ checked ∧ ∃ before n after d,
      ops = before ++ .align n :: after ∧ performAll? checked before c = some d ∧ d.Overflows n := by
  induction ops generalizing c with
  | nil => simp [performAll?]
  | cons op ops ih =>
    rw [performAll?_cons, Option.bind_eq_none_iff]
    constructor
    · intro h
      cases hop : op.perform? checked c with
      | none =>
        obtain ⟨hchecked, n, rfl, hoverflows⟩ := perform?_eq_none_iff.mp hop
        exact ⟨hchecked, [], n, ops, c, rfl, rfl, hoverflows⟩
      | some p =>
        obtain ⟨hchecked, before, n, after, d, rfl, hbefore, hoverflows⟩ := ih.mp (h p hop)
        refine ⟨hchecked, op :: before, n, after, d, rfl, ?_, hoverflows⟩
        rw [performAll?_cons, hop]
        exact hbefore
    · rintro ⟨hchecked, before, n, after, d, hops, hbefore, hoverflows⟩ p hp
      cases before with
      | nil =>
        cases hops
        cases hbefore
        rw [perform?_eq_none_iff.mpr ⟨hchecked, n, rfl, hoverflows⟩] at hp
        cases hp
      | cons op' before =>
        cases hops
        rw [performAll?_cons, hp] at hbefore
        exact ih.mpr ⟨hchecked, before, n, after, d, rfl, hbefore, hoverflows⟩

/-- Whatever was done before: the buffer is the one that was given, and the cursor is inside it. An
operation fails exactly as the relation says. Unless a text was there to be read it leaves the
cursor as it was, and it reports the place, the bytes that are left and a larger number, or else it
goes below the start. To align never moves backwards and ends at the least multiple from the old
place on, or at the end of the buffer. If sums are checked the program stops at the first alignment
whose sum no word holds, and nowhere else; if they wrap it never stops. -/
theorem integrity_performAll (checked : Bool) (bytes : List UInt8) (order : ByteOrder) (start : Nat)
    (ops : List Operation) :
    (performAll? checked ops (ofBytes bytes order start) = none ↔
      checked ∧ ∃ before n after c, ops = before ++ .align n :: after ∧
        performAll? checked before (ofBytes bytes order start) = some c ∧ c.Overflows n) ∧
    ∀ c, performAll? checked ops (ofBytes bytes order start) = some c →
      c.data = bytes.toArray ∧ c.offset ≤ bytes.length ∧ c.remaining = bytes.length - c.offset ∧
      (∀ op : Operation, op.perform? checked c = none ↔
        checked ∧ ∃ n, op = .align n ∧ c.Overflows n) ∧
      (∀ (op : Operation) (e : Failure) (d : Cursor),
        op.perform? checked c = some (.error e, d) ↔ Fails c op e d) ∧
      (∀ (op : Operation) (e : Failure) (d : Cursor), op.perform? checked c = some (.error e, d) →
        (op.isText → c.remaining < op.asks c) →
        d = c ∧ ((∃ needed, e = .endOfData c.offset needed c.remaining ∧ c.remaining < needed) ∨
          ∃ delta, op = .advance delta ∧ c.offset + delta < 0)) ∧
      ∀ n < 2 ^ 64, bytes.length < 2 ^ 63 → ¬ (checked ∧ c.Overflows n) →
        ∃ d, (Operation.align n).perform? checked c = some (.ok (), d) ∧ d.order = c.order ∧
          c.offset ≤ d.offset ∧ (n ≤ 1 → d = c) ∧
          (0 < n → ∃ m, IsLeast {k | n ∣ k ∧ c.offset ≤ k} m ∧ d.offset = min m bytes.length) := by
  refine ⟨performAll?_eq_none_iff, fun c hc => ?_⟩
  have hdata : c.data = bytes.toArray := data_of_performAll? hc
  have hsize : c.data.size = bytes.length := by rw [hdata, List.size_toArray]
  have hinside : c.offset ≤ bytes.length := hsize ▸ c.inside
  refine ⟨hdata, hinside, by rw [remaining, hsize], fun _ => perform?_eq_none_iff,
    fun _ _ _ => perform?_eq_error_iff,
    fun _ _ _ h htext => (perform?_eq_error_iff.mp h).refused htext, fun n hn hlength hgoes => ?_⟩
  have halign := align?_eq_some (hsize ▸ hlength) hn hgoes
  refine ⟨(align n c).2, by rw [Operation.perform?, halign]; rfl, rfl, ?_,
    fun h => congrArg Prod.snd (align_of_le_one h c), fun h => ?_⟩
  · exact Nat.le_min.mpr ⟨le_alignUp n c.offset, c.inside⟩
  · exact ⟨_, isLeast_alignUp h c.offset, by rw [← hsize]; rfl⟩

/-- Behind the third of five bytes there is no number of four. The next multiple of the largest word
lies beyond the end, where the cursor goes if sums wrap; if they are checked, the program stops. -/
theorem integrity_performAll_five :
    ∃ c, performAll? true [.seek 9, .read .u8, .seek 3] (ofBytes [1, 2, 3, 4, 5] .big 0) = some c ∧
      (Operation.read .u32).perform? true c = some (.error (.endOfData 3 4 2), c) ∧
      (∃ needed, Failure.endOfData 3 4 2 = .endOfData c.offset needed c.remaining ∧
        c.remaining < needed) ∧
      c.Overflows 18446744073709551615 ∧
      (Operation.align 18446744073709551615).perform? true c = none ∧
      performAll? false [.seek 9, .read .u8, .seek 3] (ofBytes [1, 2, 3, 4, 5] .big 0) = some c ∧
      ∃ d, (Operation.align 18446744073709551615).perform? false c = some (.ok (), d) ∧
        d.offset = 5 := by
  let ops : List Operation := [.seek 9, .read .u8, .seek 3]
  let first := ofBytes [1, 2, 3, 4, 5] .big 0
  obtain ⟨c, hc, hwraps⟩ : ∃ c, performAll? true ops first = some c ∧
      performAll? false ops first = some c := ⟨_, rfl, rfl⟩
  have hat : c.offset = 3 := by
    cases hc
    rfl
  have hfails : (Operation.read .u32).perform? true c = some (.error (.endOfData 3 4 2), c) := by
    cases hc
    rfl
  have hoverflows : c.Overflows 18446744073709551615 := by
    rw [Overflows, hat]
    decide
  obtain ⟨-, hchecked⟩ := integrity_performAll true [1, 2, 3, 4, 5] .big 0 ops
  obtain ⟨-, -, -, hstops, -, hrefused, -⟩ := hchecked c hc
  obtain ⟨-, hneeded | ⟨delta, hadvance, -⟩⟩ := hrefused _ _ _ hfails nofun
  · obtain ⟨-, hunchecked⟩ := integrity_performAll false [1, 2, 3, 4, 5] .big 0 ops
    obtain ⟨-, -, -, -, -, -, haligns⟩ := hunchecked c hwraps
    obtain ⟨d, hd, -, -, -, hleast⟩ :=
      haligns 18446744073709551615 (by decide) (by decide) (by simp)
    obtain ⟨m, ⟨⟨hdvd, hforward⟩, -⟩, hm⟩ := hleast (by decide)
    have hfar := Nat.le_of_dvd (by omega) hdvd
    have hend : d.offset = 5 := by
      rw [hm, List.length_cons, List.length_cons, List.length_cons, List.length_cons]
      exact Nat.min_eq_right (Nat.le_trans (by decide) hfar)
    exact ⟨c, hc, hfails, hneeded, hoverflows, (hstops _).mpr ⟨rfl, _, rfl, hoverflows⟩, hwraps,
      d, hd, hend⟩
  · cases hadvance

end QbCodec.Cursor
