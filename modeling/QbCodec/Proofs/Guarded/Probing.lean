import QbCodec.Proofs.File.Tiling
import QbCodec.Proofs.Guarded.Access

/-!
Reading bytes with guards. A probe has only an offset into the bytes, which nothing keeps inside, and
every slice of the bytes, every index into a slice and every difference of offsets may fail. Started
inside, a probe stays inside, and reads what the cursor reads.
-/

namespace QbCodec.Guarded

open Cursor (ofBytes)

structure Place where
  offset : Nat
  order : ByteOrder

def Probe (α : Type) := List UInt8 → Place → Option (Except Failure α × Place)

namespace Probe

def pure {α : Type} (a : α) : Probe α := fun _ p => some (.ok a, p)

def bind {α β : Type} (g : Probe α) (f : α → Probe β) : Probe β := fun d p =>
  match g d p with
  | none => none
  | some (.error e, q) => some (.error e, q)
  | some (.ok a, q) => f a d q

instance : Monad Probe where
  pure := Probe.pure
  bind := Probe.bind

def take (n : Nat) : Probe (List UInt8) := fun d p => do
  let left ← minus? d.length p.offset
  if left < n then return (.error (.endOfData p.offset n left), p)
  else do
    let bytes ← slice? p.offset (p.offset + n) d
    return (.ok bytes, { p with offset := p.offset + n })

def number (width : Nat) : Probe Nat := fun d p => do
  match ← take width d p with
  | (.error e, q) => return (.error e, q)
  | (.ok bytes, q) => do
    let digits ← slice? 0 width bytes
    return (.ok (p.order.decode digits), q)

def u32 : Probe UInt32 := do return (← number 4).toUInt32

def i32 : Probe Int32 := do return (← u32).toInt32

def seek (target : Nat) : Probe Unit := fun d p =>
  if d.length < target then do
    let needed ← minus? target p.offset
    let left ← minus? d.length p.offset
    return (.error (.endOfData p.offset needed left), p)
  else some (.ok (), { p with offset := target })

def align (alignment : Nat) : Probe Unit := fun d p =>
  let extra := p.offset % alignment
  if extra = 0 then some (.ok (), p)
  else do
    let next ← minus? (p.offset + alignment) extra
    return (.ok (), { p with offset := min next d.length })

def itemOf : ItemKind → Probe Item
  | .integer => do
    let name ← u32
    let container ← u32
    let value ← i32
    return .integer name container value
  | .script => do
    let name ← u32
    let container ← u32
    let unknown ← i32
    let dummy ← u32
    let crc ← u32
    let fullSize ← u32
    let storedSize ← u32
    let stored ← take storedSize.toNat
    align 4
    return .script ⟨name, container, unknown, dummy, crc, fullSize, stored⟩
  | .pointer => do
    let name ← u32
    let container ← u32
    let target ← u32
    return .pointer name container target

def item : Probe Item := fun d p => do
  match ← take 4 d p with
  | (.error e, q) => return (.error e, q)
  | (.ok quad, q) => do
    let tag ← quad[2]?
    match ItemKind.ofByte? tag with
    | none => return (.error (.unknownItem tag p.offset), q)
    | some kind => itemOf kind d q

section Bind

variable {α β : Type} {g : Probe α} {f : α → Probe β} {d : List UInt8} {p q : Place}

theorem bind_of_ok {v : α} (h : g d p = some (.ok v, q)) : (g >>= f) d p = f v d q := by
  change Probe.bind g f d p = _
  simp only [Probe.bind, h]

theorem bind_of_error {e : Failure} (h : g d p = some (.error e, q)) :
    (g >>= f) d p = some (.error e, q) := by
  change Probe.bind g f d p = _
  simp only [Probe.bind, h]

end Bind

variable {d : List UInt8} {o : ByteOrder} {a n : Nat}

theorem take_of_le (h : a + n ≤ d.length) :
    take n d ⟨a, o⟩ = some (.ok ((d.drop a).take n), ⟨a + n, o⟩) := by
  have hleft : minus? d.length a = some (d.length - a) := minus?_of_le (by omega)
  have hlong : ¬ d.length - a < n := by omega
  have hslice : slice? a (a + n) d = some ((d.drop a).take n) := by
    rw [slice?_of_le (by omega) h, Nat.add_sub_cancel_left]
  simp [take, hleft, hlong, hslice]

theorem take_of_lt (ha : a ≤ d.length) (h : d.length < a + n) :
    take n d ⟨a, o⟩ = some (.error (.endOfData a n (d.length - a)), ⟨a, o⟩) := by
  have hleft : minus? d.length a = some (d.length - a) := minus?_of_le ha
  have hshort : d.length - a < n := by omega
  simp [take, hleft, hshort]

theorem number_of_le (h : a + n ≤ d.length) :
    number n d ⟨a, o⟩ = some (.ok (o.decode ((d.drop a).take n)), ⟨a + n, o⟩) := by
  have hlength : ((d.drop a).take n).length = n := by
    rw [List.length_take, List.length_drop]
    omega
  have hslice : slice? 0 n ((d.drop a).take n) = some ((d.drop a).take n) := by
    rw [slice?_of_le (by omega) (by omega), List.drop_zero, Nat.sub_zero, List.take_take,
      Nat.min_self]
  simp [number, take_of_le h, hslice]

theorem number_of_lt (ha : a ≤ d.length) (h : d.length < a + n) :
    number n d ⟨a, o⟩ = some (.error (.endOfData a n (d.length - a)), ⟨a, o⟩) := by
  simp [number, take_of_lt ha h]

theorem seek_of_le (h : n ≤ d.length) : seek n d ⟨a, o⟩ = some (.ok (), ⟨n, o⟩) := by
  have hinside : ¬ d.length < n := by omega
  simp [seek, hinside]

end Probe

/-- Inside the bytes the probe reads what `r` reads, and stays inside. -/
def Follows {α : Type} (g : Probe α) (r : Read α) : Prop :=
  ∀ (d : List UInt8) (o : ByteOrder) (a : Nat), a ≤ d.length → ∃ b ≤ d.length,
    g d ⟨a, o⟩ = some ((r (ofBytes d o a)).1, ⟨b, o⟩) ∧ (r (ofBytes d o a)).2 = ofBytes d o b

namespace Follows

variable {α β : Type}

theorem pure (a : α) : Follows (Pure.pure a) (Pure.pure a) :=
  fun _ _ b hb => ⟨b, hb, rfl, rfl⟩

theorem bind {g : Probe α} {r : Read α} {f : α → Probe β} {s : α → Read β} (h : Follows g r)
    (hf : ∀ a, Follows (f a) (s a)) : Follows (g >>= f) (r >>= s) := by
  intro d o a ha
  obtain ⟨b, hb, hg, hr⟩ := h d o a ha
  cases hread : r (ofBytes d o a) with
  | mk result c =>
    rw [hread] at hg hr
    dsimp only at hg hr
    subst hr
    cases result with
    | error e =>
      rw [Read.bind_of_error hread, Probe.bind_of_error hg]
      exact ⟨b, hb, rfl, rfl⟩
    | ok v =>
      rw [Read.bind_of_ok hread, Probe.bind_of_ok hg]
      exact hf v d o b hb

theorem take (n : Nat) : Follows (Probe.take n) (Cursor.take n) := by
  intro d o a ha
  rcases Nat.lt_or_ge d.length (a + n) with hlt | hge
  · rw [Cursor.take_ofBytes_of_lt ha hlt]
    exact ⟨a, ha, Probe.take_of_lt ha hlt, rfl⟩
  · rw [Cursor.take_ofBytes hge]
    exact ⟨a + n, hge, Probe.take_of_le hge, rfl⟩

theorem number (n : Nat) : Follows (Probe.number n) (Cursor.number n) := by
  intro d o a ha
  rcases Nat.lt_or_ge d.length (a + n) with hlt | hge
  · rw [Cursor.number, Cursor.take_ofBytes_of_lt ha hlt]
    exact ⟨a, ha, Probe.number_of_lt ha hlt, rfl⟩
  · rw [Cursor.number, Cursor.take_ofBytes hge]
    exact ⟨a + n, hge, Probe.number_of_le hge, rfl⟩

theorem u32 : Follows Probe.u32 Cursor.u32 := bind (number 4) fun _ => pure _

theorem i32 : Follows Probe.i32 Cursor.i32 := bind u32 fun _ => pure _

theorem align {n : Nat} (hn : 0 < n) : Follows (Probe.align n) (Cursor.align n) := by
  intro d o a ha
  rw [Cursor.align_ofBytes ha]
  by_cases h : a % n = 0
  · refine ⟨a, ha, ?_, ?_⟩
    · simp [Probe.align, h]
    · simp [Cursor.alignUp, h]
  · have hlt : a % n < n := Nat.mod_lt a hn
    have hnext : minus? (a + n) (a % n) = some (Cursor.alignUp n a) := by
      rw [minus?_of_le (by omega), Cursor.alignUp, if_neg h, Nat.add_sub_assoc (by omega)]
    refine ⟨min (Cursor.alignUp n a) d.length, Nat.min_le_right .., ?_, Cursor.ofBytes_min.symm⟩
    simp [Probe.align, h, hnext]

theorem itemOf (kind : ItemKind) : Follows (Probe.itemOf kind) (Item.readKind kind) := by
  cases kind with
  | integer => exact bind u32 fun _ => bind u32 fun _ => bind i32 fun _ => pure _
  | script =>
    exact bind u32 fun _ => bind u32 fun _ => bind i32 fun _ => bind u32 fun _ => bind u32 fun _ =>
      bind u32 fun _ => bind u32 fun _ => bind (take _) fun _ => bind (align (by omega)) fun _ =>
      pure _
  | pointer => exact bind u32 fun _ => bind u32 fun _ => bind u32 fun _ => pure _

theorem item : Follows Probe.item Item.read := by
  intro d o a ha
  rcases Nat.lt_or_ge d.length (a + 4) with hlt | hge
  · rw [Item.read, Cursor.take_ofBytes_of_lt ha hlt]
    exact ⟨a, ha, by simp [Probe.item, Probe.take_of_lt ha hlt], rfl⟩
  obtain ⟨tag, htag⟩ : ∃ tag, d[a + 2]? = some tag := ⟨_, List.getElem?_eq_getElem (by omega)⟩
  have hquad : ((d.drop a).take 4)[2]? = some tag := by
    simp [List.getElem?_drop, htag]
  rw [Item.read_ofBytes htag hge]
  cases hkind : ItemKind.ofByte? tag with
  | none =>
    refine ⟨a + 4, hge, ?_, rfl⟩
    simp [Probe.item, Probe.take_of_le hge, hquad, hkind]
  | some kind =>
    obtain ⟨b, hb, hg, hr⟩ := itemOf kind d o (a + 4) hge
    refine ⟨b, hb, ?_, hr⟩
    simp [Probe.item, Probe.take_of_le hge, hquad, hkind, hg]

end Follows

end QbCodec.Guarded
