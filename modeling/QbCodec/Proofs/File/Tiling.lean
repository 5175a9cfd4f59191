import QbCodec.File.Readable
import QbCodec.Proofs.Bytes.Position

namespace QbCodec

open Cursor (ofBytes wordAt)

namespace Item

/-- The item at `a` and where the next one starts. A body is padded up to a multiple of four
bytes of the file, or up to its end. -/
inductive At (o : ByteOrder) (d : List UInt8) : Nat → Item → Nat → Prop
  | integer {a : Nat} (tag : d[a + 2]? = some 1) (fits : a + 16 ≤ d.length) :
      At o d a (.integer (wordAt o d (a + 4)) (wordAt o d (a + 8)) (wordAt o d (a + 12)).toInt32)
        (a + 16)
  | pointer {a : Nat} (tag : d[a + 2]? = some 26) (fits : a + 16 ≤ d.length) :
      At o d a (.pointer (wordAt o d (a + 4)) (wordAt o d (a + 8)) (wordAt o d (a + 12))) (a + 16)
  | script {a size : Nat} (tag : d[a + 2]? = some 7) (words : a + 32 ≤ d.length)
      (hsize : size = (wordAt o d (a + 28)).toNat) (fits : a + 32 + size ≤ d.length) :
      At o d a
        (.script ⟨wordAt o d (a + 4), wordAt o d (a + 8), (wordAt o d (a + 12)).toInt32,
          wordAt o d (a + 16), wordAt o d (a + 20), wordAt o d (a + 24),
          (d.drop (a + 32)).take size⟩)
        (min (Cursor.alignUp 4 (a + 32 + size)) d.length)

def width : Item → Nat
  | .script s => 32 + s.stored.length
  | _ => 16

def wordCount : ItemKind → Nat
  | .script => 7
  | _ => 3

def CutWord (d : List UInt8) (a count : Nat) (e : Failure) : Prop :=
  ∃ k < count, a + 4 * k ≤ d.length ∧ d.length < a + 4 * k + 4 ∧
    e = .endOfData (a + 4 * k) 4 (d.length - (a + 4 * k))

inductive Unreadable (o : ByteOrder) (d : List UInt8) (a : Nat) : Failure → Prop
  | cutQuad (cut : d.length < a + 4) : Unreadable o d a (.endOfData a 4 (d.length - a))
  | unknown {tag : UInt8} (fits : a + 4 ≤ d.length) (htag : d[a + 2]? = some tag)
      (hne : tag ≠ 1 ∧ tag ≠ 7 ∧ tag ≠ 26) : Unreadable o d a (.unknownItem tag a)
  | cutWord {kind : ItemKind} {e : Failure} (fits : a + 4 ≤ d.length)
      (htag : d[a + 2]? = some kind.byte) (cut : CutWord d (a + 4) (wordCount kind) e) :
      Unreadable o d a e
  | cutBody {size : Nat} (htag : d[a + 2]? = some 7) (words : a + 32 ≤ d.length)
      (hsize : size = (wordAt o d (a + 28)).toNat) (cut : d.length < a + 32 + size) :
      Unreadable o d a (.endOfData (a + 32) size (d.length - (a + 32)))

end Item

namespace Contents

inductive Tiled (f : Expander) (o : ByteOrder) (d : List UInt8) : Nat → List Item → Prop
  | done : Tiled f o d d.length []
  | item {a b : Nat} {i j : Item} {js : List Item} (here : i.At o d a b)
      (hexpand : i.expand f = .ok j) (rest : Tiled f o d b js) : Tiled f o d a (j :: js)

inductive FirstBad (f : Expander) (o : ByteOrder) (d : List UInt8) : Nat → Failure → Prop
  | unreadable {a : Nat} {e : Failure} (more : a < d.length) (h : Item.Unreadable o d a e) :
      FirstBad f o d a e
  | unexpandable {a b : Nat} {i : Item} {x : Expansion} {e : Failure} (here : i.At o d a b)
      (hx : i.expansion? = some x) (h : f x = .error e) : FirstBad f o d a e
  | later {a b : Nat} {i j : Item} {e : Failure} (here : i.At o d a b)
      (hexpand : i.expand f = .ok j) (h : FirstBad f o d b e) : FirstBad f o d a e

inductive Starts (o : ByteOrder) (d : List UInt8) (first : Nat) : Nat → Prop
  | first : Starts o d first first
  | next {a b : Nat} {i : Item} (before : Starts o d first a) (here : i.At o d a b) :
      Starts o d first b

end Contents

namespace Item

variable {o : ByteOrder} {d : List UInt8} {a : Nat}

theorem cutWord_bind {α β : Type} {r : Read α} {f : α → Read β} {count : Nat} (v : α)
    (hok : a + 4 ≤ d.length → r (ofBytes d o a) = (.ok v, ofBytes d o (a + 4)))
    (hcut : d.length < a + 4 →
      r (ofBytes d o a) = (.error (.endOfData a 4 (d.length - a)), ofBytes d o a))
    (ha : a ≤ d.length)
    (hf : a + 4 ≤ d.length →
      ∃ e, CutWord d (a + 4) count e ∧ (f v (ofBytes d o (a + 4))).1 = .error e) :
    ∃ e, CutWord d a (count + 1) e ∧ ((r >>= f) (ofBytes d o a)).1 = .error e := by
  by_cases h : a + 4 ≤ d.length
  · obtain ⟨e, ⟨k, hk, hle, hlt, rfl⟩, he⟩ := hf h
    refine ⟨_, ⟨k + 1, by omega, by omega, by omega, rfl⟩, ?_⟩
    rw [Read.bind_of_ok (hok h), he]
    congr 2 <;> omega
  · refine ⟨_, ⟨0, by omega, by omega, by omega, rfl⟩, ?_⟩
    rw [Read.bind_of_error (hcut (by omega))]
    rfl

theorem cutWord_u32 {α : Type} {f : UInt32 → Read α} {count : Nat} (ha : a ≤ d.length)
    (hf : a + 4 ≤ d.length → ∃ e, CutWord d (a + 4) count e ∧
      (f (wordAt o d a) (ofBytes d o (a + 4))).1 = .error e) :
    ∃ e, CutWord d a (count + 1) e ∧ ((Cursor.u32 >>= f) (ofBytes d o a)).1 = .error e :=
  cutWord_bind _ Cursor.u32_ofBytes (Cursor.u32_ofBytes_of_lt ha) ha hf

theorem cutWord_i32 {α : Type} {f : Int32 → Read α} {count : Nat} (ha : a ≤ d.length)
    (hf : a + 4 ≤ d.length → ∃ e, CutWord d (a + 4) count e ∧
      (f (wordAt o d a).toInt32 (ofBytes d o (a + 4))).1 = .error e) :
    ∃ e, CutWord d a (count + 1) e ∧ ((Cursor.i32 >>= f) (ofBytes d o a)).1 = .error e :=
  cutWord_bind _ Cursor.i32_ofBytes (Cursor.i32_ofBytes_of_lt ha) ha hf

theorem readInteger_ofBytes (h : a + 12 ≤ d.length) :
    readInteger (ofBytes d o a) =
      (.ok (.integer (wordAt o d a) (wordAt o d (a + 4)) (wordAt o d (a + 8)).toInt32),
        ofBytes d o (a + 12)) := by
  rw [readInteger, Read.bind_of_ok (Cursor.u32_ofBytes (by omega)),
    Read.bind_of_ok (Cursor.u32_ofBytes (by omega)), Read.bind_of_ok (Cursor.i32_ofBytes (by omega))]
  rfl

theorem readPointer_ofBytes (h : a + 12 ≤ d.length) :
    readPointer (ofBytes d o a) =
      (.ok (.pointer (wordAt o d a) (wordAt o d (a + 4)) (wordAt o d (a + 8))),
        ofBytes d o (a + 12)) := by
  rw [readPointer, Read.bind_of_ok (Cursor.u32_ofBytes (by omega)),
    Read.bind_of_ok (Cursor.u32_ofBytes (by omega)), Read.bind_of_ok (Cursor.u32_ofBytes (by omega))]
  rfl

theorem readScript_ofBytes (h : a + 28 ≤ d.length) :
    readScript (ofBytes d o a) =
      (Cursor.take (wordAt o d (a + 24)).toNat >>= fun stored => Cursor.align 4 >>= fun _ =>
        pure (script ⟨wordAt o d a, wordAt o d (a + 4), (wordAt o d (a + 8)).toInt32,
          wordAt o d (a + 12), wordAt o d (a + 16), wordAt o d (a + 20), stored⟩))
        (ofBytes d o (a + 28)) := by
  rw [readScript, Read.bind_of_ok (Cursor.u32_ofBytes (by omega)),
    Read.bind_of_ok (Cursor.u32_ofBytes (by omega)), Read.bind_of_ok (Cursor.i32_ofBytes (by omega)),
    Read.bind_of_ok (Cursor.u32_ofBytes (by omega)), Read.bind_of_ok (Cursor.u32_ofBytes (by omega)),
    Read.bind_of_ok (Cursor.u32_ofBytes (by omega)), Read.bind_of_ok (Cursor.u32_ofBytes (by omega))]

theorem readKind_cutWord {kind : ItemKind} (ha : a ≤ d.length)
    (hcut : d.length < a + 4 * wordCount kind) :
    ∃ e, CutWord d a (wordCount kind) e ∧ (readKind kind (ofBytes d o a)).1 = .error e := by
  cases kind with
  | integer =>
    change d.length < a + 4 * 3 at hcut
    exact cutWord_u32 ha fun h₁ => cutWord_u32 h₁ fun h₂ => cutWord_i32 h₂ fun h₃ => by omega
  | pointer =>
    change d.length < a + 4 * 3 at hcut
    exact cutWord_u32 ha fun h₁ => cutWord_u32 h₁ fun h₂ => cutWord_u32 h₂ fun h₃ => by omega
  | script =>
    change d.length < a + 4 * 7 at hcut
    exact cutWord_u32 ha fun h₁ => cutWord_u32 h₁ fun h₂ => cutWord_i32 h₂ fun h₃ =>
      cutWord_u32 h₃ fun h₄ => cutWord_u32 h₄ fun h₅ => cutWord_u32 h₅ fun h₆ =>
      cutWord_u32 h₆ fun h₇ => by omega

theorem read_ofBytes {tag : UInt8} (htag : d[a + 2]? = some tag) (h : a + 4 ≤ d.length) :
    read (ofBytes d o a) =
      match ItemKind.ofByte? tag with
      | none => (.error (.unknownItem tag a), ofBytes d o (a + 4))
      | some kind => readKind kind (ofBytes d o (a + 4)) := by
  have hquad : ((d.drop a).take 4).getD 2 0 = tag := by
    simp [List.getElem?_drop, htag]
  have hread : read (ofBytes d o a) =
      match ItemKind.ofByte? (((d.drop a).take 4).getD 2 0) with
      | none => (.error (.unknownItem (((d.drop a).take 4).getD 2 0) a), ofBytes d o (a + 4))
      | some kind => readKind kind (ofBytes d o (a + 4)) := by
    rewrite [read, Cursor.take_ofBytes h, Cursor.offset_ofBytes (by omega)]
    rfl
  rw [hread, hquad]

theorem At.read {i : Item} {b : Nat} (h : i.At o d a b) :
    Item.read (ofBytes d o a) = (.ok i, ofBytes d o b) := by
  cases h with
  | integer tag fits =>
    rw [read_ofBytes tag (by omega)]
    exact readInteger_ofBytes (by omega)
  | pointer tag fits =>
    rw [read_ofBytes tag (by omega)]
    exact readPointer_ofBytes (by omega)
  | script tag words hsize fits =>
    subst hsize
    rw [read_ofBytes tag (by omega)]
    change readScript _ = _
    rw [readScript_ofBytes (by omega), Read.bind_of_ok (Cursor.take_ofBytes (by omega)),
      Read.bind_of_ok (Cursor.align_ofBytes (by omega)), Cursor.ofBytes_min]
    rfl

theorem At.bounds {i : Item} {b : Nat} (h : i.At o d a b) : a < b ∧ b ≤ d.length := by
  cases h with
  | integer tag fits => omega
  | pointer tag fits => omega
  | @script size tag words hsize fits =>
    have := Cursor.le_alignUp 4 (a + 32 + size)
    omega

theorem At.width_le {i : Item} {b : Nat} (h : i.At o d a b) : a + i.width ≤ d.length := by
  cases h with
  | integer tag fits => exact fits
  | pointer tag fits => exact fits
  | @script size tag words hsize fits =>
    simp only [width, List.length_take, List.length_drop]
    omega

theorem At.unique {i j : Item} {b c : Nat} (hi : i.At o d a b) (hj : j.At o d a c) :
    i = j ∧ b = c := by
  have hread := hi.read.symm.trans hj.read
  simp only [Prod.mk.injEq, Except.ok.injEq] at hread
  have hoffset := congrArg Cursor.offset hread.2
  rw [Cursor.offset_ofBytes hi.bounds.2, Cursor.offset_ofBytes hj.bounds.2] at hoffset
  exact ⟨hread.1, hoffset⟩

theorem CutWord.unique {count : Nat} {e e' : Failure} (h : CutWord d a count e)
    (h' : CutWord d a count e') : e = e' := by
  obtain ⟨k, -, hle, hlt, rfl⟩ := h
  obtain ⟨k', -, hle', hlt', rfl⟩ := h'
  have : k = k' := by omega
  rw [this]

theorem ofByte?_kind (kind : ItemKind) : ItemKind.ofByte? kind.byte = some kind := by
  cases kind <;> rfl

theorem ofByte?_eq_none {tag : UInt8} (h : tag ≠ 1 ∧ tag ≠ 7 ∧ tag ≠ 26) :
    ItemKind.ofByte? tag = none := by
  simp [ItemKind.ofByte?, h]

theorem Unreadable.read {e : Failure} (ha : a ≤ d.length) (h : Unreadable o d a e) :
    (Item.read (ofBytes d o a)).1 = .error e := by
  cases h with
  | cutQuad cut => rw [Item.read, Cursor.take_ofBytes_of_lt ha cut]
  | unknown fits htag hne => rw [read_ofBytes htag fits, ofByte?_eq_none hne]
  | @cutWord kind _ fits htag cut =>
    rw [read_ofBytes htag fits, ofByte?_kind]
    obtain ⟨k, hk, hle, hlt, he⟩ := cut
    have hwords : d.length < a + 4 + 4 * wordCount kind := by omega
    obtain ⟨e', hcut, hread⟩ := readKind_cutWord (o := o) fits hwords
    rw [CutWord.unique ⟨k, hk, hle, hlt, he⟩ hcut]
    exact hread
  | cutBody htag words hsize cut =>
    subst hsize
    rw [read_ofBytes htag (by omega)]
    change (readScript _).1 = _
    rw [readScript_ofBytes (by omega),
      Read.bind_of_error (Cursor.take_ofBytes_of_lt (by omega) (by omega))]

theorem at_or_unreadable :
    (∃ i b, At o d a i b) ∨ ∃ e, Unreadable o d a e := by
  by_cases hquad : d.length < a + 4
  · exact .inr ⟨_, .cutQuad hquad⟩
  obtain ⟨tag, htag⟩ : ∃ tag, d[a + 2]? = some tag := ⟨_, List.getElem?_eq_getElem (by omega)⟩
  by_cases hkind : tag ≠ 1 ∧ tag ≠ 7 ∧ tag ≠ 26
  · exact .inr ⟨_, .unknown (by omega) htag hkind⟩
  obtain ⟨kind, rfl⟩ : ∃ kind : ItemKind, tag = kind.byte := by
    by_cases h₁ : tag = 1
    · exact ⟨.integer, h₁⟩
    by_cases h₂ : tag = 7
    · exact ⟨.script, h₂⟩
    by_cases h₃ : tag = 26
    · exact ⟨.pointer, h₃⟩
    exact absurd ⟨h₁, h₂, h₃⟩ hkind
  by_cases hwords : d.length < a + 4 + 4 * wordCount kind
  · obtain ⟨e, hcut, -⟩ := readKind_cutWord (o := o) (by omega) hwords
    exact .inr ⟨e, .cutWord (by omega) htag hcut⟩
  cases kind with
  | integer =>
    change ¬ d.length < a + 4 + 4 * 3 at hwords
    exact .inl ⟨_, _, .integer htag (by omega)⟩
  | pointer =>
    change ¬ d.length < a + 4 + 4 * 3 at hwords
    exact .inl ⟨_, _, .pointer htag (by omega)⟩
  | script =>
    change ¬ d.length < a + 4 + 4 * 7 at hwords
    by_cases hbody : d.length < a + 32 + (wordAt o d (a + 28)).toNat
    · exact .inr ⟨_, .cutBody htag (by omega) rfl hbody⟩
    · exact .inl ⟨_, _, .script htag (by omega) rfl (by omega)⟩

theorem expansion?_of_expand {f : Expander} {i : Item} {e : Failure} (h : i.expand f = .error e) :
    ∃ x, i.expansion? = some x ∧ f x = .error e := by
  unfold expand at h
  split at h
  · cases h
  · rename_i x hsome
    cases hf : f x with
    | error e' =>
      rw [hf] at h
      cases h
      exact ⟨x, hsome, hf⟩
    | ok bytes =>
      rw [hf] at h
      cases h

end Item

namespace Contents

variable {f : Expander} {o : ByteOrder} {d : List UInt8} {a : Nat}

theorem readAll_end (h : d.length ≤ a) : readAll (Cursor.ofBytes d o a) = ⟨[], none⟩ := by
  rw [readAll, if_pos (Cursor.isAtEnd_ofBytes.mpr h)]

theorem readAll_at {i : Item} {b : Nat} (h : i.At o d a b) :
    readAll (Cursor.ofBytes d o a) =
      ⟨i :: (readAll (Cursor.ofBytes d o b)).items, (readAll (Cursor.ofBytes d o b)).failure⟩ := by
  have hmore : ¬ (Cursor.ofBytes d o a).isAtEnd = true := by
    rw [Cursor.isAtEnd_ofBytes]
    have := h.bounds
    omega
  rw [readAll, if_neg hmore]
  split
  · rename_i hread
    rw [h.read] at hread
    simp at hread
  · rename_i hread
    rw [h.read] at hread
    obtain ⟨rfl, rfl⟩ := by simpa using hread
    rfl

theorem readAll_unreadable {e : Failure} (ha : a < d.length) (h : Item.Unreadable o d a e) :
    readAll (Cursor.ofBytes d o a) = ⟨[], some e⟩ := by
  have hmore : ¬ (Cursor.ofBytes d o a).isAtEnd = true := by
    rw [Cursor.isAtEnd_ofBytes]
    omega
  have herror := Item.Unreadable.read (by omega) h
  rw [readAll, if_neg hmore]
  split
  · rename_i hread
    rw [hread] at herror
    simpa using herror
  · rename_i hread
    rw [hread] at herror
    simp at herror

theorem expanded_cons (i : Item) (rest : Contents) :
    expanded f ⟨i :: rest.items, rest.failure⟩ =
      match i.expand f with
      | .error e => .error e
      | .ok j => (expanded f rest).map (j :: ·) := by
  cases hi : i.expand f with
  | error e => simp [expanded, expandAll, hi]
  | ok j =>
    cases hrest : expandAll f rest.items with
    | error e => simp [expanded, expandAll, hi, hrest, Except.map]
    | ok js => cases hfail : rest.failure <;> simp [expanded, expandAll, hi, hrest, hfail, Except.map]

theorem Tiled.expanded {js : List Item} (h : Tiled f o d a js) :
    expanded f (readAll (Cursor.ofBytes d o a)) = .ok js := by
  induction h with
  | done => simp [readAll_end, Contents.expanded, expandAll]
  | item here hexpand _ ih =>
    rw [readAll_at here, expanded_cons, hexpand]
    simp only [ih, Except.map]

theorem FirstBad.expanded {e : Failure} (h : FirstBad f o d a e) :
    expanded f (readAll (Cursor.ofBytes d o a)) = .error e := by
  induction h with
  | unreadable more h => simp [readAll_unreadable more h, Contents.expanded, expandAll]
  | unexpandable here hx h =>
    rw [readAll_at here, expanded_cons]
    simp [Item.expand, hx, h, Except.map]
  | later here hexpand _ ih =>
    rw [readAll_at here, expanded_cons, hexpand]
    simp only [ih, Except.map]

theorem tiled_or_firstBad (ha : a ≤ d.length) :
    (∃ js, Tiled f o d a js) ∨ ∃ e, FirstBad f o d a e := by
  induction hn : d.length - a using Nat.strongRecOn generalizing a with
  | _ n ih =>
    by_cases hend : a = d.length
    · subst hend
      exact .inl ⟨[], .done⟩
    rcases Item.at_or_unreadable (o := o) (d := d) (a := a) with ⟨i, b, here⟩ | ⟨e, he⟩
    · have hbounds := here.bounds
      cases hx : i.expand f with
      | error e =>
        obtain ⟨x, hsome, hf⟩ := Item.expansion?_of_expand hx
        exact .inr ⟨e, .unexpandable here hsome hf⟩
      | ok j =>
        rcases ih (d.length - b) (by omega) hbounds.2 rfl with ⟨js, hjs⟩ | ⟨e, he⟩
        · exact .inl ⟨j :: js, .item here hx hjs⟩
        · exact .inr ⟨e, .later here hx he⟩
    · exact .inr ⟨e, .unreadable (by omega) he⟩

theorem expanded_eq_ok_iff (ha : a ≤ d.length) {js : List Item} :
    expanded f (readAll (Cursor.ofBytes d o a)) = .ok js ↔ Tiled f o d a js := by
  constructor
  · intro h
    rcases tiled_or_firstBad (f := f) (o := o) ha with ⟨js', hjs⟩ | ⟨e, he⟩
    · rw [hjs.expanded] at h
      cases h
      exact hjs
    · rw [he.expanded] at h
      cases h
  · exact Tiled.expanded

theorem expanded_eq_error_iff (ha : a ≤ d.length) {e : Failure} :
    expanded f (readAll (Cursor.ofBytes d o a)) = .error e ↔ FirstBad f o d a e := by
  constructor
  · intro h
    rcases tiled_or_firstBad (f := f) (o := o) ha with ⟨js, hjs⟩ | ⟨e', he⟩
    · rw [hjs.expanded] at h
      cases h
    · rw [he.expanded] at h
      cases h
      exact he
  · exact FirstBad.expanded

theorem Tiled.of_starts {first : Nat} {js : List Item} (h : Tiled f o d first js)
    (hs : Starts o d first a) : ∃ js, Tiled f o d a js := by
  induction hs with
  | first => exact ⟨js, h⟩
  | next _ here ih =>
    obtain ⟨js', hjs⟩ := ih
    cases hjs with
    | done =>
      have := here.bounds
      omega
    | item here' _ rest =>
      obtain ⟨-, rfl⟩ := here.unique here'
      exact ⟨_, rest⟩

end Contents

namespace Item

variable {o : ByteOrder} {d : List UInt8} {a n : Nat}

theorem wordAt_take (h : a + 4 ≤ n) : wordAt o (d.take n) a = wordAt o d a := by
  have : min 4 (n - a) = 4 := by omega
  rw [wordAt, List.drop_take, List.take_take, this]
  rfl

theorem At.take {i : Item} {b : Nat} (h : i.At o d a b) (hb : b < n) (hn : n ≤ d.length) :
    i.At o (d.take n) a b := by
  have hlength : (d.take n).length = n := by
    rw [List.length_take]
    omega
  have htag (m : Nat) (hm : m < n) : (d.take n)[m]? = d[m]? := List.getElem?_take_of_lt hm
  cases h with
  | integer tag fits =>
    rw [← wordAt_take (n := n) (a := a + 4) (by omega),
      ← wordAt_take (n := n) (a := a + 8) (by omega),
      ← wordAt_take (n := n) (a := a + 12) (by omega)]
    exact .integer (by rw [htag _ (by omega), tag]) (by omega)
  | pointer tag fits =>
    rw [← wordAt_take (n := n) (a := a + 4) (by omega),
      ← wordAt_take (n := n) (a := a + 8) (by omega),
      ← wordAt_take (n := n) (a := a + 12) (by omega)]
    exact .pointer (by rw [htag _ (by omega), tag]) (by omega)
  | @script size tag words hsize fits =>
    have hup := Cursor.le_alignUp 4 (a + 32 + size)
    have hbody : (d.drop (a + 32)).take size = ((d.take n).drop (a + 32)).take size := by
      have : min size (n - (a + 32)) = size := by omega
      rw [List.drop_take, List.take_take, this]
    have hend : min (Cursor.alignUp 4 (a + 32 + size)) d.length =
        min (Cursor.alignUp 4 (a + 32 + size)) (d.take n).length := by omega
    rw [hend, hbody, ← wordAt_take (n := n) (a := a + 4) (by omega),
      ← wordAt_take (n := n) (a := a + 8) (by omega),
      ← wordAt_take (n := n) (a := a + 12) (by omega),
      ← wordAt_take (n := n) (a := a + 16) (by omega),
      ← wordAt_take (n := n) (a := a + 20) (by omega),
      ← wordAt_take (n := n) (a := a + 24) (by omega)]
    exact .script (by rw [htag _ (by omega), tag]) (by omega)
      (by rw [wordAt_take (by omega), hsize]) (by omega)

theorem At.unreadable_take {i : Item} {b : Nat} (h : i.At o d a b) (ha : a < n)
    (hn : n < a + i.width) :
    ∃ place needed left, Unreadable o (d.take n) a (.endOfData place needed left) := by
  have hfits := h.width_le
  have hlength : (d.take n).length = n := by
    rw [List.length_take]
    omega
  have hquad (kind : ItemKind) (htag : d[a + 2]? = some kind.byte)
      (hcut : n < a + 4 + 4 * wordCount kind) :
      ∃ place needed left, Unreadable o (d.take n) a (.endOfData place needed left) := by
    by_cases h4 : n < a + 4
    · exact ⟨_, _, _, .cutQuad (by omega)⟩
    have hshort : (d.take n).length < a + 4 + 4 * wordCount kind := by omega
    obtain ⟨e, hword, -⟩ := readKind_cutWord (o := o) (by omega) hshort
    have htag' : (d.take n)[a + 2]? = some kind.byte := by
      rw [List.getElem?_take_of_lt (by omega), htag]
    have hcase := Unreadable.cutWord (o := o) (by omega) htag' hword
    obtain ⟨k, -, -, -, rfl⟩ := hword
    exact ⟨_, _, _, hcase⟩
  cases h with
  | integer tag fits =>
    change n < a + 16 at hn
    exact hquad .integer tag hn
  | pointer tag fits =>
    change n < a + 16 at hn
    exact hquad .pointer tag hn
  | @script size tag words hsize fits =>
    by_cases hwords : n < a + 32
    · exact hquad .script tag hwords
    · have hbody : n < a + 32 + size := by
        simp only [width, List.length_take, List.length_drop] at hn
        omega
      have htag : (d.take n)[a + 2]? = some 7 := by rw [List.getElem?_take_of_lt (by omega), tag]
      have hword : size = (wordAt o (d.take n) (a + 28)).toNat := by
        rw [wordAt_take (by omega), hsize]
      exact ⟨_, _, _, .cutBody htag (by omega) hword (by omega)⟩

end Item

namespace Contents

variable {f : Expander} {o : ByteOrder} {d : List UInt8} {a n first : Nat}

theorem Starts.le (h : Starts o d first a) : first ≤ a := by
  induction h with
  | first => exact Nat.le_refl _
  | next _ here ih =>
    have := here.bounds
    omega

theorem FirstBad.of_starts {js : List Item} {e : Failure} (htiled : Tiled f o d first js)
    (hs : Starts o d first a) (ha : a < n) (hn : n ≤ d.length)
    (h : FirstBad f o (d.take n) a e) : FirstBad f o (d.take n) first e := by
  induction hs with
  | first => exact h
  | next before here ih =>
    have hbounds := here.bounds
    obtain ⟨js', hjs⟩ := htiled.of_starts before
    cases hjs with
    | done => omega
    | item here' hexpand _ =>
      obtain ⟨rfl, -⟩ := here.unique here'
      exact ih (by omega) (.later (here.take ha hn) hexpand h)

end Contents

namespace Readable

theorem ofBytes_of_le {r : Registry} {f : Format} {x : Expander} {d : List UInt8}
    (h : f.headerSize ≤ d.length) :
    ofBytes r f x d = ((Contents.readAll (Cursor.ofBytes d f.order f.headerSize)).expanded x).map
      (text r f) := by
  rw [ofBytes, Contents.ofBytes, if_neg (by omega)]

theorem ofBytes_of_lt {r : Registry} {f : Format} {x : Expander} {d : List UInt8}
    (h : d.length < f.headerSize) :
    ofBytes r f x d = .error (.shortHeader f.headerSize d.length) := by
  rw [ofBytes, Contents.ofBytes, if_pos h]
  rfl

theorem ofBytes_eq_ok_iff {r : Registry} {f : Format} {x : Expander} {d : List UInt8} {t : String} :
    ofBytes r f x d = .ok t ↔ f.headerSize ≤ d.length ∧
      ∃ js, Contents.Tiled x f.order d f.headerSize js ∧ t = text r f js := by
  by_cases h : f.headerSize ≤ d.length
  · rw [ofBytes_of_le h]
    cases hc : (Contents.readAll (Cursor.ofBytes d f.order f.headerSize)).expanded x with
    | error e =>
      rw [Contents.expanded_eq_error_iff h] at hc
      simp only [Except.map, reduceCtorEq, false_iff, not_and, not_exists]
      rintro - js hjs -
      have := hjs.expanded.symm.trans hc.expanded
      simp at this
    | ok js =>
      rw [Contents.expanded_eq_ok_iff h] at hc
      simp only [Except.map, Except.ok.injEq]
      constructor
      · rintro rfl
        exact ⟨h, js, hc, rfl⟩
      · rintro ⟨-, js', hjs, rfl⟩
        have := hc.expanded.symm.trans hjs.expanded
        simp only [Except.ok.injEq] at this
        rw [this]
  · simp [ofBytes_of_lt (Nat.lt_of_not_le h), h]

theorem ofBytes_eq_error_iff {r : Registry} {f : Format} {x : Expander} {d : List UInt8}
    {e : Failure} : ofBytes r f x d = .error e ↔
      (d.length < f.headerSize ∧ e = .shortHeader f.headerSize d.length) ∨
      (f.headerSize ≤ d.length ∧ Contents.FirstBad x f.order d f.headerSize e) := by
  by_cases h : f.headerSize ≤ d.length
  · have hlt : ¬ d.length < f.headerSize := by omega
    rw [ofBytes_of_le h, ← Contents.expanded_eq_error_iff h]
    cases (Contents.readAll (Cursor.ofBytes d f.order f.headerSize)).expanded x <;>
      simp [Except.map, h, hlt]
  · have hlt : d.length < f.headerSize := by omega
    simp [ofBytes_of_lt hlt, h, hlt, eq_comm]

theorem ofBytes_take {r : Registry} {f : Format} {x : Expander} {d : List UInt8} {js : List Item}
    {i : Item} {a b n : Nat} (htiled : Contents.Tiled x f.order d f.headerSize js)
    (hstart : Contents.Starts f.order d f.headerSize a) (here : i.At f.order d a b) (ha : a < n)
    (hn : n < a + i.width) :
    ∃ place needed left, ofBytes r f x (d.take n) = .error (.endOfData place needed left) := by
  have hfits := here.width_le
  have hfirst := hstart.le
  obtain ⟨place, needed, left, hcut⟩ := here.unreadable_take ha hn
  have hlength : (d.take n).length = n := by
    rw [List.length_take]
    omega
  have hbad := Contents.FirstBad.of_starts htiled hstart ha (by omega)
    (.unreadable (by omega) hcut)
  exact ⟨place, needed, left, ofBytes_eq_error_iff.mpr (.inr ⟨by omega, hbad⟩)⟩

/-- A file is read if and only if good items tile it behind its header, and then as the texts of
the items with a newline after each. Otherwise the failure is that of the header or of the first
bad item. A file that is read fails as soon as it is cut inside an item before its padding. -/
theorem ofBytes_iff_tiled (r : Registry) (f : Format) (x : Expander) (d : List UInt8) :
    (∀ t, ofBytes r f x d = .ok t ↔ f.headerSize ≤ d.length ∧
      ∃ js, Contents.Tiled x f.order d f.headerSize js ∧
        t = String.ofList (js.flatMap fun j => j.text r f ++ ['\n'])) ∧
    (∀ e, ofBytes r f x d = .error e ↔
      (d.length < f.headerSize ∧ e = .shortHeader f.headerSize d.length) ∨
      (f.headerSize ≤ d.length ∧ Contents.FirstBad x f.order d f.headerSize e)) ∧
    ∀ t a b i n, ofBytes r f x d = .ok t → Contents.Starts f.order d f.headerSize a →
      Item.At f.order d a i b → a < n → n < a + i.width →
      ∃ place needed left, ofBytes r f x (d.take n) = .error (.endOfData place needed left) := by
  refine ⟨fun t => ofBytes_eq_ok_iff, fun e => ofBytes_eq_error_iff, ?_⟩
  intro t a b i n ht hstart here ha hn
  obtain ⟨-, js, htiled, -⟩ := ofBytes_eq_ok_iff.mp ht
  exact ofBytes_take htiled hstart here ha hn

theorem ofBytes_take_integer :
    ∃ place needed left, ofBytes .empty {} (fun _ => .ok [])
      ((List.replicate 28 0 ++ [0, 0x20, 1, 0, 0, 0, 0, 1, 0, 0, 0, 2, 0, 0, 0, 3] :
        List UInt8).take 42) = .error (.endOfData place needed left) := by
  let d : List UInt8 :=
    List.replicate 28 0 ++ [0, 0x20, 1, 0, 0, 0, 0, 1, 0, 0, 0, 2, 0, 0, 0, 3]
  have here : Item.At .big d 28 _ 44 := .integer rfl (by decide)
  have htiled : Contents.Tiled (fun _ => .ok []) .big d 28 _ := .item here rfl .done
  have hread := ((ofBytes_iff_tiled .empty {} (fun _ => .ok []) d).1 _).mpr
    ⟨by decide, _, htiled, rfl⟩
  exact (ofBytes_iff_tiled .empty {} (fun _ => .ok []) d).2.2 _ 28 44 _ 42 hread .first here
    (by decide) (by decide)

end Readable

end QbCodec
