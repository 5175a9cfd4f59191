import QbCodec.Proofs.Guarded.Encoding
import QbCodec.Proofs.Guarded.Scanning
import QbCodec.Proofs.Guarded.Translating

/-!
The codec with guards. A file is decompiled item by item from behind its header, and each item is
probed, expanded and written before the next. Scanning, encoding and decompiling with guards do what
they do without, so that none of them leaves the bounds of a row, a text or a number.
-/

namespace QbCodec.Guarded

open Cursor (ofBytes)

namespace Probe

variable {o : ByteOrder} {d : List UInt8} {a : Nat}

theorem item_at {i : Item} {b : Nat} (h : i.At o d a b) :
    item d ⟨a, o⟩ = some (.ok i, ⟨b, o⟩) := by
  have hbounds := h.bounds
  obtain ⟨c, hc, hg, hr⟩ := Follows.item d o a (by omega)
  rw [h.read] at hg hr
  have hoffset := congrArg Cursor.offset hr
  rw [Cursor.offset_ofBytes hbounds.2, Cursor.offset_ofBytes hc] at hoffset
  rw [hg, hoffset]

theorem item_unreadable {e : Failure} (ha : a ≤ d.length) (h : Item.Unreadable o d a e) :
    ∃ q, item d ⟨a, o⟩ = some (.error e, q) := by
  obtain ⟨c, hc, hg, hr⟩ := Follows.item d o a ha
  rw [h.read ha] at hg
  exact ⟨_, hg⟩

end Probe

def itemText? (r : Registry) (f : Format) : Item → Option (List Char)
  | .script s => do
    let body ← bodyText? r f.indent.toList f.order s.stored
    return "script ".toList ++ r.keyText s.name ++ ' ' :: body ++ "\nendscript".toList
  | i => some (i.text r f)

def decompileFrom? (r : Registry) (f : Format) (x : Expander) (d : List UInt8) (p : Place)
    (written : List Char) : Option (Except Failure (List Char)) :=
  if _ : p.offset < d.length then
    match Probe.item d p with
    | none => none
    | some (.error e, _) => some (.error e)
    | some (.ok i, q) =>
      match i.expand x with
      | .error e => some (.error e)
      | .ok j => do
        let text ← itemText? r f j
        if _ : p.offset < q.offset then decompileFrom? r f x d q (written ++ (text ++ ['\n']))
        else none
  else some (.ok written)
termination_by d.length - p.offset

def decompile? (r : Registry) (f : Format) (x : Expander) (data : List UInt8) :
    Option (Except Failure String) :=
  if data.length < f.headerSize then some (.error (.shortHeader f.headerSize data.length))
  else do
    match ← Probe.seek f.headerSize data ⟨0, f.order⟩ with
    | (.error e, _) => return .error e
    | (.ok _, p) => do
      let written ← decompileFrom? r f x data p []
      return written.map String.ofList

theorem itemText?_eq (r : Registry) (f : Format) (i : Item) :
    itemText? r f i = some (i.text r f) := by
  cases i with
  | script s =>
    rw [itemText?, bodyText?_eq]
    rfl
  | integer | pointer => rfl

theorem decompileFrom?_eq (r : Registry) (f : Format) (x : Expander) {d : List UInt8} {a : Nat}
    (ha : a ≤ d.length) (written : List Char) :
    decompileFrom? r f x d ⟨a, f.order⟩ written =
      some (((Contents.readAll (ofBytes d f.order a)).expanded x).map fun items =>
        written ++ items.flatMap fun i => i.text r f ++ ['\n']) := by
  induction hn : d.length - a using Nat.strongRecOn generalizing a written with
  | _ n ih =>
    rw [decompileFrom?]
    by_cases hmore : a < d.length
    · rw [dif_pos hmore]
      rcases Item.at_or_unreadable (o := f.order) (d := d) (a := a) with ⟨i, b, here⟩ | ⟨e, he⟩
      · have hbounds := here.bounds
        rw [Probe.item_at here, Contents.readAll_at here, Contents.expanded_cons]
        dsimp only
        cases i.expand x with
        | error e => rfl
        | ok j =>
          dsimp only
          rw [itemText?_eq, Option.bind_eq_bind, Option.bind_some, dif_pos hbounds.1,
            ih (d.length - b) (by omega) hbounds.2 _ rfl]
          cases (Contents.readAll (ofBytes d f.order b)).expanded x <;> simp [Except.map]
      · obtain ⟨q, hg⟩ := Probe.item_unreadable ha he
        rw [hg, Contents.readAll_unreadable hmore he]
        rfl
    · rw [dif_neg hmore, Contents.readAll_end (by omega)]
      simp [Contents.expanded, Contents.expandAll, Except.map]

theorem decompile?_eq (r : Registry) (f : Format) (x : Expander) (data : List UInt8) :
    decompile? r f x data = some (Readable.ofBytes r f x data) := by
  rw [decompile?, Readable.ofBytes, Contents.ofBytes]
  by_cases hshort : data.length < f.headerSize
  · rw [if_pos hshort, if_pos hshort]
    rfl
  · have hheader : f.headerSize ≤ data.length := by omega
    rw [if_neg hshort, if_neg hshort, Probe.seek_of_le hheader]
    dsimp only [Option.bind_eq_bind, Option.bind_some]
    rw [decompileFrom?_eq r f x hheader]
    cases (Contents.readAll (ofBytes data f.order f.headerSize)).expanded x <;> rfl

/-- Whatever the source text, the lexemes, the bytes, the format, the registry and the function that
expands bodies are, no guard is met: to scan, to encode and to decompile with guards gives what it
gives without. -/
theorem codec_inside :
    (∀ source : String, lexemes? source =
      some ((Source.lexemes source).mapError fun e => (e, e.message))) ∧
    (∀ (t : Compiled.Target) (ts : List Lexeme) (cs : List Registry.Change),
      ofLexemes? t ts (Registry.ofChanges cs) =
        some (Compiled.ofLexemes t ts (Registry.ofChanges cs))) ∧
    ∀ (r : Registry) (f : Format) (x : Expander) (data : List UInt8),
      decompile? r f x data = some (Readable.ofBytes r f x data) :=
  ⟨lexemes?_eq, fun t ts cs => ofLexemes?_eq (counted_ofChanges cs) t ts, decompile?_eq⟩

end QbCodec.Guarded
