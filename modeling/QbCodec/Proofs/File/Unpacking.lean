import QbCodec.Proofs.Bytes.Record
import QbCodec.Proofs.File.Coding
import QbCodec.Proofs.File.Requests

namespace QbCodec

open Cursor (wordAt)

def Item.unpack (x : Expander) (d : List UInt8) (a b : Nat) (i : Item) (out : Output) : Output :=
  match i.expansion?.map x with
  | some (.ok body) =>
    let sizes := ((out.raw ((d.drop a).take 24)).number 4 body.length).number 4 body.length
    (sizes.raw body).padTo 4 0
  | _ => out.raw ((d.drop a).take (b - a))

def Contents.unpack (x : Expander) (c : Cursor) (out : Output) : Output :=
  if c.isAtEnd then out
  else
    match h : Item.read c with
    | (.error _, _) => out.raw (c.data.toList.drop c.offset)
    | (.ok i, d) =>
      have := remaining_read h
      unpack x d (i.unpack x c.data.toList c.offset d.offset out)
termination_by c.remaining

def Readable.unpacked (f : Format) (x : Expander) (data : List UInt8) : List UInt8 :=
  (Contents.unpack x (Cursor.ofBytes data f.order f.headerSize)
    ⟨data.take f.headerSize, f.order⟩).bytes

structure SameBytes (d : List UInt8) (a : Nat) (d' : List UInt8) (a' count : Nat) : Prop where
  fits : a + count ≤ d.length
  fits' : a' + count ≤ d'.length
  same : (d'.drop a').take count = (d.drop a).take count

namespace SameBytes

variable {d d' : List UInt8} {a a' count : Nat} {o : ByteOrder}

theorem slice (h : SameBytes d a d' a' count) {k n : Nat} (hk : k + n ≤ count) :
    (d'.drop (a' + k)).take n = (d.drop (a + k)).take n := by
  have part (bs : List UInt8) (m : Nat) :
      (bs.drop (m + k)).take n = (((bs.drop m).take count).drop k).take n := by
    have hn : min n (count - k) = n := by omega
    rw [List.drop_take, List.take_take, List.drop_drop, hn]
  rw [part, part, h.same]

theorem wordAt (h : SameBytes d a d' a' count) {k : Nat} (hk : k + 4 ≤ count) :
    wordAt o d' (a' + k) = wordAt o d (a + k) := by
  rw [Cursor.wordAt, Cursor.wordAt, h.slice hk]

theorem getElem? (h : SameBytes d a d' a' count) {k : Nat} (hk : k < count) :
    d'[a' + k]? = d[a + k]? := by
  have part (bs : List UInt8) (m : Nat) : bs[m + k]? = ((bs.drop m).take count)[k]? := by
    rw [List.getElem?_take_of_lt hk, List.getElem?_drop]
  rw [part, part, h.same]

end SameBytes

namespace Item

variable {o : ByteOrder} {d d' : List UInt8} {a a' b : Nat}

theorem alignUp_sub (n : Nat) (h : a' % 4 = a % 4) :
    Cursor.alignUp 4 (a' + n) = a' + (Cursor.alignUp 4 (a + n) - a) := by
  unfold Cursor.alignUp
  split <;> split <;> omega

theorem At.moved {i : Item} (h : i.At o d a b) (hsame : SameBytes d a d' a' (b - a))
    (halign : a' % 4 = a % 4) (hend : b < d.length ∨ d'.length = a' + (b - a)) :
    i.At o d' a' (a' + (b - a)) := by
  have hfits' := hsame.fits'
  cases h with
  | integer tag fits =>
    have hlength : a + 16 - a = 16 := by omega
    rw [hlength] at hsame hfits' ⊢
    rw [← hsame.wordAt (k := 4) (by omega), ← hsame.wordAt (k := 8) (by omega),
      ← hsame.wordAt (k := 12) (by omega)]
    exact .integer (by rw [hsame.getElem? (by omega), tag]) hfits'
  | pointer tag fits =>
    have hlength : a + 16 - a = 16 := by omega
    rw [hlength] at hsame hfits' ⊢
    rw [← hsame.wordAt (k := 4) (by omega), ← hsame.wordAt (k := 8) (by omega),
      ← hsame.wordAt (k := 12) (by omega)]
    exact .pointer (by rw [hsame.getElem? (by omega), tag]) hfits'
  | @script size tag words hsize fits =>
    have hup := Cursor.le_alignUp 4 (a + 32 + size)
    have hsub := alignUp_sub (32 + size) halign
    rw [← Nat.add_assoc, ← Nat.add_assoc] at hsub
    have hnext : a' + (min (Cursor.alignUp 4 (a + 32 + size)) d.length - a) =
        min (Cursor.alignUp 4 (a' + 32 + size)) d'.length := by
      omega
    rw [hnext, ← hsame.slice (k := 32) (n := size) (by omega),
      ← hsame.wordAt (k := 4) (by omega), ← hsame.wordAt (k := 8) (by omega),
      ← hsame.wordAt (k := 12) (by omega), ← hsame.wordAt (k := 16) (by omega),
      ← hsame.wordAt (k := 20) (by omega), ← hsame.wordAt (k := 24) (by omega)]
    exact .script (by rw [hsame.getElem? (by omega), tag]) (by omega)
      (by rw [hsame.wordAt (by omega), hsize]) (by omega)

theorem At.fits {i : Item} (h : i.At o d a b) : i.Fits := by
  cases h with
  | integer tag fits => trivial
  | pointer tag fits => trivial
  | @script size tag words hsize fits =>
    have hlt := (wordAt o d (a + 28)).toNat_lt
    simp only [Fits, List.length_take]
    omega

theorem At.script_fits {s : ScriptItem} (h : (Item.script s).At o d a b) : a + 32 ≤ d.length := by
  cases h with
  | script tag words hsize fits => exact words

theorem alignUp_mod (n : Nat) : Cursor.alignUp 4 n % 4 = 0 := by
  unfold Cursor.alignUp
  split <;> omega

theorem At.mod_of_script {s : ScriptItem} (h : (Item.script s).At o d a b) (hmore : b < d.length) :
    b % 4 = 0 := by
  cases h with
  | @script size tag words hsize fits =>
    have hmin : min (Cursor.alignUp 4 (a + 32 + size)) d.length =
        Cursor.alignUp 4 (a + 32 + size) := by omega
    rw [hmin, alignUp_mod]

theorem At.replaced {s : ScriptItem} (h : (Item.script s).At o d a b) {front body back : List UInt8}
    (hlt : body.length < 2 ^ 32)
    (hd' : d' = front ++ ((d.drop a).take 24 ++ (o.encode 4 body.length ++
      (o.encode 4 body.length ++
        (body ++ (List.replicate (Output.gap 4 (front.length + 32 + body.length)) 0 ++ back))))))
    (ha' : a' = front.length) :
    (Item.script { s with fullSize := body.length.toUInt32, stored := body }).At o d' a'
      (Cursor.alignUp 4 (a' + 32 + body.length)) := by
  have hwords := h.script_fits
  have hhead : ((d.drop a).take 24).length = 24 := by
    rw [List.length_take, List.length_drop]
    omega
  have hsize : body.length.toUInt32.toNat = body.length := by
    simpa using Nat.mod_eq_of_lt hlt
  have hlength : d'.length =
      a' + 32 + body.length + Output.gap 4 (a' + 32 + body.length) + back.length := by
    rw [hd', ha']
    simp only [List.length_append, hhead, ByteOrder.length_encode, List.length_replicate]
    omega
  have hsame : SameBytes d a d' a' 24 := by
    refine ⟨by omega, by omega, ?_⟩
    rw [hd', ha', List.drop_left, List.take_left' hhead]
  have hfull : wordAt o d' (a' + 24) = body.length.toUInt32 := by
    apply @wordAt_of_eq o d' (front ++ (d.drop a).take 24)
    · rw [hd', hsize, List.append_assoc]
    · rw [ha', List.length_append, hhead]
  have hstored : wordAt o d' (a' + 28) = body.length.toUInt32 := by
    apply @wordAt_of_eq o d' (front ++ ((d.drop a).take 24 ++ o.encode 4 body.length))
    · rw [hd', hsize, List.append_assoc, List.append_assoc]
    · rw [ha', List.length_append, List.length_append, hhead, ByteOrder.length_encode]
  have hbody : (d'.drop (a' + 32)).take body.length = body := by
    have hbefore : (front ++ ((d.drop a).take 24 ++ (o.encode 4 body.length ++
        o.encode 4 body.length))).length = a' + 32 := by
      simp only [List.length_append, hhead, ByteOrder.length_encode, ha']
    simp only [hd', ← List.append_assoc] at hbefore ⊢
    rw [List.append_assoc, List.append_assoc, List.drop_left' hbefore, List.take_left]
  have hend : min (Cursor.alignUp 4 (a' + 32 + body.length)) d'.length =
      Cursor.alignUp 4 (a' + 32 + body.length) := by
    rw [hlength, Reads.alignUp_eq_add_gap]
    omega
  have hnext : body.length = (wordAt o d' (a' + 28)).toNat := by rw [hstored, hsize]
  cases h with
  | script tag words hsize fits =>
    have htag : d'[a' + 2]? = some 7 := by rw [hsame.getElem? (by omega), tag]
    have hat := At.script (o := o) htag (by omega) hnext (by omega)
    rw [hend, hbody, hfull, hsame.wordAt (by omega), hsame.wordAt (by omega),
      hsame.wordAt (by omega), hsame.wordAt (by omega), hsame.wordAt (by omega)] at hat
    exact hat

theorem unpack_eq_raw {x : Expander} {i : Item} (h : i.expansion? = none) (out : Output) :
    i.unpack x d a b out = out.raw ((d.drop a).take (b - a)) := by
  rw [unpack, h]
  rfl

theorem bytes_unpack {x : Expander} {i : Item} {e : Expansion} {body : List UInt8}
    (he : i.expansion? = some e) (hx : x e = .ok body) (ha : a + 24 ≤ d.length) (out : Output) :
    (i.unpack x d a b out).bytes = out.bytes ++ ((d.drop a).take 24 ++
      (out.order.encode 4 body.length ++ (out.order.encode 4 body.length ++ (body ++
        List.replicate (Output.gap 4 (out.size + 32 + body.length)) 0)))) := by
  have hhead : ((d.drop a).take 24).length = 24 := by
    rw [List.length_take, List.length_drop]
    omega
  have hsize : (out.bytes ++ ((d.drop a).take 24 ++ (out.order.encode 4 body.length ++
      (out.order.encode 4 body.length ++ body)))).length = out.size + 32 + body.length := by
    simp only [List.length_append, hhead, ByteOrder.length_encode, Output.size]
    omega
  rw [← hsize]
  simp [unpack, he, hx, Output.padTo, Output.pad, Output.raw, Output.number, Output.size]

theorem order_unpack (x : Expander) (i : Item) (out : Output) :
    (i.unpack x d a b out).order = out.order := by
  unfold unpack
  split <;> rfl

end Item

namespace Contents

variable {x : Expander} {o : ByteOrder} {d : List UInt8} {a b : Nat} {out : Output}

theorem unpack_end (h : d.length ≤ a) : unpack x (Cursor.ofBytes d o a) out = out := by
  rw [unpack, if_pos (Cursor.isAtEnd_ofBytes.mpr h)]

theorem unpack_at {i : Item} (h : i.At o d a b) :
    unpack x (Cursor.ofBytes d o a) out =
      unpack x (Cursor.ofBytes d o b) (i.unpack x d a b out) := by
  have hbounds := h.bounds
  have hmore : ¬ (Cursor.ofBytes d o a).isAtEnd = true := by
    rw [Cursor.isAtEnd_ofBytes]
    omega
  rw [unpack, if_neg hmore]
  split
  · rename_i hread
    rw [h.read] at hread
    cases hread
  · rename_i hread
    rw [h.read] at hread
    obtain ⟨rfl, rfl⟩ := by simpa using hread
    rw [Cursor.offset_ofBytes (by omega), Cursor.offset_ofBytes hbounds.2]
    rfl

theorem expansion?_withBody {s : ScriptItem} {body : List UInt8} (h : body.length < 2 ^ 32) :
    (Item.script { s with fullSize := body.length.toUInt32, stored := body }).expansion? = none := by
  rw [Item.expansion?, if_pos]
  simpa using Nat.mod_eq_of_lt h

theorem script_of_expansion? {i : Item} {e : Expansion} (h : i.expansion? = some e) :
    ∃ s, i = .script s := by
  cases i with
  | script s => exact ⟨s, rfl⟩
  | integer name container value => cases h
  | pointer name container target => cases h

theorem unpack_cases {i j : Item} (hexpand : i.expand x = .ok j) :
    i.expansion? = none ∧ j = i ∨
      ∃ s e body, i = .script s ∧ i.expansion? = some e ∧ x e = .ok body ∧
        j = .script { s with fullSize := body.length.toUInt32, stored := body } := by
  cases he : i.expansion? with
  | none =>
    rw [Item.expand, he] at hexpand
    cases hexpand
    exact .inl ⟨rfl, rfl⟩
  | some e =>
    obtain ⟨s, rfl⟩ := script_of_expansion? he
    rw [Item.expand, he] at hexpand
    cases hx : x e with
    | error f => simp [hx, Except.map] at hexpand
    | ok body =>
      simp only [hx, Except.map, Except.ok.injEq] at hexpand
      exact .inr ⟨s, e, body, rfl, rfl, hx, hexpand.symm⟩

theorem at_unpack {i j : Item} (here : i.At o d a b) (hexpand : i.expand x = .ok j)
    (hfits : j.Fits) (horder : out.order = o) (halign : out.size % 4 = a % 4) :
    j.expansion? = none ∧ (b < d.length → (i.unpack x d a b out).size % 4 = b % 4) ∧
      ∃ piece, (i.unpack x d a b out).bytes = out.bytes ++ piece ∧
        ∀ back, b < d.length ∨ back = [] →
          j.At o (out.bytes ++ (piece ++ back)) out.size (i.unpack x d a b out).size := by
  have hbounds := here.bounds
  rcases unpack_cases hexpand with ⟨hnone, rfl⟩ | ⟨s, e, body, rfl, he, hx, rfl⟩
  · have hpiece : ((d.drop a).take (b - a)).length = b - a := by
      rw [List.length_take, List.length_drop]
      omega
    have hsize : (j.unpack x d a b out).size = out.size + (b - a) := by
      rw [Item.unpack_eq_raw hnone, Output.size, Output.raw, List.length_append, hpiece]
      rfl
    refine ⟨hnone, fun _ => by omega, (d.drop a).take (b - a), ?_, ?_⟩
    · rw [Item.unpack_eq_raw hnone, Output.raw]
    · intro back hback
      have hlength : (out.bytes ++ ((d.drop a).take (b - a) ++ back)).length =
          out.size + (b - a) + back.length := by
        rw [List.length_append, List.length_append, hpiece, ← Nat.add_assoc]
        rfl
      rw [hsize]
      refine here.moved ⟨by omega, by omega, ?_⟩ halign (hback.imp_right ?_)
      · rw [Output.size, List.drop_left, List.take_left' hpiece]
      · rintro rfl
        simpa using hlength
  · have hhead := here.script_fits
    have hbytes := Item.bytes_unpack (d := d) (a := a) (b := b) he hx (by omega) out
    have hsize : (Item.unpack x d a b (.script s) out).size =
        Cursor.alignUp 4 (out.size + 32 + body.length) := by
      have hlength : ((d.drop a).take 24).length = 24 := by
        rw [List.length_take, List.length_drop]
        omega
      rw [Reads.alignUp_eq_add_gap, Output.size, hbytes]
      simp only [List.length_append, hlength, ByteOrder.length_encode, List.length_replicate]
      change out.size + _ = _
      omega
    refine ⟨expansion?_withBody hfits, ?_, _, hbytes, ?_⟩
    · intro hmore
      rw [hsize, Item.alignUp_mod, here.mod_of_script hmore]
    · intro back _
      rw [hsize]
      have hfile : out.bytes ++ ((d.drop a).take 24 ++ (out.order.encode 4 body.length ++
          (out.order.encode 4 body.length ++ (body ++
            List.replicate (Output.gap 4 (out.size + 32 + body.length)) 0))) ++ back) =
          out.bytes ++ ((d.drop a).take 24 ++ (o.encode 4 body.length ++
            (o.encode 4 body.length ++ (body ++
              (List.replicate (Output.gap 4 (out.size + 32 + body.length)) 0 ++ back))))) := by
        rw [horder]
        simp only [List.append_assoc]
      exact here.replaced hfits hfile rfl

theorem Tiled.unpack {js : List Item} (h : Tiled x o d a js) (hfits : ∀ j ∈ js, j.Fits)
    (horder : out.order = o) (halign : a < d.length → out.size % 4 = a % 4) :
    ∃ written, (unpack x (Cursor.ofBytes d o a) out).bytes = out.bytes ++ written ∧
      (d.length ≤ a → written = []) ∧
      ∀ y, Tiled y o (out.bytes ++ written) out.size js := by
  induction h generalizing out with
  | done =>
    refine ⟨[], by rw [unpack_end (Nat.le_refl _), List.append_nil], fun _ => rfl, fun y => ?_⟩
    rw [List.append_nil]
    exact .done
  | @item a b i j js here hexpand rest ih =>
    have hbounds := here.bounds
    obtain ⟨hj, hjs⟩ := List.forall_mem_cons.mp hfits
    obtain ⟨hnone, hmod, piece, hpiece, hat⟩ :=
      at_unpack here hexpand hj horder (halign (by omega))
    have horder' : (i.unpack x d a b out).order = o := by rw [Item.order_unpack, horder]
    obtain ⟨written, hwritten, hend, htiled⟩ := ih hjs horder' hmod
    refine ⟨piece ++ written, ?_, fun hle => by omega, fun y => ?_⟩
    · rw [unpack_at here, hwritten, hpiece, List.append_assoc]
    · have hback : b < d.length ∨ written = [] := by
        rcases Nat.lt_or_ge b d.length with hlt | hge
        · exact .inl hlt
        · exact .inr (hend hge)
      have hrest := htiled y
      rw [hpiece, List.append_assoc] at hrest
      exact .item (hat written hback) (by rw [Item.expand, hnone]) hrest

theorem expandAll_of_answers {is : List Item}
    (h : ∀ e ∈ expansions x is, ∃ body, x e = .ok body) : ∃ js, expandAll x is = .ok js := by
  induction is with
  | nil => exact ⟨[], rfl⟩
  | cons i is ih =>
    cases hi : i.expand x with
    | error f =>
      obtain ⟨e, he, hfailed⟩ := Item.expansion?_of_expand hi
      obtain ⟨body, hbody⟩ := h e (by simp [expansions_of_error hi, he])
      rw [hfailed] at hbody
      cases hbody
    | ok j =>
      obtain ⟨js, hjs⟩ := ih fun e he => h e (by
        rw [expansions_cons hi, List.mem_append]
        exact .inr he)
      exact ⟨j :: js, by simp [expandAll, hi, hjs, Except.map]⟩

theorem fits_of_expand {i j : Item} (here : i.At o d a b) (hexpand : i.expand x = .ok j)
    (h : ∀ e body, i.expansion? = some e → x e = .ok body → body.length < 2 ^ 32) : j.Fits := by
  rcases unpack_cases hexpand with ⟨-, rfl⟩ | ⟨s, e, body, rfl, he, hx, rfl⟩
  · exact here.fits
  · exact h e body he hx

theorem Tiled.fits {js : List Item} (h : Tiled x o d a js)
    (hlt : ∀ e ∈ expansions x (readAll (Cursor.ofBytes d o a)).items, ∀ body, x e = .ok body →
      body.length < 2 ^ 32) : ∀ j ∈ js, j.Fits := by
  induction h with
  | done => exact fun j hj => absurd hj List.not_mem_nil
  | @item a b i j js here hexpand rest ih =>
    rw [readAll_at here, expansions_cons hexpand] at hlt
    rw [List.forall_mem_cons]
    refine ⟨fits_of_expand here hexpand fun e body he => hlt e (by simp [he]) body, ih ?_⟩
    exact fun e he => hlt e (List.mem_append.mpr (.inr he))

theorem Tiled.expansions_eq_nil {js : List Item} {failure : Failure}
    (h : Tiled (fun _ => .error failure) o d a js) (y : Expander) :
    expansions y (readAll (Cursor.ofBytes d o a)).items = [] := by
  induction h with
  | done => rw [readAll_end (Nat.le_refl _), expansions]
  | item here hexpand rest ih =>
    rcases unpack_cases hexpand with ⟨hnone, -⟩ | ⟨s, e, body, -, -, hx, -⟩
    · rw [readAll_at here, expansions, hnone]
      exact ih
    · cases hx

end Contents

namespace Readable

open Contents (Attempts)

variable {r : Registry} {f : Format} {x : Expander} {d : List UInt8}

theorem tiled_unpacked {js : List Item} (hheader : f.headerSize ≤ d.length)
    (htiled : Contents.Tiled x f.order d f.headerSize js)
    (hlt : ∀ e ∈ expansions f x d, ∀ body, x e = .ok body → body.length < 2 ^ 32) :
    f.headerSize ≤ (unpacked f x d).length ∧
      ∀ y, Contents.Tiled y f.order (unpacked f x d) f.headerSize js := by
  have hfits : ∀ j ∈ js, j.Fits := htiled.fits fun e he => hlt e (by
    rw [expansions, Contents.ofBytes, if_neg (by omega)]
    exact he)
  have hlength : (d.take f.headerSize).length = f.headerSize := List.length_take_of_le hheader
  have halign : (⟨d.take f.headerSize, f.order⟩ : Output).size % 4 = f.headerSize % 4 := by
    rw [Output.size, hlength]
  obtain ⟨written, hwritten, -, hrest⟩ := htiled.unpack hfits rfl fun _ => halign
  rw [Output.size, hlength] at hrest
  rw [unpacked, hwritten]
  refine ⟨?_, hrest⟩
  rw [List.length_append, hlength]
  omega

/-- An expander is asked once for each compressed body that is met, in the order of the file, up to
the first item that fails. If it answers each time, the file reads as the one with the answers in
place of the bodies, which asks for nothing. -/
theorem ofBytes_unpacked (r : Registry) (f : Format) (x : Expander) (d : List UInt8) :
    (ofBytesWith x.recording r f d).run [] = (ofBytes r f x d, expansions f x d) ∧
    (d.length < f.headerSize → expansions f x d = []) ∧
    (f.headerSize ≤ d.length → ∃ is, Attempts x f.order d f.headerSize is ∧
      expansions f x d = is.filterMap Item.expansion?) ∧
    ((Contents.ofBytes f d).failure = none →
      (∀ e ∈ expansions f x d, ∃ body, x e = .ok body ∧ body.length < 2 ^ 32) →
      ∃ t, ofBytes r f x d = .ok t ∧
        ∀ y, ofBytes r f y (unpacked f x d) = .ok t ∧ expansions f y (unpacked f x d) = []) := by
  refine ⟨ofBytesWith_recording r f x d, ?_, ?_, ?_⟩
  · intro h
    rw [expansions, Contents.ofBytes, if_pos h, Contents.expansions]
  · intro h
    rw [expansions, Contents.ofBytes, if_neg (by omega)]
    exact Contents.exists_attempts x h
  · intro hfailure hanswers
    have hheader : f.headerSize ≤ d.length := by
      rcases Nat.lt_or_ge d.length f.headerSize with hlt | hge
      · rw [Contents.ofBytes, if_pos hlt] at hfailure
        cases hfailure
      · exact hge
    obtain ⟨js, hjs⟩ := Contents.expandAll_of_answers fun e he =>
      (hanswers e he).imp fun _ h => h.1
    have hexpanded : (Contents.ofBytes f d).expanded x = .ok js := by
      rw [Contents.expanded, hjs, hfailure]
    rw [Contents.ofBytes, if_neg (by omega), Contents.expanded_eq_ok_iff hheader] at hexpanded
    obtain ⟨hheader', htiled⟩ := tiled_unpacked hheader hexpanded fun e he body hbody => by
      obtain ⟨body', hbody', hlt⟩ := hanswers e he
      rw [hbody] at hbody'
      cases hbody'
      exact hlt
    refine ⟨text r f js, ofBytes_eq_ok_iff.mpr ⟨hheader, js, hexpanded, rfl⟩, fun y => ⟨?_, ?_⟩⟩
    · exact ofBytes_eq_ok_iff.mpr ⟨hheader', js, htiled y, rfl⟩
    · rw [expansions, Contents.ofBytes, if_neg (by omega)]
      exact (htiled fun _ => .error (.endOfData 0 0 0)).expansions_eq_nil y

/-- A body of three bytes that expands to seven, which moves the integer behind it from 36 to 40. -/
theorem ofBytes_unpacked_script :
    let d : List UInt8 := [0, 0x20, 7, 0, 0, 0, 0, 1, 0, 0, 0, 0, 0, 0, 0, 0, 0, 0, 0, 0, 0, 0, 0, 0,
      0, 0, 0, 7, 0, 0, 0, 3, 1, 2, 3, 0, 0, 0x20, 1, 0, 0, 0, 0, 1, 0, 0, 0, 2, 0, 0, 0, 3]
    let x : Expander := fun _ => .ok [0x17, 7, 0, 0, 0, 0x24, 0]
    let f : Format := ⟨.big, 0, ""⟩
    ∃ t, ofBytes .empty f x d = .ok t ∧ ofBytes .empty f x (unpacked f x d) = .ok t ∧
      expansions f x d = [⟨[1, 2, 3], 7⟩] ∧ expansions f x (unpacked f x d) = [] := by
  intro d x f
  have hscript : Item.At .big d 0 _ 36 :=
    @Item.At.script .big d 0 3 rfl (by decide) (by decide) (by decide)
  have hinteger : Item.At .big d 36 _ 52 := @Item.At.integer .big d 36 rfl (by decide)
  have hread := Contents.readAll_at hscript
  rw [Contents.readAll_at hinteger,
    @Contents.readAll_end .big d 52 (by decide)] at hread
  have hcontents : Contents.ofBytes f d = _ := (if_neg (by decide)).trans hread
  have hrequests : expansions f x d = [⟨[1, 2, 3], 7⟩] := by
    rw [expansions, hcontents]
    rfl
  obtain ⟨t, ht, hunpacked⟩ := (ofBytes_unpacked .empty f x d).2.2.2 (by rw [hcontents])
    fun e _ => ⟨_, rfl, by decide⟩
  exact ⟨t, ht, (hunpacked x).1, hrequests, (hunpacked x).2⟩

end Readable

end QbCodec
