import QbCodec.Proofs.File.Coding

namespace QbCodec

open Cursor (wordAt)

def bytesAt (d : List UInt8) (a n : Nat) : List UInt8 := (d.drop a).take n

theorem bytesAt_of_eq {d before bs after : List UInt8} {a n : Nat}
    (h : d = before ++ (bs ++ after)) (ha : a = before.length) (hn : n = bs.length) :
    bytesAt d a n = bs := by
  subst h ha hn
  rw [bytesAt, List.drop_left, List.take_left]

namespace Compiled

variable {t : Target} {ss : List Statement} {d before after : List UInt8} {a : Nat}

structure StartsAt (t : Target) (d : List UInt8) (a : Nat) (tag : UInt8) (name : Key) : Prop where
  aligned : a % 4 = 0
  quad : bytesAt d a 4 = [0, 0x20, tag, 0]
  name : wordAt t.order d (a + 4) = name
  container : wordAt t.order d (a + 8) = t.container

structure BodyAt (t : Target) (d : List UInt8) (a : Nat) (body : List UInt8) : Prop where
  unknown : wordAt t.order d (a + 12) = 0
  dummy : wordAt t.order d (a + 16) = 0
  checksum : wordAt t.order d (a + 20) = Bits.Crc32.checksum body
  fullSize : (wordAt t.order d (a + 24)).toNat = body.length
  storedSize : (wordAt t.order d (a + 28)).toNat = body.length
  stored : bytesAt d (a + 32) body.length = body
  last : body.getLast? = some 0x24

inductive ItemsAt (t : Target) (d : List UInt8) : Nat → List Statement → Prop
  | nil : ItemsAt t d d.length []
  | value {a : Nat} {name : Key} {v : Int32} {ss : List Statement}
      (start : StartsAt t d a 1 name) (value : wordAt t.order d (a + 12) = v.toUInt32)
      (rest : ItemsAt t d (a + 16) ss) : ItemsAt t d a (.value name v :: ss)
  | script {a padding : Nat} {name : Key} {is : List Instruction} {body : List UInt8}
      {ss : List Statement} (start : StartsAt t d a 7 name)
      (hbody : body = Instruction.encodeBody t.order.inverse is) (fields : BodyAt t d a body)
      (hpadding : padding ≤ 3)
      (hzeros : bytesAt d (a + 32 + body.length) padding = List.replicate padding 0)
      (rest : ItemsAt t d (a + 32 + body.length + padding) ss) :
      ItemsAt t d a (.script name is :: ss)

structure FileOf (t : Target) (ss : List Statement) (d : List UInt8) : Prop where
  flags : bytesAt d 0 4 = [0, 0, 0, 0]
  size : (wordAt t.order d 4).toNat = d.length
  zeros : bytesAt d 8 20 = List.replicate 20 0
  items : ItemsAt t d 28 ss
  aligned : d.length % 4 = 0

theorem startsAt_encode {i : Item} (hfits : i.Fits)
    (hd : d = before ++ (i.encode t.order ++ after)) (halign : before.length % 4 = 0) {name : Key}
    (hname : i.words[0]? = some name) (hcontainer : i.words[1]? = some t.container) :
    StartsAt t d before.length i.kind.byte name where
  aligned := halign
  quad := by
    have hsplit := Item.encode_split hfits hd
    rw [List.append_assoc] at hsplit
    exact bytesAt_of_eq hsplit rfl rfl
  name := Item.wordAt_encode hfits hd rfl hname
  container := Item.wordAt_encode hfits hd rfl hcontainer

theorem bodyAt_encode {name : Key} {is : List Instruction} {body : List UInt8}
    (hbody : body = Instruction.encodeBody t.order.inverse is) (hlt : body.length < 2 ^ 32)
    (hd : d = before ++ ((item t (.script name is)).encode t.order ++ after)) :
    BodyAt t d before.length body := by
  subst hbody
  have hfits : (item t (.script name is)).Fits := hlt
  have hsplit := Item.encode_split hfits hd
  have hsize : (Instruction.encodeBody t.order.inverse is).length.toUInt32.toNat =
      (Instruction.encodeBody t.order.inverse is).length := by
    simpa using Nat.mod_eq_of_lt hlt
  have hword {n : Nat} {w : UInt32} (hw : (item t (.script name is)).words[n]? = some w) :
      wordAt t.order d (before.length + 4 + 4 * n) = w := Item.wordAt_encode hfits hd rfl hw
  constructor
  · exact hword (n := 2) rfl
  · exact hword (n := 3) rfl
  · exact hword (n := 4) rfl
  · rw [← hsize]
    exact congrArg UInt32.toNat (hword (n := 5) rfl)
  · rw [← hsize]
    exact congrArg UInt32.toNat (hword (n := 6) rfl)
  · rw [← List.append_assoc] at hsplit
    exact bytesAt_of_eq hsplit (by simp [Item.quad, Item.words, item]) rfl
  · rw [Instruction.encodeBody, List.getLast?_concat]
    rfl

theorem padding_encode {name : Key} {is : List Instruction} {body : List UInt8}
    (hbody : body = Instruction.encodeBody t.order.inverse is) (hlt : body.length < 2 ^ 32)
    (hd : d = before ++ ((item t (.script name is)).encode t.order ++ after)) :
    bytesAt d (before.length + 32 + body.length) ((4 - body.length % 4) % 4) =
      List.replicate ((4 - body.length % 4) % 4) 0 := by
  subst hbody
  have hfits : (item t (.script name is)).Fits := hlt
  have hsplit := Item.encode_split hfits hd
  rw [← List.append_assoc, ← List.append_assoc] at hsplit
  refine bytesAt_of_eq hsplit ?_ List.length_replicate.symm
  simp only [Item.quad, Item.words, Item.body, item, List.length_append, List.length_cons,
    List.length_nil, Item.length_encodeWords]

theorem length_encode_value (name : Key) (v : Int32) :
    ((item t (.value name v)).encode t.order).length = 16 := by
  simp [item, Item.encode, Item.quad]

theorem length_encode_script {name : Key} {is : List Instruction} {body : List UInt8}
    (hbody : body = Instruction.encodeBody t.order.inverse is) :
    ((item t (.script name is)).encode t.order).length =
      32 + body.length + (4 - body.length % 4) % 4 := by
  subst hbody
  simp only [item, Item.encode, Item.quad, List.length_append, List.length_cons, List.length_nil,
    ByteOrder.length_encode, Item.length_padding]
  omega

theorem itemsAt_items (h : ∀ s ∈ ss, s.Small) (hd : d = before ++ items t ss)
    (halign : before.length % 4 = 0) : ItemsAt t d before.length ss := by
  induction ss generalizing before with
  | nil =>
    rw [hd]
    simpa [items] using ItemsAt.nil
  | cons s ss ih =>
    obtain ⟨hs, hss⟩ := List.forall_mem_cons.mp h
    have hitems : items t (s :: ss) = (item t s).encode t.order ++ items t ss := by
      simp [items]
    rw [hitems] at hd
    have hfits := item_fits (t := t) hs
    have hmod := Item.length_encode_mod t.order (item t s)
    have hrest : ItemsAt t d (before ++ (item t s).encode t.order).length ss := by
      apply ih hss
      · rw [hd, List.append_assoc]
      · rw [List.length_append]
        omega
    rw [List.length_append] at hrest
    cases s with
    | value name v =>
      rw [length_encode_value] at hrest
      exact .value (startsAt_encode hfits hd halign rfl rfl)
        (Item.wordAt_encode (n := 2) hfits hd rfl rfl) hrest
    | script name is =>
      have hlt : (Instruction.encodeBody t.order.inverse is).length < 2 ^ 32 := hfits
      rw [length_encode_script rfl, ← Nat.add_assoc, ← Nat.add_assoc] at hrest
      exact .script (startsAt_encode hfits hd halign rfl rfl) rfl (bodyAt_encode rfl hlt hd)
        (by omega) (padding_encode rfl hlt hd) hrest

theorem small_of_length (h : (bytes t ss).length < 2 ^ 32) : ∀ s ∈ ss, s.Small := by
  intro s hs
  obtain ⟨front, back, rfl⟩ := List.append_of_mem hs
  simp only [bytes, items, List.flatMap_append, List.flatMap_cons, List.length_append] at h
  cases s with
  | value => trivial
  | script name is =>
    have hbody := Instruction.length_encodeBody t.order.inverse is
    rw [length_encode_script rfl] at h
    simp only [Statement.Small]
    omega

theorem length_items_mod (t : Target) (ss : List Statement) : (items t ss).length % 4 = 0 := by
  induction ss with
  | nil => rfl
  | cons s ss ih =>
    have hmod := Item.length_encode_mod t.order (item t s)
    rw [items, List.flatMap_cons, List.length_append]
    rw [items] at ih
    omega

theorem fileOf_bytes (h : (bytes t ss).length < 2 ^ 32) : FileOf t ss (bytes t ss) := by
  have hheader := length_header t.order (headerSize + (items t ss).length)
  have hlength : (bytes t ss).length = headerSize + (items t ss).length := by
    rw [bytes, List.length_append, hheader]
    rfl
  have hsize : (bytes t ss).length.toUInt32.toNat = (bytes t ss).length := by
    simpa using Nat.mod_eq_of_lt h
  have hflags : bytes t ss = [] ++ (List.replicate 4 0 ++
      (t.order.encode 4 (bytes t ss).length ++ (List.replicate 20 0 ++ items t ss))) := by
    rw [hlength]
    simp [bytes, header]
  have hfield : bytes t ss = List.replicate 4 0 ++
      (t.order.encode 4 (bytes t ss).length.toUInt32.toNat ++
        (List.replicate 20 0 ++ items t ss)) := by
    rw [hsize]
    exact hflags
  have hzeros : bytes t ss = List.replicate 4 0 ++ t.order.encode 4 (bytes t ss).length ++
      (List.replicate 20 0 ++ items t ss) := by
    rw [List.append_assoc]
    exact hflags
  refine ⟨bytesAt_of_eq hflags rfl rfl, ?_, ?_, ?_, ?_⟩
  · have hword : wordAt t.order (bytes t ss) 4 = _ := Item.wordAt_of_eq hfield rfl
    rw [hword, hsize]
  · exact bytesAt_of_eq hzeros (by simp) rfl
  · rw [← hheader]
    exact itemsAt_items (small_of_length h) rfl (by rw [hheader])
  · have := length_items_mod t ss
    rw [hlength, headerSize]
    omega

/-- A compiled file below 4 GiB has all its fields as the game reads them, whatever it was compiled
from: one item for each statement of the tokens, in their order. -/
theorem fileOf_ofLexemes {fileName : String} {o : ByteOrder} {game : Game} {ls : List Lexeme}
    {r : Registry} {file : List UInt8}
    (h : (ofLexemes ⟨Key.ofName fileName, o, game⟩ ls r).1 = .ok file)
    (hsize : file.length < 2 ^ 32) :
    ∃ ns ss, Statement.Text game (tokens ls) ns ss ∧
      FileOf ⟨Key.ofName fileName, o, game⟩ ss file := by
  obtain ⟨ns, ss, hread, rfl⟩ := ofLexemes_eq_ok h
  exact ⟨ns, ss, Statement.readAll_iff.mp hread, fileOf_bytes hsize⟩

theorem fileOf_ofLexemes_both :
    ∃ file ns ss, (ofLexemes ⟨Key.ofName "a.qb", .little, .ghwt⟩ [⟨.rawKey 1, 0⟩,
        ⟨.mark .equals, 1⟩, ⟨.int 5, 2⟩, ⟨.keyword .script, 3⟩, ⟨.rawKey 2, 10⟩, ⟨.string "a", 15⟩,
        ⟨.keyword .endScript, 18⟩] {}).1 = .ok file ∧
      Statement.Text .ghwt [.rawKey 1, .mark .equals, .int 5, .keyword .script, .rawKey 2,
        .string "a", .keyword .endScript] ns ss ∧
      FileOf ⟨Key.ofName "a.qb", .little, .ghwt⟩ ss file := by
  let ls : List Lexeme := [⟨.rawKey 1, 0⟩, ⟨.mark .equals, 1⟩, ⟨.int 5, 2⟩, ⟨.keyword .script, 3⟩,
    ⟨.rawKey 2, 10⟩, ⟨.string "a", 15⟩, ⟨.keyword .endScript, 18⟩]
  have hread : Statement.readAll .ghwt 0 ls =
      ⟨[], .ok [.value 1 5, .script 2 [.text false "a\x00"]]⟩ := by rfl
  have hfile : (ofLexemes ⟨Key.ofName "a.qb", .little, .ghwt⟩ ls {}).1 =
      .ok (bytes ⟨Key.ofName "a.qb", .little, .ghwt⟩
        [.value 1 5, .script 2 [.text false "a\x00"]]) := by
    simp only [ofLexemes, hread]
  obtain ⟨ns, ss, htext, hfields⟩ := fileOf_ofLexemes hfile (by decide +kernel)
  exact ⟨_, ns, ss, hfile, htext, hfields⟩

end Compiled

end QbCodec
