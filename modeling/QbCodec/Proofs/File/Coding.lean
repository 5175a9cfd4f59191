import QbCodec.Proofs.File.Acceptance
import QbCodec.Proofs.File.Tiling
import QbCodec.Proofs.Script.Coding

namespace QbCodec

open Cursor (ofBytes wordAt)

namespace Statement

open Instruction (WellFormed)

theorem shape_of_keyword {k : Keyword} {t : Tag} (h : k.tag? = some t) : t.shape = .bare := by
  cases k <;> cases h <;> rfl

theorem eq_endScript_of_tag? {k : Keyword} (h : k.tag? = some .endScript) : k = .endScript := by
  cases k <;> first | rfl | cases h

theorem shape_of_mark {m : Mark} {inParens : Bool} {t : Tag} (h : m.tag? inParens = some t) :
    t.shape = .bare ∧ t ≠ .endScript := by
  cases inParens <;> cases m <;> cases h <;> exact ⟨rfl, by decide⟩

theorem shape_phraseTag (game : Game) : game.phraseTag.shape = .word := by cases game <;> rfl

theorem phraseTag_ne_endScript (game : Game) : game.phraseTag ≠ .endScript := by
  cases game <;> decide

structure Emitted (i : Instruction) : Prop where
  known : i.tag?.isSome
  ne_endScript : i.tag? ≠ some .endScript
  wellFormed : (∀ wide s, i = .text wide s → s.utf8ByteSize < 2 ^ 32) → i.WellFormed

theorem emitted_bare {t : Tag} (hshape : t.shape = .bare) (hne : t ≠ .endScript) :
    Emitted (.bare t) :=
  ⟨rfl, by simpa [Instruction.tag?] using hne, fun _ => hshape⟩

theorem emitted_word {t : Tag} (hshape : t.shape = .word) (hne : t ≠ .endScript) (v : UInt32) :
    Emitted (.word t v) :=
  ⟨rfl, by simpa [Instruction.tag?] using hne, fun _ => hshape⟩

theorem emitted_text (wide : Bool) (s : String) : Emitted (.text wide s) :=
  ⟨rfl, by cases wide <;> simp [Instruction.tag?], fun h => h wide s rfl⟩

theorem Tuple.emitted {us : List Token} {i : Instruction} (h : Tuple us i) : Emitted i := by
  cases h <;> exact ⟨rfl, by simp [Instruction.tag?], fun _ => trivial⟩

theorem Body.emitted {game : Game} {depth : Nat} {ts : List Token} {ns : List String}
    {is : List Instruction} (h : Body game depth ts ns is) (hend : .keyword .endScript ∉ ts) :
    ∀ i ∈ is, Emitted i := by
  induction h with
  | nil => exact fun i hi => absurd hi List.not_mem_nil
  | int v _ ih =>
    rw [List.forall_mem_cons]
    exact ⟨emitted_word rfl (by decide) _, ih (List.not_mem_of_not_mem_cons hend)⟩
  | float v _ ih =>
    rw [List.forall_mem_cons]
    exact ⟨emitted_word rfl (by decide) _, ih (List.not_mem_of_not_mem_cons hend)⟩
  | string text _ ih =>
    rw [List.forall_mem_cons]
    exact ⟨emitted_text _ _, ih (List.not_mem_of_not_mem_cons hend)⟩
  | wideString text _ ih =>
    rw [List.forall_mem_cons]
    exact ⟨emitted_text _ _, ih (List.not_mem_of_not_mem_cons hend)⟩
  | naming _ _ ih =>
    rw [List.forall_mem_cons]
    exact ⟨emitted_word rfl (by decide) _, ih (List.not_mem_of_not_mem_cons hend)⟩
  | argument text _ ih =>
    rw [List.forall_mem_cons, List.forall_mem_cons]
    exact ⟨emitted_bare rfl (by decide), emitted_word rfl (by decide) _,
      ih (List.not_mem_of_not_mem_cons hend)⟩
  | phrase _ _ ih =>
    rw [List.forall_mem_cons]
    refine ⟨emitted_word (shape_phraseTag game) (phraseTag_ne_endScript game) _, ih ?_⟩
    simp only [List.mem_cons, not_or] at hend
    exact hend.2.2.2.2
  | keyword _ hk _ ih =>
    rw [List.forall_mem_cons]
    refine ⟨emitted_bare (shape_of_keyword hk) ?_, ih (List.not_mem_of_not_mem_cons hend)⟩
    rintro rfl
    rw [eq_endScript_of_tag? hk] at hend
    exact hend List.mem_cons_self
  | tuple hi _ ih =>
    rw [List.forall_mem_cons]
    refine ⟨hi.emitted, ih ?_⟩
    simp only [List.mem_cons, List.mem_append, not_or] at hend
    exact hend.2.2
  | openParen _ _ ih =>
    rw [List.forall_mem_cons]
    exact ⟨emitted_bare rfl (by decide), ih (List.not_mem_of_not_mem_cons hend)⟩
  | closeParen _ ih =>
    rw [List.forall_mem_cons]
    exact ⟨emitted_bare rfl (by decide), ih (List.not_mem_of_not_mem_cons hend)⟩
  | mark hm _ ih =>
    rw [List.forall_mem_cons]
    obtain ⟨hshape, hne⟩ := shape_of_mark hm
    exact ⟨emitted_bare hshape hne, ih (List.not_mem_of_not_mem_cons hend)⟩

theorem Text.emitted {game : Game} {ts : List Token} {ns : List String} {ss : List Statement}
    (h : Text game ts ns ss) {k : Key} {is : List Instruction} (hmem : .script k is ∈ ss) :
    ∀ i ∈ is, Emitted i := by
  induction h with
  | nil => cases hmem
  | newLine _ ih => exact ih hmem
  | value _ v _ ih =>
    rcases List.mem_cons.mp hmem with he | hmem
    · cases he
    · exact ih hmem
  | script _ hend hbody _ ih =>
    rcases List.mem_cons.mp hmem with he | hmem
    · cases he
      exact hbody.emitted hend
    · exact ih hmem

theorem wellFormed_of_emitted {o : ByteOrder} {is : List Instruction}
    (h : ∀ i ∈ is, Emitted i) (hlength : (Instruction.encodeBody o is).length < 2 ^ 32) :
    ∀ i ∈ is, i.WellFormed ∧ i ≠ .bare .endScript := by
  intro i hi
  constructor
  · apply (h i hi).wellFormed
    rintro wide s rfl
    have := Instruction.utf8ByteSize_lt_length o hi
    omega
  · rintro rfl
    exact (h _ hi).ne_endScript rfl

end Statement

namespace Item

variable {o : ByteOrder} {d before after : List UInt8} {a : Nat}

theorem wordAt_of_eq {k : UInt32} (h : d = before ++ (o.encode 4 k.toNat ++ after))
    (ha : a = before.length) : wordAt o d a = k := by
  have hlt : k.toNat < 256 ^ 4 := k.toNat_lt
  subst h ha
  rw [wordAt, List.drop_left, List.take_left' (by simp), ByteOrder.decode_encode o hlt]
  simp

def encodeWords (o : ByteOrder) (ws : List UInt32) : List UInt8 :=
  ws.flatMap fun w => o.encode 4 w.toNat

@[simp] theorem length_encodeWords (ws : List UInt32) :
    (encodeWords o ws).length = 4 * ws.length := by
  induction ws with
  | nil => rfl
  | cons w ws ih =>
    simp only [encodeWords, List.flatMap_cons, List.length_append, ByteOrder.length_encode,
      List.length_cons] at ih ⊢
    omega

theorem wordAt_words {ws : List UInt32} (h : d = before ++ (encodeWords o ws ++ after))
    (ha : a = before.length) {n : Nat} {w : UInt32} (hw : ws[n]? = some w) :
    wordAt o d (a + 4 * n) = w := by
  induction ws generalizing before a n with
  | nil => cases hw
  | cons v ws ih =>
    have hfirst : d = before ++ (o.encode 4 v.toNat ++ (encodeWords o ws ++ after)) := by
      simp [h, encodeWords, List.append_assoc]
    have hlater : d = (before ++ o.encode 4 v.toNat) ++ (encodeWords o ws ++ after) := by
      rw [hfirst, List.append_assoc]
    cases n with
    | zero =>
      cases hw
      exact wordAt_of_eq hfirst ha
    | succ n =>
      have hrest := ih (a := a + 4) hlater (by simp [ha]) (by simpa using hw)
      rw [← hrest]
      congr 1
      omega

def words : Item → List UInt32
  | integer name container value => [name, container, value.toUInt32]
  | script s => [s.name, s.container, s.unknown.toUInt32, s.dummy, s.crc, s.fullSize,
      s.stored.length.toUInt32]
  | pointer name container target => [name, container, target]

def body : Item → List UInt8
  | script s => s.stored
  | _ => []

def Fits : Item → Prop
  | .script s => s.stored.length < 2 ^ 32
  | _ => True

theorem length_padding (n : Nat) : (padding n).length = (4 - n % 4) % 4 := by simp [padding]

theorem alignUp_add (h : a % 4 = 0) (n : Nat) :
    Cursor.alignUp 4 (a + n) = a + n + (4 - n % 4) % 4 := by
  unfold Cursor.alignUp
  split <;> omega

theorem length_encode_mod (o : ByteOrder) (i : Item) : (i.encode o).length % 4 = 0 := by
  cases i with
  | integer => simp [encode, quad]
  | pointer => simp [encode, quad]
  | script s =>
    simp only [encode, quad, List.length_append, List.length_cons, List.length_nil,
      ByteOrder.length_encode, length_padding]
    omega

theorem encode_eq (o : ByteOrder) {i : Item} (h : i.Fits) :
    i.encode o = quad i.kind ++ (encodeWords o i.words ++ (i.body ++ padding i.body.length)) := by
  cases i with
  | integer => simp [encode, encodeWords, words, body, padding]
  | pointer => simp [encode, encodeWords, words, body, padding]
  | script s =>
    have hsize : s.stored.length.toUInt32.toNat = s.stored.length := by
      simpa using Nat.mod_eq_of_lt h
    simp [encode, encodeWords, words, body, hsize]

theorem length_encode (o : ByteOrder) {i : Item} (h : i.Fits) : (i.encode o).length =
    4 + 4 * i.words.length + i.body.length + (4 - i.body.length % 4) % 4 := by
  rw [encode_eq o h]
  simp only [quad, List.length_append, length_encodeWords, length_padding, List.length_cons,
    List.length_nil]
  omega

theorem encode_split {i : Item} (hfits : i.Fits) (hd : d = before ++ (i.encode o ++ after)) :
    d = before ++ quad i.kind ++
      (encodeWords o i.words ++ (i.body ++ (padding i.body.length ++ after))) := by
  rw [hd, encode_eq o hfits]
  simp only [List.append_assoc]

theorem wordAt_encode {i : Item} (hfits : i.Fits) (hd : d = before ++ (i.encode o ++ after))
    (ha : a = before.length) {n : Nat} {w : UInt32} (hw : i.words[n]? = some w) :
    wordAt o d (a + 4 + 4 * n) = w :=
  wordAt_words (encode_split hfits hd) (by simp [ha, quad]) hw

theorem at_encode {i : Item} (hfits : i.Fits) (hd : d = before ++ (i.encode o ++ after))
    (ha : a = before.length) (halign : a % 4 = 0) :
    i.At o d a (a + (i.encode o).length) := by
  have hwords := encode_split hfits hd
  have hword {n : Nat} {w : UInt32} (hw : i.words[n]? = some w) :
      wordAt o d (a + 4 + 4 * n) = w :=
    wordAt_encode hfits hd ha hw
  have htag : d[a + 2]? = some i.kind.byte := by
    subst hwords ha
    simp [quad]
  have hencode := length_encode o hfits
  have hlength : d.length = a + (i.encode o).length + after.length := by
    rw [hd, ha, List.length_append, List.length_append, Nat.add_assoc]
  rw [hencode] at hlength ⊢
  cases i with
  | integer name container value =>
    simp only [words, body, List.length_cons, List.length_nil] at hlength ⊢
    have hat := At.integer (o := o) htag (by omega)
    rw [hword (n := 0) rfl, hword (n := 1) rfl, hword (n := 2) rfl] at hat
    simpa using hat
  | pointer name container target =>
    simp only [words, body, List.length_cons, List.length_nil] at hlength ⊢
    have hat := At.pointer (o := o) htag (by omega)
    rw [hword (n := 0) rfl, hword (n := 1) rfl, hword (n := 2) rfl] at hat
    simpa using hat
  | script s =>
    simp only [words, body, List.length_cons, List.length_nil] at hlength ⊢
    have hsize : s.stored.length = (wordAt o d (a + 28)).toNat := by
      rw [hword (n := 6) rfl]
      simpa using (Nat.mod_eq_of_lt hfits).symm
    have hstored : (d.drop (a + 32)).take s.stored.length = s.stored := by
      rw [← List.append_assoc] at hwords
      rw [hwords, List.drop_left' (by simp [ha, quad, words]), body, List.take_left]
    have hat := At.script (o := o) htag (by omega) hsize (by omega)
    rw [hword (n := 0) rfl, hword (n := 1) rfl, hword (n := 2) rfl, hword (n := 3) rfl,
      hword (n := 4) rfl, hword (n := 5) rfl, hstored, alignUp_add (by omega),
      Nat.min_eq_left (by omega), Int32.toInt32_toUInt32] at hat
    have hnext : a + 32 + s.stored.length + (4 - s.stored.length % 4) % 4 =
        a + (4 + 4 * (0 + 1 + 1 + 1 + 1 + 1 + 1 + 1) + s.stored.length +
          (4 - s.stored.length % 4) % 4) := by omega
    rwa [hnext] at hat

end Item

def Statement.Small : Statement → Prop
  | .value .. => True
  | .script _ is => (Instruction.encodeBody .big is).length < 2 ^ 32

namespace Compiled

variable {t : Target} {ss : List Statement}

theorem item_fits {s : Statement} (h : s.Small) : (item t s).Fits := by
  cases s with
  | value => trivial
  | script k is =>
    have hlength := Instruction.length_encodeBody t.order.inverse is
    simp only [Statement.Small] at h
    simp only [item, Item.Fits, hlength, h]

theorem expansion?_item {s : Statement} (h : s.Small) : (item t s).expansion? = none := by
  cases s with
  | value => rfl
  | script k is =>
    have hlt : (Instruction.encodeBody t.order.inverse is).length < 2 ^ 32 := item_fits (t := t) h
    simp only [item, Item.expansion?]
    rw [if_pos]
    simpa using Nat.mod_eq_of_lt hlt

theorem expandAll_items (x : Expander) (h : ∀ s ∈ ss, s.Small) :
    Contents.expandAll x (ss.map (item t)) = .ok (ss.map (item t)) := by
  induction ss with
  | nil => rfl
  | cons s ss ih =>
    obtain ⟨hs, hss⟩ := List.forall_mem_cons.mp h
    simp only [List.map_cons, Contents.expandAll, Item.expand, expansion?_item hs, ih hss,
      Except.map]

theorem expansions_items (x : Expander) (h : ∀ s ∈ ss, s.Small) :
    Contents.expansions x (ss.map (item t)) = [] := by
  induction ss with
  | nil => rfl
  | cons s ss ih =>
    obtain ⟨hs, hss⟩ := List.forall_mem_cons.mp h
    simp only [List.map_cons, Contents.expansions, expansion?_item hs, ih hss]

theorem readAll_items {d before : List UInt8} (h : ∀ s ∈ ss, s.Small)
    (hd : d = before ++ items t ss) (halign : before.length % 4 = 0) :
    Contents.readAll (ofBytes d t.order before.length) = ⟨ss.map (item t), none⟩ := by
  induction ss generalizing before with
  | nil => exact Contents.readAll_end (by simp [hd, items])
  | cons s ss ih =>
    obtain ⟨hs, hss⟩ := List.forall_mem_cons.mp h
    have hitems : items t (s :: ss) = (item t s).encode t.order ++ items t ss := by
      simp [items]
    rw [hitems] at hd
    have hat := Item.at_encode (item_fits hs) hd rfl halign
    have hmod := Item.length_encode_mod t.order (item t s)
    have hrest : Contents.readAll
        (ofBytes d t.order (before ++ (item t s).encode t.order).length) =
          ⟨ss.map (item t), none⟩ := by
      apply ih hss
      · rw [hd, List.append_assoc]
      · rw [List.length_append]
        omega
    rw [List.length_append] at hrest
    rw [Contents.readAll_at hat, hrest]
    rfl

theorem length_header (o : ByteOrder) (size : Nat) : (header o size).length = 28 := by
  simp [header]

theorem contents_bytes (indent : String) (h : ∀ s ∈ ss, s.Small) :
    Contents.ofBytes { order := t.order, indent } (bytes t ss) = ⟨ss.map (item t), none⟩ := by
  have hheader := length_header t.order (headerSize + (items t ss).length)
  have hread := readAll_items (t := t) (d := bytes t ss) h rfl (by rw [hheader])
  rw [hheader] at hread
  rw [Contents.ofBytes, if_neg (by simp [bytes, hheader]), hread]

theorem readable_bytes (r : Registry) (indent : String) (x : Expander) (h : ∀ s ∈ ss, s.Small) :
    Readable.ofBytes r { order := t.order, indent } x (bytes t ss) =
      .ok (Readable.text r { order := t.order, indent } (ss.map (item t))) := by
  rw [Readable.ofBytes, contents_bytes indent h, Contents.expanded, expandAll_items x h]
  rfl

theorem ofLexemes_eq_ok {ls : List Lexeme} {r : Registry} {file : List UInt8}
    (h : (ofLexemes t ls r).1 = .ok file) :
    ∃ ns ss, Statement.readAll t.game 0 ls = ⟨ns, .ok ss⟩ ∧ file = bytes t ss := by
  unfold ofLexemes at h
  cases hread : (Statement.readAll t.game 0 ls).outcome with
  | error e => simp [hread] at h
  | ok ss =>
    simp only [hread, Except.ok.injEq] at h
    exact ⟨_, ss, by rw [← hread], h.symm⟩

theorem ofLexemes_of_text {ls : List Lexeme} {ns : List String}
    (h : Statement.Text t.game (tokens ls) ns ss) (r : Registry) :
    ofLexemes t ls r = (.ok (bytes t ss), r.addAll ns) := by
  simp only [ofLexemes, h.readAll rfl]

theorem ofSource_eq {source : String} {ls : List Lexeme} {ns : List String}
    (hls : Source.lexemes source = .ok ls) (h : Statement.Text t.game (tokens ls) ns ss)
    (r : Registry) : ofSource t source r = (.ok (bytes t ss), r.addAll ns) := by
  simp only [ofSource, hls, ofLexemes_of_text h r]

theorem ofSource_eq_ok {source : String} {r : Registry} {file : List UInt8}
    (h : (ofSource t source r).1 = .ok file) :
    ∃ ls ns ss, Source.lexemes source = .ok ls ∧ Statement.Text t.game (tokens ls) ns ss ∧
      file = bytes t ss := by
  unfold ofSource at h
  split at h
  · cases h
  · rename_i ls hls
    obtain ⟨ns, ss, hread, rfl⟩ := ofLexemes_eq_ok h
    exact ⟨ls, ns, ss, hls, Statement.readAll_iff.mp hread, rfl⟩

/-- A compiled file is read under any registry and with any expander, which is never used. It holds
one item for each statement, and a walk through the body of a script meets the instructions that
were written, each with a known tag and where it was written, up to the end tag that is its last
byte. -/
theorem ofBytes_ofLexemes {ls : List Lexeme} {r : Registry} {file : List UInt8}
    (h : (ofLexemes t ls r).1 = .ok file)
    (hsmall : ∀ ss, (Statement.readAll t.game 0 ls).outcome = .ok ss → ∀ s ∈ ss, s.Small)
    (r' : Registry) (indent : String) (x : Expander) :
    ∃ ss, (Statement.readAll t.game 0 ls).outcome = .ok ss ∧
      Contents.ofBytes { order := t.order, indent } file = ⟨ss.map (item t), none⟩ ∧
      Readable.ofBytes r' { order := t.order, indent } x file =
        .ok (Readable.text r' { order := t.order, indent } (ss.map (item t))) ∧
      Readable.expansions { order := t.order, indent } x file = [] ∧
      ∀ k is, .script k is ∈ ss → ∀ body, body = Instruction.encodeBody t.order.inverse is →
        Instruction.walk t.order.inverse 0 body =
          (Instruction.located t.order.inverse 0 is, .endTag (body.length - 1) []) ∧
        Instruction.decodeBody t.order.inverse body = is ∧
        ∀ i ∈ is, i.tag?.isSome ∧ i.tag? ≠ some .endScript := by
  obtain ⟨ns, ss, hread, rfl⟩ := ofLexemes_eq_ok h
  have hss : ∀ s ∈ ss, s.Small := hsmall ss (by rw [hread])
  have hcontents := contents_bytes (t := t) indent hss
  refine ⟨ss, by rw [hread], hcontents, readable_bytes r' indent x hss, ?_, ?_⟩
  · rw [Readable.expansions, hcontents]
    exact expansions_items x hss
  · rintro k is hmem body rfl
    have hemitted := (Statement.readAll_iff.mp hread).emitted hmem
    have hlt : (Instruction.encodeBody t.order.inverse is).length < 2 ^ 32 := by
      rw [Instruction.length_encodeBody]
      exact hss _ hmem
    have hwell := Statement.wellFormed_of_emitted hemitted hlt
    refine ⟨?_, Instruction.decodeBody_encodeBody _ hwell, ?_⟩
    · simpa using Instruction.walk_encodeBody t.order.inverse 0 hwell
    · intro i hi
      exact ⟨(hemitted i hi).known, (hemitted i hi).ne_endScript⟩

theorem ofBytes_ofLexemes_text :
    ∃ file, (ofLexemes ⟨0, .big, .ghwt⟩ [⟨.keyword .script, 0⟩, ⟨.rawKey 1, 7⟩, ⟨.string "a", 12⟩,
        ⟨.keyword .endScript, 16⟩] {}).1 = .ok file ∧
      Contents.ofBytes { order := .big, indent := "" } file =
        ⟨[item ⟨0, .big, .ghwt⟩ (.script 1 [.text false "a\x00"])], none⟩ := by
  let ls : List Lexeme := [⟨.keyword .script, 0⟩, ⟨.rawKey 1, 7⟩, ⟨.string "a", 12⟩,
    ⟨.keyword .endScript, 16⟩]
  have hread : Statement.readAll .ghwt 0 ls = ⟨[], .ok [.script 1 [.text false "a\x00"]]⟩ := by rfl
  have hfile : (ofLexemes ⟨0, .big, .ghwt⟩ ls {}).1 =
      .ok (bytes ⟨0, .big, .ghwt⟩ [.script 1 [.text false "a\x00"]]) := by
    simp only [ofLexemes, hread]
  have hsmall : ∀ ss, (Statement.readAll .ghwt 0 ls).outcome = .ok ss → ∀ s ∈ ss, s.Small := by
    intro ss hss
    rw [hread] at hss
    cases hss
    simp only [List.mem_singleton, forall_eq]
    change (Instruction.encodeBody .big [.text false "a\x00"]).length < 2 ^ 32
    decide
  obtain ⟨ss, hss, hcontents, -⟩ :=
    ofBytes_ofLexemes hfile hsmall {} "" (fun _ => .error (.compile ""))
  rw [hread] at hss
  cases hss
  exact ⟨_, hfile, hcontents⟩

end Compiled

end QbCodec
