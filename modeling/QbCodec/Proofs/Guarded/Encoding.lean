import QbCodec.Bytes.Output
import QbCodec.Proofs.File.Coding
import QbCodec.Proofs.Guarded.Access
import QbCodec.Proofs.Key.Indexes

/-!
Encoding with guards. Lexemes are taken by their index, bodies and phrases are cut out of the row of
lexemes, the size of the file is patched into its header, and the registry counts a literal down when
its key gets another one. None of this leaves its bounds, whatever the lexemes are.
-/

namespace QbCodec.Guarded

open Source (byteCount byteCount_cons byteCount_append)
open Statement (Reading Fault isScriptEnd tuple?)
open Compiled (Target)

def andThen {α β : Type} (r : Reading α) (f : α → Option (Reading β)) : Option (Reading β) :=
  match r.outcome with
  | .error fault => some ⟨r.names, .error fault⟩
  | .ok a => (f a).map fun q => ⟨r.names ++ q.names, q.outcome⟩

def isCanonical? (text : String) : Option Bool :=
  if text.utf8ByteSize = 10 ∧ ['0', 'x'].isPrefixOf text.toList then do
    let digits ← span? 2 10 text.toList
    return digits.all Key.isCanonicalDigit
  else some false

def nameKey? (text : String) : Option (Reading Key) := do
  let canonical ← isCanonical? text
  return ⟨if canonical then [] else [text], .ok (Key.ofLiteral text)⟩

def lexemeKey? (l : Lexeme) : Option (Reading Key) :=
  match l.token with
  | .name text => nameKey? text
  | .rawKey k => some (.pure k)
  | token => some (.fail (.notAName token l.offset))

def phrase? (ts : List Lexeme) : Option (Option Key) :=
  match slice? 1 4 ts with
  | none => some none
  | some inner => do
    let a ← inner[0]?
    let b ← inner[1]?
    let c ← inner[2]?
    return match a.token, b.token, c.token with
      | .mark .openParen, .rawKey k, .mark .closeParen => some k
      | .mark .openParen, .string text, .mark .closeParen => some (Key.ofPhrase text)
      | .mark .openParen, .wideString text, .mark .closeParen => some (Key.ofPhrase text)
      | _, _, _ => none

def tupleSpan? (ts : List Lexeme) : Option (Instruction × Nat) :=
  (tuple? ts.tail).map fun (i, length) => (i, length + 1)

def write (i : Instruction) (out : Output) : Output := out.raw (i.encode out.order)

def encodeBody? (game : Game) (ts : List Lexeme) (index depth : Nat) (out : Output) :
    Option (Reading Output) :=
  if _ : index < ts.length then do
    let l ← ts[index]?
    let next := index + 1
    match l.token with
    | .int v => encodeBody? game ts next depth (write (.word .integer v.toUInt32) out)
    | .float v => encodeBody? game ts next depth (write (.word .float v.bits) out)
    | .string text => encodeBody? game ts next depth (write (.text false (Statement.stored text)) out)
    | .wideString text =>
      encodeBody? game ts next depth (write (.text true (Statement.stored text)) out)
    | .name _ | .rawKey _ => do
      let key ← lexemeKey? l
      andThen key fun k => encodeBody? game ts next depth (write (.word .name k) out)
    | .argument text => do
      let key ← nameKey? text
      andThen key fun k =>
        encodeBody? game ts next depth (write (.word .name k) (write (.bare .arg) out))
    | .keyword .qs => do
      let here ← minus? next 1
      let rest ← behind? here ts
      match ← phrase? rest with
      | some k => encodeBody? game ts (next + 3) depth (write (.word game.phraseTag k) out)
      | none => do
        let first ← rest[0]?
        return .fail (.phraseMalformed first.offset)
    | .keyword .script => some (.fail (.nested l.offset))
    | .keyword k =>
      match k.tag? with
      | some t => encodeBody? game ts next depth (write (.bare t) out)
      | none => encodeBody? game ts next depth out
    | .mark .openParen => do
      let here ← minus? next 1
      let rest ← behind? here ts
      match tupleSpan? rest with
      | some (i, length) => do
        let further ← minus? length 1
        encodeBody? game ts (next + further) depth (write i out)
      | none => encodeBody? game ts next (depth + 1) (write (.bare .openParen) out)
    | .mark .closeParen => encodeBody? game ts next (depth - 1) (write (.bare .closeParen) out)
    | .mark m =>
      match m.tag? (0 < depth) with
      | some t => encodeBody? game ts next depth (write (.bare t) out)
      | none => some (.fail (.notEncodable l.token l.offset))
  else some (.pure (write (.bare .endScript) out))
termination_by ts.length - index

def padTo? (alignment : Nat) (b : UInt8) (out : Output) : Option Output :=
  let extra := out.size % alignment
  if extra = 0 then some out
  else do
    let count ← minus? alignment extra
    return out.pad count b

def encodeValue? (t : Target) (ts : List Lexeme) (start : Nat) (out : Output) :
    Option (Reading (Nat × Output)) := do
  let first ← ts[start]?
  let key ← lexemeKey? first
  andThen key fun k =>
    match slice? (start + 1) (start + 3) ts with
    | none => some (.fail (.valueMissing first.offset))
    | some inner => do
      let a ← inner[0]?
      let b ← inner[1]?
      match a.token, b.token with
      | .mark .equals, .int v =>
        return .pure (start + 3, (((out.raw (Item.quad .integer)).u32 k).u32 t.container).i32 v)
      | _, _ => return .fail (.valueMissing first.offset)

def encodeScript? (t : Target) (ts : List Lexeme) (start : Nat) (out : Output) :
    Option (Reading (Nat × Output)) := do
  let first ← ts[start]?
  match ts[start + 1]? with
  | none => some (.fail (.nameMissing first.offset))
  | some name => do
    let key ← lexemeKey? name
    andThen key fun k => do
      let rest ← behind? (start + 2) ts
      match rest.findIdx? isScriptEnd with
      | none => some (.fail (.endMissing first.offset))
      | some length => do
        let last := start + 2 + length
        let inner ← slice? (start + 2) last ts
        let body ← encodeBody? t.game inner 0 0 (.empty t.order.inverse)
        andThen body fun body => do
          let named := ((out.raw (Item.quad .script)).u32 k).u32 t.container
          let checked := ((named.i32 0).u32 0).u32 (Bits.Crc32.checksum body.bytes)
          let sized := (checked.number 4 body.size).number 4 body.size
          let padded ← padTo? 4 0 (sized.raw body.bytes)
          return .pure (last + 1, padded)

def encodeAll? (t : Target) (ts : List Lexeme) (index : Nat) (out : Output) :
    Option (Reading Output) :=
  if _ : index < ts.length then do
    let l ← ts[index]?
    match l.token with
    | .mark .newLine => encodeAll? t ts (index + 1) out
    | .keyword .script => do
      let script ← encodeScript? t ts index out
      andThen script fun (next, out) =>
        if _ : index < next then encodeAll? t ts next out else none
    | .name _ | .rawKey _ => do
      let value ← encodeValue? t ts index out
      andThen value fun (next, out) =>
        if _ : index < next then encodeAll? t ts next out else none
    | token => some (.fail (.outsideScript token l.offset))
  else some (.pure out)
termination_by ts.length - index

def release? (literal : String) : List (String × Nat) → Option (List (String × Nat))
  | [] => some []
  | (t, n) :: rest =>
    if t = literal then do
      let left ← minus? n 1
      return if left = 0 then rest else (t, left) :: rest
    else (release? literal rest).map ((t, n) :: ·)

def assign? (r : Registry) (k : Key) (literal : String) : Option Registry :=
  let entries := Registry.setEntry k literal r.entries
  match r.resolve k with
  | none => some ⟨entries, Registry.acquire literal r.uses⟩
  | some previous =>
    if previous = literal then some ⟨entries, r.uses⟩
    else do
      let uses ← release? previous r.uses
      return ⟨entries, Registry.acquire literal uses⟩

def addAll? (r : Registry) (names : List String) : Option Registry :=
  names.foldlM (fun r name => assign? r (Key.ofName name) name) r

def ofLexemes? (t : Target) (ts : List Lexeme) (r : Registry) :
    Option (Except Failure (List UInt8) × Registry) := do
  let blank ← minus? Compiled.headerSize 8
  let header := (((Output.empty t.order).u32 0).u32 0).pad blank 0
  let reading ← encodeAll? t ts 0 header
  let known ← addAll? r reading.names
  match reading.outcome with
  | .error fault => return (.error (.compile fault.reason), known)
  | .ok out => do
    let file ← out.patch? 4 out.size.toUInt32
    return (.ok file.bytes, known)

theorem utf8Size_of_isCanonicalDigit {c : Char} (h : Key.isCanonicalDigit c) : c.utf8Size = 1 := by
  have hle : c.val ≤ 'F'.val := by
    simp only [Key.isCanonicalDigit, Bool.or_eq_true, Bool.and_eq_true, decide_eq_true_eq] at h
    rcases h with ⟨-, h⟩ | ⟨-, h⟩
    · exact UInt32.le_trans h (by decide)
    · exact h
  rw [Char.utf8Size, if_pos (UInt32.le_trans hle (by decide))]

theorem byteCount_of_canonical {digits : List Char} (h : digits.all Key.isCanonicalDigit) :
    byteCount digits = digits.length := by
  induction digits with
  | nil => rfl
  | cons c digits ih =>
    rw [List.all_cons, Bool.and_eq_true] at h
    rw [byteCount_cons, ih h.2, utf8Size_of_isCanonicalDigit h.1, List.length_cons, Nat.add_comm]

theorem isCanonical?_eq (text : String) : isCanonical? text = some (Key.isCanonical text) := by
  rw [isCanonical?, Key.isCanonical, ← Source.byteCount_toList]
  generalize text.toList = cs
  by_cases hmark : ['0', 'x'].isPrefixOf cs
  · obtain ⟨digits, rfl⟩ := List.isPrefixOf_iff_prefix.mp hmark
    have hcount : byteCount (['0', 'x'] ++ digits) = 2 + byteCount digits := byteCount_append _ _
    have hdigits : span? 2 (2 + byteCount digits) (['0', 'x'] ++ digits) = some digits := by
      have hspan := span?_append ['0', 'x'] digits []
      rwa [List.append_nil] at hspan
    have hlength : digits.all Key.isCanonicalDigit → (digits.length = 8 ↔ 2 + byteCount digits = 10) := by
      intro hall
      rw [byteCount_of_canonical hall]
      omega
    rw [hcount]
    change _ = some (digits.length == 8 && digits.all Key.isCanonicalDigit)
    split
    · rename_i h
      rw [← h.1, hdigits]
      cases hall : digits.all Key.isCanonicalDigit with
      | false => simp [hall]
      | true => simp [hall, (hlength hall).mpr h.1]
    · rename_i h
      cases hall : digits.all Key.isCanonicalDigit with
      | false => simp
      | true =>
        have hne : ¬ digits.length = 8 := fun h8 => h ⟨(hlength hall).mp h8, hmark⟩
        simp [hne]
  · rw [if_neg fun h => hmark h.2]
    unfold Key.isCanonicalText
    split
    · exact absurd rfl hmark
    · rfl

theorem nameKey?_eq (text : String) : nameKey? text = some (Statement.nameKey text) := by
  rw [nameKey?, isCanonical?_eq]
  rfl

theorem lexemeKey?_eq (l : Lexeme) : lexemeKey? l = some (Statement.lexemeKey l) := by
  obtain ⟨token, offset⟩ := l
  cases token with
  | name text => exact nameKey?_eq text
  | _ => rfl

theorem phrase?_cons (l : Lexeme) (rest : List Lexeme) :
    phrase? (l :: rest) = some (Statement.phrase? rest) := by
  match rest with
  | [] => rfl
  | [_] => rfl
  | [_, _] => rfl
  | a :: b :: c :: more =>
    have hslice : slice? 1 4 (l :: a :: b :: c :: more) = some [a, b, c] := by
      rw [slice?_of_le (by omega) (by simp)]
      rfl
    rw [phrase?, hslice]
    rfl

section

variable {α β γ : Type}

theorem andThen_eq {r : Reading α} {f : α → Option (Reading β)} {g : α → Reading β}
    (h : ∀ a, f a = some (g a)) : andThen r f = some (r.bind g) := by
  obtain ⟨names, outcome⟩ := r
  cases outcome with
  | error fault => rfl
  | ok a => simp [andThen, Reading.bind, h]

theorem andThen_pure (a : α) (f : α → Option (Reading β)) : andThen (.pure a) f = f a := by
  cases h : f a <;> simp [andThen, Reading.pure, h]

theorem andThen_map (r : Reading α) (f : α → β) (g : β → Option (Reading γ)) :
    andThen (r.map f) g = andThen r fun a => g (f a) := by
  obtain ⟨names, outcome⟩ := r
  cases outcome <;> rfl

theorem bind_assoc (r : Reading α) (f : α → Reading β) (g : β → Reading γ) :
    (r.bind f).bind g = r.bind fun a => (f a).bind g := by
  obtain ⟨names, outcome⟩ := r
  cases outcome with
  | error fault => rfl
  | ok a =>
    cases hf : (f a).outcome with
    | error fault => simp [Reading.bind, hf]
    | ok b => simp [Reading.bind, hf]

theorem map_bind (r : Reading α) (f : α → Reading β) (g : β → γ) :
    (r.bind f).map g = r.bind fun a => (f a).map g := by
  obtain ⟨names, outcome⟩ := r
  cases outcome with
  | error fault => rfl
  | ok a => rfl

theorem map_map (r : Reading α) (f : α → β) (g : β → γ) :
    (r.map f).map g = r.map fun a => g (f a) := by
  obtain ⟨names, outcome⟩ := r
  cases outcome <;> rfl

end

def ended (out : Output) (is : List Instruction) : Output :=
  out.raw (Instruction.encodeBody out.order is)

theorem ended_write (i : Instruction) (out : Output) :
    ended (write i out) = fun is => ended out (i :: is) := by
  funext is
  simp [ended, write, Output.raw, Instruction.encodeBody]

theorem exists_lexeme {ts : List Lexeme} {index : Nat} (h : index < ts.length) :
    ∃ l, ts[index]? = some l ∧ ts.drop index = l :: ts.drop (index + 1) :=
  ⟨ts[index], List.getElem?_eq_getElem h, List.drop_eq_getElem_cons h⟩

theorem encodeBody?_eq (game : Game) (ts : List Lexeme) (index depth : Nat) (out : Output) :
    encodeBody? game ts index depth out =
      some ((Statement.readBody game 0 depth (ts.drop index)).map (ended out)) := by
  induction hn : ts.length - index using Nat.strongRecOn generalizing index depth out with
  | _ n ih =>
    by_cases h : index < ts.length
    · obtain ⟨⟨token, offset⟩, hl, hdrop⟩ := exists_lexeme h
      have hrest (skip depth : Nat) (out : Output) :
          encodeBody? game ts (index + 1 + skip) depth out =
            some ((Statement.readBody game skip depth (ts.drop (index + 1))).map (ended out)) := by
        rw [ih _ (by omega) _ depth out rfl, Statement.readBody_skip game skip, List.drop_drop]
      have hwrite (i : Instruction) (skip depth : Nat) :
          encodeBody? game ts (index + 1 + skip) depth (write i out) =
            some (((Statement.readBody game skip depth (ts.drop (index + 1))).map (i :: ·)).map
              (ended out)) := by
        rw [hrest, map_map, ended_write]
      rw [encodeBody?, dif_pos h, hl, hdrop, Option.bind_eq_bind, Option.bind_some]
      cases token with
      | int v => exact hwrite _ 0 depth
      | float v => exact hwrite _ 0 depth
      | string text => exact hwrite _ 0 depth
      | wideString text => exact hwrite _ 0 depth
      | name text =>
        change (lexemeKey? ⟨.name text, offset⟩).bind _ =
          some (((Statement.nameKey text).bind fun k =>
            (Statement.readBody game 0 depth (ts.drop (index + 1))).map (.word .name k :: ·)).map
              (ended out))
        rw [lexemeKey?_eq, Option.bind_some, map_bind]
        exact andThen_eq fun k => hwrite _ 0 depth
      | argument text =>
        change (nameKey? text).bind _ =
          some (((Statement.nameKey text).bind fun k =>
            (Statement.readBody game 0 depth (ts.drop (index + 1))).map fun is =>
              .bare .arg :: .word .name k :: is).map (ended out))
        rw [nameKey?_eq, Option.bind_some, map_bind]
        refine andThen_eq fun k => ?_
        rw [map_map]
        refine (hrest 0 depth _).trans ?_
        rw [ended_write, ended_write]
      | rawKey k =>
        dsimp only
        rw [lexemeKey?_eq, Option.bind_eq_bind, Option.bind_some]
        exact (andThen_pure k _).trans (hwrite _ 0 depth)
      | keyword word =>
        cases word with
        | qs =>
          dsimp only
          simp only [minus?_of_le (Nat.le_add_left 1 index), Nat.add_sub_cancel,
            behind?_of_le (Nat.le_of_lt h), hdrop, phrase?_cons, Option.bind_eq_bind,
            Option.bind_some, Statement.readBody]
          cases Statement.phrase? (ts.drop (index + 1)) with
          | some k => exact hwrite _ 3 depth
          | none => rfl
        | script => rfl
        | _ => exact hwrite _ 0 depth
      | mark m =>
        cases m with
        | openParen =>
          dsimp only
          simp only [minus?_of_le (Nat.le_add_left 1 index), Nat.add_sub_cancel,
            behind?_of_le (Nat.le_of_lt h), hdrop, tupleSpan?, List.tail_cons, Option.bind_eq_bind,
            Option.bind_some, Statement.readBody]
          cases tuple? (ts.drop (index + 1)) with
          | some tuple => exact hwrite _ tuple.2 depth
          | none => exact hwrite _ 0 (depth + 1)
        | closeParen => exact hwrite _ 0 (depth - 1)
        | _ => exact hwrite _ 0 depth
    · rw [encodeBody?, dif_neg h, List.drop_eq_nil_of_le (by omega)]
      rfl

theorem padTo?_eq {alignment : Nat} (h : 0 < alignment) (b : UInt8) (out : Output) :
    padTo? alignment b out = some (out.padTo alignment b) := by
  have hlt := Nat.mod_lt out.size h
  unfold padTo? Output.padTo Output.gap
  dsimp only
  split
  · simp [Output.pad, Output.raw]
  · rw [minus?_of_le (by omega)]
    rfl

theorem lowFirst_mod (width n : Nat) :
    ByteOrder.lowFirst width (n % 256 ^ width) = ByteOrder.lowFirst width n := by
  induction width generalizing n with
  | zero => rfl
  | succ width ih =>
    have hbyte : (n % 256 ^ (width + 1)).toUInt8 = n.toUInt8 := by
      apply UInt8.toNat_inj.mp
      simp
    have hrest : n % 256 ^ (width + 1) / 256 = n / 256 % 256 ^ width := by
      rw [Nat.pow_succ, Nat.mul_comm]
      exact Nat.mod_mul_right_div_self ..
    rw [ByteOrder.lowFirst, ByteOrder.lowFirst, hbyte, hrest, ih]

theorem encode_toUInt32 (o : ByteOrder) (n : Nat) :
    o.encode 4 n.toUInt32.toNat = o.encode 4 n := by
  have hmod : n.toUInt32.toNat = n % 256 ^ 4 := by simp
  cases o <;> simp only [ByteOrder.encode, hmod, lowFirst_mod]

def filled (t : Target) (out : Output) (ss : List Statement) : Output :=
  out.raw (Compiled.items t ss)

variable {t : Target} {ts : List Lexeme} {out : Output} {start : Nat} {l : Lexeme}
  {rest : List Lexeme}

theorem value_eq (horder : out.order = t.order) (k : Key) (v : Int32) :
    (((out.raw (Item.quad .integer)).u32 k).u32 t.container).i32 v =
      filled t out [.value k v] := by
  simp [filled, Compiled.items, Compiled.item, Item.encode, Item.kind, Output.raw, Output.u32,
    Output.i32, Output.number, horder]

theorem script_eq (horder : out.order = t.order) (hsize : out.size % 4 = 0) (k : Key)
    (is : List Instruction) :
    let body := Instruction.encodeBody t.order.inverse is
    let named := ((out.raw (Item.quad .script)).u32 k).u32 t.container
    let checked := ((named.i32 0).u32 0).u32 (Bits.Crc32.checksum body)
    let sized := (checked.number 4 body.length).number 4 body.length
    (sized.raw body).padTo 4 0 = filled t out [.script k is] := by
  intro body named checked sized
  have hlength : (sized.raw body).size = out.size + 32 + body.length := by
    simp [sized, checked, named, Output.size, Output.raw, Output.u32, Output.i32, Output.number,
      Item.quad]
    omega
  have hgap : Output.gap 4 (out.size + 32 + body.length) = (4 - body.length % 4) % 4 := by
    unfold Output.gap
    split <;> omega
  rw [Output.padTo, hlength, hgap]
  simp [sized, checked, named, body, filled, Compiled.items, Compiled.item, Item.encode, Item.kind,
    Item.padding, Output.pad, Output.raw, Output.u32, Output.i32, Output.number, horder]
  simpa using (encode_toUInt32 t.order body.length).symm

theorem getElem?_of_drop (hdrop : ts.drop start = l :: rest) (n : Nat) :
    ts[start + n]? = (l :: rest)[n]? := by
  rw [← hdrop, List.getElem?_drop]

theorem length_of_drop (hdrop : ts.drop start = l :: rest) :
    ts.length = start + 1 + rest.length := by
  have hlength := congrArg List.length hdrop
  rw [List.length_drop, List.length_cons] at hlength
  omega

theorem drop_of_drop (hdrop : ts.drop start = l :: rest) (n : Nat) :
    ts.drop (start + 1 + n) = rest.drop n := by
  rw [← List.drop_drop, ← List.drop_drop, hdrop, List.drop_one, List.tail_cons]

theorem slice?_of_drop (hdrop : ts.drop start = l :: rest) (a b : Nat) :
    slice? (start + 1 + a) (start + 1 + b) ts = slice? a b rest := by
  unfold slice?
  rw [drop_of_drop hdrop, length_of_drop hdrop, Nat.add_sub_add_left]
  simp only [Nat.add_le_add_iff_left]

def valueAt (l : Lexeme) (rest : List Lexeme) : Reading (Statement × Nat) :=
  (Statement.lexemeKey l).bind fun k =>
    match rest with
    | a :: b :: _ =>
      match a.token, b.token with
      | .mark .equals, .int v => .pure (.value k v, 2)
      | _, _ => .fail (.valueMissing l.offset)
    | _ => .fail (.valueMissing l.offset)

def scriptAt (game : Game) (l : Lexeme) (rest : List Lexeme) : Reading (Statement × Nat) :=
  match rest with
  | [] => .fail (.nameMissing l.offset)
  | name :: more => (Statement.lexemeKey name).bind fun k =>
    match more.findIdx? isScriptEnd with
    | none => .fail (.endMissing l.offset)
    | some length => (Statement.readBody game 0 0 (more.take length)).bind fun is =>
        .pure (.script k is, length + 2)

def placed (t : Target) (out : Output) (start : Nat) (s : Statement × Nat) : Nat × Output :=
  (start + 1 + s.2, filled t out [s.1])

theorem encodeValue?_eq (horder : out.order = t.order) (hdrop : ts.drop start = l :: rest) :
    encodeValue? t ts start out = some ((valueAt l rest).map (placed t out start)) := by
  have hfirst : ts[start]? = some l := getElem?_of_drop hdrop 0
  have hslice : slice? (start + 1) (start + 3) ts = slice? 0 2 rest := slice?_of_drop hdrop 0 2
  rw [encodeValue?, hfirst, Option.bind_eq_bind, Option.bind_some, lexemeKey?_eq,
    Option.bind_eq_bind, Option.bind_some, valueAt, map_bind]
  refine andThen_eq fun k => ?_
  rw [hslice]
  match rest with
  | [] => rfl
  | [_] => rfl
  | ⟨a, _⟩ :: ⟨b, _⟩ :: more =>
    rw [slice?_of_le (by omega) (by simp)]
    cases a with
    | mark m =>
      cases m with
      | equals =>
        cases b with
        | int v => exact congrArg (fun o => some (Reading.pure (start + 3, o))) (value_eq horder k v)
        | _ => rfl
      | _ => rfl
    | _ => rfl

theorem encodeScript?_eq (horder : out.order = t.order) (hsize : out.size % 4 = 0)
    (hdrop : ts.drop start = l :: rest) :
    encodeScript? t ts start out = some ((scriptAt t.game l rest).map (placed t out start)) := by
  have hfirst : ts[start]? = some l := getElem?_of_drop hdrop 0
  have hname : ts[start + 1]? = rest.head? := (getElem?_of_drop hdrop 1).trans (by cases rest <;> rfl)
  rw [encodeScript?, hfirst, Option.bind_eq_bind, Option.bind_some, hname]
  cases rest with
  | nil => rfl
  | cons name more =>
    have hmore : ts.drop (start + 2) = more := drop_of_drop hdrop 1
    have hlength : ts.length = start + 1 + (more.length + 1) := length_of_drop hdrop
    dsimp only [List.head?_cons, scriptAt]
    rw [lexemeKey?_eq, Option.bind_eq_bind, Option.bind_some, map_bind]
    refine andThen_eq fun k => ?_
    rw [behind?_of_le (by omega), hmore, Option.bind_eq_bind, Option.bind_some]
    cases hend : more.findIdx? isScriptEnd with
    | none => rfl
    | some length =>
      have hlt : length < more.length := (List.findIdx?_eq_some_iff_getElem.mp hend).1
      have hinner : slice? (start + 2) (start + 2 + length) ts = some (more.take length) := by
        rw [slice?_of_le (by omega) (by omega), hmore, Nat.add_sub_cancel_left]
      dsimp only
      rw [hinner, Option.bind_eq_bind, Option.bind_some, encodeBody?_eq, Option.bind_eq_bind,
        Option.bind_some, List.drop_zero, andThen_map, map_bind]
      refine andThen_eq fun is => ?_
      have hnext : start + 2 + length + 1 = start + 1 + (length + 2) := by omega
      rw [padTo?_eq (by omega), Option.bind_some, hnext]
      exact congrArg (fun o => some (Reading.pure (start + 1 + (length + 2), o)))
        (script_eq horder hsize k is)

theorem readAll_value (game : Game)
    (h : (∃ text, l.token = .name text) ∨ ∃ k, l.token = .rawKey k) :
    Statement.readAll game 0 (l :: rest) =
      (valueAt l rest).bind fun s => (Statement.readAll game s.2 rest).map (s.1 :: ·) := by
  have hread : Statement.readAll game 0 (l :: rest) = (Statement.lexemeKey l).bind fun k =>
      match rest with
      | a :: b :: _ =>
        match a.token, b.token with
        | .mark .equals, .int v => (Statement.readAll game 2 rest).map (.value k v :: ·)
        | _, _ => .fail (.valueMissing l.offset)
      | _ => .fail (.valueMissing l.offset) := by
    obtain ⟨token, offset⟩ := l
    rcases h with ⟨text, rfl⟩ | ⟨k, rfl⟩ <;> rfl
  rw [hread, valueAt, bind_assoc]
  congr
  funext k
  match rest with
  | [] => rfl
  | [_] => rfl
  | a :: b :: more =>
    dsimp only
    split <;> rfl

theorem readAll_script (game : Game) (offset : Nat) :
    Statement.readAll game 0 (⟨.keyword .script, offset⟩ :: rest) =
      (scriptAt game ⟨.keyword .script, offset⟩ rest).bind fun s =>
        (Statement.readAll game s.2 rest).map (s.1 :: ·) := by
  cases rest with
  | nil => rfl
  | cons name more =>
    rw [scriptAt, bind_assoc]
    change (Statement.lexemeKey name).bind _ = _
    congr
    funext k
    cases more.findIdx? isScriptEnd with
    | none => rfl
    | some length =>
      dsimp only
      rw [bind_assoc]
      rfl

theorem filled_cons (s : Statement) :
    filled t (filled t out [s]) = fun ss => filled t out (s :: ss) := by
  funext ss
  simp [filled, Output.raw, Compiled.items]

theorem size_filled (s : Statement) (h : out.size % 4 = 0) :
    (filled t out [s]).size % 4 = 0 := by
  have hitem := Item.length_encode_mod t.order (Compiled.item t s)
  simp only [Output.size] at h
  simp only [filled, Output.raw, Output.size, Compiled.items, List.flatMap_singleton,
    List.length_append]
  omega

theorem encodeAll?_eq (horder : out.order = t.order) (hsize : out.size % 4 = 0) (index : Nat) :
    encodeAll? t ts index out =
      some ((Statement.readAll t.game 0 (ts.drop index)).map (filled t out)) := by
  induction hn : ts.length - index using Nat.strongRecOn generalizing index out with
  | _ n ih =>
    by_cases h : index < ts.length
    · obtain ⟨l, hl, hdrop⟩ := exists_lexeme h
      -- Behind one statement the rest is encoded, with the induction hypothesis.
      have hstatement (q : Reading (Statement × Nat)) :
          (andThen (q.map (placed t out index)) fun (next, out) =>
            if _ : index < next then encodeAll? t ts next out else none) =
          some ((q.bind fun s =>
            (Statement.readAll t.game s.2 (ts.drop (index + 1))).map (s.1 :: ·)).map
              (filled t out)) := by
        rw [andThen_map, map_bind]
        refine andThen_eq fun s => ?_
        have hfurther : index < index + 1 + s.2 := by omega
        change (if _ : index < index + 1 + s.2 then _ else none) = _
        have hlt : ts.length - (index + 1 + s.2) < n := by omega
        have horder' : (filled t out [s.1]).order = t.order := horder
        rw [dif_pos hfurther, ih _ hlt horder' (size_filled s.1 hsize) _ rfl, map_map,
          Statement.readAll_skip t.game s.2, List.drop_drop, filled_cons]
      rw [encodeAll?, dif_pos h, hl, hdrop, Option.bind_eq_bind, Option.bind_some]
      obtain ⟨token, offset⟩ := l
      cases token with
      | name text =>
        dsimp only
        rw [encodeValue?_eq horder hdrop, readAll_value t.game (.inl ⟨text, rfl⟩)]
        exact hstatement _
      | rawKey k =>
        dsimp only
        rw [encodeValue?_eq horder hdrop, readAll_value t.game (.inr ⟨k, rfl⟩)]
        exact hstatement _
      | keyword word =>
        cases word with
        | script =>
          dsimp only
          rw [encodeScript?_eq horder hsize hdrop, readAll_script]
          exact hstatement _
        | _ => rfl
      | mark m =>
        cases m with
        | newLine => exact ih _ (by omega) horder hsize (index + 1) rfl
        | _ => rfl
      | _ => rfl
    · rw [encodeAll?, dif_neg h, List.drop_eq_nil_of_le (by omega)]
      simp [Statement.readAll, Reading.map, Reading.pure, Except.map, filled, Output.raw,
        Compiled.items]

def Counted (uses : List (String × Nat)) : Prop := ∀ e ∈ uses, 0 < e.2

section

variable {uses : List (String × Nat)} {r : Registry}

theorem counted_acquire (h : Counted uses) (literal : String) :
    Counted (Registry.acquire literal uses) := by
  induction uses with
  | nil => simp [Counted, Registry.acquire]
  | cons e uses ih =>
    obtain ⟨hhead, htail⟩ := List.forall_mem_cons.mp h
    rw [Registry.acquire]
    split
    · exact List.forall_mem_cons.mpr ⟨Nat.succ_pos _, htail⟩
    · exact List.forall_mem_cons.mpr ⟨hhead, ih htail⟩

theorem counted_release (h : Counted uses) (literal : String) :
    Counted (Registry.release literal uses) := by
  induction uses with
  | nil => exact h
  | cons e uses ih =>
    obtain ⟨hhead, htail⟩ := List.forall_mem_cons.mp h
    rw [Registry.release]
    split
    · split
      · exact htail
      · exact List.forall_mem_cons.mpr ⟨by dsimp only; omega, htail⟩
    · exact List.forall_mem_cons.mpr ⟨hhead, ih htail⟩

theorem release?_eq (h : Counted uses) (literal : String) :
    release? literal uses = some (Registry.release literal uses) := by
  induction uses with
  | nil => rfl
  | cons e uses ih =>
    obtain ⟨text, n⟩ := e
    obtain ⟨hhead, htail⟩ := List.forall_mem_cons.mp h
    rw [release?, Registry.release, ih htail, minus?_of_le hhead]
    split
    · have hlast : n - 1 = 0 ↔ n ≤ 1 := by omega
      simp only [Option.bind_eq_bind, Option.bind_some, hlast]
      rfl
    · rfl

theorem counted_assign (h : Counted r.uses) (k : Key) (literal : String) :
    Counted (r.assign k literal).uses := by
  unfold Registry.assign
  dsimp only
  split
  · exact counted_acquire h literal
  · split
    · exact h
    · exact counted_acquire (counted_release h _) literal

theorem assign?_eq (h : Counted r.uses) (k : Key) (literal : String) :
    assign? r k literal = some (r.assign k literal) := by
  unfold assign? Registry.assign
  dsimp only
  cases r.resolve k with
  | none => rfl
  | some previous =>
    dsimp only
    split
    · rfl
    · rw [release?_eq h]
      rfl

theorem addAll?_eq (h : Counted r.uses) (names : List String) :
    addAll? r names = some (r.addAll names) := by
  induction names generalizing r with
  | nil => rfl
  | cons name names ih =>
    rw [addAll?, List.foldlM_cons, assign?_eq h]
    exact ih (counted_assign h (Key.ofName name) name)

theorem counted_ofChanges (cs : List Registry.Change) : Counted (Registry.ofChanges cs).uses := by
  have from_any (r : Registry) (h : Counted r.uses) (ws : List (Key × String)) :
      Counted (r.assignAll ws).uses := by
    induction ws generalizing r with
    | nil => exact h
    | cons w ws ih => exact ih _ (counted_assign h w.1 w.2)
  rw [Registry.ofChanges_eq_assignAll]
  exact from_any _ (fun e he => absurd he List.not_mem_nil) _

def blankHeader (o : ByteOrder) : Output := ⟨List.replicate 28 0, o⟩

theorem blankHeader_eq (o : ByteOrder) :
    (((Output.empty o).u32 0).u32 0).pad 20 0 = blankHeader o := by
  cases o <;> rfl

theorem patch?_filled (t : Target) (ss : List Statement) :
    let out := filled t (blankHeader t.order) ss
    out.patch? 4 out.size.toUInt32 = some ⟨Compiled.bytes t ss, t.order⟩ := by
  intro out
  have hbytes : out.bytes = List.replicate 28 0 ++ Compiled.items t ss := rfl
  have hsize : out.size = Compiled.headerSize + (Compiled.items t ss).length := by
    rw [Output.size, hbytes, List.length_append, List.length_replicate, Compiled.headerSize]
  have hfits : 4 + 4 ≤ out.size := by
    rw [hsize, Compiled.headerSize]
    omega
  rw [Output.patch?, if_pos hfits, encode_toUInt32, hbytes, hsize]
  simp [Compiled.bytes, Compiled.header, out, filled, blankHeader, Output.raw]

theorem ofLexemes?_eq (h : Counted r.uses) (t : Target) (ts : List Lexeme) :
    ofLexemes? t ts r = some (Compiled.ofLexemes t ts r) := by
  have hsize : (blankHeader t.order).size % 4 = 0 := by simp [blankHeader, Output.size]
  have hread : encodeAll? t ts 0 (blankHeader t.order) =
      some ((Statement.readAll t.game 0 ts).map (filled t (blankHeader t.order))) :=
    encodeAll?_eq rfl hsize 0
  rw [ofLexemes?, minus?_of_le (by decide), Option.bind_eq_bind, Option.bind_some]
  dsimp only
  change ((encodeAll? t ts 0 ((((Output.empty t.order).u32 0).u32 0).pad 20 0)).bind _) = _
  rw [blankHeader_eq, hread, Option.bind_some, Compiled.ofLexemes]
  obtain ⟨names, outcome⟩ := Statement.readAll t.game 0 ts
  change (addAll? r names).bind _ = _
  rw [addAll?_eq h, Option.bind_some]
  cases outcome with
  | error fault => rfl
  | ok ss =>
    change ((filled t (blankHeader t.order) ss).patch? 4 _).bind _ = _
    rw [patch?_filled, Option.bind_some]
    rfl

end

end QbCodec.Guarded
