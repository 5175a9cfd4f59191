import QbCodec.Proofs.Script.Rereading

namespace QbCodec

open Source Layout

namespace Layout

variable {l : Layout} {as : List Action} {ts : List Token}

theorem atLineStart_leave (block : Block) (l : Layout) :
    (l.leave block).atLineStart = l.atLineStart := by
  unfold leave
  split
  · rfl
  · split <;> rfl

theorem act_eq (indent : List Char) {a : Action} (ha : a ≠ .newLine) (h : l.atLineStart = false) :
    l.act indent a = l.act [] a ∧ (l.act [] a).atLineStart = false := by
  have hwrite (depth : Nat) (p : Piece) (cs : List Char) :
      l.writeAt indent depth p cs = l.writeAt [] depth p cs ∧
        (l.writeAt [] depth p cs).atLineStart = false := by
    unfold writeAt
    simp [h]
  cases a with
  | newLine => exact absurd rfl ha
  | write p cs => exact hwrite _ p cs
  | writeOutdented p cs => exact hwrite _ p cs
  | enter block => exact ⟨rfl, h⟩
  | leave block => exact ⟨rfl, (atLineStart_leave block l).trans h⟩

theorem acts_eq (indent : List Char) (has : .newLine ∉ as) (h : l.atLineStart = false) :
    l.acts indent as = l.acts [] as := by
  induction as generalizing l with
  | nil => rfl
  | cons a as ih =>
    rw [List.mem_cons, not_or] at has
    obtain ⟨heq, hstart⟩ := act_eq indent (Ne.symm has.1) h
    rw [acts, List.foldl_cons, heq]
    exact ih has.2 hstart

theorem Spells.not_mem_newLine (has : Spells as ts) (hline : .mark .newLine ∉ ts) :
    .newLine ∉ as := by
  induction has with
  | nil => exact List.not_mem_nil
  | newLine _ _ => exact absurd List.mem_cons_self hline
  | enter _ ih => simpa using ih hline
  | leave _ ih => simpa using ih hline
  | write _ _ ih => simpa using ih fun hmem => hline (List.mem_append_right _ hmem)
  | writeOutdented _ _ ih => simpa using ih fun hmem => hline (List.mem_append_right _ hmem)

theorem exists_line (indent : List Char) (has : Spells as ts)
    (hseparate : ts.IsChain Token.Separate) (hline : .mark .newLine ∉ ts) :
    ∃ is, (acts indent {} as).text = inkText is ∧ Readable is ∧ inkTokens is = ts := by
  rw [acts_eq indent (has.not_mem_newLine hline) rfl]
  exact exists_text (by simp) has hseparate fun hlast => hline (List.mem_of_getLast? hlast)

end Layout

namespace Script

variable {r : Registry} {indent : List Char} {order : ByteOrder} {game : Game} {i : Instruction}
  {is : List Instruction} {as : List Action} {ts : List Token} {ns : List String}

def IsValue : Instruction → Prop
  | .word .integer _ | .word .hexInteger _ | .word .localString _ | .word .stringQs _ => True
  | .word .float v => Single.isFinite ⟨v⟩
  | .pair x y => x.isFinite ∧ y.isFinite
  | .vector x y z => x.isFinite ∧ y.isFinite ∧ z.isFinite
  | _ => False

def phraseTokens (k : Key) : List Token :=
  [.keyword .qs, .mark .openParen, .rawKey k, .mark .closeParen]

def tupleTokens (vs : List Single) : List Token := .mark .openParen :: inkTokens (tupleInks vs)

def valueTokens : Instruction → List Token
  | .word .integer v => [.int v.toInt32]
  | .word .hexInteger k => [.rawKey k]
  | .word .float v => [.float ⟨v⟩]
  | .word .localString k | .word .stringQs k => phraseTokens k
  | .pair x y => tupleTokens [x, y]
  | .vector x y z => tupleTokens [x, y, z]
  | _ => []

def returned (game : Game) : Instruction → Instruction
  | .word .hexInteger k => .word .name k
  | .word .localString k | .word .stringQs k => .word game.phraseTag k
  | i => i

theorem spells_value (h : IsValue i) (r : Registry) (asArgument : Bool) (rest : Spells as ts) :
    Spells (actions r asArgument i ++ as) (valueTokens i ++ ts) := by
  unfold IsValue at h
  split at h
  · exact spells_word rfl trivial rfl rest
  · exact spells_word rfl trivial rfl rest
  · exact spells_phrase _ rest
  · exact spells_phrase _ rest
  · exact spells_word rfl h rfl rest
  · exact spells_tuple (by simpa using h) rest
  · exact spells_tuple (by simpa using h) rest
  · cases h

theorem body_value (game : Game) (h : IsValue i) (rest : Statement.Body game 0 ts ns is) :
    Statement.Body game 0 (valueTokens i ++ ts) ns (returned game i :: is) := by
  unfold IsValue at h
  split at h
  · exact .int _ rest
  · exact .naming (.rawKey _) rest
  · exact .phrase (.rawKey _) rest
  · exact .phrase (.rawKey _) rest
  · exact .float _ rest
  · exact .tuple (.pair rfl rfl) rest
  · exact .tuple (.vector rfl rfl rfl) rest
  · cases h

theorem wellFormed_value (h : IsValue i) : i.WellFormed ∧ i ≠ .bare .endScript := by
  unfold IsValue at h
  split at h <;> first | exact ⟨rfl, by simp⟩ | exact ⟨trivial, by simp⟩ | cases h

theorem plain_valueTokens (i : Instruction) : ∀ t ∈ valueTokens i,
    isScriptBracket t = false ∧ t ≠ .mark .newLine ∧ t ≠ .mark .dot := by
  unfold valueTokens
  split <;> simp [phraseTokens, tupleTokens, tupleInks, isScriptBracket]

theorem separate_of_not_mem_dot (h : .mark .dot ∉ ts) : ts.IsChain Token.Separate := by
  induction ts with
  | nil => exact .nil
  | cons t ts ih =>
    rw [List.mem_cons, not_or] at h
    cases ts with
    | nil => exact .singleton t
    | cons u us =>
      refine .cons_cons ⟨fun he => absurd he.symm h.1, fun he => ?_⟩ (ih h.2)
      exact absurd (he ▸ List.mem_cons_self) h.2

theorem not_blank_of_token {js : List Ink} (h : Readable js) {t : Token} (ht : t ∈ inkTokens js)
    (hne : t ≠ .mark .newLine) : (inkText js).all Text.isBlank = false := by
  obtain ⟨j, hj, htoken⟩ := List.mem_filterMap.mp ht
  cases j with
  | blank c => cases htoken
  | token u =>
    cases htoken
    obtain ⟨c, cs, hcs, hblank, -⟩ := spelling_first (h.sound _ hj) hne
    rw [← Bool.not_eq_true]
    intro hall
    have hc : c ∈ inkText js := List.mem_flatMap.mpr ⟨_, hj, by simp [Ink.text, hcs]⟩
    rw [List.all_eq_true.mp hall c hc] at hblank
    cases hblank

theorem spells_values (h : ∀ i ∈ is, IsValue i) (r : Registry) (asArgument : Bool) :
    Spells (allActions r asArgument is) (is.flatMap valueTokens) := by
  induction is generalizing asArgument with
  | nil => exact .nil
  | cons i is ih =>
    obtain ⟨hi, his⟩ := List.forall_mem_cons.mp h
    rw [allActions, List.flatMap_cons]
    exact spells_value hi r asArgument (ih his _)

theorem body_values (game : Game) (h : ∀ i ∈ is, IsValue i) :
    Statement.Body game 0 (is.flatMap valueTokens) [] (is.map (returned game)) := by
  induction is with
  | nil => exact .nil
  | cons i is ih =>
    obtain ⟨hi, his⟩ := List.forall_mem_cons.mp h
    exact body_value game hi (ih his)

theorem exists_mem_valueTokens (h : IsValue i) : ∃ t, t ∈ valueTokens i := by
  apply List.exists_mem_of_ne_nil
  unfold IsValue at h
  split at h <;> first | exact List.cons_ne_nil _ _ | cases h

theorem exists_scan_values (h : ∀ i ∈ is, IsValue i) (r : Registry) (indent : List Char) :
    ∃ ls, scan (render r indent is) = .ok ls ∧ tokens ls = is.flatMap valueTokens := by
  have hplain : ∀ t ∈ is.flatMap valueTokens,
      isScriptBracket t = false ∧ t ≠ .mark .newLine ∧ t ≠ .mark .dot := by
    intro t ht
    obtain ⟨i, -, hi⟩ := List.mem_flatMap.mp ht
    exact plain_valueTokens i t hi
  obtain ⟨js, htext, hreadable, htokens⟩ := exists_line indent (spells_values h r false)
    (separate_of_not_mem_dot fun hmem => (hplain _ hmem).2.2 rfl)
    fun hmem => (hplain _ hmem).2.1 rfl
  rw [← render_eq] at htext
  rw [htext, ← htokens]
  rw [← htokens] at hplain
  cases is with
  | nil => exact ⟨[], by rw [← htext]; rfl, htokens.symm⟩
  | cons i is =>
    obtain ⟨t, ht⟩ := exists_mem_valueTokens (h i List.mem_cons_self)
    have hmem : t ∈ inkTokens js := by
      rw [htokens, List.flatMap_cons]
      exact List.mem_append_left _ ht
    apply scan_inks hreadable (openScripts_of_not_bracket 0 fun t ht => (hplain t ht).1)
    intro hall
    rw [not_blank_of_token hreadable hmem (hplain t hmem).2.1] at hall
    cases hall

theorem lexemes_spelling {t : Token} (h : Legible t) (hne : t ≠ .mark .newLine)
    (hbracket : isScriptBracket t = false) :
    (lexemes (String.ofList t.spelling)).map tokens = .ok [t] := by
  obtain ⟨ls, hls, htokens⟩ := scan_spelling h hne hbracket
  rw [lexemes_of_scan hls, ← htokens]
  rfl

theorem exists_tuple {us : List Token} (h : IsValue i)
    (hvalue : valueTokens i = .mark .openParen :: us) (hus : Statement.Tuple us i) (r : Registry)
    (indent : List Char) :
    ∃ l ls, lexemes (String.ofList (render r indent [i])) = .ok (l :: ls) ∧
      l.token = .mark .openParen ∧ Statement.tuple? ls = some (i, ls.length) := by
  have hall : ∀ j ∈ [i], IsValue j := fun j hj => List.mem_singleton.mp hj ▸ h
  obtain ⟨ls, hls, htokens⟩ := exists_scan_values hall r indent
  rw [List.flatMap_singleton, hvalue] at htokens
  obtain ⟨l, ls, rfl, hl, hrest⟩ := tokens_eq_cons htokens
  have htuple := Statement.tuple?_of_tuple hus (hrest.trans (List.append_nil us).symm)
  rw [← hrest, tokens, List.length_map] at htuple
  exact ⟨l, ls, lexemes_of_scan hls, hl, htuple⟩

/-- Numbers are written so that they are read back: a finite single as digits around a point, which
are scanned as the same single, also within a pair or a triple, and a whole number as a numeral. -/
theorem lexemes_numbers {x y z : Single} (hx : x.isFinite) (hy : y.isFinite) (hz : z.isFinite)
    (v : Int32) (r : Registry) (indent : List Char) :
    (∃ whole fraction, x.sourceText = x.sign ++ (whole ++ '.' :: fraction) ∧ whole ≠ [] ∧
        fraction ≠ [] ∧ whole.all Text.isDigit ∧ fraction.all Text.isDigit) ∧
      (lexemes (String.ofList x.sourceText)).map tokens = .ok [.float x] ∧
      (∃ l ls, lexemes (String.ofList (render r indent [.pair x y])) = .ok (l :: ls) ∧
        l.token = .mark .openParen ∧ Statement.tuple? ls = some (.pair x y, ls.length)) ∧
      (∃ l ls, lexemes (String.ofList (render r indent [.vector x y z])) = .ok (l :: ls) ∧
        l.token = .mark .openParen ∧ Statement.tuple? ls = some (.vector x y z, ls.length)) ∧
      (lexemes (String.ofList (Text.signedNumeral v.toInt))).map tokens = .ok [.int v] := by
  obtain ⟨whole, fraction, htext, hwhole, hfraction, hdigits, hdigits', -⟩ :=
    Single.sourceText_spec hx
  refine ⟨⟨whole, fraction, htext, hwhole, hfraction, hdigits, hdigits'⟩, ?_, ?_, ?_, ?_⟩
  · exact lexemes_spelling (t := .float x) hx (by simp) rfl
  · exact exists_tuple (i := .pair x y) ⟨hx, hy⟩ rfl (.pair rfl rfl) r indent
  · exact exists_tuple (i := .vector x y z) ⟨hx, hy, hz⟩ rfl (.vector rfl rfl rfl) r indent
  · exact lexemes_spelling (t := .int v) trivial (by simp) rfl

theorem lexemes_zero_least :
    (lexemes (String.ofList (Single.sourceText ⟨0x80000000⟩))).map tokens =
        .ok [.float ⟨0x80000000⟩] ∧
      (lexemes (String.ofList (Single.sourceText ⟨1⟩))).map tokens = .ok [.float ⟨1⟩] ∧
      ∃ l ls, lexemes (String.ofList (render {} [] [.pair ⟨0x80000000⟩ ⟨1⟩])) = .ok (l :: ls) ∧
        Statement.tuple? ls = some (.pair ⟨0x80000000⟩ ⟨1⟩, ls.length) := by
  have hzero : Single.isFinite ⟨0x80000000⟩ := by decide
  have hleast : Single.isFinite ⟨1⟩ := by decide
  obtain ⟨-, hnegative, ⟨l, ls, hls, -, htuple⟩, -⟩ := lexemes_numbers hzero hleast hzero 0 {} []
  obtain ⟨-, hsmall, -⟩ := lexemes_numbers hleast hleast hleast 0 {} []
  exact ⟨hnegative, hsmall, l, ls, hls, htuple⟩

def KeepsTag (game : Game) : Instruction → Prop
  | .word .hexInteger _ => False
  | .word .localString _ => game.phraseTag = .localString
  | .word .stringQs _ => game.phraseTag = .stringQs
  | _ => True

theorem returned_eq_self_iff (game : Game) (i : Instruction) :
    returned game i = i ↔ KeepsTag game i := by
  unfold returned KeepsTag
  split <;> simp

/-- A row of values is compiled from its text to values with the same operands. It is the same row
if and only if it has no key under the tag of a hexadecimal number, which comes back as a name, and
all its phrases have the tag of the game. -/
theorem recompile_values (h : ∀ i ∈ is, IsValue i) (game : Game) (r : Registry)
    (indent : List Char) (order : ByteOrder) :
    recompile game r indent order is = .ok (is.map (returned game)) ∧
      (recompile game r indent order is = .ok is ↔ ∀ i ∈ is, KeepsTag game i) := by
  obtain ⟨ls, hls, htokens⟩ := exists_scan_values h r indent
  have hreread := reread_of_scan order (fun i hi => wellFormed_value (h i hi)) hls
  rw [htokens] at hreread
  have hback := recompile_of_body hreread (body_values game h)
  refine ⟨hback, ?_⟩
  rw [hback, Except.ok.injEq]
  conv_lhs => rw [← List.map_id is, List.map_map, List.map_inj_left]
  exact forall₂_congr fun i _ => returned_eq_self_iff game i

theorem recompile_hexInteger :
    recompile .ghwt {} [] .big [.word .hexInteger 0x0000BEEF] = .ok [.word .name 0x0000BEEF] ∧
      recompile .ghwt {} [] .big [.word .hexInteger 0x0000BEEF] ≠
        .ok [.word .hexInteger 0x0000BEEF] := by
  have hvalue : ∀ i ∈ [Instruction.word .hexInteger 0x0000BEEF], IsValue i := by
    intro i hi
    rw [List.mem_singleton.mp hi]
    trivial
  obtain ⟨hback, hsame⟩ := recompile_values hvalue .ghwt {} [] .big
  exact ⟨hback, fun h => hsame.mp h _ List.mem_cons_self⟩

end Script

end QbCodec
