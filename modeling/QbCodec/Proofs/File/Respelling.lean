import Mathlib.Data.List.Forall2
import QbCodec.Proofs.File.Acceptance
import QbCodec.Proofs.Script.Spelling

namespace QbCodec

open Source Layout Script

namespace Source

structure IsName (text : String) : Prop where
  chars : text.toList.all isNameChar
  first : ∃ c cs, text.toList = c :: cs ∧ Text.isDigit c = false
  not_keyword : Keyword.ofWord? text = none

def isIdentifier (text : String) : Bool :=
  text.toList.all isNameChar && text.toList.head?.any fun c => !Text.isDigit c

variable {text : String}

theorem isIdentifier_iff : isIdentifier text ↔
    text.toList.all isNameChar ∧ ∃ c cs, text.toList = c :: cs ∧ Text.isDigit c = false := by
  rw [isIdentifier, Bool.and_eq_true]
  refine and_congr_right fun _ => ?_
  cases text.toList <;> simp

theorem isName_of_isIdentifier (h : isIdentifier text) (hkeyword : Keyword.ofWord? text = none) :
    IsName text :=
  ⟨(isIdentifier_iff.mp h).1, (isIdentifier_iff.mp h).2, hkeyword⟩

theorem not_int_of_isIdentifier (h : isIdentifier text) : text.toList.all isIntChar = false := by
  obtain ⟨hchars, c, cs, htext, hdigit⟩ := isIdentifier_iff.mp h
  rw [htext, List.all_cons, Bool.and_eq_true] at hchars
  have hminus : c ≠ '-' := ne_of_isNameChar hchars.1 (by decide)
  rw [htext, List.all_cons, isIntChar, hdigit]
  simp [hminus]

theorem IsName.isWord (h : IsName text) : IsWord text :=
  ⟨h.chars, not_int_of_isIdentifier (isIdentifier_iff.mpr ⟨h.chars, h.first⟩), h.not_keyword⟩

theorem IsName.not_canonical (h : IsName text) : Key.isCanonical text = false := by
  obtain ⟨c, cs, htext, hdigit⟩ := h.first
  rw [Key.isCanonical, htext]
  unfold Key.isCanonicalText
  split
  · rename_i digits heq
    rw [(List.cons.inj heq).1] at hdigit
    cases hdigit
  · rfl

theorem IsName.key (h : IsName text) : Key.ofLiteral text = Key.ofName text :=
  Key.ofLiteral_eq_ofName h.not_canonical

theorem IsName.newNames (h : IsName text) : Statement.newNames text = [text] := by
  rw [Statement.newNames, h.not_canonical]
  rfl

end Source

namespace Registry

variable {r : Registry} {k : Key} {literal : String}

def IsFaithfulAt (r : Registry) (k : Key) : Prop :=
  ∀ literal, r.resolve k = some literal → Key.ofName literal = k ∧ IsName literal

def IsFaithful (r : Registry) : Prop :=
  ∀ k literal, r.resolve k = some literal → Key.ofName literal = k ∧ IsName literal

theorem isFaithful_addAll {names : List String} (h : ∀ n ∈ names, IsName n) :
    (({} : Registry).addAll names).IsFaithful := by
  intro k literal hk
  rcases of_resolve_addAll hk with hnone | ⟨hmem, hkey⟩
  · rw [resolve_empty] at hnone
    cases hnone
  · exact ⟨hkey, h literal hmem⟩

def nameToken (r : Registry) (k : Key) : Token :=
  match r.resolve k with
  | some literal => .name literal
  | none => .rawKey k

theorem spelling_nameToken (r : Registry) (k : Key) : (r.nameToken k).spelling = r.keyText k := by
  unfold nameToken keyText
  cases r.resolve k <;> rfl

theorem nameToken_cases (h : r.IsFaithfulAt k) :
    (∃ literal, r.resolve k = some literal ∧ r.nameToken k = .name literal ∧
      Key.ofName literal = k ∧ IsName literal) ∨
    r.resolve k = none ∧ r.nameToken k = .rawKey k := by
  unfold nameToken
  cases hk : r.resolve k with
  | none => exact .inr ⟨rfl, rfl⟩
  | some literal =>
    left
    exact ⟨literal, rfl, rfl, h literal hk⟩

theorem legible_nameToken (h : r.IsFaithfulAt k) : Legible (r.nameToken k) := by
  rcases nameToken_cases h with ⟨literal, -, htoken, -, hname⟩ | ⟨-, htoken⟩ <;> rw [htoken]
  · exact hname.isWord
  · trivial

theorem naming_nameToken (h : r.IsFaithfulAt k) :
    Statement.Naming (r.nameToken k) (r.resolve k).toList k := by
  rcases nameToken_cases h with ⟨literal, hk, htoken, hkey, hname⟩ | ⟨hk, htoken⟩
  · rw [hk, htoken]
    have := Statement.Naming.name literal
    rwa [hname.newNames, hname.key, hkey] at this
  · rw [hk, htoken]
    exact .rawKey k

end Registry

namespace Source

structure Respells (a b : Token) : Prop where
  legible : Legible b
  name : ∀ text, b = .name text → IsName text
  number : b.isNumber → a.isNumber
  int : ∀ v, b = .int v → a = .int v
  mark : ∀ m, b = .mark m ↔ a = .mark m
  keyword : ∀ k, b = .keyword k ↔ a = .keyword k

theorem respells_self {t : Token} (h : Legible t) (hname : ∀ text, t = .name text → IsName text) :
    Respells t t :=
  ⟨h, hname, id, fun _ => id, fun _ => Iff.rfl, fun _ => Iff.rfl⟩

theorem respells_mark (m : Mark) : Respells (.mark m) (.mark m) :=
  respells_self trivial fun _ h => by cases h

theorem respells_keyword (k : Keyword) : Respells (.keyword k) (.keyword k) :=
  respells_self trivial fun _ h => by cases h

theorem isNumber_iff {t : Token} : t.isNumber ↔ ∃ x, Statement.number? t = some x := by
  cases t <;> simp [Token.isNumber, Statement.number?]

theorem respells_number {t : Token} {x : Single} (h : Statement.number? t = some x)
    (hx : x.isFinite) : Respells t (.float x) := by
  refine ⟨hx, by simp, fun _ => isNumber_iff.mpr ⟨x, h⟩, by simp, ?_, ?_⟩ <;>
  · intro _
    refine ⟨fun he => (by cases he), ?_⟩
    rintro rfl
    cases h

theorem respells_name {r : Registry} (hr : r.IsFaithful) {t : Token} {ns : List String} {k j : Key}
    (h : Statement.Naming t ns j) : Respells t (r.nameToken k) := by
  have hlegible := Registry.legible_nameToken (hr k)
  rcases Registry.nameToken_cases (hr k) with ⟨literal, -, htoken, -, hname⟩ | ⟨-, htoken⟩ <;>
    rw [htoken] at hlegible ⊢
  · refine ⟨hlegible, ?_, fun hn => (by cases hn), by simp, ?_, ?_⟩
    · rintro text ⟨⟩
      exact hname
    · cases h <;> simp
    · cases h <;> simp
  · refine ⟨hlegible, by simp, fun hn => (by cases hn), by simp, ?_, ?_⟩
    · cases h <;> simp
    · cases h <;> simp

/-- No number or point stands where it would join the two. -/
def Apart (t u : Token) : Prop :=
  (t = .mark .dot → u.isNumber = false) ∧ (u = .mark .dot → ∀ v, t ≠ .int v)

theorem Respells.separate {a b c d : Token} (hab : Respells a b) (hcd : Respells c d)
    (h : Apart a c) : Token.Separate b d := by
  constructor
  · intro hdot e he
    have hnumber := h.1 ((hab.mark .dot).mp hdot)
    by_cases hne : d = .mark .newLine
    · subst hne
      cases he
      rfl
    · obtain ⟨e', es, hes, -, -, hdigit⟩ := spelling_first hcd.legible hne
      rw [hes] at he
      cases he
      rw [← Bool.not_eq_true]
      intro htrue
      rcases hdigit htrue with hd | ⟨text, rfl⟩
      · rw [hcd.number hd] at hnumber
        cases hnumber
      · obtain ⟨f, fs, hfs, hfirst⟩ := (hcd.name text rfl).first
        rw [Token.spelling, hfs] at hes
        cases hes
        rw [hfirst] at htrue
        cases htrue
  · rintro hdot v rfl
    exact h.2 ((hcd.mark .dot).mp hdot) v (hab.int v rfl)

theorem separate_of_respells {ts us : List Token} (h : List.Forall₂ Respells ts us)
    (hts : ts.IsChain Apart) : us.IsChain Token.Separate := by
  induction h with
  | nil => exact .nil
  | cons hab hrest ih =>
    cases hrest with
    | nil => exact .singleton _
    | cons hcd hrest =>
      rw [List.isChain_cons_cons] at hts
      exact .cons_cons (hab.separate hcd hts.1) (ih hts.2)

end Source

namespace Statement

variable {r : Registry} {game : Game} {depth : Nat} {ts us : List Token} {ns : List String}
  {is : List Instruction}

theorem exists_tuple_of_respells {vs rest : List Token} {i : Instruction} (hv : Tuple vs i)
    (h : List.Forall₂ Respells ts (vs ++ rest)) :
    ∃ ws j after, Tuple ws j ∧ ts = ws ++ after := by
  have of_number {a b : Token} {x : Single} (hab : Respells a b) (hb : number? b = some x) :
      ∃ y, number? a = some y := isNumber_iff.mp (hab.number (isNumber_iff.mpr ⟨x, hb⟩))
  cases hv with
  | pair ha hb =>
    obtain ⟨a, ts₁, haa, h₁, rfl⟩ := List.forall₂_cons_right_iff.mp h
    obtain ⟨c, ts₂, hc, h₂, rfl⟩ := List.forall₂_cons_right_iff.mp h₁
    obtain ⟨b, ts₃, hbb, h₃, rfl⟩ := List.forall₂_cons_right_iff.mp h₂
    obtain ⟨d, ts₄, hd, -, rfl⟩ := List.forall₂_cons_right_iff.mp h₃
    obtain ⟨x, hx⟩ := of_number haa ha
    obtain ⟨y, hy⟩ := of_number hbb hb
    have hcomma := (hc.mark .comma).mp rfl
    have hclose := (hd.mark .closeParen).mp rfl
    subst hcomma hclose
    exact ⟨_, _, ts₄, .pair hx hy, rfl⟩
  | vector ha hb hz =>
    obtain ⟨a, ts₁, haa, h₁, rfl⟩ := List.forall₂_cons_right_iff.mp h
    obtain ⟨c, ts₂, hc, h₂, rfl⟩ := List.forall₂_cons_right_iff.mp h₁
    obtain ⟨b, ts₃, hbb, h₃, rfl⟩ := List.forall₂_cons_right_iff.mp h₂
    obtain ⟨d, ts₄, hd, h₄, rfl⟩ := List.forall₂_cons_right_iff.mp h₃
    obtain ⟨e, ts₅, hee, h₅, rfl⟩ := List.forall₂_cons_right_iff.mp h₄
    obtain ⟨f, ts₆, hf, -, rfl⟩ := List.forall₂_cons_right_iff.mp h₅
    obtain ⟨x, hx⟩ := of_number haa ha
    obtain ⟨y, hy⟩ := of_number hbb hb
    obtain ⟨z, hz'⟩ := of_number hee hz
    have hcomma := (hc.mark .comma).mp rfl
    have hcomma' := (hd.mark .comma).mp rfl
    have hclose := (hf.mark .closeParen).mp rfl
    subst hcomma hcomma' hclose
    exact ⟨_, _, ts₆, .vector hx hy hz', rfl⟩

def keyNames (r : Registry) : Instruction → List String
  | .word .name k => (r.resolve k).toList
  | _ => []

def literals (r : Registry) (is : List Instruction) : List String := is.flatMap (keyNames r)

def Plain : Token → Prop
  | .float v => v.isFinite
  | .string text =>
    isStringText text ∧ text.toList.getLast? ≠ some '\\' ∧ text.toList.getLast? ≠ some '\x00'
  | .wideString text => isStringText text ∧ text.toList.getLast? ≠ some '\x00'
  | .name text | .argument text => IsName text
  | .keyword .endScript => False
  | _ => True

structure Written (r : Registry) (game : Game) (depth : Nat) (ts us : List Token)
    (is : List Instruction) : Prop where
  body : Body game depth us (literals r is) is
  respells : List.Forall₂ Respells ts us
  spells : Spells (allActions r false is) us

theorem isFinite_number {t : Token} {x : Single} (ht : Plain t) (h : number? t = some x) :
    x.isFinite := by
  cases t with
  | int v =>
    cases h
    apply Single.isFinite_ofInt
    have hlow := v.le_toInt
    have hhigh := v.toInt_lt
    omega
  | float v =>
    cases h
    exact ht
  | _ => cases h

theorem respells_phrase {p : Token} {k j : Key} (h : Phrase p k) : Respells p (.rawKey j) := by
  refine ⟨trivial, by simp, fun hn => (by cases hn), by simp, ?_, ?_⟩ <;> cases h <;> simp

theorem respells_argument (text : String) {literal : String} (h : IsName literal) :
    Respells (.argument text) (.argument literal) := by
  refine ⟨⟨?_, h.chars⟩, by simp, fun hn => (by cases hn), by simp, by simp, by simp⟩
  rintro rfl
  obtain ⟨c, cs, hempty, -⟩ := h.first
  cases hempty

def numberTokens (vs : List Single) : List Token := inkTokens (tupleInks vs)

theorem Tuple.written {vs : List Token} {i : Instruction} (h : Tuple vs i)
    (hplain : ∀ t ∈ vs, Plain t) :
    ∃ ws, Tuple ws i ∧ List.Forall₂ Respells vs ws ∧ keyNames r i = [] ∧
      ∀ b as ts, Spells as ts →
        Spells (actions r b i ++ as) (.mark .openParen :: (ws ++ ts)) ∧ marksArgument b i = b := by
  cases h with
  | @pair a b x y ha hb =>
    have hx : x.isFinite := isFinite_number (hplain a (by simp)) ha
    have hy : y.isFinite := isFinite_number (hplain b (by simp)) hb
    refine ⟨numberTokens [x, y], .pair rfl rfl, ?_, rfl, ?_⟩
    · exact .cons (respells_number ha hx) (.cons (respells_mark _)
        (.cons (respells_number hb hy) (.cons (respells_mark _) .nil)))
    · intro b as ts h
      exact ⟨spells_tuple (by simp [hx, hy]) h, rfl⟩
  | @vector a b c x y z ha hb hc =>
    have hx : x.isFinite := isFinite_number (hplain a (by simp)) ha
    have hy : y.isFinite := isFinite_number (hplain b (by simp)) hb
    have hz : z.isFinite := isFinite_number (hplain c (by simp)) hc
    refine ⟨numberTokens [x, y, z], .vector rfl rfl rfl, ?_, rfl, ?_⟩
    · exact .cons (respells_number ha hx) (.cons (respells_mark _)
        (.cons (respells_number hb hy) (.cons (respells_mark _)
          (.cons (respells_number hc hz) (.cons (respells_mark _) .nil)))))
    · intro b as ts h
      exact ⟨spells_tuple (by simp [hx, hy, hz]) h, rfl⟩

theorem marksArgument_tag {t : Tag} (h : t ≠ .arg) (asArgument : Bool) :
    marksArgument asArgument (.bare t) = asArgument := by
  unfold marksArgument
  split
  · rename_i heq
    cases heq
    exact absurd rfl h
  · rename_i heq
    cases heq
  · rfl

theorem Written.naming (hr : r.IsFaithful) (h : Written r game depth ts us is) {t : Token}
    {names : List String} {k : Key} (hk : Naming t names k) :
    Written r game depth (t :: ts) (r.nameToken k :: us) (.word .name k :: is) := by
  have hsolid : (r.nameToken k).isSolid := by
    rcases Registry.nameToken_cases (hr k) with ⟨_, -, htoken, -⟩ | ⟨-, htoken⟩ <;> rw [htoken] <;> rfl
  constructor
  · exact .naming (Registry.naming_nameToken (hr k)) h.body
  · exact .cons (respells_name hr hk) h.respells
  · exact spells_word (Registry.spelling_nameToken r k).symm (Registry.legible_nameToken (hr k))
      hsolid h.spells

theorem Written.argument (hr : r.IsFaithful) (h : Written r game depth ts us is)
    {text literal : String} (hname : IsName text)
    (hliteral : r.resolve (Key.ofName text) = some literal) :
    Written r game depth (.argument text :: ts) (.argument literal :: us)
      (.bare .arg :: .word .name (Key.ofLiteral text) :: is) := by
  obtain ⟨hkey, hname'⟩ := hr _ _ hliteral
  have hrespells := respells_argument text hname'
  rw [hname.key]
  constructor
  · have hbody := Body.argument literal h.body
    rw [hname'.newNames, hname'.key, hkey] at hbody
    have hnames : literals r (.bare .arg :: .word .name (Key.ofName text) :: is) =
        [literal] ++ literals r is := by
      simp [literals, keyNames, hliteral]
    rw [hnames]
    exact hbody
  · exact .cons hrespells h.respells
  · refine spells_word ?_ hrespells.legible rfl h.spells
    rw [Registry.keyText, hliteral]
    rfl

theorem Written.phrase (h : Written r game depth ts us is) {p : Token} {k : Key}
    (hp : Phrase p k) :
    Written r game depth (.keyword .qs :: .mark .openParen :: p :: .mark .closeParen :: ts)
      (.keyword .qs :: .mark .openParen :: .rawKey k :: .mark .closeParen :: us)
      (.word game.phraseTag k :: is) := by
  constructor
  · have hnames : literals r (.word game.phraseTag k :: is) = literals r is := by
      cases game <;> rfl
    rw [hnames]
    exact .phrase (.rawKey k) h.body
  · exact .cons (respells_keyword _) (.cons (respells_mark _)
      (.cons (respells_phrase hp) (.cons (respells_mark _) h.respells)))
  · have hactions : allActions r false (.word game.phraseTag k :: is) =
        .write .word (phraseText k) :: allActions r false is := by
      cases game <;> rfl
    rw [hactions]
    exact spells_phrase k h.spells

theorem Written.keyword (h : Written r game depth ts us is) {k : Keyword} {t : Tag}
    (hscript : k ≠ .script) (hend : k ≠ .endScript) (hk : k.tag? = some t) :
    Written r game depth (.keyword k :: ts) (.keyword k :: us) (.bare t :: is) := by
  have harg : t ≠ .arg := by
    rintro rfl
    cases k <;> cases hk
  refine ⟨.keyword hscript hk h.body, .cons (respells_keyword k) h.respells, ?_⟩
  rw [allActions, marksArgument_tag harg]
  exact (spells_keyword hscript hend hk).append h.spells

theorem Written.mark (h : Written r game depth ts us is) {m : Mark} {t : Tag}
    (hm : m.tag? (0 < depth) = some t) :
    Written r game depth (.mark m :: ts) (.mark m :: us) (.bare t :: is) := by
  have harg : t ≠ .arg := by
    rintro rfl
    generalize decide (0 < depth) = inParens at hm
    cases inParens <;> cases m <;> cases hm
  refine ⟨.mark hm h.body, .cons (respells_mark m) h.respells, ?_⟩
  rw [allActions, marksArgument_tag harg]
  exact (spells_tag hm).append h.spells

theorem Written.tuple (h : Written r game depth ts us is) {vs : List Token} {i : Instruction}
    (hi : Tuple vs i) (hplain : ∀ t ∈ vs, Plain t) :
    ∃ ws, Written r game depth (.mark .openParen :: (vs ++ ts)) (.mark .openParen :: (ws ++ us))
      (i :: is) := by
  obtain ⟨ws, hws, hvs, hnames, hactions⟩ := hi.written (r := r) hplain
  refine ⟨ws, ?_, ?_, ?_⟩
  · rw [literals, List.flatMap_cons, hnames]
    exact .tuple hws h.body
  · exact .cons (respells_mark _) (List.rel_append hvs h.respells)
  · obtain ⟨htuple, harg⟩ := hactions false _ _ h.spells
    rw [allActions, harg]
    exact htuple

theorem Written.openParen (h : Written r game (depth + 1) ts us is)
    (hne : ∀ vs i rest, Tuple vs i → ts ≠ vs ++ rest) :
    Written r game depth (.mark .openParen :: ts) (.mark .openParen :: us)
      (.bare .openParen :: is) := by
  refine ⟨.openParen ?_ h.body, .cons (respells_mark _) h.respells, ?_⟩
  · rintro vs i rest hv rfl
    -- Tokens that are no tuple must not come to be one when they are written.
    obtain ⟨ws, j, after, hws, happend⟩ := exists_tuple_of_respells hv h.respells
    exact hne ws j after hws happend
  · exact spells_mark (m := .openParen) rfl (by decide) rfl h.spells

theorem Body.exists_written (hr : r.IsFaithful) (h : Body game depth ts ns is)
    (hplain : ∀ t ∈ ts, Plain t) (hknown : ∀ n ∈ ns, (r.resolve (Key.ofName n)).isSome) :
    ∃ us, Written r game depth ts us is := by
  induction h with
  | nil => exact ⟨[], .nil, .nil, .nil⟩
  | int v _ ih =>
    obtain ⟨-, hts⟩ := List.forall_mem_cons.mp hplain
    obtain ⟨us, hbody, hrespells, hspells⟩ := ih hts hknown
    refine ⟨.int v :: us, .int v hbody, .cons (respells_self trivial (by simp)) hrespells, ?_⟩
    refine spells_word ?_ trivial rfl hspells
    rw [Int32.toInt32_toUInt32]
    rfl
  | float v _ ih =>
    obtain ⟨ht, hts⟩ := List.forall_mem_cons.mp hplain
    obtain ⟨us, hbody, hrespells, hspells⟩ := ih hts hknown
    exact ⟨.float v :: us, .float v hbody, .cons (respells_self ht (by simp)) hrespells,
      spells_word rfl ht rfl hspells⟩
  | string text _ ih =>
    obtain ⟨ht, hts⟩ := List.forall_mem_cons.mp hplain
    obtain ⟨us, hbody, hrespells, hspells⟩ := ih hts hknown
    have hlegible : Legible (.string text) := ⟨ht.1, ht.2.1⟩
    exact ⟨.string text :: us, .string text hbody, .cons (respells_self hlegible (by simp)) hrespells,
      spells_word (stringText_stored ht.2.2) hlegible rfl hspells⟩
  | wideString text _ ih =>
    obtain ⟨ht, hts⟩ := List.forall_mem_cons.mp hplain
    obtain ⟨us, hbody, hrespells, hspells⟩ := ih hts hknown
    have hlegible : Legible (.wideString text) := ht.1
    exact ⟨.wideString text :: us, .wideString text hbody,
      .cons (respells_self hlegible (by simp)) hrespells,
      spells_word (stringText_stored ht.2) hlegible rfl hspells⟩
  | naming hk _ ih =>
    obtain ⟨-, hts⟩ := List.forall_mem_cons.mp hplain
    obtain ⟨us, h⟩ := ih hts fun n hn => hknown n (List.mem_append_right _ hn)
    exact ⟨_, h.naming hr hk⟩
  | argument text _ ih =>
    obtain ⟨hname, hts⟩ := List.forall_mem_cons.mp hplain
    obtain ⟨us, h⟩ := ih hts fun n hn => hknown n (List.mem_append_right _ hn)
    have hmem : text ∈ newNames text := by
      rw [IsName.newNames hname]
      exact List.mem_singleton_self _
    obtain ⟨literal, hliteral⟩ :=
      Option.isSome_iff_exists.mp (hknown text (List.mem_append_left _ hmem))
    exact ⟨_, h.argument hr hname hliteral⟩
  | phrase hp _ ih =>
    obtain ⟨us, h⟩ := ih (fun t ht => hplain t (by simp [ht])) hknown
    exact ⟨_, h.phrase hp⟩
  | @keyword depth k t ts ns is hne hk _ ih =>
    obtain ⟨ht, hts⟩ := List.forall_mem_cons.mp hplain
    obtain ⟨us, h⟩ := ih hts hknown
    have hend : k ≠ .endScript := by
      rintro rfl
      exact ht
    exact ⟨_, h.keyword hne hend hk⟩
  | tuple hi _ ih =>
    obtain ⟨us, h⟩ := ih (fun t ht => hplain t (by simp [ht])) hknown
    obtain ⟨ws, hws⟩ := h.tuple hi fun t ht => hplain t (by simp [ht])
    exact ⟨_, hws⟩
  | openParen hne _ ih =>
    obtain ⟨-, hts⟩ := List.forall_mem_cons.mp hplain
    obtain ⟨us, h⟩ := ih hts hknown
    exact ⟨_, h.openParen hne⟩
  | closeParen _ ih =>
    obtain ⟨-, hts⟩ := List.forall_mem_cons.mp hplain
    obtain ⟨us, hbody, hrespells, hspells⟩ := ih hts hknown
    refine ⟨.mark .closeParen :: us, .closeParen hbody, .cons (respells_mark _) hrespells, ?_⟩
    exact spells_mark (m := .closeParen) rfl (by decide) rfl hspells
  | mark hm _ ih =>
    obtain ⟨-, hts⟩ := List.forall_mem_cons.mp hplain
    obtain ⟨us, h⟩ := ih hts hknown
    exact ⟨_, h.mark hm⟩

end Statement

end QbCodec
