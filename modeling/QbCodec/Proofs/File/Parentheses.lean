import QbCodec.Proofs.File.Coding

namespace QbCodec.Statement

/-- The depth behind a token. A parenthesis that closes nothing is passed over. -/
def depthStep (depth : Nat) : Token → Nat
  | .mark .openParen => depth + 1
  | .mark .closeParen => depth - 1
  | _ => depth

def depthBehind (depth : Nat) (ts : List Token) : Nat := ts.foldl depthStep depth

def equalsTag (depth : Nat) : Tag := if 0 < depth then .sameAs else .equals

def isEquality (t : Tag) : Bool := t == .sameAs || t == .equals

def equalities (is : List Instruction) : List Tag := (is.filterMap Instruction.tag?).filter isEquality

def equalsTags (depth : Nat) : List Token → List Tag
  | [] => []
  | t :: ts =>
    if t = .mark .equals then equalsTag depth :: equalsTags depth ts
    else equalsTags (depthStep depth t) ts

variable {depth : Nat} {t : Token} {ts us : List Token} {i : Instruction} {is : List Instruction}

theorem equalsTags_of_ne (h : t ≠ .mark .equals) (depth : Nat) (ts : List Token) :
    equalsTags depth (t :: ts) = equalsTags (depthStep depth t) ts := if_neg h

theorem equalsTags_append (depth : Nat) (ts us : List Token) :
    equalsTags depth (ts ++ us) = equalsTags depth ts ++ equalsTags (depthBehind depth ts) us := by
  induction ts generalizing depth with
  | nil => rfl
  | cons t ts ih =>
    rw [List.cons_append]
    by_cases h : t = .mark .equals
    · subst h
      simp only [equalsTags, if_true, ih, List.cons_append]
      rfl
    · rw [equalsTags_of_ne h, equalsTags_of_ne h, ih]
      rfl

theorem length_equalsTags (depth : Nat) (ts : List Token) :
    (equalsTags depth ts).length = ts.count (.mark .equals) := by
  induction ts generalizing depth with
  | nil => rfl
  | cons t ts ih =>
    by_cases h : t = .mark .equals
    · subst h
      simp [equalsTags, ih]
    · rw [equalsTags_of_ne h, ih, List.count_cons_of_ne h]

theorem getElem?_equalsTags (depth : Nat) (before after : List Token) :
    (equalsTags depth (before ++ .mark .equals :: after))[before.count (.mark .equals)]? =
      some (equalsTag (depthBehind depth before)) := by
  rw [equalsTags_append, List.getElem?_append_right (Nat.le_of_eq (length_equalsTags depth before)),
    length_equalsTags, Nat.sub_self]
  rfl

theorem equalities_cons_of_not (h : ∀ t, i.tag? = some t → isEquality t = false) :
    equalities (i :: is) = equalities is := by
  unfold equalities
  cases htag : i.tag? with
  | none => rw [List.filterMap_cons_none htag]
  | some t => rw [List.filterMap_cons_some htag, List.filter_cons_of_neg (by rw [h t htag]; decide)]

theorem equalities_bare_cons (t : Tag) (is : List Instruction) :
    equalities (.bare t :: is) = if isEquality t then t :: equalities is else equalities is := by
  simp [equalities, Instruction.tag?, List.filter_cons]

structure Quiet (t : Token) : Prop where
  not_equals : t ≠ .mark .equals
  depthStep : ∀ depth, depthStep depth t = depth

theorem quiet_number {v : Single} (h : number? t = some v) : Quiet t := by
  cases t with
  | int | float => exact ⟨nofun, fun _ => rfl⟩
  | _ => cases h

theorem Phrase.quiet {k : Key} (h : Phrase t k) : Quiet t := by
  cases h <;> exact ⟨nofun, fun _ => rfl⟩

theorem Naming.quiet {ns : List String} {k : Key} (h : Naming t ns k) : Quiet t := by
  cases h <;> exact ⟨nofun, fun _ => rfl⟩

theorem Quiet.equalsTags_cons (h : Quiet t) (depth : Nat) (ts : List Token) :
    equalsTags depth (t :: ts) = equalsTags depth ts := by
  rw [equalsTags_of_ne h.not_equals, h.depthStep]

theorem quiet_comma : Quiet (.mark .comma) := ⟨nofun, fun _ => rfl⟩

theorem Tuple.equalsTags_append (h : Tuple us i) (depth : Nat) (ts : List Token) :
    equalsTags depth (.mark .openParen :: (us ++ ts)) = equalsTags depth ts := by
  have hclose : equalsTags (depth + 1) (.mark .closeParen :: ts) = equalsTags depth ts := rfl
  rw [equalsTags_of_ne (t := .mark .openParen) nofun]
  cases h with
  | pair ha hb =>
    simp only [List.cons_append, List.nil_append, (quiet_number ha).equalsTags_cons,
      (quiet_number hb).equalsTags_cons, quiet_comma.equalsTags_cons]
    exact hclose
  | vector ha hb hc =>
    simp only [List.cons_append, List.nil_append, (quiet_number ha).equalsTags_cons,
      (quiet_number hb).equalsTags_cons, (quiet_number hc).equalsTags_cons,
      quiet_comma.equalsTags_cons]
    exact hclose

theorem Phrase.equalsTags_cons {k : Key} (h : Phrase t k) (depth : Nat) (ts : List Token) :
    equalsTags depth (.keyword .qs :: .mark .openParen :: t :: .mark .closeParen :: ts) =
      equalsTags depth ts := by
  rw [equalsTags_of_ne (t := .keyword .qs) nofun, equalsTags_of_ne (t := .mark .openParen) nofun,
    h.quiet.equalsTags_cons]
  rfl

theorem isEquality_phraseTag (game : Game) : isEquality game.phraseTag = false := by
  cases game <;> rfl

theorem isEquality_keyword {k : Keyword} {tag : Tag} (h : k.tag? = some tag) :
    isEquality tag = false := by
  cases k <;> cases h <;> rfl

theorem Tuple.isEquality (h : Tuple us i) {tag : Tag} (htag : i.tag? = some tag) :
    isEquality tag = false := by
  cases h <;> cases htag <;> rfl

theorem equalities_mark {m : Mark} {tag : Tag} (h : m.tag? (0 < depth) = some tag)
    (ih : equalities is = equalsTags depth ts) :
    equalities (.bare tag :: is) = equalsTags depth (.mark m :: ts) := by
  rw [equalities_bare_cons]
  by_cases hm : m = .equals
  · subst hm
    have htag : tag = equalsTag depth := by
      cases h
      simp [equalsTag]
    have hequality : isEquality (equalsTag depth) := by
      unfold equalsTag
      split <;> rfl
    rw [htag, if_pos hequality, ih]
    rfl
  · have hne : Token.mark m ≠ .mark .equals := fun h => hm (Token.mark.inj h)
    obtain ⟨hnot, hdepth⟩ : isEquality tag = false ∧ depthStep depth (.mark m) = depth := by
      cases m with
      | equals => exact absurd rfl hm
      | openParen | closeParen => cases h
      | _ =>
        cases h
        exact ⟨rfl, rfl⟩
    rw [hnot, equalsTags_of_ne hne, hdepth]
    exact ih

theorem Body.equalities_eq {game : Game} {ns : List String} (h : Body game depth ts ns is) :
    equalities is = equalsTags depth ts := by
  induction h with
  | nil => rfl
  | int _ _ ih => exact ih
  | float _ _ ih => exact ih
  | string _ _ ih => exact ih
  | wideString _ _ ih => exact ih
  | naming hn _ ih => rwa [hn.quiet.equalsTags_cons]
  | argument _ _ ih => exact ih
  | phrase hp _ ih =>
    rw [hp.equalsTags_cons, ← ih, equalities_cons_of_not]
    rintro t ⟨⟩
    exact isEquality_phraseTag game
  | keyword _ hk _ ih =>
    rw [equalities_bare_cons, isEquality_keyword hk]
    exact ih
  | tuple hi _ ih => rw [hi.equalsTags_append, ← ih, equalities_cons_of_not fun _ => hi.isEquality]
  | openParen _ _ ih => exact ih
  | closeParen _ ih => exact ih
  | mark hm _ ih => exact equalities_mark hm ih

/-- An equals sign of a body that is read compares where more parentheses are open before it than
closed, and assigns elsewhere. It gives one tag, behind the tags of the equals signs before it, and
the bytes of the body are those of its instructions. -/
theorem equalities_readBody {game : Game} {ls : List Lexeme} {ns : List String}
    (h : readBody game 0 0 ls = ⟨ns, .ok is⟩) :
    (equalities is).length = (tokens ls).count (.mark .equals) ∧
      (∀ before after, tokens ls = before ++ .mark .equals :: after →
        (equalities is)[before.count (.mark .equals)]? =
          some (if 0 < depthBehind 0 before then .sameAs else .equals)) ∧
      ∀ o, .keyword .endScript ∉ tokens ls → (Instruction.encodeBody o is).length < 2 ^ 32 →
        Instruction.decodeBody o (Instruction.encodeBody o is) = is := by
  have hbody := readBody_iff.mp h
  have htags := hbody.equalities_eq
  refine ⟨?_, ?_, ?_⟩
  · rw [htags, length_equalsTags]
  · intro before after hsplit
    rw [htags, hsplit]
    exact getElem?_equalsTags 0 before after
  · intro o hend hlt
    exact Instruction.decodeBody_encodeBody o (wellFormed_of_emitted (hbody.emitted hend) hlt)

theorem equalities_readBody_tuple :
    ∃ is, readBody .ghwt 0 0 ([.mark .closeParen, .mark .openParen, .rawKey 1, .mark .equals,
        .mark .openParen, .int 1, .mark .comma, .int 2, .mark .closeParen, .mark .equals,
        .mark .closeParen, .mark .equals].map fun t => ⟨t, 0⟩) = ⟨[], .ok is⟩ ∧
      (equalities is)[1]? = some .sameAs ∧ (equalities is)[2]? = some .equals ∧
      (equalities is).length = 3 ∧
      Instruction.decodeBody .big (Instruction.encodeBody .big is) = is := by
  let before : List Token := [.mark .closeParen, .mark .openParen, .rawKey 1, .mark .equals,
    .mark .openParen, .int 1, .mark .comma, .int 2, .mark .closeParen]
  let ts : List Token := before ++ [.mark .equals, .mark .closeParen, .mark .equals]
  have hread : readBody .ghwt 0 0 (ts.map fun t => ⟨t, 0⟩) = ⟨[], .ok [.bare .closeParen,
      .bare .openParen, .word .name 1, .bare .sameAs, .pair (.ofInt 1) (.ofInt 2), .bare .sameAs,
      .bare .closeParen, .bare .equals]⟩ := by rfl
  obtain ⟨hlength, htag, hbytes⟩ := equalities_readBody hread
  refine ⟨_, hread, ?_, ?_, hlength, hbytes .big (by decide) (by decide)⟩
  · exact htag before _ rfl
  · exact htag (before ++ [.mark .equals, .mark .closeParen]) [] rfl

end QbCodec.Statement
