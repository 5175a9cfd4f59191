import QbCodec.Proofs.File.Acceptance
import QbCodec.Proofs.Key.Resolution

namespace QbCodec

def Token.nameText? : Token → Option String
  | .name text | .argument text => some text
  | _ => none

def hashedNames (ts : List Token) : List String :=
  (ts.filterMap Token.nameText?).filter fun text => !Key.isCanonical text

theorem hashedNames_append (ts us : List Token) :
    hashedNames (ts ++ us) = hashedNames ts ++ hashedNames us := by
  rw [hashedNames, List.filterMap_append, List.filter_append]
  rfl

theorem hashedNames_cons_none {t : Token} (ht : t.nameText? = none) (ts : List Token) :
    hashedNames (t :: ts) = hashedNames ts := by
  rw [hashedNames, List.filterMap_cons_none ht]
  rfl

namespace Statement

structure Meets {α : Type} (r : Reading α) (ts : List Token) : Prop where
  front : ∃ us, us <+: ts ∧ r.names = hashedNames us
  whole : ∀ a, r.outcome = .ok a → r.names = hashedNames ts

section

variable {α β : Type} {r : Reading α} {ts us : List Token} {t : Token}

theorem meets_fail (e : Fault) (ts : List Token) : Meets (.fail e : Reading α) ts :=
  ⟨⟨[], List.nil_prefix, rfl⟩, fun a h => by cases h⟩

theorem meets_pure (a : α) : Meets (.pure a) [] := ⟨⟨[], List.nil_prefix, rfl⟩, fun _ _ => rfl⟩

theorem Meets.map (h : Meets r ts) (f : α → β) : Meets (r.map f) ts := by
  refine ⟨h.front, fun b hb => ?_⟩
  obtain ⟨a, ha, -⟩ : ∃ a, r.outcome = .ok a ∧ f a = b := by
    cases hr : r.outcome with
    | error e => simp [Reading.map, hr, Except.map] at hb
    | ok a =>
      simp only [Reading.map, hr, Except.map, Except.ok.injEq] at hb
      exact ⟨a, rfl, hb⟩
  exact h.whole a ha

theorem Meets.bind {f : α → Reading β} (h : Meets r us) (hf : ∀ a, Meets (f a) ts) :
    Meets (r.bind f) (us ++ ts) := by
  unfold Reading.bind
  split
  · obtain ⟨vs, hvs, hnames⟩ := h.front
    exact ⟨⟨vs, hvs.trans (List.prefix_append us ts), hnames⟩, fun b hb => by cases hb⟩
  · rename_i a ha
    have hall := h.whole a ha
    obtain ⟨vs, hvs, hnames⟩ := (hf a).front
    refine ⟨⟨us ++ vs, (List.prefix_append_right_inj us).mpr hvs, ?_⟩, fun b hb => ?_⟩
    · rw [hall, hnames, hashedNames_append]
    · rw [hall, (hf a).whole b hb, hashedNames_append]

theorem Meets.behind (h : Meets r ts) (hus : hashedNames us = []) : Meets r (us ++ ts) := by
  obtain ⟨vs, hvs, hnames⟩ := h.front
  refine ⟨⟨us ++ vs, (List.prefix_append_right_inj us).mpr hvs, ?_⟩, fun a ha => ?_⟩
  · rw [hnames, hashedNames_append, hus, List.nil_append]
  · rw [h.whole a ha, hashedNames_append, hus, List.nil_append]

theorem Meets.cons (h : Meets r ts) (ht : t.nameText? = none) : Meets r (t :: ts) :=
  h.behind (hashedNames_cons_none ht [])

theorem meets_nameKey {text : String} (ht : t.nameText? = some text) : Meets (nameKey text) [t] := by
  have hnames : (nameKey text).names = hashedNames [t] := by
    rw [hashedNames, List.filterMap_cons_some ht, nameKey_eq, newNames]
    cases hcanonical : Key.isCanonical text <;> simp [hcanonical]
  exact ⟨⟨[t], List.prefix_rfl, hnames⟩, fun _ _ => hnames⟩

theorem meets_lexemeKey (l : Lexeme) : Meets (lexemeKey l) [l.token] := by
  unfold lexemeKey
  split
  · rename_i text ht
    rw [ht]
    exact meets_nameKey rfl
  · rename_i k ht
    rw [ht]
    exact (meets_pure k).cons rfl
  · exact meets_fail _ _

end

theorem nameText?_number {t : Token} {x : Single} (h : number? t = some x) :
    t.nameText? = none := by
  cases t <;> first | rfl | cases h

theorem nameTexts_tuple {us : List Token} {i : Instruction} (h : Tuple us i) :
    us.filterMap Token.nameText? = [] := by
  cases h with
  | pair ha hb =>
    rw [List.filterMap_cons_none (nameText?_number ha), List.filterMap_cons_none rfl,
      List.filterMap_cons_none (nameText?_number hb)]
    rfl
  | vector ha hb hc =>
    rw [List.filterMap_cons_none (nameText?_number ha), List.filterMap_cons_none rfl,
      List.filterMap_cons_none (nameText?_number hb), List.filterMap_cons_none rfl,
      List.filterMap_cons_none (nameText?_number hc)]
    rfl

theorem hashedNames_tuple {us : List Token} {i : Instruction} (h : Tuple us i) :
    hashedNames us = [] := by
  rw [hashedNames, nameTexts_tuple h]
  rfl

theorem hashedNames_phrase {p : Token} {k : Key} (h : Phrase p k) :
    hashedNames [.mark .openParen, p, .mark .closeParen] = [] := by
  cases h <;> rfl

theorem meets_readBody (game : Game) (skip depth : Nat) (ls : List Lexeme) :
    Meets (readBody game skip depth ls) ((tokens ls).drop skip) := by
  -- A token that is skipped was read with one before it and has no name.
  fun_induction readBody game skip depth ls with
  | case1 =>
    rw [tokens_nil, List.drop_nil]
    exact meets_pure []
  | case2 depth l rest skip ih => exact ih
  | case3 _ _ _ _ ht ih | case4 _ _ _ _ ht ih | case5 _ _ _ _ ht ih | case6 _ _ _ _ ht ih
  | case8 _ _ _ _ ht ih | case17 _ _ _ ht ih => exact (ih.map _).cons (by rw [ht]; rfl)
  | case7 depth l rest text ht ih =>
    rw [List.drop_zero, tokens_cons, ht]
    exact (meets_nameKey rfl).bind fun _ => ih.map _
  | case9 depth l rest text ht ih =>
    rw [List.drop_zero, tokens_cons, ht]
    exact (meets_nameKey rfl).bind fun _ => ih.map _
  | case10 depth l rest ht k hk ih =>
    obtain ⟨p, hp, hphrase⟩ := phrase?_eq_some hk
    rw [List.drop_zero, tokens_cons, ht, hphrase]
    exact ((ih.map _).behind (hashedNames_phrase hp)).cons rfl
  | case11 | case12 | case19 => exact meets_fail _ _
  | case13 depth l rest k hqs hscript ht t hk ih => exact (ih.map _).cons (by rw [ht]; rfl)
  | case14 depth l rest k hqs hscript ht hk ih => exact ih.cons (by rw [ht]; rfl)
  | case15 depth l rest ht i length hi ih =>
    obtain ⟨us, hus, rfl, happend⟩ := tuple?_eq_some hi
    rw [List.drop_zero, tokens_cons, ht, happend]
    exact ((ih.map _).behind (hashedNames_tuple hus)).cons rfl
  | case16 depth l rest ht hi ih => exact (ih.map _).cons (by rw [ht]; rfl)
  | case18 depth l rest m hopen hclose ht t hm ih => exact (ih.map _).cons (by rw [ht]; rfl)

theorem meets_value {game : Game} {l : Lexeme} {rest : List Lexeme}
    (ih : Meets (readAll game 2 rest) ((tokens rest).drop 2)) :
    Meets ((lexemeKey l).bind fun k =>
      match rest with
      | a :: b :: _ =>
        match a.token, b.token with
        | .mark .equals, .int v => (readAll game 2 rest).map (.value k v :: ·)
        | _, _ => .fail (.valueMissing l.offset)
      | _ => .fail (.valueMissing l.offset)) (tokens (l :: rest)) := by
  change Meets _ ([l.token] ++ tokens rest)
  refine (meets_lexemeKey l).bind fun k => ?_
  split
  · split
    · rename_i a b more v ha hb
      rw [tokens_cons, tokens_cons, ha, hb]
      exact ((ih.map _).cons rfl).cons rfl
    · exact meets_fail _ _
  · exact meets_fail _ _

theorem meets_readAll (game : Game) (skip : Nat) (ls : List Lexeme) :
    Meets (readAll game skip ls) ((tokens ls).drop skip) := by
  fun_induction readAll game skip ls with
  | case1 =>
    rw [tokens_nil, List.drop_nil]
    exact meets_pure []
  | case2 l rest skip ih => exact ih
  | case3 l rest ht ih => exact ih.cons (by rw [ht]; rfl)
  | case4 => exact meets_fail _ _
  | case5 l ht name more ih =>
    change Meets _ (l.token :: ([name.token] ++ tokens more))
    refine Meets.cons ((meets_lexemeKey name).bind fun k => ?_) (by rw [ht]; rfl)
    split
    · exact meets_fail _ _
    · rename_i length hlength
      have hmore : tokens more =
          tokens (more.take length) ++ .keyword .endScript :: (tokens more).drop (length + 1) := by
        rw [← (drop_of_findEnd hlength).2, tokens_take, List.take_append_drop]
      rw [hmore]
      exact (meets_readBody game 0 0 (more.take length)).bind fun _ => ((ih length).map _).cons rfl
  | case6 l rest text ht ih => exact meets_value ih
  | case7 l rest k ht ih => exact meets_value ih
  | case8 => exact meets_fail _ _

end Statement

namespace Compiled

/-- After a file was compiled, the key of any name in it stands for the last such name that has the
key, and other keys for what they stood for before. If the file was not compiled, the names up to
some token were added all the same. -/
theorem registry_ofLexemes (t : Target) (ls : List Lexeme) (r : Registry) :
    (∃ us, us <+: tokens ls ∧ (ofLexemes t ls r).2 = r.addAll (hashedNames us)) ∧
    ((∃ file, (ofLexemes t ls r).1 = .ok file) →
      (ofLexemes t ls r).2 = r.addAll (hashedNames (tokens ls)) ∧
      (∀ text ∈ hashedNames (tokens ls), ∃ front last back,
        hashedNames (tokens ls) = front ++ last :: back ∧
        Key.ofName last = Key.ofName text ∧ (∀ n ∈ back, Key.ofName n ≠ Key.ofName text) ∧
        (ofLexemes t ls r).2.resolve (Key.ofName text) = some last) ∧
      ∀ k, (∀ text ∈ hashedNames (tokens ls), Key.ofName text ≠ k) →
        (ofLexemes t ls r).2.resolve k = r.resolve k) := by
  obtain ⟨⟨us, hus, hnames⟩, hwhole⟩ := Statement.meets_readAll t.game 0 ls
  refine ⟨⟨us, hus, congrArg r.addAll hnames⟩, ?_⟩
  intro hfile
  obtain ⟨ss, hss⟩ := ofLexemes_eq_ok_iff.mp hfile
  have hregistry : (ofLexemes t ls r).2 = r.addAll (hashedNames (tokens ls)) :=
    congrArg r.addAll (hwhole ss hss)
  rw [hregistry]
  exact ⟨rfl, fun text htext => Registry.resolve_addAll_of_mem r htext,
    fun k hk => Registry.resolve_addAll_of_ne hk⟩

theorem registry_ofLexemes_spellings :
    (ofLexemes ⟨0, .big, .ghwt⟩ [⟨.name "x", 0⟩, ⟨.mark .equals, 1⟩, ⟨.int 1, 2⟩, ⟨.name "X", 3⟩,
      ⟨.mark .equals, 4⟩, ⟨.int 2, 5⟩] {}).2.resolve (Key.ofName "x") = some "X" := by
  have hsame : Key.ofName "X" = Key.ofName "x" := by decide +kernel
  obtain ⟨-, hlast, -⟩ := (registry_ofLexemes ⟨0, .big, .ghwt⟩ [⟨.name "x", 0⟩,
    ⟨.mark .equals, 1⟩, ⟨.int 1, 2⟩, ⟨.name "X", 3⟩, ⟨.mark .equals, 4⟩, ⟨.int 2, 5⟩] {}).2 ⟨_, rfl⟩
  obtain ⟨front, last, back, hsplit, -, hback, hresolve⟩ := hlast "x" (by decide)
  have hnames : ["x", "X"] = front ++ last :: back := hsplit
  rw [hresolve]
  cases front with
  | nil =>
    cases hnames
    exact absurd hsame (hback "X" List.mem_cons_self)
  | cons _ front =>
    cases front with
    | nil =>
      cases hnames
      rfl
    | cons _ front => simp at hnames

end Compiled

end QbCodec
