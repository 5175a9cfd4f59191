import QbCodec.Proofs.File.Coding
import QbCodec.Proofs.File.Registering
import QbCodec.Proofs.Key.Variants

namespace QbCodec

/-- The same token, or a name or argument under a variant of its text. Neither text is the canonical
spelling of a key, which means itself in one case of its letters only. -/
inductive Token.IsVariant : Token → Token → Prop
  | same (t : Token) : IsVariant t t
  | name {s t : String} (h : Key.IsVariant s t) (hs : ¬ Key.isCanonical s)
      (ht : ¬ Key.isCanonical t) : IsVariant (.name s) (.name t)
  | argument {s t : String} (h : Key.IsVariant s t) (hs : ¬ Key.isCanonical s)
      (ht : ¬ Key.isCanonical t) : IsVariant (.argument s) (.argument t)

theorem Key.IsVariant.ofLiteral_eq {s t : String} (h : IsVariant s t) (hs : ¬ isCanonical s)
    (ht : ¬ isCanonical t) : ofLiteral s = ofLiteral t := by
  rw [ofLiteral_eq_ofName (by simpa using hs), ofLiteral_eq_ofName (by simpa using ht), h.ofName_eq]

namespace Token

variable {t u : Token} {front ts us : List Token}

theorem IsVariant.symm (h : IsVariant t u) : IsVariant u t := by
  cases h with
  | same => exact .same _
  | name h hs ht => exact .name h.symm ht hs
  | argument h hs ht => exact .argument h.symm ht hs

theorem IsVariant.eq (h : IsVariant t u) (ht : t.nameText? = none) : u = t := by
  cases h with
  | same => rfl
  | name => cases ht
  | argument => cases ht

theorem forall₂_symm (h : List.Forall₂ IsVariant ts us) : List.Forall₂ IsVariant us ts :=
  List.Forall₂.flip (h.imp fun _ _ => IsVariant.symm)

theorem exists_of_nameless (front : List Token) (hfront : front.filterMap nameText? = [])
    (h : List.Forall₂ IsVariant (front ++ ts) us) :
    ∃ after, us = front ++ after ∧ List.Forall₂ IsVariant ts after := by
  rw [List.filterMap_eq_nil_iff] at hfront
  induction front generalizing us with
  | nil => exact ⟨us, rfl, h⟩
  | cons t front ih =>
    obtain ⟨ht, hrest⟩ := List.forall_mem_cons.mp hfront
    obtain ⟨u, us, htu, hus, rfl⟩ := List.forall₂_cons_left_iff.mp h
    obtain ⟨after, rfl, hafter⟩ := ih hrest hus
    exact ⟨after, by rw [htu.eq ht, List.cons_append], hafter⟩

theorem exists_append (h : List.Forall₂ IsVariant (front ++ ts) us) :
    ∃ vs after, us = vs ++ after ∧ List.Forall₂ IsVariant front vs ∧
      List.Forall₂ IsVariant ts after := by
  have htake := List.forall₂_take front.length h
  have hdrop := List.forall₂_drop front.length h
  rw [List.take_left] at htake
  rw [List.drop_left] at hdrop
  exact ⟨_, _, (List.take_append_drop front.length us).symm, htake, hdrop⟩

theorem mem_of_nameless (h : List.Forall₂ IsVariant ts us) (hu : u.nameText? = none)
    (hmem : u ∈ us) : u ∈ ts := by
  obtain ⟨before, after, rfl⟩ := List.append_of_mem hmem
  have hdrop := List.forall₂_drop_append _ _ _ h
  obtain ⟨t, rest, htu, -, hts⟩ := List.forall₂_cons_right_iff.mp hdrop
  rw [htu.symm.eq hu] at hts
  exact List.mem_of_mem_drop (hts ▸ List.mem_cons_self)

end Token

namespace Statement

variable {game : Game} {depth : Nat} {t u : Token} {ts us : List Token} {ns : List String}
  {k : Key} {is : List Instruction} {ss : List Statement}

theorem Naming.variant (h : Naming t ns k) (htu : Token.IsVariant t u) : ∃ ms, Naming u ms k := by
  cases h with
  | name text =>
    cases htu with
    | same => exact ⟨_, .name text⟩
    | @name _ v h hs ht =>
      rw [h.ofLiteral_eq hs ht]
      exact ⟨_, .name v⟩
  | rawKey k =>
    cases htu
    exact ⟨_, .rawKey k⟩

theorem Body.argument_variant {text : String} (htu : Token.IsVariant (.argument text) u)
    (rest : Body game depth ts ns is) :
    ∃ ms, Body game depth (u :: ts) ms
      (.bare .arg :: .word .name (Key.ofLiteral text) :: is) := by
  cases htu with
  | same => exact ⟨_, .argument text rest⟩
  | @argument _ v h hs ht =>
    rw [h.ofLiteral_eq hs ht]
    exact ⟨_, .argument v rest⟩

theorem exists_body_behind (front : List Token) (hfront : front.filterMap Token.nameText? = [])
    (h : List.Forall₂ Token.IsVariant (front ++ ts) us)
    (ih : ∀ {us}, List.Forall₂ Token.IsVariant ts us → ∃ ms, Body game depth us ms is) :
    ∃ after ms, us = front ++ after ∧ Body game depth after ms is := by
  obtain ⟨after, hus, hafter⟩ := Token.exists_of_nameless front hfront h
  obtain ⟨ms, hms⟩ := ih hafter
  exact ⟨after, ms, hus, hms⟩

theorem Body.variant (h : Body game depth ts ns is) (hus : List.Forall₂ Token.IsVariant ts us) :
    ∃ ms, Body game depth us ms is := by
  -- Of the tokens of an instruction only a name may be another one, and it has the same key.
  induction h generalizing us with
  | nil =>
    cases hus
    exact ⟨_, .nil⟩
  | int v _ ih =>
    obtain ⟨after, ms, rfl, hms⟩ := exists_body_behind [.int v] rfl hus ih
    exact ⟨ms, .int v hms⟩
  | float v _ ih =>
    obtain ⟨after, ms, rfl, hms⟩ := exists_body_behind [.float v] rfl hus ih
    exact ⟨ms, .float v hms⟩
  | string text _ ih =>
    obtain ⟨after, ms, rfl, hms⟩ := exists_body_behind [.string text] rfl hus ih
    exact ⟨ms, .string text hms⟩
  | wideString text _ ih =>
    obtain ⟨after, ms, rfl, hms⟩ := exists_body_behind [.wideString text] rfl hus ih
    exact ⟨ms, .wideString text hms⟩
  | naming hk _ ih =>
    obtain ⟨u, us, htu, hrest, rfl⟩ := List.forall₂_cons_left_iff.mp hus
    obtain ⟨names, hnaming⟩ := hk.variant htu
    obtain ⟨ms, hms⟩ := ih hrest
    exact ⟨names ++ ms, .naming hnaming hms⟩
  | argument text _ ih =>
    obtain ⟨u, us, htu, hrest, rfl⟩ := List.forall₂_cons_left_iff.mp hus
    obtain ⟨ms, hms⟩ := ih hrest
    exact hms.argument_variant htu
  | @phrase _ p _ _ _ _ hp _ ih =>
    obtain ⟨after, ms, rfl, hms⟩ := exists_body_behind
      [.keyword .qs, .mark .openParen, p, .mark .closeParen] (by cases hp <;> rfl) hus ih
    exact ⟨ms, .phrase hp hms⟩
  | @keyword _ k _ _ _ _ hne hk _ ih =>
    obtain ⟨after, ms, rfl, hms⟩ := exists_body_behind [.keyword k] rfl hus ih
    exact ⟨ms, .keyword hne hk hms⟩
  | @tuple _ vs _ _ _ _ hi _ ih =>
    obtain ⟨after, ms, rfl, hms⟩ := exists_body_behind (.mark .openParen :: vs)
      (by rw [List.filterMap_cons_none rfl, nameTexts_tuple hi]) hus ih
    exact ⟨ms, .tuple hi hms⟩
  | openParen hne _ ih =>
    obtain ⟨after, rfl, hafter⟩ := Token.exists_of_nameless [.mark .openParen] rfl hus
    obtain ⟨ms, hms⟩ := ih hafter
    refine ⟨ms, .openParen ?_ hms⟩
    rintro vs i rest hi rfl
    -- A tuple in the one row is a tuple in the other.
    obtain ⟨before, hts, -⟩ := Token.exists_of_nameless vs (nameTexts_tuple hi)
      (Token.forall₂_symm hafter)
    exact hne vs i before hi hts
  | closeParen _ ih =>
    obtain ⟨after, ms, rfl, hms⟩ := exists_body_behind [.mark .closeParen] rfl hus ih
    exact ⟨ms, .closeParen hms⟩
  | @mark _ m _ _ _ _ hm _ ih =>
    obtain ⟨after, ms, rfl, hms⟩ := exists_body_behind [.mark m] rfl hus ih
    exact ⟨ms, .mark hm hms⟩

theorem Text.variant (h : Text game ts ns ss) (hus : List.Forall₂ Token.IsVariant ts us) :
    ∃ ms, Text game us ms ss := by
  induction h generalizing us with
  | nil =>
    cases hus
    exact ⟨_, .nil⟩
  | newLine _ ih =>
    obtain ⟨after, rfl, hafter⟩ := Token.exists_of_nameless [.mark .newLine] rfl hus
    obtain ⟨ms, hms⟩ := ih hafter
    exact ⟨ms, .newLine hms⟩
  | value hk v _ ih =>
    obtain ⟨u, us, htu, hrest, rfl⟩ := List.forall₂_cons_left_iff.mp hus
    obtain ⟨names, hnaming⟩ := hk.variant htu
    obtain ⟨after, rfl, hafter⟩ := Token.exists_of_nameless [.mark .equals, .int v] rfl hrest
    obtain ⟨ms, hms⟩ := ih hafter
    exact ⟨names ++ ms, .value hnaming v hms⟩
  | @script _ bs ts _ _ _ _ _ _ hk hend hbody _ ih =>
    obtain ⟨rest, rfl, hrest⟩ := Token.exists_of_nameless [.keyword .script] rfl hus
    obtain ⟨u, rest, htu, hmore, rfl⟩ := List.forall₂_cons_left_iff.mp hrest
    obtain ⟨names, hnaming⟩ := hk.variant htu
    obtain ⟨vs, back, rfl, hvs, hback⟩ := Token.exists_append hmore
    obtain ⟨bodyNames, hbody⟩ := hbody.variant hvs
    obtain ⟨after, rfl, hafter⟩ := Token.exists_of_nameless [.keyword .endScript] rfl hback
    obtain ⟨ms, hms⟩ := ih hafter
    exact ⟨_, .script hnaming (fun hmem => hend (Token.mem_of_nameless hvs rfl hmem)) hbody hms⟩

end Statement

namespace Compiled

open Statement

variable {t : Target} {ls ms : List Lexeme} {r : Registry} {file : List UInt8}

theorem ofLexemes_variant (h : List.Forall₂ Token.IsVariant (tokens ls) (tokens ms))
    (hfile : (ofLexemes t ls r).1 = .ok file) (r' : Registry) :
    (ofLexemes t ms r').1 = .ok file := by
  obtain ⟨ns, ss, hread, rfl⟩ := ofLexemes_eq_ok hfile
  obtain ⟨names, htext⟩ := (readAll_iff.mp hread).variant h
  rw [ofLexemes_of_text htext]

/-- A variant of a name has its key. Added after the name, it takes its place in the registry. Source
text compiles to the same file as with variants of its names. -/
theorem ofLexemes_variants :
    (∀ s t, Key.IsVariant s t → Key.ofName s = Key.ofName t ∧
      ∀ (r : Registry) (cs : List Registry.Change),
        let known := cs.foldl Registry.Change.apply (r.add s)
        (known.add t).size = known.size ∧ (known.add t).resolve (Key.ofName s) = some t) ∧
      ∀ (t : Target) (ls ms : List Lexeme),
        List.Forall₂ Token.IsVariant (tokens ls) (tokens ms) → ∀ r r' file,
          (ofLexemes t ls r).1 = .ok file ↔ (ofLexemes t ms r').1 = .ok file := by
  refine ⟨fun s t h => ⟨h.ofName_eq, Registry.add_variant h⟩, fun t ls ms h r r' file => ?_⟩
  constructor
  · intro hfile
    exact ofLexemes_variant h hfile r'
  · intro hfile
    exact ofLexemes_variant (Token.forall₂_symm h) hfile r

theorem ofLexemes_variants_sigma :
    Key.ofName "A/Σ" = Key.ofName "a\\Σ" ∧
      ((Registry.empty.add "A/Σ").add "a\\Σ").resolve (Key.ofName "A/Σ") = some "a\\Σ" ∧
      ∃ file, (ofLexemes ⟨0, .big, .ghwt⟩ [⟨.keyword .script, 0⟩, ⟨.name "A/Σ", 7⟩,
          ⟨.argument "bΣ", 12⟩, ⟨.keyword .endScript, 18⟩] {}).1 = .ok file ∧
        (ofLexemes ⟨0, .big, .ghwt⟩ [⟨.keyword .script, 0⟩, ⟨.name "a\\Σ", 7⟩,
          ⟨.argument "BΣ", 12⟩, ⟨.keyword .endScript, 18⟩] {}).1 = .ok file := by
  have hname : Key.IsVariant "A/Σ" "a\\Σ" := by decide
  have hargument : Key.IsVariant "bΣ" "BΣ" := by decide
  obtain ⟨hnames, hfiles⟩ := ofLexemes_variants
  obtain ⟨hkey, hadd⟩ := hnames _ _ hname
  refine ⟨hkey, (hadd Registry.empty []).2, _, rfl, ?_⟩
  refine (hfiles ⟨0, .big, .ghwt⟩ [⟨.keyword .script, 0⟩, ⟨.name "A/Σ", 7⟩, ⟨.argument "bΣ", 12⟩,
    ⟨.keyword .endScript, 18⟩] _ ?_ {} {} _).mp rfl
  exact .cons (.same _) (.cons (.name hname (by decide) (by decide))
    (.cons (.argument hargument (by decide) (by decide)) (.cons (.same _) .nil)))

-- The canonical spelling of a key has a variant that is hashed.
example : Key.IsVariant "0x0000BEEF" "0x0000beef" ∧
    Key.ofLiteral "0x0000BEEF" ≠ Key.ofLiteral "0x0000beef" := by decide +kernel

end Compiled

end QbCodec
