import QbCodec.File.Statement
import QbCodec.Proofs.Source.Tokens

namespace QbCodec

namespace Statement

namespace Reading

variable {α β : Type}

theorem map_eq {r : Reading α} {f : α → β} {ns : List String} {a : α} (h : r = ⟨ns, .ok a⟩) :
    r.map f = ⟨ns, .ok (f a)⟩ := by
  rw [h]
  rfl

theorem bind_eq {r : Reading α} {f : α → Reading β} {ns ms : List String} {a : α}
    {b : Except Fault β} (h : r = ⟨ns, .ok a⟩) (hf : f a = ⟨ms, b⟩) :
    r.bind f = ⟨ns ++ ms, b⟩ := by
  simp only [h, bind, hf]

theorem map_eq_ok {r : Reading α} {f : α → β} {ns : List String} {b : β}
    (h : r.map f = ⟨ns, .ok b⟩) : ∃ a, r = ⟨ns, .ok a⟩ ∧ f a = b := by
  obtain ⟨names, outcome⟩ := r
  cases outcome with
  | error e => simp [map, Except.map] at h
  | ok a =>
    simp only [map, Except.map, mk.injEq, Except.ok.injEq] at h
    exact ⟨a, by rw [h.1], h.2⟩

theorem bind_eq_ok {r : Reading α} {f : α → Reading β} {ns : List String} {b : β}
    (h : r.bind f = ⟨ns, .ok b⟩) :
    ∃ ms ms' a, r = ⟨ms, .ok a⟩ ∧ f a = ⟨ms', .ok b⟩ ∧ ns = ms ++ ms' := by
  obtain ⟨names, outcome⟩ := r
  cases outcome with
  | error e => simp [bind] at h
  | ok a =>
    simp only [bind, mk.injEq] at h
    refine ⟨names, (f a).names, a, rfl, ?_, h.1.symm⟩
    rw [← h.2]

theorem map_eq_error {r : Reading α} {f : α → β} {e : Fault}
    (h : (r.map f).outcome = .error e) : r.outcome = .error e := by
  obtain ⟨names, outcome⟩ := r
  cases outcome with
  | error e' =>
    cases h
    rfl
  | ok a => cases h

theorem bind_eq_error {r : Reading α} {f : α → Reading β} {e : Fault}
    (h : (r.bind f).outcome = .error e) :
    r.outcome = .error e ∨ ∃ ns a, r = ⟨ns, .ok a⟩ ∧ (f a).outcome = .error e := by
  obtain ⟨names, outcome⟩ := r
  cases outcome with
  | error e' =>
    left
    cases h
    rfl
  | ok a =>
    right
    exact ⟨names, a, rfl, h⟩

end Reading

/-- The names that are new when a name is met: none if it is the canonical spelling of a key. -/
def newNames (text : String) : List String := if Key.isCanonical text then [] else [text]

theorem nameKey_eq (text : String) : nameKey text = ⟨newNames text, .ok (Key.ofLiteral text)⟩ := rfl

inductive Tuple : List Token → Instruction → Prop
  | pair {a b : Token} {x y : Single} (ha : number? a = some x) (hb : number? b = some y) :
      Tuple [a, .mark .comma, b, .mark .closeParen] (.pair x y)
  | vector {a b c : Token} {x y z : Single} (ha : number? a = some x) (hb : number? b = some y)
      (hc : number? c = some z) :
      Tuple [a, .mark .comma, b, .mark .comma, c, .mark .closeParen] (.vector x y z)

inductive Phrase : Token → Key → Prop
  | rawKey (k : Key) : Phrase (.rawKey k) k
  | string (text : String) : Phrase (.string text) (Key.ofPhrase text)
  | wideString (text : String) : Phrase (.wideString text) (Key.ofPhrase text)

inductive Naming : Token → List String → Key → Prop
  | name (text : String) : Naming (.name text) (newNames text) (Key.ofLiteral text)
  | rawKey (k : Key) : Naming (.rawKey k) [] k

/-- The tokens of a body inside `depth` parentheses, the names in them and its instructions. -/
inductive Body (game : Game) : Nat → List Token → List String → List Instruction → Prop
  | nil {depth : Nat} : Body game depth [] [] []
  | int {depth : Nat} {ts : List Token} {ns : List String} {is : List Instruction} (v : Int32)
      (rest : Body game depth ts ns is) :
      Body game depth (.int v :: ts) ns (.word .integer v.toUInt32 :: is)
  | float {depth : Nat} {ts : List Token} {ns : List String} {is : List Instruction} (v : Single)
      (rest : Body game depth ts ns is) :
      Body game depth (.float v :: ts) ns (.word .float v.bits :: is)
  | string {depth : Nat} {ts : List Token} {ns : List String} {is : List Instruction}
      (text : String) (rest : Body game depth ts ns is) :
      Body game depth (.string text :: ts) ns (.text false (stored text) :: is)
  | wideString {depth : Nat} {ts : List Token} {ns : List String} {is : List Instruction}
      (text : String) (rest : Body game depth ts ns is) :
      Body game depth (.wideString text :: ts) ns (.text true (stored text) :: is)
  | naming {depth : Nat} {t : Token} {ts : List Token} {ms ns : List String} {k : Key}
      {is : List Instruction} (h : Naming t ms k) (rest : Body game depth ts ns is) :
      Body game depth (t :: ts) (ms ++ ns) (.word .name k :: is)
  | argument {depth : Nat} {ts : List Token} {ns : List String} {is : List Instruction}
      (text : String) (rest : Body game depth ts ns is) :
      Body game depth (.argument text :: ts) (newNames text ++ ns)
        (.bare .arg :: .word .name (Key.ofLiteral text) :: is)
  | phrase {depth : Nat} {p : Token} {ts : List Token} {ns : List String} {k : Key}
      {is : List Instruction} (h : Phrase p k) (rest : Body game depth ts ns is) :
      Body game depth (.keyword .qs :: .mark .openParen :: p :: .mark .closeParen :: ts) ns
        (.word game.phraseTag k :: is)
  | keyword {depth : Nat} {k : Keyword} {t : Tag} {ts : List Token} {ns : List String}
      {is : List Instruction} (hne : k ≠ .script) (h : k.tag? = some t)
      (rest : Body game depth ts ns is) :
      Body game depth (.keyword k :: ts) ns (.bare t :: is)
  | tuple {depth : Nat} {us ts : List Token} {i : Instruction} {ns : List String}
      {is : List Instruction} (h : Tuple us i) (rest : Body game depth ts ns is) :
      Body game depth (.mark .openParen :: (us ++ ts)) ns (i :: is)
  | openParen {depth : Nat} {ts : List Token} {ns : List String} {is : List Instruction}
      (hne : ∀ us i rest, Tuple us i → ts ≠ us ++ rest) (rest : Body game (depth + 1) ts ns is) :
      Body game depth (.mark .openParen :: ts) ns (.bare .openParen :: is)
  | closeParen {depth : Nat} {ts : List Token} {ns : List String} {is : List Instruction}
      (rest : Body game (depth - 1) ts ns is) :
      Body game depth (.mark .closeParen :: ts) ns (.bare .closeParen :: is)
  | mark {depth : Nat} {m : Mark} {t : Tag} {ts : List Token} {ns : List String}
      {is : List Instruction} (h : m.tag? (0 < depth) = some t) (rest : Body game depth ts ns is) :
      Body game depth (.mark m :: ts) ns (.bare t :: is)

inductive Text (game : Game) : List Token → List String → List Statement → Prop
  | nil : Text game [] [] []
  | newLine {ts : List Token} {ns : List String} {ss : List Statement} (rest : Text game ts ns ss) :
      Text game (.mark .newLine :: ts) ns ss
  | value {n : Token} {ts : List Token} {ms ns : List String} {k : Key} {ss : List Statement}
      (h : Naming n ms k) (v : Int32) (rest : Text game ts ns ss) :
      Text game (n :: .mark .equals :: .int v :: ts) (ms ++ ns) (.value k v :: ss)
  | script {n : Token} {bs ts : List Token} {ms bodyNames ns : List String} {k : Key}
      {is : List Instruction} {ss : List Statement} (h : Naming n ms k)
      (hend : .keyword .endScript ∉ bs) (body : Body game 0 bs bodyNames is)
      (rest : Text game ts ns ss) :
      Text game (.keyword .script :: n :: (bs ++ .keyword .endScript :: ts))
        (ms ++ (bodyNames ++ ns)) (.script k is :: ss)

theorem tuple?_eq_some {ls : List Lexeme} {i : Instruction} {n : Nat}
    (h : tuple? ls = some (i, n)) :
    ∃ us, Tuple us i ∧ us.length = n ∧ tokens ls = us ++ (tokens ls).drop n := by
  unfold tuple? at h
  split at h
  · rename_i a c b d rest
    split at h
    · rename_i x y ha hc hb hd
      cases h
      refine ⟨_, .pair ha hb, rfl, ?_⟩
      simp [hc, hd]
    · rename_i x y ha hc hb hd
      split at h
      · rename_i e f rest'
        split at h
        · rename_i z he hf
          cases h
          refine ⟨_, .vector ha hb he, rfl, ?_⟩
          simp [hc, hd, hf]
        · simp at h
      · simp at h
    · simp at h
  · simp at h

theorem tuple?_of_tuple {ls : List Lexeme} {us rest : List Token} {i : Instruction}
    (h : Tuple us i) (hls : tokens ls = us ++ rest) : tuple? ls = some (i, us.length) := by
  cases h with
  | pair ha hb =>
    obtain ⟨a, ls₁, rfl, rfl, h₁⟩ := tokens_eq_cons hls
    obtain ⟨c, ls₂, rfl, hc, h₂⟩ := tokens_eq_cons h₁
    obtain ⟨b, ls₃, rfl, rfl, h₃⟩ := tokens_eq_cons h₂
    obtain ⟨d, ls₄, rfl, hd, -⟩ := tokens_eq_cons h₃
    simp [tuple?, ha, hb, hc, hd]
  | vector ha hb hz =>
    obtain ⟨a, ls₁, rfl, rfl, h₁⟩ := tokens_eq_cons hls
    obtain ⟨c, ls₂, rfl, hc, h₂⟩ := tokens_eq_cons h₁
    obtain ⟨b, ls₃, rfl, rfl, h₃⟩ := tokens_eq_cons h₂
    obtain ⟨d, ls₄, rfl, hd, h₄⟩ := tokens_eq_cons h₃
    obtain ⟨e, ls₅, rfl, rfl, h₅⟩ := tokens_eq_cons h₄
    obtain ⟨f, ls₆, rfl, hf, -⟩ := tokens_eq_cons h₅
    simp [tuple?, ha, hb, hz, hc, hd, hf]

theorem tuple?_eq_none {ls : List Lexeme}
    (h : ∀ us i rest, Tuple us i → tokens ls ≠ us ++ rest) : tuple? ls = none := by
  cases hls : tuple? ls with
  | none => rfl
  | some p =>
    obtain ⟨us, htuple, -, happend⟩ := tuple?_eq_some hls
    exact absurd happend (h us _ _ htuple)

theorem phrase?_eq_some {ls : List Lexeme} {k : Key} (h : phrase? ls = some k) :
    ∃ p, Phrase p k ∧
      tokens ls = .mark .openParen :: p :: .mark .closeParen :: (tokens ls).drop 3 := by
  unfold phrase? at h
  split at h
  · rename_i a b c rest
    split at h
    · rename_i k' ha hb hc
      cases h
      exact ⟨_, .rawKey _, by simp [ha, hb, hc]⟩
    · rename_i text ha hb hc
      cases h
      exact ⟨_, .string _, by simp [ha, hb, hc]⟩
    · rename_i text ha hb hc
      cases h
      exact ⟨_, .wideString _, by simp [ha, hb, hc]⟩
    · simp at h
  · simp at h

theorem phrase?_of_phrase {ls : List Lexeme} {p : Token} {rest : List Token} {k : Key}
    (h : Phrase p k) (hls : tokens ls = .mark .openParen :: p :: .mark .closeParen :: rest) :
    phrase? ls = some k := by
  obtain ⟨a, ls₁, rfl, ha, h₁⟩ := tokens_eq_cons hls
  obtain ⟨b, ls₂, rfl, hb, h₂⟩ := tokens_eq_cons h₁
  obtain ⟨c, ls₃, rfl, hc, -⟩ := tokens_eq_cons h₂
  cases h <;> simp [phrase?, ha, hb, hc]

theorem readBody_skip (game : Game) (n depth : Nat) (ls : List Lexeme) :
    readBody game n depth ls = readBody game 0 depth (ls.drop n) := by
  induction ls generalizing n with
  | nil => simp [readBody]
  | cons l rest ih =>
    cases n with
    | zero => rfl
    | succ n =>
      rw [readBody, ih n]
      rfl

theorem readAll_skip (game : Game) (n : Nat) (ls : List Lexeme) :
    readAll game n ls = readAll game 0 (ls.drop n) := by
  induction ls generalizing n with
  | nil => simp [readAll]
  | cons l rest ih =>
    cases n with
    | zero => rfl
    | succ n =>
      rw [readAll, ih n]
      rfl

theorem body_of_readBody {game : Game} {skip depth : Nat} {ls : List Lexeme} {ns : List String}
    {is : List Instruction} (h : readBody game skip depth ls = ⟨ns, .ok is⟩) :
    Body game depth ((tokens ls).drop skip) ns is := by
  -- A token that is skipped was read with one before it, so what is left is the rest of the body.
  fun_induction readBody game skip depth ls generalizing ns is with
  | case1 =>
    cases h
    rw [tokens_nil, List.drop_nil]
    exact .nil
  | case2 depth l rest skip ih => exact ih h
  | case3 depth l rest v ht ih =>
    obtain ⟨is, hrest, rfl⟩ := Reading.map_eq_ok h
    rw [List.drop_zero, tokens_cons, ht]
    exact .int v (ih hrest)
  | case4 depth l rest v ht ih =>
    obtain ⟨is, hrest, rfl⟩ := Reading.map_eq_ok h
    rw [List.drop_zero, tokens_cons, ht]
    exact .float v (ih hrest)
  | case5 depth l rest text ht ih =>
    obtain ⟨is, hrest, rfl⟩ := Reading.map_eq_ok h
    rw [List.drop_zero, tokens_cons, ht]
    exact .string text (ih hrest)
  | case6 depth l rest text ht ih =>
    obtain ⟨is, hrest, rfl⟩ := Reading.map_eq_ok h
    rw [List.drop_zero, tokens_cons, ht]
    exact .wideString text (ih hrest)
  | case7 depth l rest text ht ih =>
    obtain ⟨ms, ms', k, hk, h, rfl⟩ := Reading.bind_eq_ok h
    cases hk
    obtain ⟨is, hrest, rfl⟩ := Reading.map_eq_ok h
    rw [List.drop_zero, tokens_cons, ht]
    exact .naming (.name text) (ih hrest)
  | case8 depth l rest k ht ih =>
    obtain ⟨is, hrest, rfl⟩ := Reading.map_eq_ok h
    rw [List.drop_zero, tokens_cons, ht]
    exact .naming (.rawKey k) (ih hrest)
  | case9 depth l rest text ht ih =>
    obtain ⟨ms, ms', k, hk, h, rfl⟩ := Reading.bind_eq_ok h
    cases hk
    obtain ⟨is, hrest, rfl⟩ := Reading.map_eq_ok h
    rw [List.drop_zero, tokens_cons, ht]
    exact .argument text (ih hrest)
  | case10 depth l rest ht k hk ih =>
    obtain ⟨is, hrest, rfl⟩ := Reading.map_eq_ok h
    obtain ⟨p, hp, hphrase⟩ := phrase?_eq_some hk
    rw [List.drop_zero, tokens_cons, ht, hphrase]
    exact .phrase hp (ih hrest)
  | case11 => cases h
  | case12 => cases h
  | case13 depth l rest k hqs hscript ht t hk ih =>
    obtain ⟨is, hrest, rfl⟩ := Reading.map_eq_ok h
    rw [List.drop_zero, tokens_cons, ht]
    exact .keyword hscript hk (ih hrest)
  | case14 depth l rest k hqs hscript ht hk ih =>
    cases k <;> simp [Keyword.tag?] at hk
    exact absurd rfl hqs
  | case15 depth l rest ht i length hi ih =>
    obtain ⟨is, hrest, rfl⟩ := Reading.map_eq_ok h
    obtain ⟨us, hus, rfl, happend⟩ := tuple?_eq_some hi
    rw [List.drop_zero, tokens_cons, ht, happend]
    exact .tuple hus (ih hrest)
  | case16 depth l rest ht hi ih =>
    obtain ⟨is, hrest, rfl⟩ := Reading.map_eq_ok h
    rw [List.drop_zero, tokens_cons, ht]
    refine .openParen ?_ (ih hrest)
    intro us i rest' hus happend
    rw [tuple?_of_tuple hus happend] at hi
    cases hi
  | case17 depth l rest ht ih =>
    obtain ⟨is, hrest, rfl⟩ := Reading.map_eq_ok h
    rw [List.drop_zero, tokens_cons, ht]
    exact .closeParen (ih hrest)
  | case18 depth l rest m hopen hclose ht t hm ih =>
    obtain ⟨is, hrest, rfl⟩ := Reading.map_eq_ok h
    rw [List.drop_zero, tokens_cons, ht]
    exact .mark hm (ih hrest)
  | case19 => cases h

theorem Body.readBody {game : Game} {depth : Nat} {ts : List Token} {ns : List String}
    {is : List Instruction} (h : Body game depth ts ns is) {ls : List Lexeme} (hls : tokens ls = ts) :
    readBody game 0 depth ls = ⟨ns, .ok is⟩ := by
  induction h generalizing ls with
  | nil =>
    cases ls with
    | nil => rfl
    | cons l rest => cases hls
  | int v _ ih =>
    obtain ⟨l, rest, rfl, ht, hrest⟩ := tokens_eq_cons hls
    simp only [Statement.readBody, ht]
    exact Reading.map_eq (ih hrest)
  | float v _ ih =>
    obtain ⟨l, rest, rfl, ht, hrest⟩ := tokens_eq_cons hls
    simp only [Statement.readBody, ht]
    exact Reading.map_eq (ih hrest)
  | string text _ ih =>
    obtain ⟨l, rest, rfl, ht, hrest⟩ := tokens_eq_cons hls
    simp only [Statement.readBody, ht]
    exact Reading.map_eq (ih hrest)
  | wideString text _ ih =>
    obtain ⟨l, rest, rfl, ht, hrest⟩ := tokens_eq_cons hls
    simp only [Statement.readBody, ht]
    exact Reading.map_eq (ih hrest)
  | naming hk _ ih =>
    obtain ⟨l, rest, rfl, ht, hrest⟩ := tokens_eq_cons hls
    cases hk with
    | name text =>
      simp only [Statement.readBody, ht]
      exact Reading.bind_eq (nameKey_eq text) (Reading.map_eq (ih hrest))
    | rawKey k =>
      simp only [Statement.readBody, ht]
      exact Reading.map_eq (ih hrest)
  | argument text _ ih =>
    obtain ⟨l, rest, rfl, ht, hrest⟩ := tokens_eq_cons hls
    simp only [Statement.readBody, ht]
    exact Reading.bind_eq (nameKey_eq text) (Reading.map_eq (ih hrest))
  | phrase hk _ ih =>
    obtain ⟨l, rest, rfl, ht, hrest⟩ := tokens_eq_cons hls
    simp only [Statement.readBody, ht, phrase?_of_phrase hk hrest]
    rw [readBody_skip]
    exact Reading.map_eq (ih (by rw [tokens_drop, hrest]; rfl))
  | @keyword _ k t _ _ _ hne hk _ ih =>
    obtain ⟨l, rest, rfl, ht, hrest⟩ := tokens_eq_cons hls
    have hqs : k ≠ .qs := by
      rintro rfl
      cases hk
    simp only [Statement.readBody, ht, hk]
    exact Reading.map_eq (ih hrest)
  | @tuple _ us _ _ _ _ hi _ ih =>
    obtain ⟨l, rest, rfl, ht, hrest⟩ := tokens_eq_cons hls
    simp only [Statement.readBody, ht, tuple?_of_tuple hi hrest]
    rw [readBody_skip]
    exact Reading.map_eq (ih (by rw [tokens_drop, hrest, List.drop_left]))
  | openParen hne _ ih =>
    obtain ⟨l, rest, rfl, ht, hrest⟩ := tokens_eq_cons hls
    have hnone : tuple? rest = none := tuple?_eq_none (by rw [hrest]; exact hne)
    simp only [Statement.readBody, ht, hnone]
    exact Reading.map_eq (ih hrest)
  | closeParen _ ih =>
    obtain ⟨l, rest, rfl, ht, hrest⟩ := tokens_eq_cons hls
    simp only [Statement.readBody, ht]
    exact Reading.map_eq (ih hrest)
  | @mark _ m t _ _ _ hm _ ih =>
    obtain ⟨l, rest, rfl, ht, hrest⟩ := tokens_eq_cons hls
    have hopen : m ≠ .openParen := by
      rintro rfl
      cases hm
    have hclose : m ≠ .closeParen := by
      rintro rfl
      cases hm
    simp only [Statement.readBody, ht, hm]
    exact Reading.map_eq (ih hrest)

theorem readBody_iff {game : Game} {depth : Nat} {ls : List Lexeme} {ns : List String}
    {is : List Instruction} :
    readBody game 0 depth ls = ⟨ns, .ok is⟩ ↔ Body game depth (tokens ls) ns is :=
  ⟨body_of_readBody, fun h => h.readBody rfl⟩

theorem lexemeKey_iff {l : Lexeme} {ns : List String} {k : Key} :
    lexemeKey l = ⟨ns, .ok k⟩ ↔ Naming l.token ns k := by
  constructor
  · intro h
    unfold lexemeKey at h
    split at h
    · rename_i text ht
      cases h
      rw [ht]
      exact .name text
    · rename_i ht
      cases h
      rw [ht]
      exact .rawKey k
    · cases h
  · intro h
    unfold lexemeKey
    generalize l.token = t at h
    cases h <;> rfl

theorem drop_of_findEnd {ls : List Lexeme} {n : Nat} (h : ls.findIdx? isScriptEnd = some n) :
    .keyword .endScript ∉ (tokens ls).take n ∧
      (tokens ls).drop n = .keyword .endScript :: (tokens ls).drop (n + 1) := by
  induction ls generalizing n with
  | nil => cases h
  | cons l rest ih =>
    rw [List.findIdx?_cons] at h
    by_cases hl : l.token = .keyword .endScript
    · simp only [isScriptEnd, hl, decide_true, if_true, Option.some.injEq] at h
      subst h
      simp [hl]
    · simp only [isScriptEnd, hl, decide_false, Bool.false_eq_true, if_false] at h
      obtain ⟨m, hm, rfl⟩ := Option.map_eq_some_iff.mp h
      obtain ⟨hnot, hdrop⟩ := ih hm
      refine ⟨?_, hdrop⟩
      simpa using ⟨fun he => hl he.symm, hnot⟩

theorem findEnd_of_append {ls : List Lexeme} {bs ts : List Token}
    (hls : tokens ls = bs ++ .keyword .endScript :: ts) (hend : .keyword .endScript ∉ bs) :
    ls.findIdx? isScriptEnd = some bs.length := by
  induction bs generalizing ls with
  | nil =>
    obtain ⟨l, rest, rfl, hl, -⟩ := tokens_eq_cons hls
    simp [List.findIdx?_cons, isScriptEnd, hl]
  | cons b bs ih =>
    obtain ⟨l, rest, rfl, hl, hrest⟩ := tokens_eq_cons hls
    have hne : l.token ≠ .keyword .endScript := by
      rintro he
      exact hend (by rw [← he, hl]; exact List.mem_cons_self)
    have := ih hrest (fun h => hend (List.mem_cons_of_mem _ h))
    simp [List.findIdx?_cons, isScriptEnd, hne, this]

theorem value_of_readAll {game : Game} {l : Lexeme} {rest : List Lexeme} {ns : List String}
    {ss : List Statement}
    (ih : ∀ {ns ss}, readAll game 2 rest = ⟨ns, .ok ss⟩ → Text game ((tokens rest).drop 2) ns ss)
    (h : ((lexemeKey l).bind fun k =>
      match rest with
      | a :: b :: _ =>
        match a.token, b.token with
        | .mark .equals, .int v => (readAll game 2 rest).map (.value k v :: ·)
        | _, _ => .fail (.valueMissing l.offset)
      | _ => .fail (.valueMissing l.offset)) = ⟨ns, .ok ss⟩) :
    Text game (tokens (l :: rest)) ns ss := by
  obtain ⟨ms, ms', k, hk, hafter, rfl⟩ := Reading.bind_eq_ok h
  clear h
  split at hafter
  · split at hafter
    · rename_i v ha hb
      obtain ⟨ss, hrest, rfl⟩ := Reading.map_eq_ok hafter
      have := Text.value (lexemeKey_iff.mp hk) v (ih hrest)
      simpa [ha, hb] using this
    · cases hafter
  · cases hafter

theorem text_of_readAll {game : Game} {skip : Nat} {ls : List Lexeme} {ns : List String}
    {ss : List Statement} (h : readAll game skip ls = ⟨ns, .ok ss⟩) :
    Text game ((tokens ls).drop skip) ns ss := by
  fun_induction readAll game skip ls generalizing ns ss with
  | case1 =>
    cases h
    rw [tokens_nil, List.drop_nil]
    exact .nil
  | case2 l rest skip ih => exact ih h
  | case3 l rest ht ih =>
    rw [List.drop_zero, tokens_cons, ht]
    exact .newLine (ih h)
  | case4 => cases h
  | case5 l ht name more ih =>
    obtain ⟨ms, ms', k, hk, hscript, rfl⟩ := Reading.bind_eq_ok h
    clear h
    split at hscript
    · cases hscript
    · rename_i length hlength
      obtain ⟨bodyNames, restNames, is, hread, hafter, rfl⟩ := Reading.bind_eq_ok hscript
      obtain ⟨ss, hrest, rfl⟩ := Reading.map_eq_ok hafter
      obtain ⟨hnot, hdrop⟩ := drop_of_findEnd hlength
      have hbody := readBody_iff.mp hread
      rw [tokens_take] at hbody
      have := Text.script (lexemeKey_iff.mp hk) hnot hbody (ih length hrest)
      rw [List.drop_zero, tokens_cons, ht, tokens_cons]
      rwa [tokens_cons, List.drop_succ_cons, ← hdrop, List.take_append_drop] at this
  | case6 l rest text ht ih => exact value_of_readAll ih h
  | case7 l rest k ht ih => exact value_of_readAll ih h
  | case8 => cases h

theorem Text.readAll {game : Game} {ts : List Token} {ns : List String} {ss : List Statement}
    (h : Text game ts ns ss) {ls : List Lexeme} (hls : tokens ls = ts) :
    readAll game 0 ls = ⟨ns, .ok ss⟩ := by
  induction h generalizing ls with
  | nil =>
    cases ls with
    | nil => rfl
    | cons l rest => cases hls
  | newLine _ ih =>
    obtain ⟨l, rest, rfl, ht, hrest⟩ := tokens_eq_cons hls
    simp only [Statement.readAll, ht]
    exact ih hrest
  | value hk v _ ih =>
    obtain ⟨l, ls₁, rfl, hl, h₁⟩ := tokens_eq_cons hls
    obtain ⟨a, ls₂, rfl, ha, h₂⟩ := tokens_eq_cons h₁
    obtain ⟨b, rest, rfl, hb, hrest⟩ := tokens_eq_cons h₂
    have hkey := lexemeKey_iff.mpr (hl ▸ hk)
    have hafter := ih hrest
    cases hk <;>
    · simp only [Statement.readAll, hl, ha, hb]
      rw [readAll_skip]
      exact Reading.bind_eq hkey (Reading.map_eq hafter)
  | @script n bs ts ms bodyNames ns k is ss hk hend body _ ih =>
    obtain ⟨l, ls₁, rfl, hl, h₁⟩ := tokens_eq_cons hls
    obtain ⟨name, more, rfl, hname, hmore⟩ := tokens_eq_cons h₁
    have hlength := findEnd_of_append hmore hend
    have hbody : tokens (more.take bs.length) = bs := by rw [tokens_take, hmore, List.take_left]
    have hrest : tokens (more.drop (bs.length + 1)) = ts := by
      rw [tokens_drop, hmore, ← List.drop_drop, List.drop_left]
      rfl
    simp only [Statement.readAll, hl, hlength]
    apply Reading.bind_eq (lexemeKey_iff.mpr (hname ▸ hk))
    apply Reading.bind_eq (body.readBody hbody)
    rw [readAll_skip]
    exact Reading.map_eq (ih hrest)

theorem readAll_iff {game : Game} {ls : List Lexeme} {ns : List String} {ss : List Statement} :
    readAll game 0 ls = ⟨ns, .ok ss⟩ ↔ Text game (tokens ls) ns ss :=
  ⟨text_of_readAll, fun h => h.readAll rfl⟩

end Statement

end QbCodec
