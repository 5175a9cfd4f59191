import QbCodec.File.Compiled
import QbCodec.Proofs.File.Grammar

namespace QbCodec

def Token.isName : Token → Bool
  | name _ | rawKey _ => true
  | _ => false

def Token.isPhrase : Token → Bool
  | rawKey _ | string _ | wideString _ => true
  | _ => false

namespace Statement

theorem isName_iff {t : Token} : t.isName ↔ ∃ ns k, Naming t ns k := by
  constructor
  · intro h
    cases t with
    | name text => exact ⟨_, _, .name text⟩
    | rawKey k => exact ⟨_, _, .rawKey k⟩
    | _ => cases h
  · rintro ⟨ns, k, h⟩
    cases h <;> rfl

theorem isPhrase_iff {t : Token} : t.isPhrase ↔ ∃ k, Phrase t k := by
  constructor
  · intro h
    cases t with
    | rawKey k => exact ⟨_, .rawKey k⟩
    | string text => exact ⟨_, .string text⟩
    | wideString text => exact ⟨_, .wideString text⟩
    | _ => cases h
  · rintro ⟨k, h⟩
    cases h <;> rfl

def PhrasesClosed (ts : List Token) : Prop :=
  ∀ before after, ts = before ++ .keyword .qs :: after →
    ∃ p rest, p.isPhrase ∧ after = .mark .openParen :: p :: .mark .closeParen :: rest

theorem PhrasesClosed.of_append {before ts : List Token} (h : PhrasesClosed (before ++ ts)) :
    PhrasesClosed ts := by
  intro before' after hts
  exact h (before ++ before') after (by rw [hts, List.append_assoc])

theorem PhrasesClosed.append {before ts : List Token} (hnot : .keyword .qs ∉ before)
    (h : PhrasesClosed ts) : PhrasesClosed (before ++ ts) := by
  induction before with
  | nil => exact h
  | cons b before ih =>
    intro front after happend
    cases front with
    | nil =>
      cases happend
      exact absurd List.mem_cons_self hnot
    | cons f front =>
      exact ih (fun hmem => hnot (List.mem_cons_of_mem _ hmem)) front after
        (List.cons.inj happend).2

structure Acceptable (ts : List Token) : Prop where
  noScript : .keyword .script ∉ ts
  phrasesClosed : PhrasesClosed ts

/-- The rows of tokens that are a file: line ends, named integers, and scripts. -/
inductive Accepted : List Token → Prop
  | nil : Accepted []
  | newLine {ts : List Token} (rest : Accepted ts) : Accepted (.mark .newLine :: ts)
  | value {n : Token} {ts : List Token} (h : n.isName) (v : Int32) (rest : Accepted ts) :
      Accepted (n :: .mark .equals :: .int v :: ts)
  | script {n : Token} {bs ts : List Token} (h : n.isName) (noEnd : .keyword .endScript ∉ bs)
      (body : Acceptable bs) (rest : Accepted ts) :
      Accepted (.keyword .script :: n :: (bs ++ .keyword .endScript :: ts))

theorem Acceptable.of_append {before ts : List Token} (h : Acceptable (before ++ ts)) :
    Acceptable ts :=
  ⟨fun hmem => h.noScript (List.mem_append_right _ hmem), h.phrasesClosed.of_append⟩

theorem Acceptable.of_cons {t : Token} {ts : List Token} (h : Acceptable (t :: ts)) :
    Acceptable ts := by
  have happend : Acceptable ([t] ++ ts) := h
  exact happend.of_append

theorem Acceptable.append {before ts : List Token} (hscript : .keyword .script ∉ before)
    (hqs : .keyword .qs ∉ before) (h : Acceptable ts) : Acceptable (before ++ ts) where
  noScript := by
    rw [List.mem_append]
    rintro (hmem | hmem)
    · exact hscript hmem
    · exact h.noScript hmem
  phrasesClosed := h.phrasesClosed.append hqs

theorem Acceptable.cons {t : Token} {ts : List Token} (hscript : t ≠ .keyword .script)
    (hqs : t ≠ .keyword .qs) (h : Acceptable ts) : Acceptable (t :: ts) := by
  have happend : Acceptable ([t] ++ ts) := by
    apply h.append
    · simpa using hscript.symm
    · simpa using hqs.symm
  exact happend

theorem keyword_notMem_tuple {us : List Token} {i : Instruction} (h : Tuple us i) (k : Keyword) :
    .keyword k ∉ us := by
  have not_number {t : Token} {x : Single} (ht : number? t = some x) : .keyword k ≠ t := by
    rintro rfl
    cases ht
  cases h with
  | pair ha hb => simp [not_number ha, not_number hb]
  | vector ha hb hc => simp [not_number ha, not_number hb, not_number hc]

theorem Body.acceptable {game : Game} {depth : Nat} {ts : List Token} {ns : List String}
    {is : List Instruction} (h : Body game depth ts ns is) : Acceptable ts := by
  induction h with
  | nil => exact ⟨List.not_mem_nil, fun before after h => by simp at h⟩
  | int v _ ih => exact ih.cons (by simp) (by simp)
  | float v _ ih => exact ih.cons (by simp) (by simp)
  | string text _ ih => exact ih.cons (by simp) (by simp)
  | wideString text _ ih => exact ih.cons (by simp) (by simp)
  | naming hk _ ih => cases hk <;> exact ih.cons (by simp) (by simp)
  | argument text _ ih => exact ih.cons (by simp) (by simp)
  | @phrase _ p ts _ k _ hp _ ih =>
    have after : Acceptable (.mark .openParen :: p :: .mark .closeParen :: ts) := by
      apply Acceptable.cons (by simp) (by simp)
      refine Acceptable.cons ?_ ?_ (ih.cons (by simp) (by simp)) <;>
      · cases hp <;> simp
    constructor
    · simpa using after.noScript
    · intro before rest happend
      cases before with
      | nil =>
        cases happend
        exact ⟨p, ts, isPhrase_iff.mpr ⟨k, hp⟩, rfl⟩
      | cons b before => exact after.phrasesClosed before rest (List.cons.inj happend).2
  | @keyword _ k _ _ _ _ hne hk _ ih =>
    have hqs : k ≠ .qs := by
      rintro rfl
      cases hk
    exact ih.cons (by simpa using hne) (by simpa using hqs)
  | tuple hi _ ih =>
    apply Acceptable.cons (by simp) (by simp)
    exact ih.append (keyword_notMem_tuple hi _) (keyword_notMem_tuple hi _)
  | openParen _ _ ih => exact ih.cons (by simp) (by simp)
  | closeParen _ ih => exact ih.cons (by simp) (by simp)
  | mark _ _ ih => exact ih.cons (by simp) (by simp)

theorem Acceptable.exists_body (game : Game) (depth : Nat) {ts : List Token} (h : Acceptable ts) :
    ∃ ns is, Body game depth ts ns is := by
  -- The tokens of a phrase or a tuple are read together, so the induction is on the number of tokens.
  match ts with
  | [] => exact ⟨_, _, .nil⟩
  | .int v :: rest =>
    obtain ⟨ns, is, hrest⟩ := h.of_cons.exists_body game depth
    exact ⟨_, _, .int v hrest⟩
  | .float v :: rest =>
    obtain ⟨ns, is, hrest⟩ := h.of_cons.exists_body game depth
    exact ⟨_, _, .float v hrest⟩
  | .string text :: rest =>
    obtain ⟨ns, is, hrest⟩ := h.of_cons.exists_body game depth
    exact ⟨_, _, .string text hrest⟩
  | .wideString text :: rest =>
    obtain ⟨ns, is, hrest⟩ := h.of_cons.exists_body game depth
    exact ⟨_, _, .wideString text hrest⟩
  | .name text :: rest =>
    obtain ⟨ns, is, hrest⟩ := h.of_cons.exists_body game depth
    exact ⟨_, _, .naming (.name text) hrest⟩
  | .rawKey k :: rest =>
    obtain ⟨ns, is, hrest⟩ := h.of_cons.exists_body game depth
    exact ⟨_, _, .naming (.rawKey k) hrest⟩
  | .argument text :: rest =>
    obtain ⟨ns, is, hrest⟩ := h.of_cons.exists_body game depth
    exact ⟨_, _, .argument text hrest⟩
  | .keyword k :: rest =>
    by_cases hqs : k = .qs
    · subst hqs
      obtain ⟨p, after, hp, hafter⟩ := h.phrasesClosed [] rest rfl
      obtain ⟨key, hkey⟩ := isPhrase_iff.mp hp
      rw [hafter] at h ⊢
      obtain ⟨ns, is, hrest⟩ := h.of_cons.of_cons.of_cons.of_cons.exists_body game depth
      exact ⟨_, _, .phrase hkey hrest⟩
    · have hne : k ≠ .script := by
        rintro rfl
        exact h.noScript List.mem_cons_self
      obtain ⟨t, ht⟩ : ∃ t, k.tag? = some t := by
        cases k <;> first | exact absurd rfl hqs | exact ⟨_, rfl⟩
      obtain ⟨ns, is, hrest⟩ := h.of_cons.exists_body game depth
      exact ⟨_, _, .keyword hne ht hrest⟩
  | .mark m :: rest =>
    by_cases hopen : m = .openParen
    · subst hopen
      by_cases htuple : ∃ us i after, Tuple us i ∧ rest = us ++ after
      · obtain ⟨us, i, after, hi, happend⟩ := htuple
        rw [happend] at h ⊢
        obtain ⟨ns, is, hrest⟩ := h.of_cons.of_append.exists_body game depth
        exact ⟨_, _, .tuple hi hrest⟩
      · obtain ⟨ns, is, hrest⟩ := h.of_cons.exists_body game (depth + 1)
        exact ⟨_, _, .openParen (fun us i after hi he => htuple ⟨us, i, after, hi, he⟩) hrest⟩
    · by_cases hclose : m = .closeParen
      · subst hclose
        obtain ⟨ns, is, hrest⟩ := h.of_cons.exists_body game (depth - 1)
        exact ⟨_, _, .closeParen hrest⟩
      · obtain ⟨t, ht⟩ : ∃ t, m.tag? (0 < depth) = some t := by
          cases m <;> first | exact absurd rfl hopen | exact absurd rfl hclose | exact ⟨_, rfl⟩
        obtain ⟨ns, is, hrest⟩ := h.of_cons.exists_body game depth
        exact ⟨_, _, .mark ht hrest⟩
termination_by ts.length
decreasing_by all_goals simp [*] <;> omega

theorem acceptable_iff (game : Game) (depth : Nat) {ts : List Token} :
    Acceptable ts ↔ ∃ ns is, Body game depth ts ns is :=
  ⟨fun h => h.exists_body game depth, fun ⟨_, _, h⟩ => h.acceptable⟩

theorem accepted_iff (game : Game) {ts : List Token} :
    Accepted ts ↔ ∃ ns ss, Text game ts ns ss := by
  constructor
  · intro h
    induction h with
    | nil => exact ⟨_, _, .nil⟩
    | newLine _ ih =>
      obtain ⟨ns, ss, hrest⟩ := ih
      exact ⟨_, _, .newLine hrest⟩
    | value hn v _ ih =>
      obtain ⟨ns, ss, hrest⟩ := ih
      obtain ⟨ms, k, hk⟩ := isName_iff.mp hn
      exact ⟨_, _, .value hk v hrest⟩
    | script hn hend hbody _ ih =>
      obtain ⟨ns, ss, hrest⟩ := ih
      obtain ⟨ms, k, hk⟩ := isName_iff.mp hn
      obtain ⟨bodyNames, is, his⟩ := (acceptable_iff game 0).mp hbody
      exact ⟨_, _, .script hk hend his hrest⟩
  · rintro ⟨ns, ss, h⟩
    induction h with
    | nil => exact .nil
    | newLine _ ih => exact .newLine ih
    | value hk v _ ih => exact .value (isName_iff.mpr ⟨_, _, hk⟩) v ih
    | script hk hend hbody _ ih =>
      exact .script (isName_iff.mpr ⟨_, _, hk⟩) hend ((acceptable_iff game 0).mpr ⟨_, _, hbody⟩) ih

/-- A fault that no source text has: it lacks the name or the end of a script, or has a token that
cannot be encoded. -/
def Fault.isUnseen : Fault → Bool
  | nameMissing _ | endMissing _ | notEncodable .. => true
  | _ => false

theorem isUnseen_of_readBody {game : Game} {skip depth : Nat} {ls : List Lexeme} {e : Fault}
    (h : (readBody game skip depth ls).outcome = .error e) : e.isUnseen = false := by
  fun_induction readBody game skip depth ls with
  | case1 => cases h
  | case2 depth l rest skip ih => exact ih h
  | case7 depth l rest text ht ih =>
    rcases Reading.bind_eq_error h with hname | ⟨ns, k, -, hrest⟩
    · cases hname
    · exact ih (Reading.map_eq_error hrest)
  | case9 depth l rest text ht ih =>
    rcases Reading.bind_eq_error h with hname | ⟨ns, k, -, hrest⟩
    · cases hname
    · exact ih (Reading.map_eq_error hrest)
  | case11 depth l rest ht hphrase =>
    cases h
    rfl
  | case12 depth l rest ht =>
    cases h
    rfl
  | case14 depth l rest k hqs hscript ht hk ih => exact ih h
  | case19 depth l rest m hopen hclose ht hm =>
    cases m <;> first | exact absurd rfl hopen | exact absurd rfl hclose | cases hm
  | _ =>
    rename_i ih
    exact ih (Reading.map_eq_error h)

theorem isUnseen_of_lexemeKey {l : Lexeme} {e : Fault} (h : (lexemeKey l).outcome = .error e) :
    e.isUnseen = false := by
  unfold lexemeKey at h
  split at h
  · cases h
  · cases h
  · cases h
    rfl

theorem Naming.not_bracket {t : Token} {ns : List String} {k : Key} (h : Naming t ns k) :
    Source.isScriptBracket t = false := by
  cases h <;> rfl

theorem Body.not_bracket {game : Game} {depth : Nat} {ts : List Token} {ns : List String}
    {is : List Instruction} (h : Body game depth ts ns is) (hend : .keyword .endScript ∉ ts) :
    ∀ t ∈ ts, Source.isScriptBracket t = false := by
  intro t ht
  unfold Source.isScriptBracket
  split
  · exact absurd ht h.acceptable.noScript
  · exact absurd ht hend
  · rfl

theorem openScripts_after_body {game : Game} {bs ts : List Token} {ns : List String}
    {is : List Instruction} (hbody : Body game 0 bs ns is) (hend : .keyword .endScript ∉ bs)
    (h : Source.openScripts 1 (bs ++ .keyword .endScript :: ts) = some 0) :
    Source.openScripts 0 ts = some 0 := by
  rw [Source.openScripts_append,
    Source.openScripts_of_not_bracket 1 (hbody.not_bracket hend)] at h
  simpa using h

theorem isUnseen_of_value {game : Game} {l : Lexeme} {rest : List Lexeme} {e : Fault}
    (hname : Source.isScriptBracket l.token = false)
    (ih : Source.openScripts 0 ((tokens rest).drop 2) = some 0 →
      (readAll game 2 rest).outcome = .error e → e.isUnseen = false)
    (hopen : Source.openScripts 0 (tokens (l :: rest)) = some 0)
    (h : ((lexemeKey l).bind fun k =>
      match rest with
      | a :: b :: _ =>
        match a.token, b.token with
        | .mark .equals, .int v => (readAll game 2 rest).map (.value k v :: ·)
        | _, _ => .fail (.valueMissing l.offset)
      | _ => .fail (.valueMissing l.offset)).outcome = .error e) : e.isUnseen = false := by
  rw [tokens_cons, Source.openScripts_cons, Source.scriptStep_of_not_bracket 0 hname] at hopen
  rcases Reading.bind_eq_error h with hkey | ⟨ns, k, -, hafter⟩
  · exact isUnseen_of_lexemeKey hkey
  clear h
  split at hafter
  · split at hafter
    · rename_i ha hb
      refine ih ?_ (Reading.map_eq_error hafter)
      simpa [ha, hb, Source.scriptStep] using hopen
    · cases hafter
      rfl
  · cases hafter
    rfl

theorem isUnseen_of_readAll {game : Game} {skip : Nat} {ls : List Lexeme} {e : Fault}
    (hopen : Source.openScripts 0 ((tokens ls).drop skip) = some 0)
    (h : (readAll game skip ls).outcome = .error e) : e.isUnseen = false := by
  -- The induction is on the reading: between statements no script is open.
  fun_induction readAll game skip ls with
  | case1 => cases h
  | case2 l rest skip ih => exact ih hopen h
  | case3 l rest ht ih =>
    rw [List.drop_zero, tokens_cons, ht] at hopen
    exact ih hopen h
  | case4 l ht =>
    rw [List.drop_zero, tokens_cons, ht] at hopen
    cases hopen
  | case5 l ht name more ih =>
    rw [List.drop_zero, tokens_cons, ht, Source.openScripts_cons, Source.scriptStep_script,
      tokens_cons] at hopen
    rcases Reading.bind_eq_error h with hkey | ⟨ns, k, hkey, hscript⟩
    · exact isUnseen_of_lexemeKey hkey
    have hname := (lexemeKey_iff.mp hkey).not_bracket
    have hmore : Source.openScripts 1 (tokens more) = some 0 := by
      simpa [Source.scriptStep_of_not_bracket 1 hname] using hopen
    clear h
    split at hscript
    · rename_i hnone
      have hend : .keyword .endScript ∉ tokens more := by
        intro hmem
        obtain ⟨l', hl', hl'end⟩ := List.mem_map.mp hmem
        have := List.findIdx?_eq_none_iff.mp hnone l' hl'
        simp [isScriptEnd, hl'end] at this
      have := Source.le_of_openScripts hmore hend
      omega
    · rename_i length hlength
      obtain ⟨hnot, hdrop⟩ := drop_of_findEnd hlength
      rcases Reading.bind_eq_error hscript with hbody | ⟨ms, is, hbody, hrest⟩
      · exact isUnseen_of_readBody hbody
      · have hbody := readBody_iff.mp hbody
        rw [tokens_take] at hbody
        refine ih length ?_ (Reading.map_eq_error hrest)
        rw [tokens_cons, List.drop_succ_cons]
        apply openScripts_after_body hbody hnot
        rwa [← hdrop, List.take_append_drop]
  | case6 l rest text ht ih => exact isUnseen_of_value (by rw [ht]; rfl) ih hopen h
  | case7 l rest k ht ih => exact isUnseen_of_value (by rw [ht]; rfl) ih hopen h
  | case8 l rest h₁ h₂ h₃ h₄ =>
    cases h
    rfl

def Fault.initial : Fault → Char
  | outsideScript .. => 'u'
  | nameMissing _ | endMissing _ | nested _ => 's'
  | valueMissing _ | notAName .. | phraseMalformed _ => 'e'
  | notEncodable .. => 'c'

theorem toString_string (s : String) : toString s = s := rfl

theorem Fault.head?_reason (e : Fault) : e.reason.toList.head? = some e.initial := by
  unfold reason
  cases e <;>
  · simp only [toString_string, String.append_assoc, String.toList_append]
    simp [initial]

theorem Fault.reason_ne_nested {e : Fault} (he : e.isUnseen) (offset : Nat) :
    e.reason ≠ (nested offset).reason := by
  -- The reasons that start alike differ in what stands before their last six characters.
  intro h
  have hhead := congrArg (·.toList.head?) h
  have hlast := congrArg (·.toList.reverse[6]?) h
  unfold reason at hlast
  cases e with
  | nameMissing o =>
    simp only [toString_string, String.append_assoc, String.toList_append] at hlast
    simp at hlast
  | endMissing o =>
    simp only [toString_string, String.append_assoc, String.toList_append] at hlast
    simp at hlast
  | notEncodable token o =>
    simp only [head?_reason] at hhead
    cases hhead
  | _ => cases he

theorem Fault.isUnseen_of_reason {e e' : Fault} (h : e.reason = e'.reason) (he : e.isUnseen) :
    e'.isUnseen := by
  have hhead := congrArg (·.toList.head?) h
  simp only [head?_reason, Option.some.injEq] at hhead
  cases e' with
  | nested offset => exact absurd h (reason_ne_nested he offset)
  | nameMissing offset => rfl
  | endMissing offset => rfl
  | notEncodable token offset => rfl
  | _ =>
    cases e <;> first
    | simp [isUnseen] at he; done
    | simp [initial] at hhead

end Statement

namespace Compiled

open Statement

theorem ofLexemes_eq_ok_iff {t : Target} {ls : List Lexeme} {r : Registry} :
    (∃ file, (ofLexemes t ls r).1 = .ok file) ↔
      ∃ ss, (readAll t.game 0 ls).outcome = .ok ss := by
  unfold ofLexemes
  cases hread : (readAll t.game 0 ls).outcome with
  | error e => simp [hread]
  | ok ss => simp [hread]

theorem ofLexemes_eq_error {t : Target} {ls : List Lexeme} {r : Registry} {failure : Failure}
    (h : (ofLexemes t ls r).1 = .error failure) :
    ∃ e, (readAll t.game 0 ls).outcome = .error e ∧ failure = .compile e.reason := by
  unfold ofLexemes at h
  cases hread : (readAll t.game 0 ls).outcome with
  | error e =>
    simp only [hread, Except.error.injEq] at h
    exact ⟨e, rfl, h.symm⟩
  | ok ss => simp [hread] at h

theorem readAll_ok_iff_accepted (game : Game) {ls : List Lexeme} :
    (∃ ss, (readAll game 0 ls).outcome = .ok ss) ↔ Accepted (tokens ls) := by
  rw [accepted_iff game]
  constructor
  · rintro ⟨ss, h⟩
    refine ⟨(readAll game 0 ls).names, ss, readAll_iff.mp ?_⟩
    rw [← h]
  · rintro ⟨ns, ss, h⟩
    exact ⟨ss, by rw [readAll_iff.mpr h]⟩

/-- A row of lexemes compiles if and only if its tokens are accepted, and any other is a compile
error. If the lexemes are those of a source text, it is none of the errors about a script without a
name or an end or about a token that cannot be encoded. -/
theorem ofLexemes_iff_accepted (t : Target) (ls : List Lexeme) (r : Registry) :
    ((∃ file, (ofLexemes t ls r).1 = .ok file) ↔ Accepted (tokens ls)) ∧
      (¬ Accepted (tokens ls) → ∃ reason, (ofLexemes t ls r).1 = .error (.compile reason)) ∧
      ∀ source, Source.lexemes source = .ok ls → ∀ e : Fault, e.isUnseen →
        (ofLexemes t ls r).1 ≠ .error (.compile e.reason) := by
  have hiff : (∃ file, (ofLexemes t ls r).1 = .ok file) ↔ Accepted (tokens ls) :=
    ofLexemes_eq_ok_iff.trans (readAll_ok_iff_accepted t.game)
  refine ⟨hiff, ?_, ?_⟩
  · intro hnot
    cases hfile : (ofLexemes t ls r).1 with
    | ok file => exact absurd (hiff.mp ⟨file, hfile⟩) hnot
    | error failure =>
      obtain ⟨e, -, rfl⟩ := ofLexemes_eq_error hfile
      exact ⟨e.reason, rfl⟩
  · intro source hlexemes e hunseen hfile
    obtain ⟨e', hread, hreason⟩ := ofLexemes_eq_error hfile
    have hopen : Source.openScripts 0 ((tokens ls).drop 0) = some 0 :=
      Source.openScripts_of_lexemes hlexemes
    have hseen : e'.isUnseen = false := isUnseen_of_readAll hopen hread
    have := Fault.isUnseen_of_reason (Failure.compile.inj hreason) hunseen
    rw [hseen] at this
    cases this

def phrased : List Lexeme :=
  [⟨.keyword .script, 0⟩, ⟨.name "s", 7⟩, ⟨.mark .openParen, 9⟩, ⟨.int 1, 10⟩, ⟨.mark .comma, 11⟩,
    ⟨.float ⟨0x40200000⟩, 13⟩, ⟨.mark .closeParen, 16⟩, ⟨.keyword .qs, 18⟩, ⟨.mark .openParen, 20⟩,
    ⟨.string "a", 21⟩, ⟨.mark .closeParen, 24⟩, ⟨.keyword .endScript, 26⟩]

def unphrased : List Lexeme :=
  [⟨.keyword .script, 0⟩, ⟨.name "s", 7⟩, ⟨.keyword .qs, 9⟩, ⟨.mark .openParen, 11⟩, ⟨.int 1, 12⟩,
    ⟨.mark .closeParen, 13⟩, ⟨.keyword .endScript, 15⟩]

theorem lexemes_phrased : Source.lexemes "script s (1, 2.5) qs('a') endscript" = .ok phrased := by
  apply Source.lexemes_of_toOption
  decide +kernel

theorem lexemes_unphrased : Source.lexemes "script s qs(1) endscript" = .ok unphrased := by
  apply Source.lexemes_of_toOption
  decide +kernel

theorem ofLexemes_phrased :
    (Source.lexemes "script s (1, 2.5) qs('a') endscript" = .ok phrased ∧
      Accepted (tokens phrased) ∧ ∃ file, (ofLexemes ⟨0, .big, .ghwt⟩ phrased {}).1 = .ok file) ∧
    Source.lexemes "script s qs(1) endscript" = .ok unphrased ∧ ¬ Accepted (tokens unphrased) ∧
      (∃ reason, (ofLexemes ⟨0, .big, .ghwt⟩ unphrased {}).1 = .error (.compile reason)) ∧
      (ofLexemes ⟨0, .big, .ghwt⟩ unphrased {}).1 ≠
        .error (.compile (Fault.endMissing 0).reason) := by
  constructor
  · have hbody : Body .ghwt 0 [.mark .openParen, .int 1, .mark .comma, .float ⟨0x40200000⟩,
        .mark .closeParen, .keyword .qs, .mark .openParen, .string "a", .mark .closeParen] [] _ :=
      .tuple (.pair rfl rfl) (.phrase (.string "a") .nil)
    have haccepted : Accepted (tokens phrased) :=
      .script (n := .name "s") rfl (by simp) hbody.acceptable .nil
    obtain ⟨hiff, -⟩ := ofLexemes_iff_accepted ⟨0, .big, .ghwt⟩ phrased {}
    exact ⟨lexemes_phrased, haccepted, hiff.mpr haccepted⟩
  · have hread : (readAll .ghwt 0 unphrased).outcome = .error (.phraseMalformed 9) := by rfl
    have hnot : ¬ Accepted (tokens unphrased) := by
      rw [← readAll_ok_iff_accepted .ghwt, hread]
      exact nofun
    obtain ⟨-, herror, hreason⟩ := ofLexemes_iff_accepted ⟨0, .big, .ghwt⟩ unphrased {}
    exact ⟨lexemes_unphrased, hnot, herror hnot, hreason _ lexemes_unphrased (.endMissing 0) rfl⟩

end Compiled

end QbCodec
