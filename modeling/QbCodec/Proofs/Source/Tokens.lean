import QbCodec.Proofs.Source.Steps

namespace QbCodec

def tokens (ls : List Lexeme) : List Token := ls.map Lexeme.token

@[simp] theorem tokens_nil : tokens [] = [] := rfl

@[simp] theorem tokens_cons (l : Lexeme) (ls : List Lexeme) :
    tokens (l :: ls) = l.token :: tokens ls := rfl

theorem tokens_append (ls ms : List Lexeme) : tokens (ls ++ ms) = tokens ls ++ tokens ms :=
  List.map_append

theorem tokens_eq_cons {ls : List Lexeme} {t : Token} {ts : List Token} (h : tokens ls = t :: ts) :
    ∃ l rest, ls = l :: rest ∧ l.token = t ∧ tokens rest = ts := List.map_eq_cons_iff.mp h

theorem tokens_drop (n : Nat) (ls : List Lexeme) : tokens (ls.drop n) = (tokens ls).drop n :=
  List.map_drop

theorem tokens_take (n : Nat) (ls : List Lexeme) : tokens (ls.take n) = (tokens ls).take n :=
  List.map_take

namespace Source

def scriptStep (n : Nat) : Token → Option Nat
  | .keyword .script => some (n + 1)
  | .keyword .endScript => if n = 0 then none else some (n - 1)
  | _ => some n

def openScripts (n : Nat) (ts : List Token) : Option Nat := ts.foldlM scriptStep n

@[simp] theorem openScripts_nil (n : Nat) : openScripts n [] = some n := rfl

@[simp] theorem openScripts_cons (n : Nat) (t : Token) (ts : List Token) :
    openScripts n (t :: ts) = (scriptStep n t).bind (openScripts · ts) := List.foldlM_cons

theorem openScripts_append (n : Nat) (ts us : List Token) :
    openScripts n (ts ++ us) = (openScripts n ts).bind (openScripts · us) := List.foldlM_append

@[simp] theorem scriptStep_script (n : Nat) : scriptStep n (.keyword .script) = some (n + 1) := rfl

@[simp] theorem scriptStep_endScript (n : Nat) :
    scriptStep (n + 1) (.keyword .endScript) = some n := rfl

def isScriptBracket : Token → Bool
  | .keyword .script | .keyword .endScript => true
  | _ => false

theorem not_bracket_of_ne {t : Token} (h : t ≠ .keyword .script) (h' : t ≠ .keyword .endScript) :
    isScriptBracket t = false := by
  unfold isScriptBracket
  split
  · exact absurd rfl h
  · exact absurd rfl h'
  · rfl

theorem scriptStep_of_not_bracket (n : Nat) {t : Token} (h : isScriptBracket t = false) :
    scriptStep n t = some n := by
  unfold scriptStep
  split
  · cases h
  · cases h
  · rfl

theorem openScripts_of_not_bracket (n : Nat) {ts : List Token}
    (h : ∀ t ∈ ts, isScriptBracket t = false) : openScripts n ts = some n := by
  induction ts with
  | nil => rfl
  | cons t ts ih =>
    rw [openScripts_cons, scriptStep_of_not_bracket n (h t List.mem_cons_self)]
    exact ih fun u hu => h u (List.mem_cons_of_mem _ hu)

theorem le_of_openScripts {n m : Nat} {ts : List Token} (h : openScripts n ts = some m)
    (hend : .keyword .endScript ∉ ts) : n ≤ m := by
  induction ts generalizing n with
  | nil =>
    cases h
    exact Nat.le_refl _
  | cons t ts ih =>
    rw [openScripts_cons] at h
    obtain ⟨k, hk, hrest⟩ := Option.bind_eq_some_iff.mp h
    have hle : k ≤ m := ih hrest fun hmem => hend (List.mem_cons_of_mem _ hmem)
    unfold scriptStep at hk
    split at hk
    · cases hk
      omega
    · exact absurd List.mem_cons_self hend
    · cases hk
      exact hle

def isStringText (text : String) : Bool := text.toList.all fun c => c != '"' && !isLineEnd c

def isFree : Token → Bool
  | .keyword .script | .keyword .endScript => false
  | .string text | .wideString text => isStringText text
  | _ => true

def hasName : Token → Bool
  | .name _ | .argument _ => true
  | _ => false

namespace Scanner

/-- What happens to the lexemes and the open scripts of a scanner: `Grows s t` if `t` comes from `s`
by lexemes that are added one at a time. -/
inductive Grows (s : Scanner) : Scanner → Prop
  | refl {t : Scanner} (hdone : t.done = s.done) (hscripts : t.scripts = s.scripts) : Grows s t
  | free {t u : Scanner} {l : Lexeme} (h : Grows s t) (hfree : isFree l.token)
      (hdone : u.done = l :: t.done) (hscripts : u.scripts = t.scripts) : Grows s u
  | opened {t u : Scanner} {l : Lexeme} {i : Nat} (h : Grows s t)
      (htoken : l.token = .keyword .script) (hdone : u.done = l :: t.done)
      (hscripts : u.scripts = i :: t.scripts) : Grows s u
  | ended {t u : Scanner} {l : Lexeme} {i : Nat} (h : Grows s t)
      (htoken : l.token = .keyword .endScript) (hdone : u.done = l :: t.done)
      (hscripts : t.scripts = i :: u.scripts) : Grows s u

theorem Grows.trans {s t u : Scanner} (hst : Grows s t) (htu : Grows t u) : Grows s u := by
  induction htu with
  | refl hdone hscripts =>
    cases hst with
    | refl hdone' hscripts' => exact .refl (hdone.trans hdone') (hscripts.trans hscripts')
    | free h hfree hdone' hscripts' =>
      exact .free h hfree (hdone.trans hdone') (hscripts.trans hscripts')
    | opened h htoken hdone' hscripts' =>
      exact .opened h htoken (hdone.trans hdone') (hscripts.trans hscripts')
    | ended h htoken hdone' hscripts' =>
      exact .ended h htoken (hdone.trans hdone') (hscripts ▸ hscripts')
  | free _ hfree hdone hscripts ih => exact .free ih hfree hdone hscripts
  | opened _ htoken hdone hscripts ih => exact .opened ih htoken hdone hscripts
  | ended _ htoken hdone hscripts ih => exact .ended ih htoken hdone hscripts

theorem grows_push (s : Scanner) {token : Token} (offset : Nat) (h : isFree token) :
    Grows s (s.push token offset) :=
  .free (.refl rfl rfl) h rfl rfl

theorem grows_pushWord {s t : Scanner} {token : Token} (h : s.pushWord token = .ok t)
    (hstring : isScriptBracket token = false → isFree token) : Grows s t := by
  rcases cases_pushWord h with
    ⟨rfl, rfl⟩ | ⟨rfl, i, outer, hscripts, rfl⟩ | ⟨hscript, hend, rfl⟩
  · exact .opened (.refl rfl rfl) rfl rfl rfl
  · exact .ended (.refl rfl rfl) rfl rfl hscripts
  · exact grows_push s s.start (hstring (not_bracket_of_ne hscript hend))

theorem isFree_number {text : List Char} {token : Token} (h : number? text = some token) :
    isFree token := by
  rcases cases_number h with ⟨v, rfl, -⟩ | ⟨v, rfl, -⟩ <;> rfl

theorem isFree_word {text : List Char} (h : isScriptBracket (word text) = false) :
    isFree (word text) := by
  unfold word at h ⊢
  split at h
  · rename_i k hk
    cases k <;> first | rfl | cases h
  · split <;> rfl

theorem grows_flush {s t : Scanner} (h : s.flush = .ok t) : Grows s t := by
  rcases cases_flush h with ⟨-, rfl⟩ | ⟨-, token, htoken, hpush⟩
  · exact .refl rfl rfl
  · refine Grows.trans (t := { s with held := [] }) (.refl rfl rfl) (grows_pushWord hpush ?_)
    intro hbracket
    cases htoken with
    | number hnumber => exact isFree_number hnumber
    | word => exact isFree_word hbracket

theorem grows_acts {s t : Scanner} {offset : Nat} {c : Char} {next : Option Char} {both : Bool}
    {f : Scanner → Scanner × Bool} (h : Acts offset c next f) (hf : f s = (t, both)) :
    Grows s t := by
  cases h with
  | enter =>
    cases hf
    exact .refl rfl rfl
  | skip =>
    cases hf
    exact .refl rfl rfl
  | newLine =>
    cases hf
    exact grows_push s offset rfl
  | mark =>
    cases hf
    exact grows_push s offset rfl

theorem grows_codeStep {s t : Scanner} {offset : Nat} {c : Char} {next : Option Char} {both : Bool}
    (h : s.codeStep offset c next = .ok (t, both)) : Grows s t := by
  rcases cases_codeStep h with ⟨f, u, hacts, hflush, hf⟩ | ⟨-, -, hflush, -⟩ | ⟨-, rfl, -⟩
  · exact (grows_flush hflush).trans (grows_acts hacts hf)
  · exact Grows.trans (t := s.hold '>') (.refl rfl rfl) (grows_flush hflush)
  · unfold extend
    split <;> exact .refl rfl rfl

structure Outside (s t : Scanner) : Prop where
  depth : t.depth = s.depth
  scripts : t.scripts = s.scripts
  done : t.done = s.done ∨ ∃ l, isFree l.token ∧ hasName l.token = false ∧ t.done = l :: s.done

theorem outside_closeString {s t : Scanner} {wide : Bool} (h : s.closeString wide = .ok t) :
    Outside s t := by
  unfold closeString at h
  dsimp only at h
  split at h
  · cases h
  · rename_i hquote
    cases h
    have htext : isStringText (String.ofList (s.held.reverse.filter fun c => !isLineEnd c)) := by
      simp only [isStringText, String.toList_ofList, List.all_eq_true]
      intro c hc
      have hne : c ≠ '"' := by
        rintro rfl
        exact hquote (by simpa using hc)
      have hline := (List.mem_filter.mp hc).2
      simp [hne, hline]
    refine ⟨rfl, rfl, .inr ⟨_, ?_, ?_, rfl⟩⟩
    · cases wide <;> exact htext
    · cases wide <;> rfl

theorem outside_closeKey {s t : Scanner} (h : s.closeKey = .ok t) : Outside s t := by
  unfold closeKey at h
  dsimp only at h
  split at h
  · cases h
    exact ⟨rfl, rfl, .inr ⟨_, rfl, rfl, rfl⟩⟩
  · cases h

theorem outside_step {s t : Scanner} {offset : Nat} {c : Char} {next : Option Char} {both : Bool}
    (hmode : s.mode ≠ .code) (h : s.step offset c next = .ok (t, both)) : Outside s t := by
  have keeps {u : Scanner} (hu : (.ok u : Except Stop Scanner) = .ok t) (hdepth : u.depth = s.depth)
      (hscripts : u.scripts = s.scripts) (hdone : u.done = s.done) : Outside s t := by
    cases hu
    exact ⟨hdepth, hscripts, .inl hdone⟩
  unfold step at h
  split at h
  · split at h
    · cases (eq_of_one h).1
      exact ⟨rfl, rfl, .inr ⟨_, rfl, rfl, rfl⟩⟩
    · exact keeps (eq_of_one h).1 rfl rfl rfl
  · split at h
    · exact keeps (eq_of_two h).1 rfl rfl rfl
    · exact keeps (eq_of_one h).1 rfl rfl rfl
  · split at h
    · exact outside_closeKey (eq_of_one h).1
    · exact keeps (eq_of_one h).1 rfl rfl rfl
  · unfold stringStep at h
    split at h
    · split at h
      · exact outside_closeString (eq_of_one h).1
      · exact keeps (eq_of_one h).1 rfl rfl rfl
    · split at h
      · exact keeps (eq_of_two h).1 rfl rfl rfl
      · split at h
        · exact outside_closeString (eq_of_one h).1
        · exact keeps (eq_of_one h).1 rfl rfl rfl
  · exact absurd ‹_› hmode

theorem grows_step {s t : Scanner} {offset : Nat} {c : Char} {next : Option Char} {both : Bool}
    (h : s.step offset c next = .ok (t, both)) : Grows s t := by
  by_cases hmode : s.mode = .code
  · rw [step, hmode] at h
    exact grows_codeStep h
  · have houtside := outside_step hmode h
    rcases houtside.done with hdone | ⟨l, hfree, -, hdone⟩
    · exact .refl hdone houtside.scripts
    · exact .free (.refl rfl rfl) hfree hdone houtside.scripts

theorem grows_run {s t : Scanner} {offset : Nat} {text : List Char}
    (h : s.run offset text = .ok t) : Grows s t := by
  fun_induction run s offset text with
  | case1 s offset =>
    cases h
    exact .refl rfl rfl
  | case2 s offset c =>
    obtain ⟨⟨u, both⟩, hstep, rfl⟩ := exists_of_map_eq_ok h
    exact grows_step hstep
  | case3 => cases h
  | case4 s offset c d rest u hstep ih => exact (grows_step hstep).trans (ih h)
  | case5 s offset c d rest u hstep ih => exact (grows_step hstep).trans (ih h)

structure Sound (s : Scanner) : Prop where
  balanced : openScripts 0 (tokens s.done.reverse) = some s.scripts.length
  strings : ∀ l ∈ s.done, isScriptBracket l.token = false → isFree l.token

theorem tokens_reverse_cons (l : Lexeme) (ls : List Lexeme) :
    tokens (l :: ls).reverse = tokens ls.reverse ++ [l.token] := by
  simp [tokens]

theorem Sound.push {s t : Scanner} {l : Lexeme} (h : Sound s) (hdone : t.done = l :: s.done)
    (hstep : scriptStep s.scripts.length l.token = some t.scripts.length)
    (hfree : isScriptBracket l.token = false → isFree l.token) : Sound t where
  balanced := by
    rw [hdone, tokens_reverse_cons, openScripts_append, h.balanced]
    simp [hstep]
  strings := by
    rw [hdone]
    intro l' hl'
    rcases List.mem_cons.mp hl' with rfl | hmem
    · exact hfree
    · exact h.strings l' hmem

theorem not_bracket_of_isFree {t : Token} (h : isFree t) : isScriptBracket t = false := by
  unfold isScriptBracket
  split
  · cases h
  · cases h
  · rfl

theorem Grows.sound {s t : Scanner} (h : Grows s t) (hs : Sound s) : Sound t := by
  induction h with
  | refl hdone hscripts => exact ⟨by rw [hdone, hscripts, hs.balanced], by rw [hdone]; exact hs.strings⟩
  | free _ hfree hdone hscripts ih =>
    refine ih.push hdone ?_ fun _ => hfree
    rw [hscripts, scriptStep_of_not_bracket _ (not_bracket_of_isFree hfree)]
  | opened _ htoken hdone hscripts ih =>
    refine ih.push hdone ?_ fun hbracket => by rw [htoken] at hbracket; cases hbracket
    rw [htoken, hscripts]
    rfl
  | ended _ htoken hdone hscripts ih =>
    refine ih.push hdone ?_ fun hbracket => by rw [htoken] at hbracket; cases hbracket
    rw [htoken, hscripts]
    rfl

theorem sound_empty : Sound {} := ⟨rfl, fun l hl => by cases hl⟩

theorem flush_of_close {s : Scanner} {offset : Nat} {ls : List Lexeme}
    (h : s.close offset = .ok ls) :
    ∃ t, s.flush = .ok t ∧ t.scripts = [] ∧ ls = t.done.reverse := by
  unfold close at h
  split at h
  · cases h
  · cases h
  · cases h
  all_goals
    split at h
    · cases h
    · rename_i t hflush
      split at h
      · rename_i hscripts
        cases h
        exact ⟨t, hflush, hscripts, rfl⟩
      · cases h

theorem sound_of_close {s : Scanner} {offset : Nat} {ls : List Lexeme}
    (h : s.close offset = .ok ls) (hs : Sound s) :
    openScripts 0 (tokens ls) = some 0 ∧
      ∀ l ∈ ls, isScriptBracket l.token = false → isFree l.token := by
  obtain ⟨t, hflush, hscripts, rfl⟩ := flush_of_close h
  have ht := (grows_flush hflush).sound hs
  refine ⟨?_, fun l hl => ht.strings l (List.mem_reverse.mp hl)⟩
  rw [ht.balanced, hscripts]
  rfl

end Scanner

theorem sound_of_scan {text : List Char} {ls : List Lexeme} (h : scan text = .ok ls) :
    openScripts 0 (tokens ls) = some 0 ∧
      ∀ l ∈ ls, isScriptBracket l.token = false → isFree l.token := by
  unfold scan at h
  split at h
  · cases h
    exact ⟨rfl, fun l hl => by cases hl⟩
  · split at h
    · cases h
    · rename_i s hrun
      exact Scanner.sound_of_close h ((Scanner.grows_run hrun).sound Scanner.sound_empty)

theorem scan_of_lexemes {source : String} {ls : List Lexeme} (h : lexemes source = .ok ls) :
    scan source.toList = .ok ls := by
  unfold lexemes at h
  cases hscan : scan source.toList with
  | error e =>
    rw [hscan] at h
    cases h
  | ok ms =>
    rw [hscan] at h
    cases h
    rfl

theorem lexemes_of_scan {text : List Char} {ls : List Lexeme} (h : scan text = .ok ls) :
    lexemes (String.ofList text) = .ok ls := by
  rw [lexemes, String.toList_ofList, h]
  rfl

theorem lexemes_of_toOption {source : String} {ls : List Lexeme}
    (h : (lexemes source).toOption = some ls) : lexemes source = .ok ls := by
  cases hlexemes : lexemes source with
  | error e =>
    rw [hlexemes] at h
    cases h
  | ok ms =>
    rw [hlexemes] at h
    cases h
    rfl

theorem openScripts_of_lexemes {source : String} {ls : List Lexeme} (h : lexemes source = .ok ls) :
    openScripts 0 (tokens ls) = some 0 :=
  (sound_of_scan (scan_of_lexemes h)).1

theorem isStringText_of_lexemes {source : String} {ls : List Lexeme} (h : lexemes source = .ok ls)
    {text : String} (hmem : .string text ∈ tokens ls ∨ .wideString text ∈ tokens ls) :
    isStringText text := by
  have free := (sound_of_scan (scan_of_lexemes h)).2
  rcases hmem with hmem | hmem <;>
  · obtain ⟨l, hl, htoken⟩ := List.mem_map.mp hmem
    have := free l hl (by rw [htoken]; rfl)
    rw [htoken] at this
    exact this

end Source

end QbCodec
