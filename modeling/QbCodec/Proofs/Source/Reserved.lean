import QbCodec.Key.Standard
import QbCodec.Proofs.File.Respelling
import QbCodec.Proofs.Source.Joiners

namespace QbCodec

open Source

namespace Registry

variable {r : Registry} {k : Key} {names : List String}

def IsNamedAt (r : Registry) (k : Key) : Prop :=
  ∀ literal, r.resolve k = some literal → Key.ofName literal = k ∧ isIdentifier literal

def Reserves (r : Registry) (k : Key) : Prop :=
  ∃ literal, r.resolve k = some literal ∧ (Keyword.ofWord? literal).isSome

theorem isNamedAt_standard (hnames : ∀ n ∈ names, isIdentifier n) (k : Key) :
    (standard.addAll names).IsNamedAt k := by
  have hstandard : standardNames.all isIdentifier := by decide +kernel
  intro literal hk
  rcases of_resolve_addAll hk with hk | ⟨hmem, hkey⟩
  · rcases of_resolve_addAll hk with hk | ⟨hmem, hkey⟩
    · cases hk
    · exact ⟨hkey, List.all_eq_true.mp hstandard literal hmem⟩
  · exact ⟨hkey, hnames literal hmem⟩

theorem IsNamedAt.isFaithfulAt (h : r.IsNamedAt k) (hk : ¬ r.Reserves k) : r.IsFaithfulAt k := by
  intro literal hliteral
  obtain ⟨hkey, hname⟩ := h literal hliteral
  refine ⟨hkey, isName_of_isIdentifier hname ?_⟩
  rw [← Option.not_isSome_iff_eq_none]
  exact fun hkeyword => hk ⟨literal, hliteral, hkeyword⟩

def wordToken (r : Registry) (k : Key) : Token :=
  match r.resolve k with
  | some literal => word literal.toList
  | none => .rawKey k

theorem wordToken_of_reserves (h : r.Reserves k) : ∃ w, r.wordToken k = .keyword w := by
  obtain ⟨literal, hk, hkeyword⟩ := h
  obtain ⟨w, hw⟩ := Option.isSome_iff_exists.mp hkeyword
  exact ⟨w, by simp only [wordToken, hk, word, String.ofList_toList, hw]⟩

end Registry

namespace Source.Scanner

variable {s t u : Scanner} {offset total : Nat} {rest : List Char} {token : Token}
  {ls : List Lexeme} {r : Registry} {k : Key}

theorem of_pushWord (h : s.pushWord token = .ok u) :
    u.mode = s.mode ∧ u.held = s.held ∧ tokens u.done = token :: tokens s.done := by
  unfold pushWord at h
  split at h
  · cases h
    exact ⟨rfl, rfl, rfl⟩
  · split at h
    · cases h
    · cases h
      exact ⟨rfl, rfl, rfl⟩
  · cases h
    exact ⟨rfl, rfl, rfl⟩

def Ends (rest : List Char) : Prop := ∀ c, rest.head? = some c → c = ' ' ∨ c = '\n'

theorem stops_of_ends (held : List Char) (h : Ends rest) : Stops held rest := by
  cases rest with
  | nil => trivial
  | cons c rest =>
    left
    rcases h c rfl with rfl | rfl <;> rfl

theorem complete_flush_error {stop : Stop} (hmode : s.mode = .code) (hrest : Ends rest)
    (h : s.flush = .error stop) : s.complete offset rest total = .error stop := by
  cases rest with
  | nil => simp only [complete, run, close, hmode, h]
  | cons c rest =>
    have hstep (next : Option Char) : s.step offset c next = .error stop := by
      rw [step, hmode]
      rcases hrest c rfl with rfl | rfl <;> simp [codeStep, h, one, Except.map]
    cases rest with
    | nil => simp only [complete, run, hstep, Except.map]
    | cons d rest => simp only [complete, run, hstep]

theorem exists_word (hs : s.Settled) {w : List Char} (hname : w.all isNameChar)
    (hint : w.all isIntChar = false) (hrest : Ends rest)
    (h : s.complete offset (w ++ rest) total = .ok ls) :
    ∃ u : Scanner, ∃ offset', u.Settled ∧ tokens u.done = word w :: tokens s.done ∧
      u.complete offset' rest total = .ok ls := by
  obtain ⟨start, offset', hheld⟩ := complete_extend offset total rest hs.mode hname
  rw [hs.held, List.append_nil] at hheld
  rw [hheld] at h
  cases hflush : ({ s with held := w.reverse, start } : Scanner).flush with
  | error stop =>
    rw [complete_flush_error (s := { s with held := w.reverse, start }) hs.mode hrest hflush] at h
    cases h
  | ok u =>
    have hpush := hflush
    rw [flush_word (w := w) rfl hname hint] at hpush
    obtain ⟨hmode, hempty, hdone⟩ := of_pushWord hpush
    have hu : u.Settled := ⟨hmode.trans hs.mode, hempty⟩
    refine ⟨u, offset', hu, hdone, ?_⟩
    rw [← h]
    exact (complete_flush (s := { s with held := w.reverse, start }) hs.mode hflush hu
      (stops_of_ends _ hrest)).symm

theorem exists_key (hs : s.Settled) (hk : r.IsNamedAt k) (hrest : Ends rest)
    (h : s.complete offset (r.keyText k ++ rest) total = .ok ls) :
    ∃ u : Scanner, ∃ offset', u.Settled ∧ tokens u.done = r.wordToken k :: tokens s.done ∧
      u.complete offset' rest total = .ok ls := by
  unfold Registry.wordToken
  cases hresolve : r.resolve k with
  | none =>
    rw [Registry.keyText, hresolve] at h
    obtain ⟨u, offset', htakes, hscans⟩ := scans_rawKey offset total rest hs k
    rw [hscans] at h
    exact ⟨u, offset', htakes.settled, htakes.done, h⟩
  | some literal =>
    rw [Registry.keyText, hresolve] at h
    have hidentifier := (hk literal hresolve).2
    exact exists_word hs (isIdentifier_iff.mp hidentifier).1 (not_int_of_isIdentifier hidentifier)
      hrest h

theorem not_isJoiner_nameToken (r : Registry) (k : Key) : (r.nameToken k).isJoiner = false := by
  unfold Registry.nameToken
  split <;> rfl

theorem ends_joined (hrest : Ends rest) (ks : List Key) :
    Ends (joined true (ks.map r.nameToken) ++ rest) := by
  cases ks with
  | nil => exact hrest
  | cons k ks =>
    rintro c hc
    rw [List.map_cons, joined, not_isJoiner_nameToken] at hc
    cases hc
    exact .inl rfl

theorem exists_keys {ks : List Key} (hs : s.Settled) (afterWord : Bool)
    (hks : ∀ k ∈ ks, r.IsNamedAt k) (hrest : Ends rest)
    (h : s.complete offset (joined afterWord (ks.map r.nameToken) ++ rest) total = .ok ls) :
    ∃ u : Scanner, ∃ offset', u.Settled ∧
      tokens u.done = (ks.map r.wordToken).reverse ++ tokens s.done ∧ u.complete offset' rest total = .ok ls := by
  induction ks generalizing s offset afterWord with
  | nil => exact ⟨s, offset, hs, rfl, h⟩
  | cons k ks ih =>
    obtain ⟨hk, hks⟩ := List.forall_mem_cons.mp hks
    rw [List.map_cons, joined, not_isJoiner_nameToken, Registry.spelling_nameToken,
      List.append_assoc, List.append_assoc, Bool.not_false] at h
    obtain ⟨offset₁, hgap⟩ := complete_gap offset total hs (afterWord && true)
      (r.keyText k ++ (joined true (ks.map r.nameToken) ++ rest))
    rw [hgap] at h
    obtain ⟨u, offset₂, hu, hdone, h⟩ := exists_key hs hk (ends_joined hrest ks) h
    obtain ⟨v, offset₃, hv, hdone', h⟩ := ih hu true hks h
    refine ⟨v, offset₃, hv, ?_, h⟩
    rw [hdone', hdone]
    simp

theorem Settled.eq_of_complete_nil (h : s.Settled) (hls : s.complete offset [] total = .ok ls) :
    tokens ls = (tokens s.done).reverse := by
  cases hscripts : s.scripts with
  | nil =>
    rw [h.complete_nil hscripts] at hls
    cases hls
    rw [tokens, List.map_reverse, ← tokens]
  | cons i outer =>
    simp only [complete, run, close, h.mode, h.flush, hscripts] at hls
    cases hls

end Source.Scanner

namespace Source

variable {r : Registry} {k : Key} {ks : List Key} {ls : List Lexeme}

theorem isVisible_nameToken (h : r.IsNamedAt k) : (r.nameToken k).IsVisible := by
  unfold Registry.nameToken
  cases hk : r.resolve k with
  | none => exact exists_concat_spelling (t := .rawKey k) trivial (by simp)
  | some literal =>
    obtain ⟨hchars, d, ds, htext, -⟩ := isIdentifier_iff.mp (h literal hk).2
    have hne : literal.toList ≠ [] := by simp [htext]
    have hlast := List.getLast?_eq_some_getLast hne
    obtain ⟨cs, hcs⟩ := List.getLast?_eq_some_iff.mp hlast
    exact ⟨cs, _, hcs,
      not_blank_of_isNameChar (List.all_eq_true.mp hchars _ (List.mem_of_getLast? hlast))⟩

theorem not_blank_joined (h : ∀ k ∈ ks, r.IsNamedAt k) (hne : ks ≠ []) :
    (joined false (ks.map r.nameToken)).all Text.isBlank = false := by
  obtain ⟨k, ks, rfl⟩ := List.exists_cons_of_ne_nil hne
  obtain ⟨cs, c, hcs, hc⟩ := isVisible_nameToken (h k List.mem_cons_self)
  rw [List.map_cons, joined_false_cons, hcs]
  simp [hc]

theorem tokens_of_scan_joined (h : ∀ k ∈ ks, r.IsNamedAt k)
    (hls : scan (joined false (ks.map r.nameToken)) = .ok ls) : tokens ls = ks.map r.wordToken := by
  by_cases hne : ks = []
  · subst hne
    cases hls
    rfl
  · rw [scan_of_not_blank (not_blank_joined h hne)] at hls
    generalize byteCount _ = total at hls
    rw [← List.append_nil (joined false _)] at hls
    obtain ⟨u, offset, hu, hdone, hcomplete⟩ :=
      Scanner.exists_keys settled_empty false h (fun c hc => by cases hc) hls
    rw [hu.eq_of_complete_nil hcomplete, hdone]
    simp

def scriptText (r : Registry) (k : Key) (ks : List Key) : List Char :=
  "script ".toList ++ r.keyText k ++ ' ' :: joined false (ks.map r.nameToken) ++
    "\nendscript".toList ++ ['\n']

theorem scriptText_eq (r : Registry) (k : Key) (ks : List Key) :
    scriptText r k ks = "script".toList ++ ' ' :: (r.keyText k ++ ' ' ::
      (joined false (ks.map r.nameToken) ++ '\n' :: ("endscript".toList ++ ['\n']))) := by
  unfold scriptText
  simp

theorem not_blank_scriptText (r : Registry) (k : Key) (ks : List Key) :
    (scriptText r k ks).all Text.isBlank = false := by
  rw [scriptText_eq, List.all_append]
  rfl

open Scanner in
theorem tokens_of_scan_scriptText (hk : r.IsNamedAt k) (hks : ∀ k ∈ ks, r.IsNamedAt k)
    (hls : scan (scriptText r k ks) = .ok ls) :
    tokens ls = .keyword .script :: r.wordToken k ::
      (ks.map r.wordToken ++ [.mark .newLine, .keyword .endScript, .mark .newLine]) := by
  have hscript : word "script".toList = .keyword .script := word_spelling .script
  have hend : word "endscript".toList = .keyword .endScript := word_spelling .endScript
  have ends_blank (rest : List Char) : Ends (' ' :: rest) := by
    rintro c ⟨⟩
    exact .inl rfl
  have ends_line (rest : List Char) : Ends ('\n' :: rest) := by
    rintro c ⟨⟩
    exact .inr rfl
  rw [scan_of_not_blank (not_blank_scriptText r k ks), scriptText_eq] at hls
  generalize byteCount _ = total at hls
  obtain ⟨u₁, _, hu₁, hdone₁, h₁⟩ :=
    exists_word settled_empty (by decide) (by decide) (ends_blank _) hls
  rw [hscript] at hdone₁
  rw [complete_one (step_blank hu₁ _ (.inl rfl) _)] at h₁
  obtain ⟨u₂, _, hu₂, hdone₂, h₂⟩ := exists_key hu₁ hk (ends_blank _) h₁
  rw [complete_one (step_blank hu₂ _ (.inl rfl) _)] at h₂
  obtain ⟨u₃, offset₃, hu₃, hdone₃, h₃⟩ := exists_keys hu₂ false hks (ends_line _) h₂
  obtain ⟨u₄, _, hu₄, hline⟩ := scans_mark (m := .newLine) offset₃ total
    ("endscript".toList ++ ['\n']) hu₃ fun _ _ => rfl
  obtain ⟨u₅, offset₅, hu₅, hdone₅, h₅⟩ :=
    exists_word hu₄.settled (by decide) (by decide) (ends_line _) (hline.symm.trans h₃)
  rw [hend] at hdone₅
  obtain ⟨u₆, _, hu₆, hlast⟩ := scans_mark (m := .newLine) offset₅ total [] hu₅ fun _ _ => rfl
  rw [hu₆.settled.eq_of_complete_nil (hlast.symm.trans h₅), hu₆.done, hdone₅, hu₄.done, hdone₃,
    hdone₂, hdone₁]
  simp

end Source

end QbCodec
