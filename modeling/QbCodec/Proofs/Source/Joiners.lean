import Mathlib.Data.List.Induction
import QbCodec.Proofs.Script.Layout
import QbCodec.Proofs.Source.Joining

namespace QbCodec

namespace Token

def isJoiner : Token → Bool
  | mark .dot | mark .colon => true
  | _ => false

def isOperand : Token → Bool
  | int _ | float _ | name _ | argument _ | rawKey _ => true
  | _ => false

def IsVisible (t : Token) : Prop := ∃ cs c, t.spelling = cs ++ [c] ∧ Text.isBlank c = false

def startsWithDigit (t : Token) : Bool := t.spelling.head?.any Text.isDigit

def endsBeforePoint : Token → Bool
  | float _ | name _ => true
  | _ => false

end Token

namespace Source

open Script

def joined (afterWord : Bool) : List Token → List Char
  | [] => []
  | t :: ts =>
    (if afterWord && !t.isJoiner then [' '] else []) ++ (t.spelling ++ joined (!t.isJoiner) ts)

inductive Parted : List Token → Prop
  | nil : Parted []
  | pointed {t : Token} {ts : List Token} (h : t.endsBeforePoint) (rest : Parted ts) :
      Parted (t :: .mark .dot :: ts)
  | single {t : Token} {ts : List Token} (h : ∀ u, ts.head? = some u → t.Separate u)
      (rest : Parted ts) : Parted (t :: ts)

/-- No whole number stands right before a point, and a number without a sign stands right behind a
point only if the point stands right behind a word that it cannot belong to. -/
structure Unfused (ts : List Token) : Prop where
  wholes : ∀ before v after, ts ≠ before ++ .int v :: .mark .dot :: after
  digits : ∀ before t after, ts = before ++ .mark .dot :: t :: after → t.startsWithDigit →
    ∃ u, before.getLast? = some u ∧ u.endsBeforePoint

structure IsPart (t : Token) : Prop where
  legible : Legible t
  kind : t.isOperand ∨ t.isJoiner

variable {t u : Token} {ts : List Token} {c d : Char}

theorem isJoiner_iff : t.isJoiner ↔ t = .mark .dot ∨ t = .mark .colon := by
  unfold Token.isJoiner
  split <;> simp_all

theorem IsPart.ne_newLine (h : IsPart t) : t ≠ .mark .newLine := by
  rintro rfl
  rcases h.kind with h | h <;> cases h

theorem IsPart.isVisible (h : IsPart t) : t.IsVisible :=
  exists_concat_spelling h.legible h.ne_newLine

theorem IsPart.not_bracket (h : IsPart t) : isScriptBracket t = false := by
  unfold isScriptBracket
  split
  · rcases h.kind with h | h <;> cases h
  · rcases h.kind with h | h <;> cases h
  · rfl

theorem IsPart.isSolid (h : IsPart t) : t.isSolid := by
  rcases h.kind with h | h
  · unfold Token.isOperand at h
    split at h <;> first | rfl | cases h
  · rcases isJoiner_iff.mp h with rfl | rfl <;> rfl

theorem joined_cons_of_joiner (afterWord : Bool) (h : t.isJoiner) (ts : List Token) :
    joined afterWord (t :: ts) = t.spelling ++ joined false ts := by
  simp [joined, h]

theorem joined_false_cons (t : Token) (ts : List Token) :
    joined false (t :: ts) = t.spelling ++ joined (!t.isJoiner) ts := by
  simp [joined]

theorem head?_joined_false (h : Legible t) (hc : (joined false (t :: ts)).head? = some c) :
    t.spelling.head? = some c := by
  obtain ⟨d, ds, hd⟩ := List.exists_cons_of_ne_nil (spelling_ne_nil h)
  rw [joined_false_cons, hd] at hc
  rw [hd]
  exact hc

theorem allows_joined (ht : IsPart t) (hu : IsPart u) (hseparate : t.Separate u)
    (hc : (joined (!t.isJoiner) (u :: ts)).head? = some c) : t.allows c := by
  cases hjoiner : t.isJoiner with
  | true =>
    rw [hjoiner] at hc
    have hhead := head?_joined_false hu.legible hc
    rcases isJoiner_iff.mp hjoiner with rfl | rfl
    · exact allows_of_mark rfl fun _ => hseparate.1 rfl c hhead
    · exact allows_of_mark rfl fun h => by cases h
  | false =>
    rw [hjoiner] at hc
    cases hword : u.isJoiner with
    | false =>
      simp only [joined, hword, Bool.not_false, Bool.and_self, if_true, List.cons_append,
        List.head?_cons, Option.some.injEq] at hc
      rw [← hc]
      exact allows_blank t
    | true =>
      rw [joined_cons_of_joiner _ hword] at hc
      apply allows_of_solid ht.isSolid
      rcases isJoiner_iff.mp hword with rfl | rfl
      · cases hc
        exact .inr (.inr (.inr (.inr ⟨rfl, hseparate.2 rfl⟩)))
      · cases hc
        exact .inr (.inr (.inr (.inl rfl)))

theorem Parted.not_digit {afterWord : Bool} (h : Parted ts) (hts : ∀ t ∈ ts, IsPart t)
    (hd : (joined afterWord ts).take 2 = ['.', d]) : Text.isDigit d = false := by
  cases ts with
  | nil => cases hd
  | cons t ts =>
    obtain ⟨ht, hrest⟩ := List.forall_mem_cons.mp hts
    have hdot : t = .mark .dot := by
      obtain ⟨c, cs, hcs, -, hpoint, -⟩ := spelling_first ht.legible ht.ne_newLine
      rw [joined, hcs] at hd
      split at hd
      · cases hd
      · exact hpoint (List.cons.inj hd).1
    subst hdot
    rw [joined_cons_of_joiner _ rfl] at hd
    have hnext : (joined false ts).head? = some d := by
      cases hjoined : joined false ts with
      | nil =>
        rw [hjoined] at hd
        cases hd
      | cons e es =>
        rw [hjoined] at hd
        cases hd
        rfl
    cases ts with
    | nil => cases hnext
    | cons u ts =>
      have hhead := head?_joined_false (hrest u List.mem_cons_self).legible hnext
      cases h with
      | pointed hword _ => cases hword
      | single hseparate _ => exact (hseparate u rfl).1 rfl d hhead

theorem separate_of_startsWithDigit (hdigit : t = .mark .dot → u.startsWithDigit = false)
    (hwhole : u = .mark .dot → ∀ v, t ≠ .int v) : t.Separate u := by
  refine ⟨?_, hwhole⟩
  intro hdot c hc
  have hnone := hdigit hdot
  rwa [Token.startsWithDigit, hc] at hnone

theorem Parted.of_isChain (h : ts.IsChain Token.Separate) : Parted ts := by
  induction ts with
  | nil => exact .nil
  | cons t ts ih =>
    refine .single ?_ (ih h.tail)
    intro u hu
    cases ts with
    | nil => cases hu
    | cons v ts =>
      cases hu
      exact (List.isChain_cons_cons.mp h).1

theorem Unfused.parted_append (before : List Token) {after : List Token}
    (h : Unfused (before ++ after))
    (hbefore : ∀ u, before.getLast? = some u → u.endsBeforePoint →
      after.head? ≠ some (.mark .dot)) : Parted after := by
  -- A word and the point behind it are taken together, so no point is left behind such a word.
  induction after using List.twoStepInduction generalizing before with
  | nil => exact .nil
  | singleton t => exact .single (fun u hu => by cases hu) .nil
  | cons_cons t u ts ih₂ ih₁ =>
    by_cases hpointed : t.endsBeforePoint ∧ u = .mark .dot
    · obtain ⟨hword, rfl⟩ := hpointed
      refine .pointed hword (ih₂ (before ++ [t, .mark .dot]) (by simpa using h) ?_)
      rintro u hu hdot
      have hlast : u = .mark .dot := by simpa using hu.symm
      rw [hlast] at hdot
      cases hdot
    · have hrest : Parted (u :: ts) := by
        apply ih₁ u (before ++ [t]) (by simpa using h)
        intro w hw hword hhead
        rw [List.getLast?_concat] at hw
        cases hw
        exact hpointed ⟨hword, Option.some.inj hhead⟩
      refine .single ?_ hrest
      rintro w ⟨⟩
      apply separate_of_startsWithDigit
      · rintro rfl
        rw [← Bool.not_eq_true]
        intro hdigit
        obtain ⟨w, hw, hword⟩ := h.digits before u ts rfl hdigit
        exact hbefore w hw hword rfl
      · rintro rfl v rfl
        exact h.wholes before v ts rfl

theorem Unfused.parted (h : Unfused ts) : Parted ts :=
  Unfused.parted_append [] h fun _ hu => by cases hu

namespace Scanner

variable {s s' : Scanner} {offset total : Nat} {rest : List Char}

theorem exists_held (offset total : Nat) (rest : List Char) (hs : s.Settled) (h : Legible t)
    (hword : t.endsBeforePoint) :
    ∃ start offset', s.complete offset (t.spelling ++ rest) total =
        ({ s with held := t.spelling.reverse, start } : Scanner).complete offset' rest total ∧
      ∃ u, ({ s with held := t.spelling.reverse, start } : Scanner).flush = .ok u ∧
        Takes s t u := by
  cases t with
  | float v =>
    obtain ⟨start, offset', hheld⟩ := complete_float offset total rest hs h
    refine ⟨start, offset', hheld, ?_⟩
    exact exists_flush_number hs.mode rfl (sourceText_ne_nil h) rfl rfl (number?_sourceText h) rfl
  | name text =>
    obtain ⟨start, offset', hheld⟩ := complete_extend offset total rest hs.mode h.chars
    rw [hs.held, List.append_nil] at hheld
    have hname := word_of_isWord h
    have hflush := exists_flush_word (s := s)
      (t := { s with held := text.toList.reverse, start }) hs.mode rfl rfl rfl h.chars h.not_number
      (n := s.scripts.length) (by rw [hname]; rfl)
    rw [hname] at hflush
    exact ⟨start, offset', hheld, hflush⟩
  | _ => cases hword

theorem not_int_of_endsBeforePoint (h : Legible t) (hword : t.endsBeforePoint) :
    t.spelling.all isIntChar = false ∧ t.spelling.head? ≠ some '<' := by
  cases t with
  | float v => exact sourceText_not_int h
  | name text => exact ⟨h.not_number, head?_of_isWord h⟩
  | _ => cases hword

theorem step_dot (hmode : s.mode = .code) (hne : s.held ≠ []) (hint : s.held.all isIntChar = false)
    (hopen : s.held.getLast? ≠ some '<') (hflush : s.flush = .ok s') (offset : Nat)
    (next : Option Char) :
    s.step offset '.' next = .ok (s'.push (.mark .dot) offset, false) := by
  have hempty : s.held.isEmpty = false := List.isEmpty_eq_false_iff.mpr hne
  have htakes : s.takesPoint next = false := by
    have hlast : (s.held.getLast? == some '<') = false := by simpa using hopen
    rw [takesPoint, hempty, hlast, hint]
    rfl
  rw [step, hmode]
  simp [codeStep, mark?, htakes, hflush, Except.map]

theorem complete_pointed (offset total : Nat) (rest : List Char) (hs : s.Settled) (h : Legible t)
    (hword : t.endsBeforePoint) :
    ∃ u : Scanner, ∃ offset', u.Settled ∧ tokens u.done = .mark .dot :: t :: tokens s.done ∧
      u.scripts.length = s.scripts.length ∧
      s.complete offset (t.spelling ++ '.' :: rest) total = u.complete offset' rest total := by
  obtain ⟨start, offset', hheld, u, hflush, htakes⟩ :=
    exists_held offset total ('.' :: rest) hs h hword
  obtain ⟨hint, hopen⟩ := not_int_of_endsBeforePoint h hword
  have hstep := step_dot (s := { s with held := t.spelling.reverse, start }) hs.mode
    (by simpa using spelling_ne_nil h) (by rwa [List.all_reverse]) (by rwa [List.getLast?_reverse])
    hflush offset' rest.head?
  have hbracket : isScriptBracket t = false := by
    cases t <;> first | rfl | cases hword
  have hscripts := htakes.scripts
  rw [scriptStep_of_not_bracket _ hbracket] at hscripts
  refine ⟨u.push (.mark .dot) offset', offset' + '.'.utf8Size,
    ⟨htakes.settled.mode, htakes.settled.held⟩, ?_, (Option.some.inj hscripts).symm, ?_⟩
  · rw [← htakes.done]
    rfl
  · rw [hheld, complete_one hstep]

theorem complete_gap (offset total : Nat) (hs : s.Settled) (gap : Bool) (rest : List Char) :
    ∃ offset', s.complete offset ((if gap then [' '] else []) ++ rest) total =
      s.complete offset' rest total := by
  cases gap with
  | false => exact ⟨offset, rfl⟩
  | true => exact ⟨offset + ' '.utf8Size, complete_one (step_blank hs offset (.inl rfl) rest.head?)⟩

theorem complete_joined (offset total : Nat) (afterWord : Bool) (hs : s.Settled)
    (h : Parted ts) (hts : ∀ t ∈ ts, IsPart t) :
    ∃ u : Scanner, ∃ offset', u.Settled ∧ tokens u.done = ts.reverse ++ tokens s.done ∧
      u.scripts.length = s.scripts.length ∧
      s.complete offset (joined afterWord ts) total = u.complete offset' [] total := by
  induction h generalizing s offset afterWord with
  | nil => exact ⟨s, offset, hs, rfl, rfl, rfl⟩
  | @pointed t ts hword _ ih =>
    obtain ⟨ht, hrest⟩ := List.forall_mem_cons.mp hts
    obtain ⟨-, hrest⟩ := List.forall_mem_cons.mp hrest
    have hjoiner : t.isJoiner = false := by
      cases t <;> first | rfl | cases hword
    obtain ⟨offset₁, hgap⟩ := complete_gap offset total hs (afterWord && !t.isJoiner)
      (t.spelling ++ joined (!t.isJoiner) (.mark .dot :: ts))
    obtain ⟨u, offset₂, hu, hdone, hscripts, hpointed⟩ :=
      complete_pointed offset₁ total (joined false ts) hs ht.legible hword
    obtain ⟨v, offset₃, hv, hdone', hscripts', hjoined⟩ := ih offset₂ false hu hrest
    refine ⟨v, offset₃, hv, ?_, hscripts'.trans hscripts, ?_⟩
    · rw [hdone', hdone]
      simp
    · rw [joined, hgap, joined_cons_of_joiner _ rfl, ← hjoined, ← hpointed]
      rfl
  | @single t ts hseparate hparted ih =>
    obtain ⟨ht, hrest⟩ := List.forall_mem_cons.mp hts
    obtain ⟨offset₁, hgap⟩ := complete_gap offset total hs (afterWord && !t.isJoiner)
      (t.spelling ++ joined (!t.isJoiner) ts)
    have hstep := scriptStep_of_not_bracket s.scripts.length ht.not_bracket
    have hallows : ∀ c, (joined (!t.isJoiner) ts).head? = some c → t.allows c := by
      intro c hc
      cases ts with
      | nil => cases hc
      | cons u ts =>
        exact allows_joined ht (hrest u List.mem_cons_self) (hseparate u rfl) hc
    obtain ⟨u, offset₂, htakes, hscans⟩ := scans_token offset₁ total (joined (!t.isJoiner) ts) hs
      ht.legible hstep hallows fun d hd => hparted.not_digit hrest hd
    have hscripts : s.scripts.length = u.scripts.length :=
      Option.some.inj (hstep.symm.trans htakes.scripts)
    obtain ⟨v, offset₃, hv, hdone, hscripts', hjoined⟩ :=
      ih offset₂ (!t.isJoiner) htakes.settled hrest
    refine ⟨v, offset₃, hv, ?_, hscripts'.trans hscripts.symm, ?_⟩
    · rw [hdone, htakes.done]
      simp
    · rw [joined, hgap, hscans, hjoined]

end Scanner

theorem scan_joined (h : Parted ts) (hts : ∀ t ∈ ts, IsPart t) :
    ∃ ls, scan (joined false ts) = .ok ls ∧ tokens ls = ts := by
  cases ts with
  | nil => exact ⟨[], rfl, rfl⟩
  | cons t ts =>
    have ht := hts t List.mem_cons_self
    obtain ⟨c, cs, hcs, hblank, -⟩ := spelling_first ht.legible ht.ne_newLine
    have hall : (joined false (t :: ts)).all Text.isBlank = false := by
      rw [joined_false_cons, hcs, List.cons_append, List.all_cons, hblank]
      rfl
    obtain ⟨u, offset, hu, hdone, hscripts, hcomplete⟩ := Scanner.complete_joined
      (s := {}) 0 (byteCount (joined false (t :: ts))) false settled_empty h hts
    refine ⟨u.done.reverse, ?_, ?_⟩
    · rw [scan_of_not_blank hall, hcomplete, hu.complete_nil (List.length_eq_zero_iff.mp hscripts)]
    · rw [tokens, List.map_reverse, ← tokens, hdone]
      simp

end Source

end QbCodec
