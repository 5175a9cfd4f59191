import QbCodec.Proofs.Guarded.Scanning

/-!
Where the tokens lie in the text. Everything that the scanner has taken is the text of some token, a
blank or a comment, or else belongs to what it is in the middle of. So the tokens are spelled where
their offsets say, one behind the other, with nothing but blanks and comments around them.
-/

namespace QbCodec.Source

inductive Quoted : List Char → List Char → Prop
  | nil : Quoted [] []
  | plain {raw text : List Char} {c : Char} (h : Quoted raw text) (hc : c ≠ '\'') :
      Quoted (raw ++ [c]) (text ++ [c])
  | escape {raw text : List Char} {c : Char} (h : Quoted raw text) (hc : c = '\\' ∨ c = '\'')
      (hlast : c = '\'' → raw.getLast? ≠ some '\\') :
      Quoted (raw ++ [c, '\'']) (text ++ ['\''])

def withoutLineEnds (text : List Char) : String := String.ofList (text.filter fun c => !isLineEnd c)

inductive SpelledAs : Token → List Char → Prop
  | int {v : Int32} {text : List Char} (hchars : text.all isIntChar) (h : int32? text = some v) :
      SpelledAs (.int v) text
  | float {v : Single} {text : List Char} (hpoint : '.' ∈ text) (hchars : text.all isFloatChar)
      (h : Single.parse? text = some v) : SpelledAs (.float v) text
  | name {text : String} (h : text.toList.all isHeldChar) : SpelledAs (.name text) text.toList
  | argument {text : String} (h : text.toList.all isHeldChar) :
      SpelledAs (.argument text) ('<' :: (text.toList ++ ['>']))
  | keyword {k : Keyword} {text : List Char} (h : text.map Char.toLower = k.word.toList) :
      SpelledAs (.keyword k) text
  | mark (m : Mark) : SpelledAs (.mark m) m.spelling
  | string {raw text : List Char} (h : Quoted raw text) (hlast : raw.getLast? ≠ some '\\') :
      SpelledAs (.string (withoutLineEnds text)) ('\'' :: (raw ++ ['\'']))
  | wideString {text : List Char} (h : '"' ∉ text) :
      SpelledAs (.wideString (withoutLineEnds text)) ('"' :: (text ++ ['"']))
  | rawKey {k : Key} {text : List Char} (h : '"' ∉ text)
      (hkey : Key.parseText? (Text.trim text) = some k) :
      SpelledAs (.rawKey k) ('#' :: '"' :: (text ++ ['"']))

structure Span where
  token : Token
  offset : Nat
  text : List Char

def Span.lexeme (x : Span) : Lexeme := ⟨x.token, x.offset⟩

inductive Woven : List Char → List Span → List Char → Prop
  | start (text : List Char) : Woven [] [] text
  | blank {read rest : List Char} {spans : List Span} {c : Char}
      (h : Woven read spans (c :: rest)) (hc : c = ' ' ∨ c = '\t' ∨ c = '\r') :
      Woven (read ++ [c]) spans rest
  | lineComment {read body rest : List Char} {spans : List Span}
      (h : Woven read spans ('/' :: '/' :: (body ++ rest))) (hbody : '\n' ∉ body)
      (hrest : ∀ c, rest.head? = some c → c = '\n') :
      Woven (read ++ '/' :: '/' :: body) spans rest
  | blockComment {read body rest : List Char} {spans : List Span}
      (h : Woven read spans ('/' :: '*' :: (body ++ '*' :: '/' :: rest)))
      (hbody : ¬ ['*', '/'] <:+: body) :
      Woven (read ++ '/' :: '*' :: (body ++ ['*', '/'])) spans rest
  | token {read text rest : List Char} {spans : List Span} {token : Token}
      (h : Woven read spans (text ++ rest)) (htext : SpelledAs token text) (hne : text ≠ []) :
      Woven (read ++ text) (spans ++ [⟨token, byteCount read, text⟩]) rest

structure Span.Lies (x : Span) (source : List Char) : Prop where
  spelled : SpelledAs x.token x.text
  nonempty : x.text ≠ []
  located : ∃ front back, source = front ++ (x.text ++ back) ∧ byteCount front = x.offset

def Span.Before (x y : Span) : Prop := x.offset + byteCount x.text ≤ y.offset

section

variable {read rest source : List Char} {spans : List Span} {x y : Span}

theorem byteCount_pos {text : List Char} (h : text ≠ []) : 0 < byteCount text := by
  obtain ⟨c, cs, rfl⟩ := List.exists_cons_of_ne_nil h
  have := c.utf8Size_pos
  rw [byteCount_cons]
  omega

theorem Span.Lies.append (h : x.Lies read) (text : List Char) : x.Lies (read ++ text) := by
  obtain ⟨front, back, rfl, hplace⟩ := h.located
  refine ⟨h.spelled, h.nonempty, front, back ++ text, ?_, hplace⟩
  simp only [List.append_assoc]

theorem Span.Lies.le (h : x.Lies read) : x.offset + byteCount x.text ≤ byteCount read := by
  obtain ⟨front, back, rfl, hplace⟩ := h.located
  rw [byteCount_append, byteCount_append]
  omega

theorem Woven.lies (h : Woven read spans rest) : ∀ x ∈ spans, x.Lies read := by
  induction h with
  | start => exact fun x hx => absurd hx List.not_mem_nil
  | blank _ _ ih => exact fun x hx => (ih x hx).append _
  | lineComment _ _ _ ih => exact fun x hx => (ih x hx).append _
  | blockComment _ _ ih => exact fun x hx => (ih x hx).append _
  | @token read text rest spans token _ htext hne ih =>
    intro x hx
    rcases List.mem_append.mp hx with hx | hx
    · exact (ih x hx).append _
    · obtain rfl := List.mem_singleton.mp hx
      exact ⟨htext, hne, read, [], by rw [List.append_nil], rfl⟩

theorem Woven.pairwise (h : Woven read spans rest) : spans.Pairwise Span.Before := by
  induction h with
  | start => exact .nil
  | blank _ _ ih => exact ih
  | lineComment _ _ _ ih => exact ih
  | blockComment _ _ ih => exact ih
  | token h _ _ ih =>
    refine List.pairwise_append.mpr ⟨ih, List.pairwise_singleton _ _, fun x hx y hy => ?_⟩
    obtain rfl := List.mem_singleton.mp hy
    exact (h.lies x hx).le

end

theorem spelledAs_held {text : List Char} {token : Token} (hheld : text.all isHeldChar)
    (h : Scanner.IsHeldAs text token) : SpelledAs token text := by
  cases h with
  | number h =>
    rcases cases_number h with ⟨v, rfl, hpoint, hchars, hv⟩ | ⟨v, rfl, hchars, hv⟩
    · exact .float hpoint hchars hv
    · exact .int hchars hv
  | word =>
    unfold word
    split
    · rename_i k hk
      refine .keyword ?_
      have hfold := of_ofWord? hk
      rwa [String.toList_ofList] at hfold
    · split
      · rename_i hargument
        simp only [Bool.and_eq_true] at hargument
        obtain ⟨inner, rfl⟩ := Guarded.exists_inner hargument.1.2 hargument.2
        have hinner : inner.all isHeldChar := by
          simp only [List.all_cons, List.all_append, Bool.and_eq_true] at hheld
          exact hheld.2.1
        have hspelled : SpelledAs (.argument (String.ofList inner)) _ :=
          .argument (by rwa [String.toList_ofList])
        rw [String.toList_ofList] at hspelled
        simpa using hspelled
      · have hspelled : SpelledAs (.name (String.ofList text)) _ :=
          .name (by rwa [String.toList_ofList])
        rwa [String.toList_ofList] at hspelled

namespace Scanner

variable {s t : Scanner} {read front rest text : List Char} {offset : Nat} {c : Char} {both : Bool}

def Reads (s : Scanner) (read rest : List Char) : Prop :=
  ∃ spans, Woven read spans rest ∧ s.done.reverse = spans.map Span.lexeme

theorem Reads.push {token : Token} (h : Reads s read (text ++ rest))
    (hdone : t.done = ⟨token, byteCount read⟩ :: s.done) (htext : SpelledAs token text)
    (hne : text ≠ []) : Reads t (read ++ text) rest := by
  obtain ⟨spans, hwoven, hspans⟩ := h
  refine ⟨_, hwoven.token htext hne, ?_⟩
  rw [hdone, List.reverse_cons, hspans, List.map_append]
  rfl

theorem Reads.newLine (h : Reads s read ('\n' :: rest))
    (hdone : t.done = ⟨.mark .newLine, byteCount read⟩ :: s.done) :
    Reads t (read ++ ['\n']) rest :=
  Reads.push h hdone (.mark .newLine) (List.cons_ne_nil _ _)

inductive Pending (s : Scanner) (rest : List Char) : List Char → Prop
  | code (hmode : s.mode = .code) (hheld : s.held.all isHeldChar) : Pending s rest s.held.reverse
  | lineComment {body : List Char} (hmode : s.mode = .lineComment) (hheld : s.held = [])
      (hbody : '\n' ∉ body) : Pending s rest ('/' :: '/' :: body)
  | blockComment {body : List Char} (hmode : s.mode = .blockComment) (hheld : s.held = [])
      (hbody : ¬ ['*', '/'] <:+: body)
      (hlast : body.getLast? = some '*' → rest.head? ≠ some '/') :
      Pending s rest ('/' :: '*' :: body)
  | string {raw : List Char} (hmode : s.mode = .string false) (hraw : Quoted raw s.held.reverse)
      (hlast : raw.getLast? = some '\\' → rest.head? ≠ some '\'') : Pending s rest ('\'' :: raw)
  | wideString {text : List Char} (hmode : s.mode = .string true) (hheld : s.held.reverse = text)
      (htext : '"' ∉ text) : Pending s rest ('"' :: text)
  | rawKey {text : List Char} (hmode : s.mode = .rawKey) (hheld : s.held.reverse = text)
      (htext : '"' ∉ text) : Pending s rest ('#' :: '"' :: text)

/-- The scanner has taken `front`: what it has read, and then what it is in the middle of, which
started where the scanner has noted. -/
inductive Tracks (s : Scanner) : List Char → List Char → Prop
  | mk {read pending rest : List Char} (hreads : Reads s read (pending ++ rest))
      (hpending : Pending s rest pending) (hstart : pending ≠ [] → s.start = byteCount read) :
      Tracks s (read ++ pending) rest

theorem tracks_of_reads (h : Reads s read rest) (hmode : s.mode = .code) (hheld : s.held = []) :
    Tracks s read rest := by
  have hpending : Pending s rest s.held.reverse := .code hmode (by rw [hheld]; rfl)
  rw [hheld] at hpending
  simpa using Tracks.mk h hpending (absurd rfl)

theorem tracks_empty (text : List Char) : Tracks {} [] text :=
  tracks_of_reads ⟨[], .start text, rfl⟩ rfl rfl

theorem Tracks.of_code (h : Tracks s front rest) (hmode : s.mode = .code) :
    ∃ read, front = read ++ s.held.reverse ∧ Reads s read (s.held.reverse ++ rest) ∧
      s.held.all isHeldChar ∧ (s.held ≠ [] → s.start = byteCount read) := by
  obtain ⟨hreads, hpending, hstart⟩ := h
  cases hpending with
  | code _ hheld => exact ⟨_, rfl, hreads, hheld, fun hne => hstart (by simpa using hne)⟩
  | lineComment h' => cases hmode.symm.trans h'
  | blockComment h' => cases hmode.symm.trans h'
  | string h' => cases hmode.symm.trans h'
  | wideString h' => cases hmode.symm.trans h'
  | rawKey h' => cases hmode.symm.trans h'

theorem Tracks.flush (h : Tracks s front rest) (hmode : s.mode = .code) (hflush : s.flush = .ok t) :
    Reads t front rest := by
  obtain ⟨read, rfl, hreads, hheld, hstart⟩ := h.of_code hmode
  rcases cases_flush hflush with ⟨hempty, rfl⟩ | ⟨hne, token, htoken, hpush⟩
  · rw [hempty] at hreads ⊢
    rwa [List.reverse_nil, List.append_nil]
  · have hspelled : SpelledAs token s.held.reverse :=
      spelledAs_held (by rwa [List.all_reverse]) htoken
    refine hreads.push ?_ hspelled (by simpa using hne)
    rw [done_of_pushWord hpush, ← hstart hne]

theorem Tracks.extend (h : Tracks s front (c :: rest)) (hmode : s.mode = .code)
    (hc : isHeldChar c) : Tracks (s.extend c (byteCount front)) (front ++ [c]) rest := by
  obtain ⟨read, rfl, hreads, hheld, hstart⟩ := h.of_code hmode
  have hextend := extend_eq s c (byteCount (read ++ s.held.reverse))
  have hstart' : (s.extend c (byteCount (read ++ s.held.reverse))).start = byteCount read := by
    unfold Scanner.extend
    split
    · rename_i hempty
      rw [List.isEmpty_iff.mp hempty, List.reverse_nil, List.append_nil]
    · rename_i hne
      exact hstart (by simpa using hne)
  rw [hstart'] at hextend
  rw [hextend]
  have hpending : Pending { s with held := c :: s.held, start := byteCount read } rest
      (s.held.reverse ++ [c]) := by
    rw [← List.reverse_cons]
    exact .code hmode (by rw [List.all_cons, hc, hheld]; rfl)
  rw [List.append_assoc]
  refine .mk ?_ hpending fun _ => rfl
  rwa [List.append_assoc]

abbrev behind (front : List Char) (c : Char) (rest : List Char) (both : Bool) : List Char :=
  front ++ c :: rest.take both.toNat

theorem tracks_opens {mode : Mode} (h : Reads s front (c :: rest)) (hheld : s.held = [])
    (hopens : Opens c rest.head? mode both) :
    Tracks { s with mode, start := byteCount front } (behind front c rest both)
      (rest.drop both.toNat) := by
  generalize hnext : rest.head? = next at hopens
  have enters {pending : List Char} {t : Scanner}
      (hread : pending ++ rest.drop both.toNat = c :: rest) (hdone : t.done = s.done)
      (hstart : t.start = byteCount front)
      (hpending : Pending t (rest.drop both.toNat) pending) :
      Tracks t (front ++ pending) (rest.drop both.toNat) := by
    refine .mk ?_ hpending fun _ => hstart
    obtain ⟨spans, hwoven, hspans⟩ := h
    exact ⟨spans, hread ▸ hwoven, hdone ▸ hspans⟩
  have hreverse : s.held.reverse = [] := by rw [hheld, List.reverse_nil]
  have second {d : Char} (hd : rest.head? = some d) : ∃ rest', rest = d :: rest' :=
    List.head?_eq_some_iff.mp hd
  cases hopens with
  | lineComment =>
    obtain ⟨rest, rfl⟩ := second hnext
    exact enters rfl rfl rfl (.lineComment rfl hheld List.not_mem_nil)
  | blockComment =>
    obtain ⟨rest, rfl⟩ := second hnext
    exact enters rfl rfl rfl (.blockComment rfl hheld (by simp) (by simp))
  | string =>
    refine enters rfl rfl rfl (.string rfl ?_ (by simp))
    rw [hreverse]
    exact .nil
  | wideString => exact enters rfl rfl rfl (.wideString rfl hreverse List.not_mem_nil)
  | rawKey =>
    obtain ⟨rest, rfl⟩ := second hnext
    exact enters rfl rfl rfl (.rawKey rfl hreverse List.not_mem_nil)

theorem tracks_acts {f : Scanner → Scanner × Bool} (h : Reads s front (c :: rest))
    (hmode : s.mode = .code) (hheld : s.held = []) (hacts : Acts (byteCount front) c rest.head? f)
    (hf : f s = (t, both)) : Tracks t (behind front c rest both) (rest.drop both.toNat) := by
  cases hacts with
  | enter hopens =>
    cases hf
    exact tracks_opens h hheld hopens
  | skip hc =>
    cases hf
    obtain ⟨spans, hwoven, hspans⟩ := h
    exact tracks_of_reads ⟨spans, hwoven.blank hc, hspans⟩ hmode hheld
  | newLine hc =>
    cases hf
    subst hc
    exact tracks_of_reads (h.newLine rfl) hmode hheld
  | @mark m _ hmark =>
    cases hf
    have hpush (rest : List Char) (h : Reads s front (m.spelling ++ rest)) (hne : m.spelling ≠ []) :
        Tracks (s.push (.mark m) (byteCount front)) (front ++ m.spelling) rest :=
      tracks_of_reads (h.push rfl (.mark m) hne) hmode hheld
    rcases spelling_of_mark? hmark with ⟨rfl, hm⟩ | ⟨d, rfl, hd, hm⟩
    · rw [hm] at hpush
      exact hpush rest h (by simp)
    · obtain ⟨rest, rfl⟩ := List.head?_eq_some_iff.mp hd
      rw [hm] at hpush
      exact hpush rest h (by simp)

theorem Tracks.codeStep (h : Tracks s front (c :: rest)) (hmode : s.mode = .code)
    (hstep : s.codeStep (byteCount front) c rest.head? = .ok (t, both)) :
    Tracks t (behind front c rest both) (rest.drop both.toNat) := by
  rcases cases_codeStep hstep with
    ⟨f, u, hacts, hflush, hf⟩ | ⟨rfl, hne, hflush, rfl⟩ | ⟨hc, rfl, rfl⟩
  · obtain ⟨humode, huheld⟩ := flush_spec hflush
    exact tracks_acts (h.flush hmode hflush) (humode.trans hmode) huheld hacts hf
  · have hhold : s.hold '>' = s.extend '>' (byteCount front) := by
      rw [Scanner.extend, if_neg (by simpa using hne)]
    rw [hhold] at hflush
    have hmode' : (s.extend '>' (byteCount front)).mode = .code :=
      (mode_extend s '>' (byteCount front)).trans hmode
    obtain ⟨htmode, htheld⟩ := flush_spec hflush
    exact tracks_of_reads ((h.extend hmode (by decide)).flush hmode' hflush) (htmode.trans hmode')
      htheld
  · exact h.extend hmode hc.isHeldChar

theorem infix_of_concat {body : List Char} (h : ['*', '/'] <:+: body ++ [c]) :
    ['*', '/'] <:+: body ∨ body.getLast? = some '*' ∧ c = '/' := by
  rcases List.infix_concat_iff.mp h with ⟨front, hsuffix⟩ | hinfix
  · have hlast : front ++ ['*'] ++ ['/'] = body ++ [c] := by rw [← hsuffix]; simp
    obtain ⟨rfl, hc⟩ := List.append_inj' hlast rfl
    cases hc
    exact .inr ⟨by simp, rfl⟩
  · exact .inl hinfix

theorem tracks_more {pending : List Char} (hreads : Reads s read (pending ++ c :: rest))
    (hdone : t.done = s.done) (hpending : Pending t rest (pending ++ [c]))
    (hstart : t.start = byteCount read) : Tracks t (read ++ pending ++ [c]) rest := by
  obtain ⟨spans, hwoven, hspans⟩ := hreads
  rw [List.append_assoc]
  exact .mk ⟨spans, by simpa using hwoven, hdone ▸ hspans⟩ hpending fun _ => hstart

theorem tracks_lineComment {body : List Char}
    (hreads : Reads s read ('/' :: '/' :: (body ++ c :: rest))) (hmode : s.mode = .lineComment)
    (hheld : s.held = []) (hbody : '\n' ∉ body) (hstart : s.start = byteCount read)
    (hstep : s.step (byteCount (read ++ '/' :: '/' :: body)) c rest.head? = .ok (t, both)) :
    Tracks t (behind (read ++ '/' :: '/' :: body) c rest both) (rest.drop both.toNat) := by
  rw [Scanner.step, hmode] at hstep
  dsimp only at hstep
  split at hstep
  · rename_i hc
    obtain ⟨hu, rfl⟩ := eq_of_one hstep
    cases hu
    subst hc
    obtain ⟨spans, hwoven, hspans⟩ := hreads
    have hcomment : Reads s (read ++ '/' :: '/' :: body) ('\n' :: rest) := by
      refine ⟨spans, hwoven.lineComment hbody ?_, hspans⟩
      rintro _ ⟨⟩
      rfl
    exact tracks_of_reads (hcomment.newLine rfl) rfl hheld
  · rename_i hc
    obtain ⟨hu, rfl⟩ := eq_of_one hstep
    cases hu
    exact tracks_more hreads rfl (.lineComment hmode hheld (by simp [hbody, Ne.symm hc])) hstart

theorem tracks_blockComment {body : List Char}
    (hreads : Reads s read ('/' :: '*' :: (body ++ c :: rest))) (hmode : s.mode = .blockComment)
    (hheld : s.held = []) (hbody : ¬ ['*', '/'] <:+: body)
    (hlast : body.getLast? = some '*' → c ≠ '/') (hstart : s.start = byteCount read)
    (hstep : s.step offset c rest.head? = .ok (t, both)) :
    Tracks t (behind (read ++ '/' :: '*' :: body) c rest both) (rest.drop both.toNat) := by
  rw [Scanner.step, hmode] at hstep
  dsimp only at hstep
  split at hstep
  · rename_i hc
    obtain ⟨hu, rfl⟩ := eq_of_two hstep
    cases hu
    obtain ⟨rfl, hnext⟩ := hc
    obtain ⟨rest, rfl⟩ := List.head?_eq_some_iff.mp hnext
    obtain ⟨spans, hwoven, hspans⟩ := hreads
    have hread := tracks_of_reads (s := { s with mode := .code })
      ⟨spans, hwoven.blockComment hbody, hspans⟩ rfl hheld
    simpa [behind] using hread
  · rename_i hc
    obtain ⟨hu, rfl⟩ := eq_of_one hstep
    cases hu
    have hopen : ¬ ['*', '/'] <:+: body ++ [c] := by
      intro hinfix
      rcases infix_of_concat hinfix with hinfix | ⟨hstar, rfl⟩
      · exact hbody hinfix
      · exact hlast hstar rfl
    have hpending : Pending s rest ('/' :: '*' :: (body ++ [c])) := by
      refine .blockComment hmode hheld hopen fun hstar hnext => ?_
      rw [List.getLast?_concat] at hstar
      exact hc ⟨Option.some.inj hstar, hnext⟩
    exact tracks_more hreads rfl hpending hstart

theorem closeString_spec {wide : Bool} (h : s.closeString wide = .ok t) :
    t = ({ s with mode := .code, held := [] } : Scanner).push
      (if wide then .wideString (withoutLineEnds s.held.reverse)
        else .string (withoutLineEnds s.held.reverse)) s.start := by
  unfold closeString at h
  dsimp only at h
  split at h
  · cases h
  · cases h
    rfl

theorem closeKey_spec (h : s.closeKey = .ok t) :
    ∃ k, Key.parseText? (Text.trim s.held.reverse) = some k ∧
      t = ({ s with mode := .code, held := [] } : Scanner).push (.rawKey k) s.start := by
  unfold closeKey at h
  dsimp only at h
  split at h
  · rename_i k hk
    cases h
    exact ⟨k, hk, rfl⟩
  · cases h

theorem tracks_closed {token : Token} {pending : List Char}
    (hreads : Reads s read (pending ++ c :: rest)) (hstart : s.start = byteCount read)
    (htext : SpelledAs token (pending ++ [c])) :
    Tracks (({ s with mode := .code, held := [] } : Scanner).push token s.start)
      (read ++ pending ++ [c]) rest := by
  rw [List.append_assoc]
  have hreads' : Reads s read (pending ++ [c] ++ rest) := by simpa using hreads
  refine tracks_of_reads (hreads'.push ?_ htext (by simp)) rfl rfl
  rw [← hstart]
  rfl

theorem tracks_string {raw : List Char} (hreads : Reads s read ('\'' :: (raw ++ c :: rest)))
    (hmode : s.mode = .string false) (hraw : Quoted raw s.held.reverse)
    (hlast : raw.getLast? = some '\\' → c ≠ '\'') (hstart : s.start = byteCount read)
    (hstep : s.step offset c rest.head? = .ok (t, both)) :
    Tracks t (behind (read ++ '\'' :: raw) c rest both) (rest.drop both.toNat) := by
  rw [Scanner.step, hmode] at hstep
  dsimp only at hstep
  rw [stringStep, if_neg Bool.false_ne_true] at hstep
  split at hstep
  · rename_i hc
    obtain ⟨hu, rfl⟩ := eq_of_two hstep
    cases hu
    obtain ⟨hc, hnext⟩ := hc
    obtain ⟨rest, rfl⟩ := List.head?_eq_some_iff.mp hnext
    have hraw' : Quoted (raw ++ [c, '\'']) (s.hold '\'').held.reverse := by
      rw [hold, List.reverse_cons]
      exact hraw.escape hc fun hquote hback => hlast hback hquote
    have hread : read ++ '\'' :: raw ++ [c, '\''] = read ++ '\'' :: (raw ++ [c, '\'']) := by simp
    change Tracks (s.hold '\'') (read ++ '\'' :: raw ++ [c, '\'']) rest
    rw [hread]
    refine .mk ?_ (.string hmode hraw' ?_) fun _ => hstart
    · exact (by simpa using hreads : Reads s read ('\'' :: (raw ++ [c, '\'']) ++ rest))
    · simp
  · rename_i hescape
    split at hstep
    · rename_i hc
      obtain ⟨hclose, rfl⟩ := eq_of_one hstep
      subst hc
      rw [closeString_spec hclose]
      exact tracks_closed hreads hstart (.string hraw fun hback => hlast hback rfl)
    · rename_i hc
      obtain ⟨hu, rfl⟩ := eq_of_one hstep
      cases hu
      have hraw' : Quoted (raw ++ [c]) (s.hold c).held.reverse := by
        rw [hold, List.reverse_cons]
        exact hraw.plain hc
      have hpending : Pending (s.hold c) rest ('\'' :: (raw ++ [c])) := by
        refine .string hmode hraw' fun hback hnext => ?_
        rw [List.getLast?_concat] at hback
        exact hescape ⟨.inl (Option.some.inj hback), hnext⟩
      exact tracks_more hreads rfl hpending hstart

theorem tracks_wideString {text : List Char} (hreads : Reads s read ('"' :: (text ++ c :: rest)))
    (hmode : s.mode = .string true) (hheld : s.held.reverse = text) (htext : '"' ∉ text)
    (hstart : s.start = byteCount read) (hstep : s.step offset c rest.head? = .ok (t, both)) :
    Tracks t (behind (read ++ '"' :: text) c rest both) (rest.drop both.toNat) := by
  rw [Scanner.step, hmode] at hstep
  dsimp only at hstep
  rw [stringStep, if_pos rfl] at hstep
  split at hstep
  · rename_i hc
    obtain ⟨hclose, rfl⟩ := eq_of_one hstep
    subst hc
    rw [closeString_spec hclose, hheld]
    exact tracks_closed hreads hstart (.wideString htext)
  · rename_i hc
    obtain ⟨hu, rfl⟩ := eq_of_one hstep
    cases hu
    have hpending : Pending (s.hold c) rest ('"' :: (text ++ [c])) :=
      .wideString hmode (by rw [hold, List.reverse_cons, hheld]) (by simp [htext, Ne.symm hc])
    exact tracks_more hreads rfl hpending hstart

theorem tracks_rawKey {text : List Char} (hreads : Reads s read ('#' :: '"' :: (text ++ c :: rest)))
    (hmode : s.mode = .rawKey) (hheld : s.held.reverse = text) (htext : '"' ∉ text)
    (hstart : s.start = byteCount read) (hstep : s.step offset c rest.head? = .ok (t, both)) :
    Tracks t (behind (read ++ '#' :: '"' :: text) c rest both) (rest.drop both.toNat) := by
  rw [Scanner.step, hmode] at hstep
  dsimp only at hstep
  split at hstep
  · rename_i hc
    obtain ⟨hclose, rfl⟩ := eq_of_one hstep
    subst hc
    obtain ⟨k, hk, rfl⟩ := closeKey_spec hclose
    rw [hheld] at hk
    exact tracks_closed hreads hstart (.rawKey htext hk)
  · rename_i hc
    obtain ⟨hu, rfl⟩ := eq_of_one hstep
    cases hu
    have hpending : Pending (s.hold c) rest ('#' :: '"' :: (text ++ [c])) :=
      .rawKey hmode (by rw [hold, List.reverse_cons, hheld]) (by simp [htext, Ne.symm hc])
    exact tracks_more hreads rfl hpending hstart

theorem Tracks.step (h : Tracks s front (c :: rest))
    (hstep : s.step (byteCount front) c rest.head? = .ok (t, both)) :
    Tracks t (behind front c rest both) (rest.drop both.toNat) := by
  generalize hleft : c :: rest = left at h
  have htracks := h
  obtain ⟨hreads, hpending, hstart⟩ := h
  subst hleft
  cases hpending with
  | code hmode =>
    rw [Scanner.step, hmode] at hstep
    exact htracks.codeStep hmode hstep
  | lineComment hmode hheld hbody =>
    exact tracks_lineComment hreads hmode hheld hbody (hstart (by simp)) hstep
  | blockComment hmode hheld hbody hlast =>
    exact tracks_blockComment hreads hmode hheld hbody (by simpa using hlast) (hstart (by simp))
      hstep
  | string hmode hraw hlast =>
    exact tracks_string hreads hmode hraw (by simpa using hlast) (hstart (by simp)) hstep
  | wideString hmode hheld htext =>
    exact tracks_wideString hreads hmode hheld htext (hstart (by simp)) hstep
  | rawKey hmode hheld htext =>
    exact tracks_rawKey hreads hmode hheld htext (hstart (by simp)) hstep

theorem Tracks.run (h : Tracks s front text) (hplace : offset = byteCount front)
    (hrun : s.run offset text = .ok t) : Tracks t (front ++ text) [] := by
  fun_induction Scanner.run s offset text generalizing front with
  | case1 s offset =>
    cases hrun
    simpa using h
  | case2 s offset c =>
    obtain ⟨⟨u, both⟩, hstep, rfl⟩ := exists_of_map_eq_ok hrun
    rw [hplace] at hstep
    simpa [behind] using h.step hstep
  | case3 => cases hrun
  | case4 s offset c d rest u hstep ih =>
    rw [hplace] at hstep
    have hbehind := ih (h.step hstep) (by simp [behind, hplace, byteCount]) hrun
    simpa [behind] using hbehind
  | case5 s offset c d rest u hstep ih =>
    rw [hplace] at hstep
    have hbehind := ih (h.step hstep) (by simp [behind, hplace, byteCount]) hrun
    simpa [behind] using hbehind

theorem Tracks.ended (h : Tracks s front []) (hmode : s.mode = .code ∨ s.mode = .lineComment)
    (hflush : s.flush = .ok t) : Reads t front [] := by
  rcases hmode with hmode | hmode
  · exact h.flush hmode hflush
  · generalize hleft : ([] : List Char) = left at h
    obtain ⟨hreads, hpending, -⟩ := h
    subst hleft
    cases hpending with
    | code h' => cases hmode.symm.trans h'
    | lineComment _ hheld hbody =>
      rcases cases_flush hflush with ⟨-, rfl⟩ | ⟨hne, -⟩
      · obtain ⟨spans, hwoven, hspans⟩ := hreads
        exact ⟨spans, hwoven.lineComment hbody (by simp), hspans⟩
      · exact absurd hheld hne
    | blockComment h' => cases hmode.symm.trans h'
    | string h' => cases hmode.symm.trans h'
    | wideString h' => cases hmode.symm.trans h'
    | rawKey h' => cases hmode.symm.trans h'

theorem reads_of_scan {ls : List Lexeme} (h : scan text = .ok ls) (hne : ls ≠ []) :
    ∃ s : Scanner, Reads s text [] ∧ s.done.reverse = ls := by
  unfold scan at h
  split at h
  · cases h
    exact absurd rfl hne
  · split at h
    · cases h
    · rename_i s hrun
      have htracks : Tracks s text [] := (tracks_empty text).run rfl hrun
      obtain ⟨t, hflush, -, rfl⟩ := flush_of_close h
      exact ⟨t, htracks.ended (mode_of_close h) hflush, rfl⟩

end Scanner

/-- Whatever source text is read as, it is woven of: every lexeme is spelled at its offset, the
spellings follow one another, and there are only blanks and comments beside them. -/
theorem lexemes_woven {source : String} {ls : List Lexeme} (h : lexemes source = .ok ls)
    (hne : ls ≠ []) :
    ∃ spans : List Span, spans.map Span.lexeme = ls ∧ Woven source.toList spans [] ∧
      (∀ x ∈ spans, x.Lies source.toList) ∧ spans.Pairwise Span.Before ∧
      ls.Pairwise fun a b => a.offset < b.offset := by
  obtain ⟨s, ⟨spans, hwoven, hspans⟩, hdone⟩ := Scanner.reads_of_scan (scan_of_lexemes h) hne
  have hls : spans.map Span.lexeme = ls := hspans.symm.trans hdone
  refine ⟨spans, hls, hwoven, hwoven.lies, hwoven.pairwise, ?_⟩
  rw [← hls, List.pairwise_map]
  refine List.Pairwise.imp_of_mem (fun {x y} hx _ hbefore => ?_) hwoven.pairwise
  have := byteCount_pos (hwoven.lies x hx).nonempty
  unfold Span.Before at hbefore
  change x.offset < y.offset
  omega

theorem lexemes_woven_mixed :
    ∃ spans : List Span,
      spans.map Span.lexeme = [⟨.name "ß", 0⟩, ⟨.mark .equals, 3⟩, ⟨.string "it's", 5⟩,
        ⟨.argument "b", 19⟩, ⟨.mark .lessThanEqual, 22⟩, ⟨.int 5, 24⟩] ∧
      Woven "ß = 'it\\'s' /*\"*/ <b><=5".toList spans [] ∧
      (∀ x ∈ spans, x.Lies "ß = 'it\\'s' /*\"*/ <b><=5".toList) ∧ spans.Pairwise Span.Before ∧
      [(⟨.name "ß", 0⟩ : Lexeme), ⟨.mark .equals, 3⟩, ⟨.string "it's", 5⟩, ⟨.argument "b", 19⟩,
        ⟨.mark .lessThanEqual, 22⟩, ⟨.int 5, 24⟩].Pairwise fun a b => a.offset < b.offset := by
  apply lexemes_woven
  · apply lexemes_of_toOption
    decide +kernel
  · exact List.cons_ne_nil _ _

end QbCodec.Source
