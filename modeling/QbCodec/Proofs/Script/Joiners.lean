import QbCodec.Proofs.File.Respelling
import QbCodec.Proofs.Script.Rereading
import QbCodec.Proofs.Source.Joiners

/-!
Rows of words, points and colons that are compiled, written as text and scanned again. Each name
comes back as the last name of its key.
-/

namespace QbCodec

open Source Layout

namespace Script

variable {r : Registry} {indent : List Char} {order : ByteOrder} {game : Game} {t u : Token}
  {ts : List Token} {names : List String} {text : String}

def writing (t : Token) : Action := .write (if t.isJoiner then .joiner else .word) t.spelling

theorem writeAt_within (indent : List Char) (depth : Nat) (p : Piece) (cs : List Char) {l : Layout}
    (hstart : l.atLineStart = false) (hblank : l.endsBlank = false) :
    l.writeAt indent depth p cs = { l with
      written :=
        ((if l.previous.any (Piece.apart · p) then [' '] else []) ++ cs).reverse ++ l.written
      previous := some p } := by
  rw [writeAt, hstart, hblank]
  cases l.previous.any (Piece.apart · p) <;> simp

theorem any_apart_writing (t : Token) (previous : Option Piece) :
    previous.any (Piece.apart · (if t.isJoiner then .joiner else .word)) =
      (previous.any (Piece.apart · .word) && !t.isJoiner) := by
  cases t.isJoiner with
  | true =>
    have hjoiner (p : Piece) : p.apart .joiner = false := by cases p <;> rfl
    cases previous <;> simp [hjoiner]
  | false => simp

theorem act_writing (indent : List Char) {l : Layout} (ht : t.IsVisible)
    (hstart : l.atLineStart = false) (hblank : l.endsBlank = false) :
    (l.act indent (writing t)).written =
        ((if l.previous.any (Piece.apart · .word) && !t.isJoiner then [' '] else []) ++
          t.spelling).reverse ++ l.written ∧
      (l.act indent (writing t)).atLineStart = false ∧
      (l.act indent (writing t)).endsBlank = false ∧
      (l.act indent (writing t)).previous.any (Piece.apart · .word) = !t.isJoiner := by
  obtain ⟨cs, c, hcs, hc⟩ := ht
  rw [writing, act, writeAt_within indent _ _ _ hstart hblank, any_apart_writing]
  refine ⟨rfl, hstart, ?_, ?_⟩
  · simp [endsBlank, hcs, hc]
  · cases t.isJoiner <;> rfl

theorem acts_writing (indent : List Char) {l : Layout} (hts : ∀ t ∈ ts, t.IsVisible)
    (hstart : l.atLineStart = false) (hblank : l.endsBlank = false) :
    (l.acts indent (ts.map writing)).written =
        (joined (l.previous.any (Piece.apart · .word)) ts).reverse ++ l.written ∧
      (l.acts indent (ts.map writing)).endsBlank = false := by
  induction ts generalizing l with
  | nil => exact ⟨rfl, hblank⟩
  | cons t ts ih =>
    obtain ⟨ht, hrest⟩ := List.forall_mem_cons.mp hts
    obtain ⟨hwritten, hstart', hblank', hprevious⟩ := act_writing indent ht hstart hblank
    obtain ⟨hacts, hend⟩ := ih hrest hstart' hblank'
    refine ⟨?_, hend⟩
    refine hacts.trans ?_
    rw [hwritten, hprevious, joined]
    simp

theorem text_writing (indent : List Char) (hts : ∀ t ∈ ts, t.IsVisible) :
    (acts indent {} (ts.map writing)).text = joined false ts := by
  obtain ⟨hwritten, hblank⟩ := acts_writing indent (l := {}) hts rfl rfl
  rw [text_of_not_blank hblank, hwritten, List.append_nil, List.reverse_reverse]
  rfl

def lastSpelling (names : List String) (text : String) : String :=
  (names.reverse.find? fun n => Key.ofName n == Key.ofName text).getD text

theorem exists_lastSpelling (h : text ∈ names) :
    (names.reverse.find? fun n => Key.ofName n == Key.ofName text) =
        some (lastSpelling names text) ∧
      lastSpelling names text ∈ names ∧ Key.ofName (lastSpelling names text) = Key.ofName text := by
  have hsome : (names.reverse.find? fun n => Key.ofName n == Key.ofName text).isSome := by
    rw [List.find?_isSome]
    exact ⟨text, by simpa using h, beq_self_eq_true _⟩
  obtain ⟨n, hn⟩ := Option.isSome_iff_exists.mp hsome
  have hlast : lastSpelling names text = n := by rw [lastSpelling, hn, Option.getD_some]
  rw [hlast]
  exact ⟨hn, by simpa using List.mem_of_find?_eq_some hn, by simpa using List.find?_some hn⟩

theorem resolve_lastSpelling (r : Registry) (h : text ∈ names) :
    (r.addAll names).resolve (Key.ofName text) = some (lastSpelling names text) := by
  rw [Registry.resolve_addAll, (exists_lastSpelling h).1, Option.some_or]

def respell (names : List String) : Token → Token
  | .name text => .name (lastSpelling names text)
  | .argument text => .argument (lastSpelling names text)
  | t => t

def IsRowToken : Token → Prop
  | .int _ => True
  | .float v => v.isFinite
  | .name text | .argument text => IsName text
  | t => t.isJoiner

def tokenNames : Token → List String
  | .name text | .argument text => [text]
  | _ => []

def rowNames (ts : List Token) : List String := ts.flatMap tokenNames

theorem rowNames_isName (hts : ∀ t ∈ ts, IsRowToken t) : ∀ n ∈ rowNames ts, IsName n := by
  intro n hn
  obtain ⟨t, ht, hn⟩ := List.mem_flatMap.mp hn
  have hrow := hts t ht
  unfold tokenNames at hn
  split at hn
  · rw [List.mem_singleton.mp hn]
    exact hrow
  · rw [List.mem_singleton.mp hn]
    exact hrow
  · cases hn

theorem isPart_respell (hnames : ∀ n ∈ names, IsName n) (ht : IsRowToken t)
    (hmem : ∀ n ∈ tokenNames t, n ∈ names) : IsPart (respell names t) := by
  have hlast {text : String} (htext : text ∈ tokenNames t) : IsName (lastSpelling names text) :=
    hnames _ (exists_lastSpelling (hmem text htext)).2.1
  cases t with
  | int v => exact ⟨trivial, .inl rfl⟩
  | float v => exact ⟨ht, .inl rfl⟩
  | name text => exact ⟨(hlast (List.mem_singleton_self _)).isWord, .inl rfl⟩
  | argument text =>
    exact ⟨(Statement.respells_argument text (hlast (List.mem_singleton_self _))).legible, .inl rfl⟩
  | mark m => exact ⟨trivial, .inr ht⟩
  | _ => cases ht

theorem startsWithDigit_respell (hnames : ∀ n ∈ names, IsName n)
    (hmem : ∀ n ∈ tokenNames t, n ∈ names) (h : t.startsWithDigit = false) :
    (respell names t).startsWithDigit = false := by
  cases t with
  | name text =>
    have hlast := exists_lastSpelling (hmem text (List.mem_singleton_self _))
    obtain ⟨c, cs, htext, hdigit⟩ := (hnames _ hlast.2.1).first
    simp [respell, Token.startsWithDigit, Token.spelling, htext, hdigit]
  | argument text => rfl
  | _ => exact h

theorem parted_respell (h : Parted ts) (hnames : ∀ n ∈ names, IsName n)
    (hmem : ∀ t ∈ ts, ∀ n ∈ tokenNames t, n ∈ names) : Parted (ts.map (respell names)) := by
  induction h with
  | nil => exact .nil
  | @pointed t ts hword _ ih =>
    have hrest := ih fun u hu => hmem u (by simp [hu])
    exact .pointed (by cases t <;> first | rfl | cases hword) hrest
  | @single t ts hseparate _ ih =>
    refine .single ?_ (ih fun u hu => hmem u (List.mem_cons_of_mem _ hu))
    intro u' hu'
    cases ts with
    | nil => cases hu'
    | cons u ts =>
      cases hu'
      have hbetween := hseparate u rfl
      apply separate_of_startsWithDigit
      · intro hdot
        apply startsWithDigit_respell hnames (hmem u (by simp))
        have ht : t = .mark .dot := by cases t <;> first | exact hdot | cases hdot
        rw [Token.startsWithDigit]
        cases hhead : u.spelling.head? with
        | none => rfl
        | some c => exact hbetween.1 ht c hhead
      · intro hdot v hv
        have hu : u = .mark .dot := by cases u <;> first | exact hdot | cases hdot
        have ht : t = .int v := by cases t <;> first | exact hv | cases hv
        exact hbetween.2 hu v ht

theorem exists_body (game : Game) (hts : ∀ t ∈ ts, IsRowToken t)
    (hknown : ∀ n ∈ rowNames ts, r.resolve (Key.ofName n) = some (lastSpelling names n)) :
    ∃ is, Statement.Body game 0 ts (rowNames ts) is ∧
      (∀ i ∈ is, i.WellFormed ∧ i ≠ .bare .endScript) ∧
      allActions r false is = (ts.map (respell names)).map writing := by
  induction ts with
  | nil => exact ⟨[], .nil, fun i hi => absurd hi List.not_mem_nil, rfl⟩
  | cons t ts ih =>
    obtain ⟨ht, hrest⟩ := List.forall_mem_cons.mp hts
    obtain ⟨is, hbody, hwell, hactions⟩ := ih hrest fun n hn =>
      hknown n (List.mem_append_right _ hn)
    cases t with
    | int v =>
      refine ⟨.word .integer v.toUInt32 :: is, .int v hbody,
        List.forall_mem_cons.mpr ⟨⟨rfl, by simp⟩, hwell⟩, ?_⟩
      simp only [allActions, actions, marksArgument, hactions, Int32.toInt32_toUInt32]
      rfl
    | float v =>
      refine ⟨.word .float v.bits :: is, .float v hbody,
        List.forall_mem_cons.mpr ⟨⟨rfl, by simp⟩, hwell⟩, ?_⟩
      simp only [allActions, actions, marksArgument, hactions]
      rfl
    | name text =>
      have hname : IsName text := ht
      have htext := hknown text (List.mem_append_left _ (List.mem_singleton_self _))
      have hnaming := Statement.Naming.name text
      rw [hname.newNames, hname.key] at hnaming
      refine ⟨.word .name (Key.ofName text) :: is, .naming hnaming hbody,
        List.forall_mem_cons.mpr ⟨⟨rfl, by simp⟩, hwell⟩, ?_⟩
      simp only [allActions, actions, marksArgument, hactions, Registry.keyText, htext]
      rfl
    | argument text =>
      have hname : IsName text := ht
      have htext := hknown text (List.mem_append_left _ (List.mem_singleton_self _))
      have hargument := Statement.Body.argument text hbody
      rw [hname.newNames, hname.key] at hargument
      refine ⟨_, hargument, List.forall_mem_cons.mpr ⟨⟨rfl, by decide⟩,
        List.forall_mem_cons.mpr ⟨⟨rfl, by simp⟩, hwell⟩⟩, ?_⟩
      simp only [allActions, actions, marksArgument, hactions, Registry.keyText, htext]
      rfl
    | mark m =>
      rcases isJoiner_iff.mp ht with hm | hm
      · cases hm
        refine ⟨.bare .dot :: is, .mark rfl hbody,
          List.forall_mem_cons.mpr ⟨⟨rfl, by decide⟩, hwell⟩, ?_⟩
        simp only [allActions, actions, marksArgument, hactions]
        rfl
      · cases hm
        refine ⟨.bare .colon :: is, .mark rfl hbody,
          List.forall_mem_cons.mpr ⟨⟨rfl, by decide⟩, hwell⟩, ?_⟩
        simp only [allActions, actions, marksArgument, hactions]
        rfl
    | _ => cases ht

theorem isPart_map_respell (hts : ∀ t ∈ ts, IsRowToken t) :
    ∀ t ∈ ts.map (respell (rowNames ts)), IsPart t := by
  intro u hu
  obtain ⟨t, ht, rfl⟩ := List.mem_map.mp hu
  exact isPart_respell (rowNames_isName hts) (hts t ht) fun n hn =>
    List.mem_flatMap.mpr ⟨t, ht, hn⟩

theorem exists_render (hts : ∀ t ∈ ts, IsRowToken t) (game : Game) (r : Registry)
    (indent : List Char) :
    ∃ is, Statement.Body game 0 ts (rowNames ts) is ∧
      (∀ i ∈ is, i.WellFormed ∧ i ≠ .bare .endScript) ∧
      render (r.addAll (rowNames ts)) indent is =
        joined false (ts.map (respell (rowNames ts))) := by
  have hknown : ∀ n ∈ rowNames ts, (r.addAll (rowNames ts)).resolve (Key.ofName n) =
      some (lastSpelling (rowNames ts) n) := fun n hn => resolve_lastSpelling r hn
  obtain ⟨is, hbody, hwell, hactions⟩ := exists_body game hts hknown
  refine ⟨is, hbody, hwell, ?_⟩
  rw [render_eq, hactions, text_writing indent fun t ht => (isPart_map_respell hts t ht).isVisible]

theorem exists_reread (hts : ∀ t ∈ ts, IsRowToken t) (h : Parted ts) (game : Game) (r : Registry)
    (indent : List Char) (order : ByteOrder) :
    ∃ is, Statement.Body game 0 ts (rowNames ts) is ∧
      reread (r.addAll (rowNames ts)) indent order is = .ok (ts.map (respell (rowNames ts))) := by
  obtain ⟨is, hbody, hwell, hrender⟩ := exists_render hts game r indent
  have hparted := parted_respell h (rowNames_isName hts) fun t ht n hn =>
    List.mem_flatMap.mpr ⟨t, ht, hn⟩
  obtain ⟨ls, hls, htokens⟩ := scan_joined hparted (isPart_map_respell hts)
  rw [← hrender] at hls
  exact ⟨is, hbody, by rw [reread_of_scan _ hwell hls, htokens]⟩

theorem respell_eq_self
    (h : ∀ n ∈ names, ∀ m ∈ names, Key.ofName n = Key.ofName m → n = m)
    (hmem : ∀ n ∈ tokenNames t, n ∈ names) : respell names t = t := by
  have hsame {text : String} (htext : text ∈ tokenNames t) : lastSpelling names text = text := by
    obtain ⟨-, hlast, hkey⟩ := exists_lastSpelling (hmem text htext)
    exact h _ hlast text (hmem text htext) hkey
  cases t with
  | name text => exact congrArg Token.name (hsame (List.mem_singleton_self _))
  | argument text => exact congrArg Token.argument (hsame (List.mem_singleton_self _))
  | _ => rfl

/-- A row that joins no number and point is read back from its text, with each name spelled as the
last name of its key. It is read back as it was if no two names of the row have a key in common. -/
theorem reread_row (hts : ∀ t ∈ ts, IsRowToken t) (hunfused : Unfused ts) {ls : List Lexeme}
    (hls : tokens ls = ts) (game : Game) (r : Registry) (indent : List Char) (order : ByteOrder) :
    ∃ is, Statement.readBody game 0 0 ls = ⟨rowNames ts, .ok is⟩ ∧
      reread (r.addAll (rowNames ts)) indent order is = .ok (ts.map (respell (rowNames ts))) ∧
      ((∀ n ∈ rowNames ts, ∀ m ∈ rowNames ts, Key.ofName n = Key.ofName m → n = m) →
        reread (r.addAll (rowNames ts)) indent order is = .ok ts) := by
  obtain ⟨is, hbody, hreread⟩ := exists_reread hts hunfused.parted game r indent order
  refine ⟨is, hbody.readBody hls, hreread, ?_⟩
  intro hdistinct
  have hsame : ∀ t ∈ ts, respell (rowNames ts) t = t := fun t ht =>
    respell_eq_self hdistinct fun n hn => List.mem_flatMap.mpr ⟨t, ht, hn⟩
  rw [hreread, List.map_congr_left hsame, List.map_id']

theorem reread_row_digit :
    ∃ is, Statement.readBody .ghwt 0 0 [⟨.name "a", 0⟩, ⟨.mark .dot, 1⟩, ⟨.int 5, 2⟩] =
        ⟨["a"], .ok is⟩ ∧
      reread (({} : Registry).addAll ["a"]) [] .big is =
        .ok [.name "a", .mark .dot, .int 5] := by
  have hts : ∀ t ∈ [.name "a", .mark .dot, .int 5], IsRowToken t := by
    intro t ht
    simp only [List.mem_cons, List.not_mem_nil, or_false] at ht
    rcases ht with rfl | rfl | rfl
    · exact isName_of_isIdentifier (by decide) (by decide +kernel)
    · exact rfl
    · exact trivial
  have hunfused : Unfused [.name "a", .mark .dot, .int 5] := by
    constructor
    · intro before v after h
      rcases before with - | ⟨a, - | ⟨b, - | ⟨c, before⟩⟩⟩ <;> simp at h
    · intro before t after h _
      rcases before with - | ⟨a, - | ⟨b, - | ⟨c, before⟩⟩⟩ <;> simp at h
      exact ⟨a, rfl, by rw [← h.1]; rfl⟩
  have hls : tokens [⟨.name "a", 0⟩, ⟨.mark .dot, 1⟩, ⟨.int 5, 2⟩] =
      [.name "a", .mark .dot, .int 5] := rfl
  obtain ⟨is, hread, -, hsame⟩ := reread_row hts hunfused hls .ghwt {} [] .big
  refine ⟨is, hread, hsame ?_⟩
  intro n hn m hm _
  have only {x : String} (hx : x ∈ rowNames [.name "a", .mark .dot, .int 5]) : x = "a" := by
    simpa [rowNames, tokenNames] using hx
  rw [only hn, only hm]

/-- Names that differ in case share a key, and a whole number takes in the point behind it, so that
such rows are read back otherwise. -/
theorem not_reread_row :
    (∃ is, Statement.readBody .ghwt 0 0 [⟨.name "A", 0⟩, ⟨.mark .dot, 2⟩, ⟨.name "a", 4⟩] =
        ⟨["A", "a"], .ok is⟩ ∧
      reread (({} : Registry).addAll ["A", "a"]) [] .big is =
        .ok [.name "a", .mark .dot, .name "a"]) ∧
    ∃ is, Statement.readBody .ghwt 0 0 [⟨.int 5, 0⟩, ⟨.mark .dot, 2⟩, ⟨.name "a", 4⟩] =
        ⟨["a"], .ok is⟩ ∧
      reread (({} : Registry).addAll ["a"]) [] .big is = .ok [.name "5.a"] := by
  constructor
  · have hts : ∀ t ∈ [.name "A", .mark .dot, .name "a"], IsRowToken t := by
      intro t ht
      simp only [List.mem_cons, List.not_mem_nil, or_false] at ht
      rcases ht with rfl | rfl | rfl
      · exact isName_of_isIdentifier (by decide) (by decide +kernel)
      · exact rfl
      · exact isName_of_isIdentifier (by decide) (by decide +kernel)
    have hparted : Parted [.name "A", .mark .dot, .name "a"] :=
      .pointed rfl (.single (fun u hu => by cases hu) .nil)
    obtain ⟨is, hbody, hreread⟩ := exists_reread hts hparted .ghwt {} [] .big
    have hkey : Key.ofName "A" = Key.ofName "a" := by decide +kernel
    have hlast : ∀ text, Key.ofName text = Key.ofName "a" →
        lastSpelling ["A", "a"] text = "a" := by
      intro text htext
      simp [lastSpelling, htext]
    have hrespell : [.name "A", .mark .dot, .name "a"].map (respell ["A", "a"]) =
        [.name "a", .mark .dot, .name "a"] := by
      simp [respell, hlast "A" hkey, hlast "a" rfl]
    refine ⟨is, hbody.readBody rfl, ?_⟩
    rw [← hrespell]
    exact hreread
  · have hts : ∀ t ∈ [.int 5, .mark .dot, .name "a"], IsRowToken t := by
      intro t ht
      simp only [List.mem_cons, List.not_mem_nil, or_false] at ht
      rcases ht with rfl | rfl | rfl
      · exact trivial
      · exact rfl
      · exact isName_of_isIdentifier (by decide) (by decide +kernel)
    obtain ⟨is, hbody, hwell, hrender⟩ := exists_render hts .ghwt {} []
    have hjoined : joined false ([.int 5, .mark .dot, .name "a"].map (respell ["a"])) =
        "5.a".toList := by
      have hlast : lastSpelling ["a"] "a" = "a" := by simp [lastSpelling]
      simp only [List.map_cons, List.map_nil, respell, hlast]
      decide
    have hlexemes : lexemes "5.a" = .ok [⟨.name "5.a", 0⟩] := by
      apply lexemes_of_toOption
      decide +kernel
    refine ⟨is, hbody.readBody rfl, ?_⟩
    have hrender' : render (({} : Registry).addAll ["a"]) [] is = "5.a".toList :=
      hrender.trans hjoined
    rw [reread_of_scan _ hwell (by rw [hrender']; exact scan_of_lexemes hlexemes)]
    rfl

end Script

end QbCodec
