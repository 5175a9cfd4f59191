import QbCodec.Proofs.File.Coding
import QbCodec.Proofs.File.LineEnds
import QbCodec.Proofs.File.Respelling
import QbCodec.Proofs.Key.Canonical

namespace QbCodec

open Source Layout Script

namespace Registry

variable {r : Registry}

theorem isWord_spellKey (hr : r.IsFaithful) (k : Key) : IsWord (r.spellKey k) := by
  unfold spellKey
  cases hk : r.resolve k with
  | none => exact isWord_spell k
  | some literal => exact (hr k literal hk).2.isWord

theorem naming_spellKey (hr : r.IsFaithful) (k : Key) :
    Statement.Naming (.name (r.spellKey k)) (r.resolve k).toList k := by
  unfold spellKey
  cases hk : r.resolve k with
  | none =>
    have := Statement.Naming.name k.spell
    rw [Key.ofLiteral_spell, Statement.newNames, if_pos (Key.isCanonical_spell k)] at this
    exact this
  | some literal =>
    obtain ⟨hkey, hname⟩ := hr k literal hk
    have := Statement.Naming.name literal
    rw [hname.newNames, hname.key, hkey] at this
    exact this

end Registry

namespace Statement

variable {r s : Registry} {game : Game} {indent : List Char}

def valueLine (r : Registry) (k : Key) (v : Int32) : List Char :=
  (r.spellKey k).toList ++ " = ".toList ++ Text.signedNumeral v.toInt ++ ['\n']

def scriptLines (r : Registry) (indent : List Char) (k : Key) (is : List Instruction) : List Char :=
  "script ".toList ++ r.keyText k ++ ' ' :: render r indent is ++ "\nendscript".toList ++ ['\n']

def lines (r : Registry) (indent : List Char) : Statement → List Char
  | .value k v => valueLine r k v
  | .script k is => scriptLines r indent k is

def statementNames (r : Registry) : Statement → List String
  | .value k _ => (r.resolve k).toList
  | .script k is => (r.resolve k).toList ++ literals r is

def fileNames (r : Registry) (ss : List Statement) : List String := ss.flatMap (statementNames r)

/-- A script is written with one line end at the end of its body, however many it had. -/
inductive Settles : Statement → Statement → Prop
  | value (k : Key) (v : Int32) : Settles (.value k v) (.value k v)
  | script (k : Key) (is : List Instruction) (n : Nat) :
      Settles (.script k (is ++ List.replicate n (.bare .endOfLine)))
        (.script k (is ++ [.bare .endOfLine]))

def Roomy : Statement → Prop
  | .value .. => True
  | .script _ is => (Instruction.encodeBody .big is).length + 1 < 2 ^ 32

theorem Roomy.small {q : Statement} (h : q.Roomy) : q.Small := by
  cases q with
  | value => trivial
  | script k is =>
    simp only [Roomy] at h
    simp only [Small]
    omega

theorem Settles.small {p q : Statement} (h : Settles p q) (hp : p.Roomy) : q.Small := by
  cases h with
  | value => trivial
  | script k is n =>
    simp only [Roomy, Small, Instruction.encodeBody, List.flatMap_append, List.length_append,
      List.flatMap_cons, List.flatMap_nil, Instruction.encode, Instruction.operand,
      List.length_cons, List.length_nil] at hp ⊢
    omega

theorem Settles.lines_eq {p q : Statement} (h : Settles p q) (r : Registry) (indent : List Char) :
    q.lines r indent = p.lines r indent := by
  cases h with
  | value => rfl
  | script k is n =>
    have hrender : render r indent (is ++ [.bare .endOfLine]) =
        render r indent (is ++ List.replicate n (.bare .endOfLine)) := by
      rw [render_concat, render_append_replicate]
    change scriptLines r indent k _ = scriptLines r indent k _
    unfold scriptLines
    rw [hrender]

theorem small_of_settles {ss qs : List Statement} (h : List.Forall₂ Settles ss qs)
    (hss : ∀ p ∈ ss, p.Roomy) : ∀ q ∈ qs, q.Small := by
  induction h with
  | nil => exact fun q hq => absurd hq List.not_mem_nil
  | cons hpq _ ih =>
    obtain ⟨hp, hss⟩ := List.forall_mem_cons.mp hss
    exact List.forall_mem_cons.mpr ⟨hpq.small hp, ih hss⟩

structure Row (r : Registry) (indent : List Char) (game : Game) (ss qs : List Statement)
    (is : List Ink) : Prop where
  text_eq : inkText is = ss.flatMap (lines r indent)
  readable : Readable is
  grammar : Text game (inkTokens is) (fileNames r qs) qs
  closed : openScripts 0 (inkTokens is) = some 0
  settles : List.Forall₂ Settles ss qs

theorem readable_line {is js : List Ink} (hi : Readable (is ++ [.token (.mark .newLine)]))
    (hj : Readable js) : Readable (is ++ [.token (.mark .newLine)] ++ js) := by
  apply hi.append hj
  intro i hlast j _
  rw [List.getLast?_concat] at hlast
  cases hlast
  have hstart : EndsAs none (.token (.mark .newLine)) := rfl
  exact precedes_of_start hstart

theorem openScripts_skip (n : Nat) {ts : List Token} (us : List Token)
    (h : ∀ t ∈ ts, isScriptBracket t = false) : openScripts n (ts ++ us) = openScripts n us := by
  rw [openScripts_append, openScripts_of_not_bracket n h]
  rfl

theorem openScripts_script {n : Token} {bs : List Token} (hn : isScriptBracket n = false)
    (hbs : ∀ t ∈ bs, isScriptBracket t = false) (rest : List Token) :
    openScripts 0 (.keyword .script :: n :: (bs ++ .keyword .endScript :: rest)) =
      openScripts 0 rest := by
  have hinside := openScripts_skip 1 (.keyword .endScript :: rest)
    (List.forall_mem_cons.mpr ⟨hn, hbs⟩)
  rw [openScripts_cons, scriptStep_script, Option.bind_some, ← List.cons_append, hinside,
    openScripts_cons, scriptStep_endScript, Option.bind_some]

theorem exists_row_value (hr : r.IsFaithful) (k : Key) (v : Int32) {ss qs : List Statement}
    {is : List Ink} (h : Row r indent game ss qs is) :
    ∃ js, Row r indent game (.value k v :: ss) (.value k v :: qs) js := by
  let line : List Ink := [.token (.name (r.spellKey k)), .blank ' ', .token (.mark .equals),
    .blank ' ', .token (.int v)]
  have hline : Readable (line ++ [.token (.mark .newLine)]) := by
    have hend : Readable [.token (.int v), .token (.mark .newLine)] := by
      refine readable_cons trivial (readable_token trivial) ?_
      rintro i ⟨⟩
      exact precedes_lineEnd _
    have hequals := readable_cons_blank (t := .mark .equals) trivial hend
    exact readable_cons_blank (Registry.isWord_spellKey hr k) hequals
  have htokens : inkTokens (line ++ [.token (.mark .newLine)] ++ is) =
      [.name (r.spellKey k), .mark .equals, .int v, .mark .newLine] ++ inkTokens is := by
    simp only [line, inkTokens_append, inkTokens_token, inkTokens_blank, inkTokens_nil]
    rfl
  refine ⟨line ++ [.token (.mark .newLine)] ++ is, ?_, readable_line hline h.readable, ?_, ?_, ?_⟩
  · simp only [line, inkText_append, h.text_eq, List.flatMap_cons, lines, valueLine]
    simp [Ink.text, Token.spelling, Mark.spelling]
  · rw [htokens]
    exact .value (Registry.naming_spellKey hr k) v (.newLine h.grammar)
  · rw [htokens, openScripts_skip 0 _ (by simp [isScriptBracket]), h.closed]
  · exact .cons (.value k v) h.settles

def scriptInks (r : Registry) (k : Key) (body : List Ink) : List Ink :=
  [.token (.keyword .script), .blank ' ', .token (r.nameToken k), .blank ' '] ++
    (body ++ [.token (.mark .newLine), .token (.keyword .endScript)])

theorem inkText_scriptInks {k : Key} {body : List Ink} {is : List Instruction}
    (h : inkText body = render r indent is) :
    inkText (scriptInks r k body ++ [.token (.mark .newLine)]) = scriptLines r indent k is := by
  have hscript : Token.spelling (.keyword .script) = "script".toList := by decide
  have hend : Token.spelling (.keyword .endScript) = "endscript".toList := by decide
  unfold scriptLines scriptInks
  simp only [inkText_append, inkText_cons, inkText_nil, h, Ink.text, hscript, hend,
    Registry.spelling_nameToken]
  simp [Token.spelling, Mark.spelling]

theorem readable_scriptInks {k : Key} (hk : r.IsFaithfulAt k) {body : List Ink} (h : Readable body) :
    Readable (scriptInks r k body ++ [.token (.mark .newLine)]) := by
  have hend : Readable [.token (.mark .newLine), .token (.keyword .endScript),
      .token (.mark .newLine)] := by
    refine readable_cons trivial (readable_cons trivial (readable_token trivial) ?_) ?_
    · rintro i ⟨⟩
      exact precedes_lineEnd _
    · rintro i ⟨⟩ c _
      rfl
  have hbody : Readable (body ++ [.token (.mark .newLine), .token (.keyword .endScript),
      .token (.mark .newLine)]) := by
    apply h.append hend
    rintro i _ j ⟨⟩
    exact precedes_lineEnd i
  have hname := readable_cons_blank (Registry.legible_nameToken hk) hbody
  have hscript := readable_cons_blank (t := .keyword .script) trivial hname
  have happend : scriptInks r k body ++ [.token (.mark .newLine)] =
      .token (.keyword .script) :: .blank ' ' :: .token (r.nameToken k) :: .blank ' ' ::
        (body ++ [.token (.mark .newLine), .token (.keyword .endScript),
          .token (.mark .newLine)]) := by
    simp [scriptInks]
  rw [happend]
  exact hscript

theorem mem_of_respells {ts us : List Token} (h : List.Forall₂ Respells ts us) {k : Keyword}
    (hk : .keyword k ∈ us) : .keyword k ∈ ts := by
  induction h with
  | nil => exact absurd hk List.not_mem_nil
  | cons hab _ ih =>
    rcases List.mem_cons.mp hk with he | hmem
    · rw [(hab.keyword k).mp he.symm]
      exact List.mem_cons_self
    · exact List.mem_cons_of_mem _ (ih hmem)

theorem getLast?_of_respells {ts us : List Token} (h : List.Forall₂ Respells ts us) {m : Mark}
    (hm : us.getLast? = some (.mark m)) : ts.getLast? = some (.mark m) := by
  induction h with
  | nil => cases hm
  | cons hab hrest ih =>
    cases hrest with
    | nil =>
      cases hm
      rw [(hab.mark m).mp rfl]
      rfl
    | cons hcd hrest => exact ih hm

theorem exists_row_script (hr : r.IsFaithful) (hindent : ∀ c ∈ indent, c = ' ' ∨ c = '\t') (k : Key)
    {bs : List Token} {ns : List String} {is : List Instruction} (hbody : Body game 0 bs ns is)
    (hend : .keyword .endScript ∉ bs) (hplain : ∀ t ∈ bs, Plain t) (hapart : bs.IsChain Apart)
    (hknown : ∀ n ∈ ns, (r.resolve (Key.ofName n)).isSome) {ss qs : List Statement}
    {rest : List Ink} (h : Row r indent game ss qs rest) :
    ∃ js is', Row r indent game (.script k is :: ss) (.script k is' :: qs) js ∧
      ((∃ front, bs = front ++ [.mark .newLine] ∧ front.getLast? ≠ some (.mark .newLine)) →
        is' = is) := by
  obtain ⟨us, n, rfl, hlast⟩ := exists_lineEnds bs
  obtain ⟨is, rfl, hfront⟩ := hbody.of_append_lineEnds
  obtain ⟨vs, hwritten⟩ := hfront.exists_written hr
    (fun t ht => hplain t (List.mem_append_left _ ht)) hknown
  have hseparate := separate_of_respells hwritten.respells hapart.left_of_append
  obtain ⟨body, htext, hreadable, htokens⟩ := exists_text hindent hwritten.spells hseparate
    (fun hnewLine => hlast (getLast?_of_respells hwritten.respells hnewLine))
  have hend' : .keyword .endScript ∉ vs ++ [.mark .newLine] := by
    simp only [List.mem_append, List.mem_singleton, reduceCtorEq, or_false]
    intro hmem
    exact hend (List.mem_append_left _ (mem_of_respells hwritten.respells hmem))
  have hrender : inkText body =
      render r indent (is ++ List.replicate n (.bare .endOfLine)) := by
    rw [render_append_replicate, render_eq, htext]
  have hrow : inkTokens (scriptInks r k body ++ [.token (.mark .newLine)] ++ rest) =
      .keyword .script :: r.nameToken k ::
        ((vs ++ [.mark .newLine]) ++ .keyword .endScript :: .mark .newLine :: inkTokens rest) := by
    simp [scriptInks, htokens]
  have hnames : fileNames r (.script k (is ++ [.bare .endOfLine]) :: qs) =
      (r.resolve k).toList ++ (literals r is ++ fileNames r qs) := by
    simp [fileNames, statementNames, literals, keyNames]
  refine ⟨scriptInks r k body ++ [.token (.mark .newLine)] ++ rest, is ++ [.bare .endOfLine],
    ⟨?_, ?_, ?_, ?_, ?_⟩, ?_⟩
  · rw [inkText_append, inkText_scriptInks hrender, h.text_eq]
    rfl
  · exact readable_line (readable_scriptInks (hr k) hreadable) h.readable
  · rw [hrow, hnames]
    exact .script (Registry.naming_nameToken (hr k)) hend' hwritten.body.concat_lineEnd
      (.newLine h.grammar)
  · have hname : isScriptBracket (r.nameToken k) = false :=
      (Registry.naming_nameToken (hr k)).not_bracket
    rw [hrow, openScripts_script hname (hwritten.body.concat_lineEnd.not_bracket hend'),
      openScripts_cons, scriptStep_of_not_bracket 0 rfl, Option.bind_some, h.closed]
  · exact .cons (.script k is n) h.settles
  · rintro ⟨front, hfront', hlast'⟩
    rw [eq_one_of_lineEnds hlast hlast' hfront']
    rfl

theorem Text.exists_row (hr : r.IsFaithful) (hindent : ∀ c ∈ indent, c = ' ' ∨ c = '\t')
    {ts : List Token} {ns : List String} {ss : List Statement} (h : Text game ts ns ss)
    (hplain : ∀ t ∈ ts, t = .keyword .endScript ∨ Plain t) (hapart : ts.IsChain Apart)
    (hknown : ∀ n ∈ ns, (r.resolve (Key.ofName n)).isSome) :
    ∃ qs is, Row r indent game ss qs is ∧ (EndsOnce ts → qs = ss) := by
  induction h with
  | nil => exact ⟨[], [], ⟨rfl, readable_nil, .nil, rfl, .nil⟩, fun _ => rfl⟩
  | @newLine ts ns ss _ ih =>
    obtain ⟨qs, is, hrow, honce⟩ := ih (fun t ht => hplain t (List.mem_cons_of_mem _ ht))
      hapart.tail hknown
    exact ⟨qs, is, hrow, fun hts => honce hts.of_cons⟩
  | @value n ts ms ns k ss hn v _ ih =>
    obtain ⟨qs, is, hrow, honce⟩ := ih (fun t ht => hplain t (by simp [ht]))
      hapart.tail.tail.tail (fun n hn => hknown n (List.mem_append_right _ hn))
    obtain ⟨js, hjs⟩ := exists_row_value hr k v hrow
    exact ⟨_, js, hjs, fun hts => by rw [honce hts.of_cons.of_cons.of_cons]⟩
  | @script n bs ts ms bodyNames ns k is ss hn hend hbody _ ih =>
    have hafter : (bs ++ .keyword .endScript :: ts).IsChain Apart := hapart.tail.tail
    obtain ⟨qs, rest, hrow, honce⟩ := ih (fun t ht => hplain t (by simp [ht]))
      hafter.right_of_append.tail
      (fun n hn => hknown n (List.mem_append_right _ (List.mem_append_right _ hn)))
    have hplain' : ∀ t ∈ bs, Plain t := by
      intro t ht
      rcases hplain t (by simp [ht]) with rfl | hplain
      · exact absurd ht hend
      · exact hplain
    obtain ⟨js, is', hjs, hsame⟩ := exists_row_script hr hindent k hbody hend hplain'
      hafter.left_of_append
      (fun n hn => hknown n (List.mem_append_right _ (List.mem_append_left _ hn))) hrow
    refine ⟨_, js, hjs, ?_⟩
    intro hts
    rw [hsame (hts [] n bs ts rfl hend)]
    have hrest : EndsOnce ts := by
      apply EndsOnce.of_append (.keyword .script :: n :: (bs ++ [.keyword .endScript]))
      simpa using hts
    rw [honce hrest]

theorem eq_of_mem_newNames {n text : String} (h : n ∈ newNames text) : n = text := by
  unfold newNames at h
  split at h
  · cases h
  · exact List.mem_singleton.mp h

theorem Naming.mem_names {t : Token} {ns : List String} {k : Key} (h : Naming t ns k) {n : String}
    (hn : n ∈ ns) : t = .name n := by
  cases h with
  | name text => rw [eq_of_mem_newNames hn]
  | rawKey k => cases hn

theorem Body.mem_names {depth : Nat} {ts : List Token} {ns : List String} {is : List Instruction}
    (h : Body game depth ts ns is) {n : String} (hn : n ∈ ns) :
    .name n ∈ ts ∨ .argument n ∈ ts := by
  induction h with
  | nil => cases hn
  | naming hk _ ih =>
    rcases List.mem_append.mp hn with hn | hn
    · left
      rw [hk.mem_names hn]
      exact List.mem_cons_self
    · exact (ih hn).imp (List.mem_cons_of_mem _) (List.mem_cons_of_mem _)
  | argument text _ ih =>
    rcases List.mem_append.mp hn with hn | hn
    · right
      rw [eq_of_mem_newNames hn]
      exact List.mem_cons_self
    · exact (ih hn).imp (List.mem_cons_of_mem _) (List.mem_cons_of_mem _)
  | phrase _ _ ih => exact (ih hn).imp (fun h => by simp [h]) (fun h => by simp [h])
  | tuple _ _ ih => exact (ih hn).imp (fun h => by simp [h]) (fun h => by simp [h])
  | int _ _ ih => exact (ih hn).imp (List.mem_cons_of_mem _) (List.mem_cons_of_mem _)
  | float _ _ ih => exact (ih hn).imp (List.mem_cons_of_mem _) (List.mem_cons_of_mem _)
  | string _ _ ih => exact (ih hn).imp (List.mem_cons_of_mem _) (List.mem_cons_of_mem _)
  | wideString _ _ ih => exact (ih hn).imp (List.mem_cons_of_mem _) (List.mem_cons_of_mem _)
  | keyword _ _ _ ih => exact (ih hn).imp (List.mem_cons_of_mem _) (List.mem_cons_of_mem _)
  | openParen _ _ ih => exact (ih hn).imp (List.mem_cons_of_mem _) (List.mem_cons_of_mem _)
  | closeParen _ ih => exact (ih hn).imp (List.mem_cons_of_mem _) (List.mem_cons_of_mem _)
  | mark _ _ ih => exact (ih hn).imp (List.mem_cons_of_mem _) (List.mem_cons_of_mem _)

theorem Text.mem_names {ts : List Token} {ns : List String} {ss : List Statement}
    (h : Text game ts ns ss) {n : String} (hn : n ∈ ns) : .name n ∈ ts ∨ .argument n ∈ ts := by
  induction h with
  | nil => cases hn
  | newLine _ ih => exact (ih hn).imp (List.mem_cons_of_mem _) (List.mem_cons_of_mem _)
  | value hk v _ ih =>
    rcases List.mem_append.mp hn with hn | hn
    · left
      rw [hk.mem_names hn]
      exact List.mem_cons_self
    · exact (ih hn).imp (fun h => by simp [h]) (fun h => by simp [h])
  | script hk _ hbody _ ih =>
    rcases List.mem_append.mp hn with hn | hn
    · left
      rw [hk.mem_names hn]
      simp
    · rcases List.mem_append.mp hn with hn | hn
      · exact (hbody.mem_names hn).imp (fun h => by simp [h]) (fun h => by simp [h])
      · exact (ih hn).imp (fun h => by simp [h]) (fun h => by simp [h])

def HasKey (k : Key) : Statement → Prop
  | .value j _ => k = j
  | .script j is => k = j ∨ .word .name k ∈ is

theorem mem_statementNames {q : Statement} {k : Key} {literal : String} (h : q.HasKey k)
    (hk : r.resolve k = some literal) : literal ∈ statementNames r q := by
  cases q with
  | value j v =>
    have hj : k = j := h
    simp [statementNames, ← hj, hk]
  | script j is =>
    rcases h with rfl | hmem
    · simp [statementNames, hk]
    · refine List.mem_append_right _ (List.mem_flatMap.mpr ⟨_, hmem, ?_⟩)
      simp [keyNames, hk]

theorem of_mem_statementNames {q : Statement} {n : String} (h : n ∈ statementNames r q) :
    ∃ k, r.resolve k = some n := by
  cases q with
  | value j v => exact ⟨j, by simpa [statementNames] using h⟩
  | script j is =>
    rcases List.mem_append.mp h with h | h
    · exact ⟨j, by simpa using h⟩
    · obtain ⟨i, -, hi⟩ := List.mem_flatMap.mp h
      unfold keyNames at hi
      split at hi
      · rename_i k
        exact ⟨k, by simpa using hi⟩
      · cases hi

theorem keyText_congr {k : Key} (h : s.resolve k = r.resolve k) : s.keyText k = r.keyText k := by
  unfold Registry.keyText
  rw [h]

theorem actions_congr {i : Instruction} (h : ∀ k, i = .word .name k → s.resolve k = r.resolve k)
    (asArgument : Bool) : actions s asArgument i = actions r asArgument i := by
  cases i with
  | word t v =>
    cases t with
    | name =>
      have hv := keyText_congr (h v rfl)
      simp only [actions, hv]
    | _ => rfl
  | half t v => cases t <;> rfl
  | _ => rfl

theorem allActions_congr {is : List Instruction}
    (h : ∀ k, .word .name k ∈ is → s.resolve k = r.resolve k) (asArgument : Bool) :
    allActions s asArgument is = allActions r asArgument is := by
  induction is generalizing asArgument with
  | nil => rfl
  | cons i is ih =>
    rw [allActions, allActions, actions_congr, ih]
    · exact fun k hk => h k (List.mem_cons_of_mem _ hk)
    · rintro k rfl
      exact h k List.mem_cons_self

theorem lines_congr {q : Statement} (h : ∀ k, q.HasKey k → s.resolve k = r.resolve k) :
    q.lines s indent = q.lines r indent := by
  cases q with
  | value k v =>
    change valueLine s k v = valueLine r k v
    unfold valueLine Registry.spellKey
    rw [h k rfl]
  | script k is =>
    have hbody : render s indent is = render r indent is := by
      rw [render_eq, render_eq, allActions_congr fun j hj => h j (.inr hj)]
    change scriptLines s indent k is = scriptLines r indent k is
    unfold scriptLines
    rw [keyText_congr (h k (.inl rfl)), hbody]

theorem lines_of_settles {ss qs : List Statement} (h : List.Forall₂ Settles ss qs)
    (hs : ∀ q ∈ qs, ∀ k, q.HasKey k → s.resolve k = r.resolve k) :
    qs.flatMap (lines s indent) = ss.flatMap (lines r indent) := by
  induction h with
  | nil => rfl
  | cons hpq _ ih =>
    obtain ⟨hq, hqs⟩ := List.forall_mem_cons.mp hs
    rw [List.flatMap_cons, List.flatMap_cons, lines_congr hq, hpq.lines_eq, ih hqs]

theorem resolve_addAll_fileNames (hr : r.IsFaithful) (hs : s.Within r) {qs : List Statement}
    {q : Statement} (hq : q ∈ qs) {k : Key} (hk : q.HasKey k) :
    (s.addAll (fileNames r qs)).resolve k = r.resolve k := by
  -- A name that is added is what `r` has for its key, so nothing that `r` knows is overwritten.
  have hnames : ∀ n ∈ fileNames r qs, r.resolve (Key.ofName n) = some n := by
    intro n hn
    obtain ⟨p, -, hp⟩ := List.mem_flatMap.mp hn
    obtain ⟨j, hj⟩ := of_mem_statementNames hp
    rw [(hr j n hj).1, hj]
  cases hresolve : r.resolve k with
  | none =>
    rcases hs.addAll hnames k with hnone | hsome
    · exact hnone
    · rw [hsome, hresolve]
  | some literal =>
    have hmem : literal ∈ fileNames r qs :=
      List.mem_flatMap.mpr ⟨q, hq, mem_statementNames hk hresolve⟩
    have := hs.resolve_addAll hnames hmem
    rwa [(hr k literal hresolve).1] at this

theorem Row.nil_of_blank {ss qs : List Statement} {is : List Ink}
    (h : Row r indent game ss qs is) (hblank : (inkText is).all Text.isBlank) : is = [] := by
  cases ss with
  | nil =>
    cases is with
    | nil => rfl
    | cons i is =>
      have hnil := h.text_eq
      rw [inkText_cons, List.flatMap_nil, List.append_eq_nil_iff] at hnil
      exact absurd hnil.1 (Ink.text_ne_nil (h.readable.sound i List.mem_cons_self))
  | cons q ss =>
    rw [h.text_eq, List.flatMap_cons, List.all_append, Bool.and_eq_true] at hblank
    have hline := List.all_eq_true.mp hblank.1
    cases q with
    | value k v =>
      have := hline '=' (by simp [lines, valueLine])
      exact absurd this (by decide)
    | script k is =>
      have hmem : 's' ∈ scriptLines r indent k is := by
        unfold scriptLines
        simp
      exact absurd (hline 's' hmem) (by decide)

end Statement

namespace Compiled

open Statement

variable {t : Target} {r : Registry} {indent : String}

theorem text_item {q : Statement} (hsmall : q.Small)
    (hemitted : ∀ k is, q = .script k is → ∀ i ∈ is, Emitted i) :
    (item t q).text r { order := t.order, indent } ++ ['\n'] = q.lines r indent.toList := by
  cases q with
  | value k v => rfl
  | script k is =>
    have hwell := wellFormed_of_emitted (o := t.order.inverse) (hemitted k is rfl) (by
      rw [Instruction.length_encodeBody]
      exact hsmall)
    have hdecode := Instruction.decodeBody_encodeBody t.order.inverse hwell
    change "script ".toList ++ r.keyText k ++ ' ' :: render r indent.toList
      (Instruction.decodeBody t.order.inverse (Instruction.encodeBody t.order.inverse is)) ++
        "\nendscript".toList ++ ['\n'] = scriptLines r indent.toList k is
    rw [hdecode]
    rfl

theorem text_items {ss : List Statement} (hsmall : ∀ q ∈ ss, q.Small)
    (hemitted : ∀ k is, .script k is ∈ ss → ∀ i ∈ is, Emitted i) :
    Readable.text r { order := t.order, indent } (ss.map (item t)) =
      String.ofList (ss.flatMap (lines r indent.toList)) := by
  rw [QbCodec.Readable.text, List.flatMap_map]
  congr 1
  apply List.flatMap_congr
  intro q hq
  apply text_item (hsmall q hq)
  rintro k is rfl
  exact hemitted k is hq

/-- What is required of the tokens of a source text: names and arguments are no numbers and no
keywords, numbers are finite, no text ends in what would be read otherwise at its end, and no point
joins two numbers. -/
structure Regular (ts : List Token) : Prop where
  names : ∀ text, .name text ∈ ts ∨ .argument text ∈ ts → IsName text
  floats : ∀ v, .float v ∈ ts → v.isFinite
  strings : ∀ text, .string text ∈ ts → text.toList.getLast? ≠ some '\\'
  texts : ∀ text, .string text ∈ ts ∨ .wideString text ∈ ts → text.toList.getLast? ≠ some '\x00'
  points : ts.IsChain Apart

theorem Regular.plain {source : String} {ls : List Lexeme} (hls : Source.lexemes source = .ok ls)
    (h : Regular (tokens ls)) : ∀ t ∈ tokens ls, t = .keyword .endScript ∨ Plain t := by
  intro t ht
  cases t with
  | float v => exact .inr (h.floats v ht)
  | string text =>
    exact .inr ⟨isStringText_of_lexemes hls (.inl ht), h.strings text ht, h.texts text (.inl ht)⟩
  | wideString text =>
    exact .inr ⟨isStringText_of_lexemes hls (.inr ht), h.texts text (.inr ht)⟩
  | name text => exact .inr (h.names text (.inl ht))
  | argument text => exact .inr (h.names text (.inr ht))
  | keyword k =>
    by_cases hk : k = .endScript
    · left
      rw [hk]
    · right
      cases k <;> trivial
  | _ => exact .inr trivial

/-- If every body leaves room for a line end below 4 GiB, the text of a compiled file, read with the
names of its source, compiles again, with these names known or not. The new file has the same text,
and it is the same file if every body ends in one line end. -/
theorem ofBytes_ofSource {source : String} {ls : List Lexeme} {file : List UInt8}
    (hls : Source.lexemes source = .ok ls) (hfile : ofSource t source {} = (.ok file, r))
    (hregular : Regular (tokens ls))
    (hroomy : ∀ ss, (Statement.readAll t.game 0 ls).outcome = .ok ss → ∀ q ∈ ss, q.Roomy)
    (hindent : indent.toList.all Layout.isPadding) (x : Expander) :
    ∃ text, Readable.ofBytes r { order := t.order, indent } x file = .ok text ∧
      ∀ r', r' = {} ∨ r' = r → ∃ again s, ofSource t text r' = (.ok again, s) ∧
        Readable.ofBytes s { order := t.order, indent } x again = .ok text ∧
        (EndsOnce (tokens ls) → again = file) := by
  have hfile' : (ofLexemes t ls {}).1 = .ok file := by
    simp only [ofSource, hls] at hfile
    rw [hfile]
  obtain ⟨ns, ss, hread, rfl⟩ := ofLexemes_eq_ok hfile'
  have hgrammar := readAll_iff.mp hread
  have hr : r = ({} : Registry).addAll ns := by
    rw [ofSource_eq hls hgrammar] at hfile
    exact (Prod.mk.inj hfile).2.symm
  have hfaithful : r.IsFaithful := by
    rw [hr]
    exact Registry.isFaithful_addAll fun n hn => hregular.names n (hgrammar.mem_names hn)
  have hknown : ∀ n ∈ ns, (r.resolve (Key.ofName n)).isSome := by
    rw [hr]
    exact fun n hn => Registry.isSome_resolve_of_mem hn
  have hblank : ∀ c ∈ indent.toList, c = ' ' ∨ c = '\t' := by
    intro c hc
    simpa [isPadding] using List.all_eq_true.mp hindent c hc
  -- The text is a row of tokens, and these compile to the settled statements.
  obtain ⟨qs, is, hrow, honce⟩ :=
    hgrammar.exists_row hfaithful hblank (hregular.plain hls) hregular.points hknown
  have hroom : ∀ p ∈ ss, p.Roomy := hroomy ss (by rw [hread])
  have hsmall : ∀ p ∈ ss, p.Small := fun p hp => (hroom p hp).small
  have hsmall' := small_of_settles hrow.settles hroom
  obtain ⟨ls', hscan, htokens⟩ := scan_inks hrow.readable hrow.closed hrow.nil_of_blank
  have hls' := lexemes_of_scan hscan
  have hgrammar' : Text t.game (tokens ls') (fileNames r qs) qs := by
    rw [htokens]
    exact hrow.grammar
  refine ⟨String.ofList (inkText is), ?_, ?_⟩
  · rw [readable_bytes _ _ _ hsmall, text_items hsmall fun k is h => hgrammar.emitted h,
      hrow.text_eq]
  · intro r' hr'
    have hwithin : r'.Within r := by
      rcases hr' with rfl | rfl
      · exact Registry.within_empty r
      · exact Registry.within_refl r'
    refine ⟨_, _, ofSource_eq hls' hgrammar' r', ?_, ?_⟩
    · rw [readable_bytes _ _ _ hsmall', text_items hsmall' fun k is h => hgrammar'.emitted h,
        hrow.text_eq, lines_of_settles hrow.settles]
      intro q hq k hk
      exact resolve_addAll_fileNames hfaithful hwithin hq hk
    · intro hts
      rw [honce hts]

theorem lexemes_assignment : Source.lexemes "script a\n\tb = 1\nendscript\n" =
    .ok [⟨.keyword .script, 0⟩, ⟨.name "a", 7⟩, ⟨.mark .newLine, 8⟩, ⟨.name "b", 10⟩,
      ⟨.mark .equals, 12⟩, ⟨.int 1, 14⟩, ⟨.mark .newLine, 15⟩, ⟨.keyword .endScript, 16⟩,
      ⟨.mark .newLine, 25⟩] := by
  apply lexemes_of_toOption
  decide +kernel

theorem isName_letter {text : String} (h : text = "a" ∨ text = "b") : IsName text := by
  rcases h with rfl | rfl
  · exact ⟨by decide, ⟨'a', [], rfl, by decide⟩, by decide +kernel⟩
  · exact ⟨by decide, ⟨'b', [], rfl, by decide⟩, by decide +kernel⟩

theorem ofBytes_ofSource_assignment :
    ∃ file r text, ofSource ⟨0, .big, .ghwt⟩ "script a\n\tb = 1\nendscript\n" {} = (.ok file, r) ∧
      Readable.ofBytes r { order := .big, indent := "\t" } (fun _ => .error (.compile "")) file =
        .ok text ∧
      ∃ again s, ofSource ⟨0, .big, .ghwt⟩ text {} = (.ok again, s) ∧
        Readable.ofBytes s { order := .big, indent := "\t" } (fun _ => .error (.compile "")) again =
          .ok text := by
  obtain ⟨ls, hls, htokens⟩ : ∃ ls, Source.lexemes "script a\n\tb = 1\nendscript\n" = .ok ls ∧
      tokens ls = [.keyword .script, .name "a", .mark .newLine, .name "b", .mark .equals, .int 1,
        .mark .newLine, .keyword .endScript, .mark .newLine] := ⟨_, lexemes_assignment, rfl⟩
  have hbody : Body .ghwt 0 [.mark .newLine, .name "b", .mark .equals, .int 1, .mark .newLine]
      (newNames "b") [.bare .endOfLine, .word .name (Key.ofLiteral "b"), .bare .equals,
        .word .integer 1, .bare .endOfLine] := by
    have hafter : Body .ghwt 0 [.mark .equals, .int 1, .mark .newLine] []
        [.bare .equals, .word .integer 1, .bare .endOfLine] :=
      .mark rfl (.int 1 (.mark rfl .nil))
    have hname := Body.naming (.name "b") hafter
    rw [List.append_nil] at hname
    exact .mark rfl hname
  have hrest : Text .ghwt [.mark .newLine] [] [] := .newLine .nil
  have hgrammar := Text.script (.name "a") (by simp) hbody hrest
  have hfile := ofSource_eq (t := ⟨0, .big, .ghwt⟩) hls (htokens ▸ hgrammar) {}
  have hregular : Regular (tokens ls) := by
    rw [htokens]
    constructor
    · intro text htext
      apply isName_letter
      simpa using htext
    · simp
    · simp
    · simp
    · simp [Apart, Token.isNumber]
  have hroomy : ∀ ss, (Statement.readAll .ghwt 0 ls).outcome = .ok ss → ∀ q ∈ ss, q.Roomy := by
    intro ss hss
    rw [hgrammar.readAll htokens] at hss
    cases hss
    simp [Roomy, Instruction.encodeBody, Instruction.encode, Instruction.operand]
  have hindent : "\t".toList.all isPadding := by decide
  obtain ⟨text, htext, hagain⟩ := ofBytes_ofSource hls hfile hregular hroomy hindent
    (fun _ => .error (.compile ""))
  obtain ⟨again, s, hsource, hreadable, -⟩ := hagain {} (.inl rfl)
  exact ⟨_, _, text, hfile, htext, again, s, hsource, hreadable⟩

def letters (n : Nat) : String := String.ofList (List.replicate n 'a')

/-- A script with one text of `n` letters, whose body takes `n + 7` bytes. -/
def longSource (n : Nat) : String :=
  String.ofList ("script s '".toList ++ (List.replicate n 'a' ++ "' endscript".toList))

def longInks (n : Nat) : List Ink :=
  [.token (.keyword .script), .blank ' ', .token (.name "s"), .blank ' ',
    .token (.string (letters n)), .blank ' ', .token (.keyword .endScript)]

theorem inkText_longInks (n : Nat) :
    inkText (longInks n) = "script s '".toList ++ (List.replicate n 'a' ++ "' endscript".toList) := by
  have hescaped : (List.replicate n 'a').flatMap escapeChar = List.replicate n 'a' := by
    induction n with
    | zero => rfl
    | succ n ih => rw [List.replicate_succ, List.flatMap_cons, ih]; rfl
  have hscript : Keyword.script.spelling = "script".toList := by decide
  have hend : Keyword.endScript.spelling = "endscript".toList := by decide
  simp [longInks, Ink.text, Token.spelling, letters, hescaped, hscript, hend]

theorem isName_s : IsName "s" := ⟨by decide, ⟨'s', [], rfl, by decide⟩, by decide +kernel⟩

theorem getLast?_letters (n : Nat) {c : Char} (hc : c ≠ 'a') :
    (letters n).toList.getLast? ≠ some c := by
  intro h
  have hmem := List.mem_of_getLast? h
  rw [letters, String.toList_ofList] at hmem
  exact hc (List.eq_of_mem_replicate hmem)

theorem readable_longInks (n : Nat) : Readable (longInks n) where
  sound := by
    have htext : isStringText (letters n) := by
      rw [isStringText, letters, String.toList_ofList, List.all_eq_true]
      intro c hc
      rw [List.eq_of_mem_replicate hc]
      decide
    simp only [longInks, List.forall_mem_cons, Ink.IsSound, Legible]
    exact ⟨trivial, .inl trivial, isName_s.isWord, .inl trivial,
      ⟨htext, getLast?_letters n (by decide)⟩, .inl trivial, trivial, List.forall_mem_nil _⟩
  chain := by
    simp [longInks, Ink.Precedes, Ink.text, Token.allows, Token.isStopper]

theorem lexemes_longSource (n : Nat) : ∃ ls, Source.lexemes (longSource n) = .ok ls ∧
    tokens ls = [.keyword .script, .name "s", .string (letters n), .keyword .endScript] := by
  obtain ⟨ls, hscan, htokens⟩ := scan_inks (readable_longInks n) rfl (by
    rw [inkText_longInks]
    intro hblank
    exact absurd (List.all_eq_true.mp hblank 's' (by simp)) (by decide))
  rw [inkText_longInks] at hscan
  exact ⟨ls, lexemes_of_scan hscan, htokens⟩

theorem regular_longSource (n : Nat) :
    Regular [.keyword .script, .name "s", .string (letters n), .keyword .endScript] where
  names text htext := by
    have heq : text = "s" := by simpa using htext
    rw [heq]
    exact isName_s
  floats v hv := by simp at hv
  strings text htext := by
    have heq : text = letters n := by simpa using htext
    rw [heq]
    exact getLast?_letters n (by decide)
  texts text htext := by
    have heq : text = letters n := by simpa using htext
    rw [heq]
    exact getLast?_letters n (by decide)
  points := by simp [Apart]

def longBody (n : Nat) : List Instruction := [.text false (stored (letters n))]

theorem ofSource_longSource (n : Nat) {ls : List Lexeme}
    (hls : Source.lexemes (longSource n) = .ok ls)
    (htokens : tokens ls = [.keyword .script, .name "s", .string (letters n), .keyword .endScript]) :
    ∃ r, ofSource t (longSource n) {} = (.ok (bytes t [.script (Key.ofLiteral "s") (longBody n)]), r) := by
  have hbody : Body t.game 0 [.string (letters n)] [] (longBody n) := .string (letters n) .nil
  have hgrammar := Text.script (.name "s") (by simp) hbody .nil
  exact ⟨_, ofSource_eq hls (htokens ▸ hgrammar) {}⟩

theorem utf8ByteSize_stored_letters (n : Nat) : (stored (letters n)).utf8ByteSize = n + 1 := by
  have hascii : ∀ c ∈ (letters n).toList, c.toNat < 128 := by
    intro c hc
    rw [letters, String.toList_ofList] at hc
    rw [List.eq_of_mem_replicate hc]
    decide
  have hsize : (letters n).utf8ByteSize = n := by
    rw [Text.utf8ByteSize_of_lt hascii, letters, String.toList_ofList, List.length_replicate]
  rw [stored, String.utf8ByteSize_push, hsize]
  rfl

/-- Where both sizes of a script are zero it is read without a body, whatever comes next. -/
theorem at_of_sizes_zero {o : ByteOrder} {d before after : List UInt8} {name container crc : UInt32}
    (hd : d = before ++ Item.quad .script ++
      (Item.encodeWords o [name, container, 0, 0, crc, 0, 0] ++ after)) :
    (Item.script ⟨name, container, (0 : UInt32).toInt32, 0, crc, 0, []⟩).At o d before.length
      (min (Cursor.alignUp 4 (before.length + 32)) d.length) := by
  have hword {n : Nat} {w : UInt32} (hw : [name, container, 0, 0, crc, 0, 0][n]? = some w) :
      Cursor.wordAt o d (before.length + 4 + 4 * n) = w :=
    Item.wordAt_words hd (by simp [Item.quad]) hw
  have htag : d[before.length + 2]? = some 7 := by
    subst hd
    simp [Item.quad, ItemKind.byte]
  have hlength : before.length + 32 ≤ d.length := by
    rw [hd]
    simp [Item.quad]
  have hsize : 0 = (Cursor.wordAt o d (before.length + 28)).toNat := by
    rw [hword (n := 6) rfl]
    rfl
  have hat := Item.At.script (o := o) htag hlength hsize hlength
  rw [hword (n := 0) rfl, hword (n := 1) rfl, hword (n := 2) rfl, hword (n := 3) rfl,
    hword (n := 4) rfl, hword (n := 5) rfl] at hat
  exact hat

theorem encodeBody_longBody {n : Nat} (hn : n + 7 = 2 ^ 32) :
    ∃ rest, Instruction.encodeBody .little (longBody n) = 27 :: 250 :: 255 :: 255 :: rest ∧
      rest.length = 2 ^ 32 - 4 := by
  have hlength : ByteOrder.little.encode 4 (n + 1) = [250, 255, 255, 255] := by
    have : n + 1 = 4294967290 := by omega
    rw [this]
    decide
  refine ⟨255 :: (Text.utf8 (stored (letters n)) ++ [Tag.endScript.byte]), ?_, ?_⟩
  · simp [Instruction.encodeBody, longBody, Instruction.encode, Instruction.operand,
      Instruction.lengthOrder, Instruction.leading, Tag.byte, utf8ByteSize_stored_letters, hlength]
  · simp only [List.length_cons, List.length_append, Instruction.length_utf8,
      utf8ByteSize_stored_letters, List.length_nil]
    omega

theorem bytes_longBody {n : Nat} {body : List UInt8} (container name : Key)
    (hbody : Instruction.encodeBody .little (longBody n) = body) (hlength : body.length = 2 ^ 32) :
    ∃ before crc, before.length = 28 ∧
      bytes ⟨container, .big, .ghwt⟩ [.script name (longBody n)] =
        before ++ Item.quad .script ++
          (Item.encodeWords .big [name, container, 0, 0, crc, 0, 0] ++ body) := by
  have hsize : ByteOrder.big.encode 4 (2 ^ 32) = ByteOrder.big.encode 4 0 := by decide
  have hword : (2 ^ 32 : Nat).toUInt32 = 0 := by decide
  refine ⟨header .big (headerSize + (items ⟨container, .big, .ghwt⟩
    [.script name (longBody n)]).length), Bits.Crc32.checksum body, length_header .big _, ?_⟩
  simp [bytes, items, item, Item.encode, Item.kind, Item.encodeWords, Item.padding, ByteOrder.inverse,
    hbody, hlength, hsize, hword]
  rfl

theorem readable_longBody {n : Nat} (hn : n + 7 = 2 ^ 32) (container name : Key) (r : Registry)
    (indent : String) (x : Expander) :
    Readable.ofBytes r { order := .big, indent } x
      (bytes ⟨container, .big, .ghwt⟩ [.script name (longBody n)]) = .error (.unknownItem 255 60) := by
  obtain ⟨rest, hbody, hrest⟩ := encodeBody_longBody hn
  obtain ⟨before, crc, hbefore, hd⟩ := bytes_longBody container name hbody (by
    simp only [List.length_cons, hrest])
  generalize bytes ⟨container, .big, .ghwt⟩ [.script name (longBody n)] = d at hd ⊢
  have hlength : 64 ≤ d.length := by
    rw [hd]
    simp only [List.length_append, List.length_cons, Item.length_encodeWords, hbefore]
    omega
  have hat := at_of_sizes_zero hd
  rw [hbefore] at hat
  have hnext : min (Cursor.alignUp 4 (28 + 32)) d.length = 60 := Nat.min_eq_left
    (Nat.le_trans (by decide) hlength)
  rw [hnext] at hat
  have htag : d[60 + 2]? = some 255 := by
    rw [hd, ← List.append_assoc, List.getElem?_append_right]
    · simp [hbefore, Item.quad]
    · simp [hbefore, Item.quad]
  have hbad : Contents.FirstBad x .big d 28 (.unknownItem 255 60) :=
    .later hat rfl (.unreadable (by omega) (.unknown (by omega) htag (by decide)))
  have hheader : ¬ d.length < 28 := by omega
  rw [Readable.ofBytes, Contents.ofBytes, if_neg hheader, hbad.expanded]
  rfl

/-- The size of a body of 4 GiB is written as zero, and the file has no text. -/
theorem not_ofBytes_ofSource :
    ∃ ls file r, Source.lexemes (longSource 4294967289) = .ok ls ∧ Regular (tokens ls) ∧
      ofSource ⟨Key.ofName "a.q", .big, .ghwt⟩ (longSource 4294967289) {} = (.ok file, r) ∧
      ∀ x, Readable.ofBytes r {} x file = .error (.unknownItem 255 60) := by
  obtain ⟨ls, hls, htokens⟩ := lexemes_longSource 4294967289
  obtain ⟨r, hfile⟩ := ofSource_longSource (t := ⟨Key.ofName "a.q", .big, .ghwt⟩) 4294967289 hls htokens
  exact ⟨ls, _, r, hls, htokens ▸ regular_longSource 4294967289, hfile,
    readable_longBody (by decide) _ _ r "\t"⟩

end Compiled

end QbCodec
