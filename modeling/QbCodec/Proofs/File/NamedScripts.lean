import QbCodec.Proofs.File.RoundTrip
import QbCodec.Proofs.Script.Joiners
import QbCodec.Proofs.Source.Reserved

namespace QbCodec

open Source Layout Script

namespace Statement

variable {r : Registry} {indent : List Char} {game : Game} {depth : Nat} {ts : List Token}
  {ns : List String} {is js : List Instruction} {k : Key} {ks : List Key}

def nameBody (ks : List Key) : List Instruction := ks.map (.word .name)

theorem Body.of_name (h : Body game depth ts ns (.word .name k :: is)) :
    ∃ t rest ms ns', ts = t :: rest ∧ Naming t ms k ∧ Body game depth rest ns' is := by
  generalize hjs : Instruction.word .name k :: is = js at h
  cases h with
  | naming hk rest =>
    cases hjs
    exact ⟨_, _, _, _, rfl, hk, rest⟩
  | phrase hp rest => cases game <;> cases hjs
  | tuple hi rest => cases hi <;> cases hjs
  | _ => cases hjs

theorem Body.of_nameBody (h : Body game depth ts ns (nameBody ks ++ is)) :
    ∃ us rest, ts = us ++ rest ∧ us.length = ks.length ∧ ∀ t ∈ us, ∀ w, t ≠ .keyword w := by
  induction ks generalizing ts ns with
  | nil => exact ⟨[], ts, rfl, rfl, fun t ht => absurd ht List.not_mem_nil⟩
  | cons k ks ih =>
    obtain ⟨t, rest, ms, ns', rfl, hk, hrest⟩ := Body.of_name h
    obtain ⟨us, rest, rfl, hlength, hus⟩ := ih hrest
    refine ⟨t :: us, rest, rfl, by simp [hlength], List.forall_mem_cons.mpr ⟨?_, hus⟩⟩
    rintro w rfl
    cases hk

theorem allActions_nameBody (r : Registry) (ks : List Key) :
    allActions r false (nameBody ks) = (ks.map r.nameToken).map writing := by
  induction ks with
  | nil => rfl
  | cons k ks ih =>
    have hwriting : writing (r.nameToken k) = .write .word (r.keyText k) := by
      rw [writing, Scanner.not_isJoiner_nameToken, Registry.spelling_nameToken]
      rfl
    rw [List.map_cons, List.map_cons, hwriting, ← ih]
    rfl

theorem render_nameBody (indent : List Char) (h : ∀ k ∈ ks, r.IsNamedAt k) :
    render r indent (nameBody ks) = joined false (ks.map r.nameToken) := by
  rw [render_eq, allActions_nameBody, text_writing]
  intro t ht
  obtain ⟨k, hk, rfl⟩ := List.mem_map.mp ht
  exact isVisible_nameToken (h k hk)

theorem wellFormed_nameBody (ks : List Key) :
    ∀ i ∈ nameBody ks, i.WellFormed ∧ i ≠ .bare .endScript := by
  intro i hi
  obtain ⟨k, -, rfl⟩ := List.mem_map.mp hi
  exact ⟨rfl, by simp⟩

theorem length_encodeBody_nameBody (ks : List Key) :
    (Instruction.encodeBody .big (nameBody ks)).length = 5 * ks.length + 1 := by
  induction ks with
  | nil => rfl
  | cons k ks ih =>
    simp only [nameBody, Instruction.encodeBody, List.map_cons, List.flatMap_cons,
      List.length_append, Instruction.encode, Instruction.operand, List.length_cons,
      ByteOrder.length_encode] at ih ⊢
    omega

theorem not_reserves_of_body (h : Body game depth ts ns (nameBody ks ++ is))
    {after after' : List Token} (happend : ts ++ after = ks.map r.wordToken ++ after') :
    ∀ k ∈ ks, ¬ r.Reserves k := by
  obtain ⟨us, rest, rfl, hlength, hus⟩ := Body.of_nameBody h
  rw [List.append_assoc] at happend
  obtain ⟨rfl, -⟩ := List.append_inj happend (by rw [hlength, List.length_map])
  intro k hk hreserves
  obtain ⟨w, hw⟩ := Registry.wordToken_of_reserves hreserves
  exact hus _ (List.mem_map_of_mem hk) w hw

theorem body_nameBody (game : Game) (depth : Nat) (h : ∀ k ∈ ks, r.IsFaithfulAt k) :
    ∃ ns, Body game depth (ks.map r.nameToken) ns (nameBody ks) := by
  induction ks with
  | nil => exact ⟨[], .nil⟩
  | cons k ks ih =>
    obtain ⟨hk, hks⟩ := List.forall_mem_cons.mp h
    obtain ⟨ns, hbody⟩ := ih hks
    exact ⟨_, .naming (Registry.naming_nameToken hk) hbody⟩

theorem isPart_nameToken (h : r.IsFaithfulAt k) : IsPart (r.nameToken k) := by
  refine ⟨Registry.legible_nameToken h, .inl ?_⟩
  unfold Registry.nameToken
  split <;> rfl

theorem nameToken_ne_mark (r : Registry) (k : Key) (m : Mark) : r.nameToken k ≠ .mark m := by
  unfold Registry.nameToken
  split <;> simp

theorem separate_nameTokens (r : Registry) (ks : List Key) :
    (ks.map r.nameToken).IsChain Token.Separate := by
  rw [List.isChain_map]
  have hseparate (j k : Key) : (r.nameToken j).Separate (r.nameToken k) :=
    ⟨fun hdot => absurd hdot (nameToken_ne_mark r j .dot),
      fun hdot => absurd hdot (nameToken_ne_mark r k .dot)⟩
  induction ks with
  | nil => exact .nil
  | cons k ks ih =>
    cases ks with
    | nil => exact .singleton k
    | cons j ks => exact .cons_cons (hseparate k j) ih

theorem spells_nameBody (h : ∀ k ∈ ks, r.IsFaithfulAt k) :
    Spells (allActions r false (nameBody ks)) (ks.map r.nameToken) := by
  induction ks with
  | nil => exact .nil
  | cons k ks ih =>
    obtain ⟨hk, hks⟩ := List.forall_mem_cons.mp h
    have hpart := isPart_nameToken hk
    exact spells_word (Registry.spelling_nameToken r k).symm hpart.legible hpart.isSolid (ih hks)

theorem recompile_nameBody_iff (h : ∀ k ∈ ks, r.IsNamedAt k) (game : Game) (indent : List Char)
    (order : ByteOrder) :
    recompile game r indent order (nameBody ks) = .ok (nameBody ks) ↔ ∀ k ∈ ks, ¬ r.Reserves k := by
  have hrender := render_nameBody indent h
  constructor
  · intro hrecompile
    obtain ⟨ls, ns, hls, hbody⟩ := exists_body_of_recompile (wellFormed_nameBody ks) hrecompile
    rw [hrender] at hls
    rw [← List.append_nil (nameBody ks)] at hbody
    have happend : tokens ls ++ [] = ks.map r.wordToken ++ [] := by
      rw [tokens_of_scan_joined h hls]
    exact not_reserves_of_body hbody happend
  · intro hreserved
    have hfaithful : ∀ k ∈ ks, r.IsFaithfulAt k := fun k hk =>
      (h k hk).isFaithfulAt (hreserved k hk)
    obtain ⟨ls, hls, htokens⟩ := scan_joined (.of_isChain (separate_nameTokens r ks)) (by
      intro t ht
      obtain ⟨k, hk, rfl⟩ := List.mem_map.mp ht
      exact isPart_nameToken (hfaithful k hk))
    rw [← hrender] at hls
    have hreread := reread_of_scan order (wellFormed_nameBody ks) hls
    rw [htokens] at hreread
    obtain ⟨ns, hbody⟩ := body_nameBody game 0 hfaithful
    exact recompile_of_body hreread hbody

theorem scriptLines_nameBody (indent : List Char) (k : Key) (h : ∀ k ∈ ks, r.IsNamedAt k) :
    scriptLines r indent k (nameBody ks) = scriptText r k ks := by
  unfold scriptLines scriptText
  rw [render_nameBody indent h]

theorem exists_scan_scriptText (h : ∀ j ∈ k :: ks, r.IsNamedAt j)
    (hreserved : ∀ j ∈ k :: ks, ¬ r.Reserves j) :
    ∃ ls, scan (scriptText r k ks) = .ok ls ∧ tokens ls = .keyword .script :: r.nameToken k ::
      (ks.map r.nameToken ++ [.mark .newLine] ++ .keyword .endScript :: [.mark .newLine]) := by
  have hfaithful : ∀ j ∈ k :: ks, r.IsFaithfulAt j := fun j hj =>
    (h j hj).isFaithfulAt (hreserved j hj)
  obtain ⟨hk, hks⟩ := List.forall_mem_cons.mp hfaithful
  have hlast : (ks.map r.nameToken).getLast? ≠ some (.mark .newLine) := by
    intro hlast
    obtain ⟨j, -, hj⟩ := List.mem_map.mp (List.mem_of_getLast? hlast)
    exact nameToken_ne_mark r j .newLine hj
  have hindent : ∀ c ∈ ([] : List Char), c = ' ' ∨ c = '\t' := by simp
  obtain ⟨body, htext, hreadable, htokens⟩ :=
    exists_text hindent (spells_nameBody hks) (separate_nameTokens r ks) hlast
  have hrender : inkText body = render r [] (nameBody ks) := by rw [render_eq, htext]
  have hlines : inkText (scriptInks r k body ++ [.token (.mark .newLine)]) = scriptText r k ks := by
    rw [inkText_scriptInks hrender,
      scriptLines_nameBody [] k fun j hj => h j (List.mem_cons_of_mem _ hj)]
  have hrow : inkTokens (scriptInks r k body ++ [.token (.mark .newLine)]) =
      .keyword .script :: r.nameToken k ::
        (ks.map r.nameToken ++ [.mark .newLine] ++ .keyword .endScript :: [.mark .newLine]) := by
    simp [scriptInks, htokens]
  have hbracket (j : Key) (hj : r.IsFaithfulAt j) : isScriptBracket (r.nameToken j) = false :=
    (Registry.naming_nameToken hj).not_bracket
  have hopen : openScripts 0 (inkTokens (scriptInks r k body ++ [.token (.mark .newLine)])) =
      some 0 := by
    rw [hrow, openScripts_script (hbracket k hk)]
    · rfl
    · intro t ht
      rcases List.mem_append.mp ht with ht | ht
      · obtain ⟨j, hj, rfl⟩ := List.mem_map.mp ht
        exact hbracket j (hks j hj)
      · rw [List.mem_singleton.mp ht]
        rfl
  obtain ⟨ls, hls, hscan⟩ := scan_inks (readable_scriptInks hk hreadable) hopen (by
    rw [hlines, not_blank_scriptText]
    exact fun hall => by cases hall)
  rw [hlines] at hls
  exact ⟨ls, hls, hscan.trans hrow⟩

def CompilesTo (game : Game) (text : String) (ss : List Statement) : Prop :=
  ∃ ls, lexemes text = .ok ls ∧ (Statement.readAll game 0 ls).outcome = .ok ss

theorem not_reserves_of_compilesTo (h : ∀ j ∈ k :: ks, r.IsNamedAt j)
    (hcompiles : CompilesTo game (String.ofList (scriptText r k ks))
      [.script k (nameBody ks ++ [.bare .endOfLine])]) : ∀ j ∈ k :: ks, ¬ r.Reserves j := by
  obtain ⟨hk, hks⟩ := List.forall_mem_cons.mp h
  obtain ⟨ls, hls, hread⟩ := hcompiles
  have hscan := scan_of_lexemes hls
  rw [String.toList_ofList] at hscan
  obtain ⟨ns, htext⟩ : ∃ ns, Text game (tokens ls) ns
      [.script k (nameBody ks ++ [.bare .endOfLine])] := by
    refine ⟨(Statement.readAll game 0 ls).names, readAll_iff.mp ?_⟩
    rw [← hread]
  have hts := tokens_of_scan_scriptText hk hks hscan
  generalize tokens ls = ts at htext hts
  cases htext with
  | newLine _ => cases hts
  | script hn hend hbody _ =>
    obtain ⟨hname, hafter⟩ := List.cons.inj (List.cons.inj hts).2
    refine List.forall_mem_cons.mpr ⟨?_, not_reserves_of_body hbody hafter⟩
    intro hreserves
    obtain ⟨w, hw⟩ := Registry.wordToken_of_reserves hreserves
    rw [hname, hw] at hn
    cases hn

theorem compilesTo_nameBody (h : ∀ j ∈ k :: ks, r.IsNamedAt j)
    (hreserved : ∀ j ∈ k :: ks, ¬ r.Reserves j) (game : Game) :
    CompilesTo game (String.ofList (scriptText r k ks))
      [.script k (nameBody ks ++ [.bare .endOfLine])] := by
  have hfaithful : ∀ j ∈ k :: ks, r.IsFaithfulAt j := fun j hj =>
    (h j hj).isFaithfulAt (hreserved j hj)
  obtain ⟨hk, hks⟩ := List.forall_mem_cons.mp hfaithful
  obtain ⟨ls, hls, htokens⟩ := exists_scan_scriptText h hreserved
  obtain ⟨ns, hbody⟩ := body_nameBody game 0 hks
  have hend : .keyword .endScript ∉ ks.map r.nameToken ++ [.mark .newLine] := by
    intro hmem
    rcases List.mem_append.mp hmem with hmem | hmem
    · obtain ⟨j, hj, he⟩ := List.mem_map.mp hmem
      have hbracket := (Registry.naming_nameToken (hks j hj)).not_bracket
      rw [he] at hbracket
      cases hbracket
    · simp at hmem
  have htext := Text.script (Registry.naming_nameToken hk) hend hbody.concat_lineEnd (.newLine .nil)
  refine ⟨ls, lexemes_of_scan hls, ?_⟩
  rw [htext.readAll htokens]

end Statement

namespace Compiled

open Statement

variable {t : Target} {r : Registry} {names : List String} {k : Key} {ks : List Key}

theorem small_nameBody (hsize : 5 * ks.length + 1 < 2 ^ 32) : (script k (nameBody ks)).Small := by
  rwa [Statement.Small, length_encodeBody_nameBody]

/-- With the names of the bank and any identifiers added to them, the names of a body are compiled
back from its text if and only if none of their literals is a reserved word; and so is a script with
such a body, if the literal of its own name is none as well. -/
theorem recompile_named_iff (hnames : ∀ n ∈ names, isIdentifier n)
    (hr : r = Registry.standard.addAll names) (hsize : 5 * ks.length + 1 < 2 ^ 32) (t : Target)
    (k : Key) (indent : String) (x : Expander) :
    (recompile t.game r indent.toList t.order (nameBody ks) = .ok (nameBody ks) ↔
        ∀ j ∈ ks, ¬ r.Reserves j) ∧
      ∃ text, Readable.ofBytes r { order := t.order, indent } x
          (bytes t [.script k (nameBody ks)]) = .ok text ∧
        (CompilesTo t.game text [.script k (nameBody ks ++ [.bare .endOfLine])] ↔
          ∀ j ∈ k :: ks, ¬ r.Reserves j) := by
  have hnamed (j : Key) : r.IsNamedAt j := by
    rw [hr]
    exact Registry.isNamedAt_standard hnames j
  have hsmall : ∀ q ∈ [script k (nameBody ks)], q.Small := by
    simpa using small_nameBody hsize
  have hemitted : ∀ j is, .script j is ∈ [script k (nameBody ks)] → ∀ i ∈ is, Emitted i := by
    intro j is hmem i hi
    cases List.mem_singleton.mp hmem
    obtain ⟨n, -, rfl⟩ := List.mem_map.mp hi
    exact emitted_word rfl (by decide) n
  refine ⟨recompile_nameBody_iff (fun j _ => hnamed j) t.game indent.toList t.order,
    String.ofList (scriptText r k ks), ?_, not_reserves_of_compilesTo fun j _ => hnamed j,
    fun hreserved => compilesTo_nameBody (fun j _ => hnamed j) hreserved t.game⟩
  rw [readable_bytes r indent x hsmall, text_items hsmall hemitted, List.flatMap_singleton]
  exact congrArg (fun cs => Except.ok (String.ofList cs))
    (scriptLines_nameBody indent.toList k fun j _ => hnamed j)

theorem reserves_random : Registry.standard.Reserves (Key.ofName "Random") := by
  have hfind : (Registry.standardNames.reverse.find? fun n =>
      Key.ofName n == Key.ofName "Random") = some "Random" := by decide +kernel
  have hresolve : Registry.standard.resolve (Key.ofName "Random") = some "Random" := by
    rw [Registry.standard, Registry.resolve_addAll, hfind, Option.some_or]
  exact ⟨"Random", hresolve, by decide +kernel⟩

/-- The bank itself has a name that is a reserved word. -/
theorem not_recompile_random :
    recompile .ghwt Registry.standard [] .big (nameBody [Key.ofName "Random"]) ≠
        .ok (nameBody [Key.ofName "Random"]) ∧
      ∃ text, Readable.ofBytes Registry.standard { order := .big, indent := "" }
          (fun _ => .error (.compile "")) (bytes ⟨0, .big, .ghwt⟩
            [.script (Key.ofName "Random") (nameBody [Key.ofName "Random"])]) = .ok text ∧
        ¬ CompilesTo .ghwt text [.script (Key.ofName "Random")
          (nameBody [Key.ofName "Random"] ++ [.bare .endOfLine])] := by
  have hnames : ∀ n ∈ ([] : List String), isIdentifier n := by simp
  have hsize : 5 * [Key.ofName "Random"].length + 1 < 2 ^ 32 := by simp
  obtain ⟨hbody, text, htext, hscript⟩ := recompile_named_iff (r := Registry.standard) hnames
    List.foldl_nil.symm hsize ⟨0, .big, .ghwt⟩ (Key.ofName "Random") ""
    (fun _ => .error (.compile ""))
  refine ⟨fun h => ?_, text, htext, fun h => ?_⟩
  · exact hbody.mp h _ List.mem_cons_self reserves_random
  · exact hscript.mp h _ List.mem_cons_self reserves_random

end Compiled

end QbCodec
