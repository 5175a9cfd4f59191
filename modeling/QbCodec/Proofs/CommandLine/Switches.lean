import QbCodec.CommandLine.Arguments

namespace QbCodec.CommandLine

variable {g g' : Given} {o : ValueOption} {s : Switch} {v argument : String} {cs : List Char}
  {waiting waiting' : Option ValueOption} {arguments : List String} {environment : Option String}
  {c : Command}

def Switch.spelling? : Switch → Option String
  | verbose => none
  | dryRun => some "--dry-run"
  | force => some "--force"
  | toStdout => some "--stdout"

def AsksForKeys (argument : String) : Prop :=
  argument = "--hash" ∨ ∃ text, argument = "--hash=" ++ text

theorem Switch.exists_spelling? (h : s.spelling? = some argument) :
    ∃ cs, argument.toList = '-' :: '-' :: cs := by
  cases s <;> simp only [spelling?, Option.some.injEq, reduceCtorEq] at h <;> subst h <;>
    exact ⟨_, rfl⟩

namespace Given

theorem has_addSwitch {r : Switch} (h : g.addSwitch r = some g') (s : Switch) :
    g'.has s ↔ g.has s ∨ s = r := by
  unfold addSwitch at h
  split at h <;> cases h
  simp [has]

theorem value?_addSwitch (h : g.addSwitch s = some g') (o : ValueOption) :
    g'.value? o = g.value? o := by
  unfold addSwitch at h
  split at h <;> cases h
  rfl

theorem has_addValue (h : g.addValue o v = some g') (s : Switch) : g'.has s = g.has s := by
  unfold addValue at h
  split at h <;> cases h
  rfl

theorem isSome_value?_addValue (h : g.addValue o v = some g') (p : ValueOption) :
    (g'.value? p).isSome ↔ (g.value? p).isSome ∨ p = o := by
  unfold addValue at h
  split at h <;> cases h
  by_cases hp : p = o
  · simp [value?, List.lookup_append, hp]
  · have hne : (p == o) = false := by simpa using hp
    simp [value?, List.lookup_append, List.lookup_cons, hp, hne]

end Given

theorem long?_switch {name : String} (h : long? name = some (.switch s)) :
    s = .verbose ∨ s.spelling? = some ("--" ++ name) := by
  unfold long? at h
  split at h <;> cases h <;> decide

theorem Progress.ofGiven_eq_next {h : Option Given} (hnext : ofGiven h = .next g' waiting') :
    h = some g' ∧ waiting' = none := by
  cases h <;> cases hnext
  exact ⟨rfl, rfl⟩

theorem takeLong_spelling (h : s.spelling? = some (String.ofList ('-' :: '-' :: cs))) (g : Given) :
    takeLong g cs = .ofGiven (g.addSwitch s) := by
  cases s <;> simp only [Switch.spelling?, Option.some.injEq, reduceCtorEq] at h <;>
    (have hcs := congrArg (fun t => t.toList.drop 2) h
     simp at hcs
     subst hcs
     rfl)

theorem has_takeLong (h : takeLong g cs = .next g' waiting') (hs : s ≠ .verbose) :
    g'.has s ↔ g.has s ∨ s.spelling? = some (String.ofList ('-' :: '-' :: cs)) := by
  by_cases hspelling : s.spelling? = some (String.ofList ('-' :: '-' :: cs))
  · rw [takeLong_spelling hspelling] at h
    simp [Given.has_addSwitch (Progress.ofGiven_eq_next h).1, hspelling]
  · simp only [hspelling, or_false]
    unfold takeLong at h
    dsimp only at h
    split at h
    · cases h
      rfl
    · rw [Given.has_addValue (Progress.ofGiven_eq_next h).1]
    · rename_i r hlong hcs
      rw [Given.has_addSwitch (Progress.ofGiven_eq_next h).1]
      have hne : s ≠ r := by
        rintro rfl
        rcases long?_switch hlong with rfl | hr
        · exact hs rfl
        · apply hspelling
          have hname := List.takeWhile_append_dropWhile (p := fun c => !isEquals c) (l := cs)
          rw [hcs, List.append_nil] at hname
          rw [hr, hname, String.ofList_cons, String.ofList_cons]
          rfl
      simp [hne]
    · cases h
    · cases h
    · cases h

theorem has_takeShort (h : takeShort g cs = .next g' waiting') (hs : s ≠ .verbose) :
    g'.has s = g.has s := by
  induction cs generalizing g with
  | nil =>
    cases h
    rfl
  | cons c cs ih =>
    rw [takeShort] at h
    split at h
    · split at h
      · cases h
        rfl
      · exact Given.has_addValue (Progress.ofGiven_eq_next h).1 s
      · exact Given.has_addValue (Progress.ofGiven_eq_next h).1 s
    · rename_i r hshort
      have hr : s ≠ r := by
        rintro rfl
        unfold short? at hshort
        split at hshort <;> cases hshort
        exact hs rfl
      split at h
      · rename_i added hadded
        rw [ih h, Bool.eq_iff_iff, Given.has_addSwitch hadded]
        simp [hr]
      · cases h
    · cases h
    · cases h
    · cases h

theorem has_take (h : take g waiting argument = .next g' waiting') (hs : s ≠ .verbose) :
    g'.has s ↔ g.has s ∨ s.spelling? = some argument := by
  unfold take at h
  split at h
  · rename_i cs hargument
    rw [has_takeLong h hs, ← hargument, String.ofList_toList]
  · rename_i c cs hdash hargument
    have hne : s.spelling? ≠ some argument := by
      intro hspelling
      obtain ⟨ds, hds⟩ := Switch.exists_spelling? hspelling
      rw [hds] at hargument
      cases hargument
      exact hdash rfl
    simp [has_takeShort h hs, hne]
  · cases h
  · rename_i p cs hdashes
    have hne : s.spelling? ≠ some argument := by
      intro hspelling
      obtain ⟨ds, hds⟩ := Switch.exists_spelling? hspelling
      exact hdashes _ _ hds
    simp [Given.has_addValue (Progress.ofGiven_eq_next h).1, hne]
  · cases h

def Asked (o : ValueOption) (g : Given) (waiting : Option ValueOption) : Prop :=
  (g.value? o).isSome ∨ waiting = some o

theorem Asked.ofGiven {p : ValueOption} (h : Asked o g none)
    (hnext : Progress.ofGiven (g.addValue p v) = .next g' waiting') : Asked o g' waiting' := by
  have hsome := h.resolve_right (by simp)
  exact .inl ((Given.isSome_value?_addValue (Progress.ofGiven_eq_next hnext).1 o).mpr (.inl hsome))

theorem Asked.takeLong (h : Asked o g none) (hnext : takeLong g cs = .next g' waiting') :
    Asked o g' waiting' := by
  have hsome := h.resolve_right (by simp)
  unfold CommandLine.takeLong at hnext
  dsimp only at hnext
  split at hnext
  · cases hnext
    exact .inl hsome
  · exact h.ofGiven hnext
  · left
    rwa [Given.value?_addSwitch (Progress.ofGiven_eq_next hnext).1]
  · cases hnext
  · cases hnext
  · cases hnext

theorem Asked.takeShort (h : Asked o g none) (hnext : takeShort g cs = .next g' waiting') :
    Asked o g' waiting' := by
  induction cs generalizing g with
  | nil =>
    cases hnext
    exact h
  | cons c cs ih =>
    rw [CommandLine.takeShort] at hnext
    split at hnext
    · split at hnext
      · cases hnext
        exact .inl (h.resolve_right (by simp))
      · exact h.ofGiven hnext
      · exact h.ofGiven hnext
    · split at hnext
      · rename_i added hadded
        exact ih (by rwa [Asked, Given.value?_addSwitch hadded]) hnext
      · cases hnext
    · cases hnext
    · cases hnext
    · cases hnext

theorem Asked.take (h : Asked o g waiting) (hnext : take g waiting argument = .next g' waiting') :
    Asked o g' waiting' := by
  unfold CommandLine.take at hnext
  split at hnext
  · exact h.takeLong hnext
  · exact h.takeShort hnext
  · cases hnext
  · rename_i p hargument
    left
    rw [Given.isSome_value?_addValue (Progress.ofGiven_eq_next hnext).1]
    rcases h with h | h
    · exact .inl h
    · exact .inr (Option.some.inj h).symm
  · cases hnext

theorem AsksForKeys.exists_toList (h : AsksForKeys argument) :
    ∃ cs, argument.toList = '-' :: '-' :: 'h' :: cs := by
  rcases h with rfl | ⟨text, rfl⟩
  · exact ⟨_, rfl⟩
  · exact ⟨"ash=".toList ++ text.toList, by rw [String.toList_append]; rfl⟩

theorem asked_of_asksForKeys (h : AsksForKeys argument)
    (hnext : take g waiting argument = .next g' waiting') : Asked .hash g' waiting' := by
  obtain ⟨cs, hcs⟩ := h.exists_toList
  unfold take at hnext
  rw [hcs] at hnext
  cases waiting with
  | some p => cases hnext
  | none =>
    rcases h with rfl | ⟨text, rfl⟩
    · cases hcs
      cases hnext
      exact .inr rfl
    · obtain rfl : cs = "ash=".toList ++ text.toList := by simpa using hcs.symm
      change Progress.ofGiven (g.addValue .hash (String.ofList text.toList)) = _ at hnext
      left
      rw [Given.isSome_value?_addValue (Progress.ofGiven_eq_next hnext).1]
      exact .inr rfl

theorem Progress.not_run_of_ofGiven {h : Option Given} {r : Request} (hdone : ofGiven h = .done r) :
    r ≠ .run c := by
  cases h <;> cases hdone
  simp

theorem not_run_of_takeShort {r : Request} (h : takeShort g cs = .done r) : r ≠ .run c := by
  induction cs generalizing g with
  | nil => cases h
  | cons a cs ih =>
    rw [takeShort] at h
    split at h
    · split at h
      · cases h
      · exact Progress.not_run_of_ofGiven h
      · exact Progress.not_run_of_ofGiven h
    · split at h
      · exact ih h
      · cases h
        simp
    all_goals
      cases h
      simp

theorem not_run_of_take {r : Request} (h : take g waiting argument = .done r) : r ≠ .run c := by
  unfold take at h
  split at h
  · unfold takeLong at h
    dsimp only at h
    split at h
    · cases h
    · exact Progress.not_run_of_ofGiven h
    · exact Progress.not_run_of_ofGiven h
    all_goals
      cases h
      simp
  · exact not_run_of_takeShort h
  · cases h
    simp
  · exact Progress.not_run_of_ofGiven h
  · cases h
    simp

theorem Given.request_eq_run (h : g.request environment = .run c) :
    g.inputs = [c.input] ∧ c.dryRun = g.has .dryRun ∧ c.force = g.has .force ∧
      c.toStdout = g.has .toStdout := by
  unfold request at h
  split at h
  · rename_i input game hinputs hgame
    cases h
    exact ⟨hinputs, rfl, rfl, rfl⟩
  · cases h

theorem Given.input_of_hash (h : g.request environment = .run c) (hhash : (g.value? .hash).isSome) :
    ∃ text, c.input = .hash text := by
  obtain ⟨text, htext⟩ := Option.isSome_iff_exists.mp hhash
  have hinputs := (request_eq_run h).1
  have hmem : Input.hash text ∈ g.inputs := by simp [inputs, htext]
  rw [hinputs] at hmem
  exact ⟨text, (List.mem_singleton.mp hmem).symm⟩

theorem exists_request_of_parseFrom (h : parseFrom environment g waiting arguments = .run c) :
    ∃ g' : Given, g'.request environment = .run c ∧
      (∀ s, s ≠ .verbose → (g'.has s ↔ g.has s ∨ ∃ a ∈ arguments, s.spelling? = some a)) ∧
      (Asked .hash g waiting ∨ (∃ a ∈ arguments, AsksForKeys a) → (g'.value? .hash).isSome) := by
  induction arguments generalizing g waiting with
  | nil =>
    rw [parseFrom] at h
    split at h
    · cases h
    · rename_i hwaiting
      refine ⟨g, h, by simp, ?_⟩
      simp_all [Asked]
  | cons argument arguments ih =>
    rw [parseFrom] at h
    split at h
    · -- Nothing follows the end of the options, so all that counts has been given before it.
      rename_i hargument
      subst hargument
      split at h
      · cases h
      · rename_i hlast
        obtain ⟨rfl, rfl⟩ : waiting = none ∧ arguments = [] := by simpa using hlast
        refine ⟨g, h, fun s hs => ?_, ?_⟩
        · have hne : s.spelling? ≠ some "--" := by cases s <;> decide
          simp [hne]
        · rintro (hasked | ⟨a, ha, hkeys⟩)
          · exact hasked.resolve_right (by simp)
          · obtain rfl : a = "--" := by simpa using ha
            obtain ⟨cs, hcs⟩ := hkeys.exists_toList
            cases hcs
    · split at h
      · rename_i r hdone
        exact absurd h (not_run_of_take hdone)
      · rename_i given next hnext
        obtain ⟨g', hrequest, hhas, hhash⟩ := ih h
        refine ⟨g', hrequest, fun s hs => ?_, fun hasked => hhash ?_⟩
        · rw [hhas s hs, has_take hnext hs]
          simp [or_assoc]
        · rcases hasked with hasked | ⟨a, ha, hkeys⟩
          · exact .inl (hasked.take hnext)
          · rcases List.mem_cons.mp ha with rfl | ha
            · exact .inl (asked_of_asksForKeys hkeys hnext)
            · exact .inr ⟨a, ha, hkeys⟩

theorem of_parse_eq_run (h : parse arguments environment = .run c) :
    (c.dryRun ↔ "--dry-run" ∈ arguments) ∧ (c.force ↔ "--force" ∈ arguments) ∧
      (c.toStdout ↔ "--stdout" ∈ arguments) ∧
      ((∃ a ∈ arguments, AsksForKeys a) → ∃ text, c.input = .hash text) := by
  obtain ⟨g, hrequest, hhas, hhash⟩ := exists_request_of_parseFrom h
  obtain ⟨-, hdryRun, hforce, htoStdout⟩ := Given.request_eq_run hrequest
  refine ⟨?_, ?_, ?_, fun hasked => Given.input_of_hash hrequest (hhash (.inr hasked))⟩
  · rw [hdryRun, hhas .dryRun (by decide)]
    simp [Given.has, Switch.spelling?]
  · rw [hforce, hhas .force (by decide)]
    simp [Given.has, Switch.spelling?]
  · rw [htoStdout, hhas .toStdout (by decide)]
    simp [Given.has, Switch.spelling?]

end QbCodec.CommandLine
