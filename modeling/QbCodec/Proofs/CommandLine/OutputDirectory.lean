import QbCodec.Proofs.CommandLine.VisitingOrder

namespace QbCodec

namespace CommandLine

variable {c : Command} {i j : String × Direction} {before after : List (String × Direction)}
  {w : World} {t : Tree} {r : Registry} {directory output : String} {content : List UInt8}

def stem (path : String) : String := (Path.splitName (Path.name path)).1

theorem Direction.eq_of_append_extension {d d' : Direction} {s s' : String}
    (h : s ++ ("." ++ d.extension) = s' ++ ("." ++ d'.extension)) : d = d' := by
  have hlast := congrArg (fun name => name.toList.getLast?) h
  cases d <;> cases d' <;> simp [Direction.extension, List.getLast?_append] at hlast ⊢

theorem IsInput.outputName_eq (h : IsInput t i) :
    CommandLine.outputName i = stem i.1 ++ ("." ++ i.2.extension) := by
  rw [CommandLine.outputName, h.plain.withExtension_eq, String.append_assoc]
  rfl

theorem IsInput.outputName_eq_iff (hi : IsInput t i) (hj : IsInput t j) :
    CommandLine.outputName i = CommandLine.outputName j ↔ i.2 = j.2 ∧ stem i.1 = stem j.1 := by
  rw [hi.outputName_eq, hj.outputName_eq]
  constructor
  · intro h
    have hdirection := Direction.eq_of_append_extension h
    rw [hdirection, String.append_left_inj] at h
    exact ⟨hdirection, h⟩
  · rintro ⟨hdirection, hstem⟩
    rw [hdirection, hstem]

theorem IsInput.place_target (h : IsInput t i) (houtput : c.output = some output) :
    t.place (c.target i) = t.place output ++ [CommandLine.outputName i] := by
  obtain ⟨hpart, hproper⟩ := h.outputName
  rw [h.target_below houtput, t.place_join (.inr hpart), Path.parts_of_isPart hpart,
    Tree.follow_cons, Tree.follow_nil, Tree.child_of_isProper hproper]

theorem IsInput.place_target_eq_iff (hi : IsInput t i) (hj : IsInput t j)
    (houtput : c.output = some output) :
    t.place (c.target i) = t.place (c.target j) ↔ i.2 = j.2 ∧ stem i.1 = stem j.1 := by
  rw [hi.place_target houtput, hj.place_target houtput, List.append_cancel_left_eq,
    List.singleton_inj, hi.outputName_eq_iff hj]

theorem IsInput.target_eq_iff (hi : IsInput t i) (hj : IsInput t j)
    (houtput : c.output = some output) :
    c.target i = c.target j ↔ i.2 = j.2 ∧ stem i.1 = stem j.1 := by
  refine ⟨fun h => (hi.place_target_eq_iff hj houtput).mp (congrArg t.place h), fun h => ?_⟩
  rw [hi.target_below houtput, hj.target_below houtput, (hi.outputName_eq_iff hj).mpr h]

theorem place_target_ne (ht : t.WellFormed) (houtput : c.output = some output)
    (houtside : ¬ t.place directory <+: t.place output) (hi : IsInput t i)
    (hj : j ∈ inputsBelow t directory) : t.place (c.target i) ≠ t.place j.1 := by
  rw [hi.place_target houtput]
  exact (ht.place_ne_of_mem_filesBelow (mem_inputsBelow.mp hj).1 houtside).symm

theorem writing?_turn (h : ∀ j ∈ before ++ i :: after, IsInput t j) (hforce : c.force)
    (hwrites : c.writes) (hadmits : t.Admits (c.target i) true)
    (hcontent : (convert c i.2 i.1 (processAll c before ⟨t, r, []⟩)).1 = .ok content) :
    writing? c i (processAll c before ⟨t, r, []⟩) = some ⟨i, content⟩ := by
  obtain ⟨T, S, hshared, -, hreached⟩ :=
    exists_reached (c := c) h (List.subset_append_left before (i :: after)) r
  have hturn := (hreached.admits_forced_iff hshared (List.mem_map_of_mem (by simp))).mpr hadmits
  rw [writing?, hcontent]
  dsimp only
  rw [hforce, hwrites, Tree.write_snd_iff.mpr hturn, Bool.true_and, if_pos rfl]

theorem lastAt_account_of_writing? {x : Writing}
    (h : writing? c i (processAll c before w) = some x) :
    lastAt c t (t.place (c.target i)) (account c (before ++ i :: after) w) =
      (lastAt c t (t.place (c.target i))
        (account c after (processFile c i.2 i.1 (processAll c before w)).1)).or (some x) := by
  have hx : lastAt c t (t.place (c.target i)) [x] = some x := by
    rw [← List.nil_append [x], lastAt_concat, input_of_writing? h, if_pos rfl]
  rw [account_append, account, h, Option.toList_some, lastAt_append, lastAt_append, hx,
    Option.or_assoc, Option.some_or]

theorem file?_processAll_of_writing? (after : List (String × Direction)) {x : Writing}
    (hw : w.tree = t)
    (h : writing? c i (processAll c before w) = some x) :
    (processAll c (before ++ i :: after) w).tree.file? (t.place (c.target i)) =
      some ((lastAt c t (t.place (c.target i))
        (account c after (processFile c i.2 i.1 (processAll c before w)).1)).getD x).content := by
  have haccount := Account.nil c t
  rw [← hw] at haccount
  rw [(haccount.processAll (before ++ i :: after)).file?, List.nil_append, hw,
    lastAt_account_of_writing? h, Option.or_some]

theorem mem_inputsBelow_of_mem_files (hinput : c.input = .directory directory)
    (hi : i ∈ c.files t) : i ∈ inputsBelow t directory := by
  simp only [Command.files, hinput] at hi
  split at hi
  · exact hi
  · cases hi

theorem lastAt_account_eq_none (h : ∀ j ∈ i :: after, IsInput t j) (houtput : c.output = some output)
    (hlater : ∀ x ∈ account c after w, c.target x.input ≠ c.target i) :
    lastAt c t (t.place (c.target i)) (account c after w) = none := by
  obtain ⟨hi, hafter⟩ := List.forall_mem_cons.mp h
  rw [lastAt, List.find?_eq_none]
  intro x hx hplace
  obtain ⟨front, back, rfl, -⟩ := exists_turn_of_mem_account (List.mem_reverse.mp hx)
  have hinput := hafter x.input (by simp)
  have halike := (hinput.place_target_eq_iff hi houtput).mp (of_decide_eq_true hplace)
  exact hlater x (List.mem_reverse.mp hx) ((hinput.target_eq_iff hi houtput).mpr halike)

/-- Under force, the outputs of a directory go to the directory for outputs, if that is elsewhere, and
inputs share an output path if they are converted alike and their names are the same up to the last
dot, in whatever directories they are. Each input is converted as at the start under the names that
are known at its turn, whether that succeeds or fails. Unless something else is in its way, a result
is at its output path in the end if no later input has been written there, and otherwise the result
of the last of those is. -/
theorem run_intoOutputDirectory {arguments : List String} {environment : Option String}
    (ht : t.WellFormed) (hprocesses : Processes arguments environment t c r)
    (hinput : c.input = .directory directory) (houtput : c.output = some output) (hforce : c.force)
    (hwrites : c.writes) (houtside : ¬ t.place directory <+: t.place output) :
    (∀ i ∈ c.files t, t.place (c.target i) = t.place output ++ [outputName i] ∧
      ∀ j ∈ c.files t,
        (c.target i = c.target j ↔ i.2 = j.2 ∧ stem i.1 = stem j.1) ∧
        (t.place (c.target i) = t.place (c.target j) ↔ c.target i = c.target j)) ∧
    ∀ before i after, c.files t = before ++ i :: after →
      let turn := processAll c before ⟨t, r, []⟩
      let later := account c after (processFile c i.2 i.1 turn).1
      let final := (run arguments environment t).tree
      let place := t.place (c.target i)
      convert c i.2 i.1 turn = convert c i.2 i.1 ⟨t, turn.registry, []⟩ ∧
      ∀ content, (convert c i.2 i.1 turn).1 = .ok content → t.Admits (c.target i) true →
        ((∀ x ∈ later, c.target x.input ≠ c.target i) → final.file? place = some content) ∧
        ∀ x, lastAt c t place later = some x → final.file? place = some x.content := by
  have hbelow {i : String × Direction} (hi : i ∈ c.files t) :=
    mem_inputsBelow_of_mem_files hinput hi
  have hinputs : ∀ i ∈ c.files t, IsInput t i := fun i hi => isInput_of_mem ht (hbelow hi)
  refine ⟨fun i hi => ⟨(hinputs i hi).place_target houtput, fun j hj => ?_⟩, ?_⟩
  · have htarget := (hinputs i hi).target_eq_iff (hinputs j hj) houtput
    exact ⟨htarget, by rw [htarget, (hinputs i hi).place_target_eq_iff (hinputs j hj) houtput]⟩
  · intro before i after hfiles turn later final place
    rw [hfiles] at hinputs hbelow
    have hi := hinputs i (by simp)
    refine ⟨convert_turn (fun j hj => hinputs j (List.mem_append_left _ hj)) hi
      (fun j hj => place_target_ne ht houtput houtside
        (hinputs j (List.mem_append_left _ hj)) (hbelow (by simp))) r, ?_⟩
    intro content hcontent hadmits
    have hfile := file?_processAll_of_writing? after rfl
      (writing?_turn hinputs hforce hwrites hadmits hcontent)
    rw [← hfiles, ← tree_run hprocesses] at hfile
    constructor
    · intro hlater
      have hnone := lastAt_account_eq_none (fun j hj => hinputs j (List.mem_append_right _ hj))
        houtput hlater
      rw [hnone] at hfile
      exact hfile
    · intro x hx
      rw [hx] at hfile
      exact hfile

def twoBranches : Tree where
  home := ["home"]
  entries := [(["home"], .directory), (["home", "in"], .directory), (["home", "in", "a"], .directory),
    (["home", "in", "a", "x.q"], .file (Text.utf8 "x = 1")), (["home", "in", "b"], .directory),
    (["home", "in", "b", "x.q"], .file (Text.utf8 "x = 2"))]

def toOut : Command := ⟨.directory "in", some "out", .ghwt, [], 0, false, true, false⟩

def assigned (n : Int32) : List UInt8 :=
  Compiled.bytes ⟨Key.ofName "x.q", .big, .ghwt⟩ [.value (Key.ofLiteral "x") n]

theorem wellFormed_twoBranches : twoBranches.WellFormed := ⟨by decide, by decide, by decide⟩

theorem processes_twoBranches : Processes ["-d", "in", "-o", "out", "--force"] none twoBranches toOut
    Registry.standard := ⟨rfl, by simp [toOut], rfl⟩

theorem files_twoBranches :
    toOut.files twoBranches = [("in/a/x.q", .compile), ("in/b/x.q", .compile)] := by
  decide +kernel

theorem outside_twoBranches : ¬ twoBranches.place "in" <+: twoBranches.place "out" := by decide

theorem isInput_twoBranches : ∀ i ∈ [("in/a/x.q", Direction.compile), ("in/b/x.q", .compile)],
    IsInput twoBranches i := by
  rw [← files_twoBranches]
  exact fun i hi => isInput_of_mem wellFormed_twoBranches (mem_inputsBelow_of_mem_files rfl hi)

theorem admits_twoBranches : twoBranches.Admits "out/x.qb" true :=
  ⟨by decide, rfl, by decide, .inl rfl⟩

theorem convert_assigned {path source : String} {n : Int32} (hname : Path.name path = "x.q")
    (hread : t.readText path = .ok source)
    (hls : Source.lexemes source = .ok [⟨.name "x", 0⟩, ⟨.mark .equals, 2⟩, ⟨.int n, 4⟩])
    (r : Registry) : (convert toOut .compile path ⟨t, r, []⟩).1 = .ok (assigned n) := by
  have hfile := Compiled.ofSource_eq (t := ⟨Key.ofName (Path.name path), .big, .ghwt⟩) hls
    (.value (.name "x") n .nil) r
  rw [convert_compile_eq (c := toOut) hread (by decide) hfile, assigned, hname]

theorem convert_first (r : Registry) :
    (convert toOut .compile "in/a/x.q" ⟨twoBranches, r, []⟩).1 = .ok (assigned 1) := by
  have hls : Source.lexemes "x = 1" = .ok [⟨.name "x", 0⟩, ⟨.mark .equals, 2⟩, ⟨.int 1, 4⟩] := by
    apply Source.lexemes_of_toOption
    decide +kernel
  exact convert_assigned (by decide +kernel) (Tree.readText_of_node? (by decide +kernel)) hls r

theorem convert_second (r : Registry) : (convert toOut .compile "in/b/x.q"
    (processAll toOut [("in/a/x.q", .compile)] ⟨twoBranches, r, []⟩)).1 = .ok (assigned 2) := by
  have hls : Source.lexemes "x = 2" = .ok [⟨.name "x", 0⟩, ⟨.mark .equals, 2⟩, ⟨.int 2, 4⟩] := by
    apply Source.lexemes_of_toOption
    decide +kernel
  obtain ⟨hfirst, hsecond⟩ := List.forall_mem_cons.mp isInput_twoBranches
  have hturn := convert_turn (c := toOut) (List.forall_mem_singleton.mpr hfirst)
    (hsecond _ List.mem_cons_self) (by decide) r
  dsimp only at hturn
  rw [hturn]
  exact convert_assigned (by decide +kernel) (Tree.readText_of_node? (by decide +kernel)) hls _

theorem run_intoOutputDirectory_twoBranches :
    let turn := processAll toOut [("in/a/x.q", .compile)] ⟨twoBranches, Registry.standard, []⟩
    toOut.target ("in/a/x.q", .compile) = toOut.target ("in/b/x.q", .compile) ∧
      convert toOut .compile "in/b/x.q" turn =
        convert toOut .compile "in/b/x.q" ⟨twoBranches, turn.registry, []⟩ ∧
      (run ["-d", "in", "-o", "out", "--force"] none twoBranches).tree.file? ["home", "out", "x.qb"] =
        some (assigned 2) := by
  intro turn
  obtain ⟨htargets, hresults⟩ := run_intoOutputDirectory wellFormed_twoBranches
    processes_twoBranches rfl rfl rfl rfl outside_twoBranches
  rw [files_twoBranches] at htargets hresults
  obtain ⟨-, halike⟩ := htargets ("in/a/x.q", .compile) (by simp)
  obtain ⟨hshare, -⟩ := halike ("in/b/x.q", .compile) (by simp)
  obtain ⟨hturn, hcontent⟩ := hresults [("in/a/x.q", .compile)] ("in/b/x.q", .compile) [] rfl
  obtain ⟨hown, -⟩ := hcontent (assigned 2) (convert_second Registry.standard) admits_twoBranches
  exact ⟨hshare.mpr (by decide +kernel), hturn, hown (by simp [account])⟩

theorem tree_run_twoBranches (p : Place) :
    (run ["-d", "in", "-o", "out", "--force"] none twoBranches).tree.file? p =
      if p = ["home", "out", "x.qb"] then some (assigned 2) else twoBranches.file? p := by
  rw [tree_run processes_twoBranches, files_twoBranches]
  split
  · rename_i hp
    have hwriting : writing? toOut ("in/b/x.q", .compile) (processAll toOut
        [("in/a/x.q", .compile)] ⟨twoBranches, Registry.standard, []⟩) = some ⟨_, assigned 2⟩ :=
      writing?_turn isInput_twoBranches rfl rfl admits_twoBranches (convert_second _)
    rw [hp]
    exact file?_processAll_of_writing? [] rfl hwriting
  · rename_i hp
    exact file?_processAll_of_notMem (by simpa using ⟨hp, hp⟩) Registry.standard

theorem not_run_intoOutputDirectory :
    let a : String × Direction := ("in/a/x.q", .compile)
    let b : String × Direction := ("in/b/x.q", .compile)
    let w : World := ⟨twoBranches, Registry.standard, []⟩
    let final := (run ["-d", "in", "-o", "out", "--force"] none twoBranches).tree
    twoBranches.WellFormed ∧
      Processes ["-d", "in", "-o", "out", "--force"] none twoBranches toOut Registry.standard ∧
      toOut.files twoBranches = [a, b] ∧ ¬ twoBranches.place "in" <+: twoBranches.place "out" ∧
      (convert toOut a.2 a.1 w).1 = .ok (assigned 1) ∧
      (convert toOut b.2 b.1 (processAll toOut [a] w)).1 = .ok (assigned 2) ∧
      toOut.target a = toOut.target b ∧
      final.file? ["home", "out", "x.qb"] = some (assigned 2) ∧
      ∀ p, final.file? p ≠ some (assigned 1) := by
  intro a b w final
  refine ⟨wellFormed_twoBranches, processes_twoBranches, files_twoBranches, outside_twoBranches,
    convert_first _, convert_second _, by decide +kernel, ?_, fun p hp => ?_⟩
  · rw [tree_run_twoBranches, if_pos rfl]
  rw [tree_run_twoBranches] at hp
  split at hp
  · have hne : assigned 2 ≠ assigned 1 := by decide +kernel
    exact hne (Option.some.inj hp)
  · have hnone : .file (assigned 1) ∉ twoBranches.entries.map Prod.snd := by decide +kernel
    exact hnone (List.mem_map_of_mem (Tree.mem_of_file? hp))

end CommandLine

end QbCodec
