import QbCodec.CommandLine.Run
import QbCodec.Proofs.CommandLine.Switches
import QbCodec.Proofs.Tree.Writing

/-!
What a command leaves of the tree that it runs on. The account of a run has one entry for each file
that is written, in the order of the inputs, and beside new directories the account is all that
happens to the tree.
-/

namespace QbCodec

namespace CommandLine

variable {c : Command} {i : String × Direction} {inputs : List (String × Direction)} {w : World}
  {t u : Tree} {p : Place} {r : Registry}

structure Writing where
  input : String × Direction
  content : List UInt8

def Command.target (c : Command) (i : String × Direction) : String := outputPath i.1 c.output i.2

def Command.writes (c : Command) : Bool := !c.dryRun && !c.toStdout

def writing? (c : Command) (i : String × Direction) (w : World) : Option Writing :=
  match (convert c i.2 i.1 w).1 with
  | .error _ => none
  | .ok content =>
    if c.writes && (w.tree.write (c.target i) content c.force).2 then some ⟨i, content⟩ else none

def account (c : Command) : List (String × Direction) → World → List Writing
  | [], _ => []
  | i :: inputs, w => (writing? c i w).toList ++ account c inputs (processFile c i.2 i.1 w).1

def lastAt (c : Command) (t : Tree) (p : Place) (log : List Writing) : Option Writing :=
  log.reverse.find? fun x => t.place (c.target x.input) = p

def Event.isWrote : Event → Bool
  | wrote _ _ => true
  | _ => false

def Writing.event (c : Command) (x : Writing) : Event := .wrote (c.target x.input) x.content

structure Account (c : Command) (t : Tree) (log : List Writing) (u : Tree) : Prop where
  home : u.home = t.home
  written : ∀ p x, lastAt c t p log = some x → u.get? p = some (.file x.content)
  other : ∀ p, lastAt c t p log = none →
    u.get? p = t.get? p ∨ t.get? p = none ∧ u.get? p = some .directory

theorem Account.nil (c : Command) (t : Tree) : Account c t [] t where
  home := rfl
  written p x h := by cases h
  other p h := .inl rfl

theorem Account.grows {log : List Writing} {v : Tree} {places : List Place}
    (h : Account c t log u) (hgrows : Tree.Grows places u v) : Account c t log v where
  home := hgrows.home.trans h.home
  written p x hx := hgrows.get?_file.mpr (h.written p x hx)
  other p hp := by
    rcases hgrows.get? p with hsame | ⟨-, hnone, hnew⟩
    · rw [hsame]
      exact h.other p hp
    · right
      rcases h.other p hp with hsame | ⟨-, hdirectory⟩
      · exact ⟨hsame ▸ hnone, hnew⟩
      · rw [hdirectory] at hnone
        cases hnone

theorem lastAt_append (c : Command) (t : Tree) (p : Place) (log more : List Writing) :
    lastAt c t p (log ++ more) = (lastAt c t p more).or (lastAt c t p log) := by
  rw [lastAt, lastAt, lastAt, List.reverse_append, List.find?_append]

theorem lastAt_concat (c : Command) (t : Tree) (p : Place) (log : List Writing) (x : Writing) :
    lastAt c t p (log ++ [x]) =
      if t.place (c.target x.input) = p then some x else lastAt c t p log := by
  rw [lastAt_append]
  by_cases h : t.place (c.target x.input) = p <;> simp [lastAt, h]

theorem Account.put {log : List Writing} {x : Writing} (h : Account c t log u)
    (hplace : t.place (c.target x.input) ≠ []) :
    Account c t (log ++ [x]) (u.put (t.place (c.target x.input)) (.file x.content)) where
  home := h.home
  written p y hy := by
    rw [lastAt_concat] at hy
    rw [Tree.get?_put hplace]
    split at hy
    · rename_i hp
      cases hy
      rw [if_pos hp.symm]
    · rename_i hp
      rw [if_neg (Ne.symm hp)]
      exact h.written p y hy
  other p hlast := by
    rw [lastAt_concat] at hlast
    rw [Tree.get?_put hplace]
    split at hlast
    · cases hlast
    · rename_i hp
      rw [if_neg (Ne.symm hp)]
      exact h.other p hlast

inductive Turn (c : Command) (i : String × Direction) (w : World) : Option Writing → World → Prop
  | failed (r : Registry) : Turn c i w none { w with registry := r }
  | told (quiet : c.writes = false) (e : Event) (he : e.isWrote = false) (r : Registry) :
    Turn c i w none { w with registry := r, events := w.events ++ [e] }
  | refused {tree : Tree} {content : List UInt8} (writes : c.writes)
      (write : w.tree.write (c.target i) content c.force = (tree, false)) (r : Registry) :
    Turn c i w none { w with registry := r, tree }
  | written {tree : Tree} {content : List UInt8} (writes : c.writes)
      (write : w.tree.write (c.target i) content c.force = (tree, true)) (r : Registry) :
    Turn c i w (some ⟨i, content⟩)
      { tree, registry := r, events := w.events ++ [.wrote (c.target i) content] }

def told (c : Command) (i : String × Direction) (content : List UInt8) (t : Tree) : List Event :=
  if c.toStdout then [.shown content]
  else if c.dryRun then [.planned (c.target i) content]
  else if (t.write (c.target i) content c.force).2 then [.wrote (c.target i) content]
  else []

theorem deliver_eq (c : Command) (i : String × Direction) (content : List UInt8) (w : World) :
    deliver c i.2 i.1 content w =
      { w with
        tree := if c.writes then (w.tree.write (c.target i) content c.force).1 else w.tree
        events := w.events ++ told c i content w.tree } := by
  unfold deliver told Command.writes
  cases c.toStdout
  · cases c.dryRun
    · rcases hwrite : w.tree.write (c.target i) content c.force with ⟨tree, done⟩
      rw [Command.target] at hwrite
      cases done <;> simp [hwrite, Command.target]
    · rfl
  · simp

theorem exists_told_of_quiet (hquiet : c.writes = false) (i : String × Direction)
    (content : List UInt8) (t : Tree) : ∃ e, told c i content t = [e] ∧ e.isWrote = false := by
  unfold told
  split
  · exact ⟨_, rfl, rfl⟩
  · rename_i hstdout
    have hdry : c.dryRun := by simpa [Command.writes, hstdout] using hquiet
    exact ⟨_, if_pos hdry, rfl⟩

theorem turn_processFile (c : Command) (i : String × Direction) (w : World) :
    Turn c i w (writing? c i w) (processFile c i.2 i.1 w).1 := by
  unfold processFile writing?
  rcases hconvert : convert c i.2 i.1 w with ⟨trouble | content, r⟩
  · exact .failed r
  · dsimp only
    rw [deliver_eq]
    by_cases hwrites : c.writes
    · obtain ⟨hdry, hstdout⟩ : c.dryRun = false ∧ c.toStdout = false := by
        simpa [Command.writes] using hwrites
      rcases hwrite : w.tree.write (c.target i) content c.force with ⟨tree, done⟩
      simp only [hwrites, told, hstdout, hdry, hwrite, Bool.true_and, Bool.false_eq_true, if_true,
        if_false]
      cases done
      · simpa using Turn.refused hwrites hwrite r
      · exact .written hwrites hwrite r
    · have hquiet : c.writes = false := by simpa using hwrites
      obtain ⟨e, htold, he⟩ := exists_told_of_quiet hquiet i content w.tree
      simp only [hquiet, htold, Bool.false_and, Bool.false_eq_true, if_false]
      exact .told hquiet e he r

theorem Account.turn {log : List Writing} {x : Option Writing} {v : World}
    (h : Account c t log w.tree) (hturn : Turn c i w x v) :
    Account c t (log ++ x.toList) v.tree := by
  cases hturn with
  | failed r => simpa using h
  | told quiet e he r => simpa using h
  | @refused tree content writes write r =>
    have hwritten := Tree.written_write w.tree (c.target i) content c.force
    rw [write] at hwritten
    cases hwritten with
    | refused grows => simpa using h.grows grows
  | @written tree content writes write r =>
    have hwritten := Tree.written_write w.tree (c.target i) content c.force
    rw [write] at hwritten
    cases hwritten with
    | done grows clear =>
      have hplace := Tree.place_congr h.home (c.target i)
      rw [hplace] at clear ⊢
      have hne : t.place (c.target i) ≠ [] := by
        apply Tree.ne_nil_of_get?
        rcases clear with hnone | ⟨-, old, hold⟩
        · rw [hnone]
          simp
        · rw [hold]
          simp
      exact (h.grows grows).put (x := ⟨i, content⟩) hne

theorem account_append (before after : List (String × Direction)) (w : World) :
    account c (before ++ after) w =
      account c before w ++ account c after (processAll c before w) := by
  induction before generalizing w with
  | nil => rfl
  | cons i before ih =>
    rw [List.cons_append, account, account, ih, List.append_assoc]
    rfl

theorem Account.processAll {log : List Writing} (h : Account c t log w.tree)
    (inputs : List (String × Direction)) :
    Account c t (log ++ account c inputs w) (processAll c inputs w).tree := by
  induction inputs generalizing log w with
  | nil => simpa [account, CommandLine.processAll] using h
  | cons i inputs ih =>
    have hnext := ih (h.turn (turn_processFile c i w))
    rw [List.append_assoc] at hnext
    exact hnext

theorem input_of_writing? {x : Writing} (h : writing? c i w = some x) : x.input = i := by
  unfold writing? at h
  split at h
  · cases h
  · split at h <;> cases h
    rfl

theorem exists_turn_of_mem_account {x : Writing} (h : x ∈ account c inputs w) :
    ∃ before after, inputs = before ++ x.input :: after ∧
      writing? c x.input (CommandLine.processAll c before w) = some x := by
  induction inputs generalizing w with
  | nil => cases h
  | cons i inputs ih =>
    rcases List.mem_append.mp h with hi | hlater
    · have hx : writing? c i w = some x := Option.mem_toList.mp hi
      have hi := input_of_writing? hx
      exact ⟨[], inputs, by rw [hi]; rfl, by rw [hi]; exact hx⟩
    · obtain ⟨before, after, hinputs, hx⟩ := ih hlater
      exact ⟨i :: before, after, by rw [hinputs]; rfl, hx⟩

def KeepsFiles (t u : Tree) : Prop :=
  ∀ p bytes, t.get? p = some (.file bytes) → u.get? p = some (.file bytes)

theorem keepsFiles_turn (hforce : c.force = false) {x : Option Writing} {v : World}
    (hturn : Turn c i w x v) : KeepsFiles w.tree v.tree := by
  intro p bytes hp
  cases hturn with
  | failed r => exact hp
  | told quiet e he r => exact hp
  | @refused tree content writes write r =>
    have hwritten := Tree.written_write w.tree (c.target i) content c.force
    rw [write] at hwritten
    cases hwritten with
    | refused grows => exact grows.get?_file.mpr hp
  | @written tree content writes write r =>
    have hwritten := Tree.written_write w.tree (c.target i) content c.force
    rw [write] at hwritten
    cases hwritten with
    | done grows clear =>
      have hnone := clear.resolve_right (by simp [hforce])
      have hold := grows.get?_file.mpr hp
      rw [Tree.get?_put (Tree.ne_nil_of_get? (by rw [hnone]; simp)), if_neg]
      · exact hold
      · rintro rfl
        rw [hnone] at hold
        cases hold

theorem keepsFiles_processAll (hforce : c.force = false) (inputs : List (String × Direction))
    (w : World) : KeepsFiles w.tree (processAll c inputs w).tree := by
  induction inputs generalizing w with
  | nil => exact fun p bytes hp => hp
  | cons i inputs ih =>
    intro p bytes hp
    exact ih _ p bytes (keepsFiles_turn hforce (turn_processFile c i w) p bytes hp)

theorem tree_turn_of_quiet (hquiet : c.writes = false) {x : Option Writing} {v : World}
    (hturn : Turn c i w x v) : v.tree = w.tree := by
  cases hturn with
  | failed r => rfl
  | told quiet e he r => rfl
  | refused writes => exact absurd writes (by simp [hquiet])
  | written writes => exact absurd writes (by simp [hquiet])

theorem tree_processAll_of_quiet (hquiet : c.writes = false) (inputs : List (String × Direction))
    (w : World) : (processAll c inputs w).tree = w.tree := by
  induction inputs generalizing w with
  | nil => rfl
  | cons i inputs ih => exact (ih _).trans (tree_turn_of_quiet hquiet (turn_processFile c i w))

theorem events_processAll (c : Command) (inputs : List (String × Direction)) (w : World) :
    ∃ told, (processAll c inputs w).events = w.events ++ told ∧
      told.filter Event.isWrote = (account c inputs w).map (Writing.event c) ∧
      (c.writes → told = (account c inputs w).map (Writing.event c)) := by
  induction inputs generalizing w with
  | nil => exact ⟨[], by simp [processAll], rfl, fun _ => rfl⟩
  | cons i inputs ih =>
    obtain ⟨later, hevents, hfilter, hall⟩ := ih (processFile c i.2 i.1 w).1
    have hstep (told : List Event)
        (htold : (processFile c i.2 i.1 w).1.events = w.events ++ told)
        (hwrote : told.filter Event.isWrote = (writing? c i w).toList.map (Writing.event c))
        (hwrites : c.writes → told = (writing? c i w).toList.map (Writing.event c)) :
        ∃ told, (processAll c (i :: inputs) w).events = w.events ++ told ∧
          told.filter Event.isWrote = (account c (i :: inputs) w).map (Writing.event c) ∧
          (c.writes → told = (account c (i :: inputs) w).map (Writing.event c)) := by
      refine ⟨told ++ later, ?_, ?_, fun h => ?_⟩
      · rw [← List.append_assoc, ← htold]
        exact hevents
      · rw [List.filter_append, hwrote, hfilter, account, List.map_append]
      · rw [account, List.map_append, ← hwrites h, ← hall h]
    have hturn := turn_processFile c i w
    generalize (processFile c i.2 i.1 w).1 = v at hturn hstep
    generalize writing? c i w = x at hturn hstep
    cases hturn with
    | failed r => exact hstep [] (by simp) rfl fun _ => rfl
    | told quiet e he r => exact hstep [e] rfl (by simp [he]) fun h => absurd h (by simp [quiet])
    | refused writes write r => exact hstep [] (by simp) rfl fun _ => rfl
    | written writes write r => exact hstep [_] rfl rfl fun _ => rfl

def Command.files (c : Command) (t : Tree) : List (String × Direction) :=
  match c.input with
  | .hash _ => []
  | .file path =>
    if t.exists? path && t.isFile path then ((Direction.ofPath? path).map (path, ·)).toList else []
  | .directory path =>
    if t.exists? path && t.isDirectory path then inputsBelow t path else []

structure Processes (arguments : List String) (environment : Option String) (t : Tree) (c : Command)
    (r : Registry) : Prop where
  request : parse arguments environment = .run c
  input : ∀ text, c.input ≠ .hash text
  banks : loadBanks t Registry.standard c.banks = .ok r

theorem tree_processFile_of_trouble {d : Direction} {path : String} {trouble : Trouble}
    (h : (processFile c d path w).2 = some trouble) : (processFile c d path w).1.tree = w.tree := by
  unfold processFile at h ⊢
  split at h
  · rfl
  · cases h

theorem runFile_eq (c : Command) (path : String) (w : World) :
    ∃ trouble, runFile c path w = (processAll c (if w.tree.exists? path && w.tree.isFile path then
        ((Direction.ofPath? path).map (path, ·)).toList else []) w, trouble) ∧
      (trouble.isSome → (runFile c path w).1.tree = w.tree) := by
  unfold runFile
  by_cases hexists : w.tree.exists? path <;> by_cases hfile : w.tree.isFile path
  · simp only [hexists, hfile]
    cases hd : Direction.ofPath? path with
    | none => exact ⟨_, rfl, fun _ => rfl⟩
    | some d =>
      refine ⟨(processFile c d path w).2, rfl, fun h => ?_⟩
      obtain ⟨trouble, htrouble⟩ := Option.isSome_iff_exists.mp h
      exact tree_processFile_of_trouble htrouble
  all_goals
    simp only [hexists, hfile]
    exact ⟨_, rfl, fun _ => rfl⟩

theorem runDirectory_eq (c : Command) (path : String) (w : World) :
    ∃ trouble, runDirectory c path w = (processAll c
        (if w.tree.exists? path && w.tree.isDirectory path then inputsBelow w.tree path else []) w,
        trouble) ∧
      (trouble.isSome → (runDirectory c path w).1.tree = w.tree) := by
  unfold runDirectory
  by_cases hexists : w.tree.exists? path <;> by_cases hdirectory : w.tree.isDirectory path
  · simp only [hexists, hdirectory]
    exact ⟨none, rfl, by simp⟩
  all_goals
    simp only [hexists, hdirectory]
    exact ⟨_, rfl, fun _ => rfl⟩

variable {arguments : List String} {environment : Option String}

theorem run_of_processes (h : Processes arguments environment t c r) :
    ∃ trouble, run arguments environment t =
        .ofWorld (processAll c (c.files t) ⟨t, r, []⟩, trouble) ∧
      (trouble.isSome → (processAll c (c.files t) ⟨t, r, []⟩).tree = t) := by
  obtain ⟨hrequest, hinput, hbanks⟩ := h
  rw [run, hrequest]
  dsimp only [runCommand, Command.files]
  rw [hbanks]
  cases h : c.input with
  | hash text => exact absurd h (hinput text)
  | file path =>
    obtain ⟨trouble, hrun, htree⟩ := runFile_eq c path ⟨t, r, []⟩
    rw [hrun] at htree
    exact ⟨trouble, congrArg Report.ofWorld hrun, htree⟩
  | directory path =>
    obtain ⟨trouble, hrun, htree⟩ := runDirectory_eq c path ⟨t, r, []⟩
    rw [hrun] at htree
    exact ⟨trouble, congrArg Report.ofWorld hrun, htree⟩

def Report.IsIdle (t : Tree) (report : Report) : Prop :=
  report.tree = t ∧ ((∃ text, report.output = Text.utf8 (hashReport text)) ∨
    report.output = Text.utf8 version ∨ report.output = Text.utf8 usage ∨ report.output = [])

theorem run_of_not_processes (h : ∀ c r, ¬ Processes arguments environment t c r) :
    (run arguments environment t).IsIdle t := by
  rw [run]
  split
  · rename_i c hrequest
    unfold runCommand
    split
    · exact ⟨rfl, .inl ⟨_, rfl⟩⟩
    all_goals
      rename_i path hinput
      split
      · exact ⟨rfl, .inr (.inr (.inr rfl))⟩
      · rename_i r hbanks
        exact absurd ⟨hrequest, by simp [hinput], hbanks⟩ (h c r)
  · exact ⟨rfl, .inr (.inl rfl)⟩
  · exact ⟨rfl, .inr (.inr (.inl rfl))⟩
  · exact ⟨rfl, .inr (.inr (.inr rfl))⟩

theorem Report.ofWorld_tree (w : World) (trouble : Option Trouble) :
    (ofWorld (w, trouble)).tree = w.tree := by
  cases trouble <;> rfl

theorem tree_run (h : Processes arguments environment t c r) :
    (run arguments environment t).tree = (processAll c (c.files t) ⟨t, r, []⟩).tree := by
  obtain ⟨trouble, hrun, -⟩ := run_of_processes h
  rw [hrun, Report.ofWorld_tree]

theorem Report.ofWorld_output (w : World) (trouble : Option Trouble) :
    (ofWorld (w, trouble)).output = w.events.flatMap Event.output := by
  cases trouble <;> rfl

theorem Report.ofWorld_code {trouble : Option Trouble} (h : (ofWorld (w, trouble)).code ≠ 0) :
    trouble.isSome := by
  cases trouble with
  | none => exact absurd rfl h
  | some trouble => rfl

theorem tree_run_of_quiet
    (h : ∃ a ∈ arguments, a = "--dry-run" ∨ a = "--stdout" ∨ AsksForKeys a)
    (hprocesses : Processes arguments environment t c r) :
    (run arguments environment t).tree = t := by
  obtain ⟨hdry, -, hstdout, hkeys⟩ := of_parse_eq_run hprocesses.request
  have hquiet : c.writes = false := by
    obtain ⟨a, ha, rfl | rfl | hasks⟩ := h
    · simp [Command.writes, hdry.mpr ha]
    · simp [Command.writes, hstdout.mpr ha]
    · obtain ⟨text, htext⟩ := hkeys ⟨a, ha, hasks⟩
      exact absurd htext (hprocesses.input text)
  rw [tree_run hprocesses]
  exact tree_processAll_of_quiet hquiet _ _

theorem tree_run_of_code (h : (run arguments environment t).code ≠ 0)
    (hprocesses : Processes arguments environment t c r) :
    (run arguments environment t).tree = t := by
  obtain ⟨trouble, hrun, htree⟩ := run_of_processes hprocesses
  rw [hrun] at h ⊢
  rw [Report.ofWorld_tree]
  exact htree (Report.ofWorld_code h)

theorem keepsFiles_run (h : "--force" ∉ arguments)
    (hprocesses : Processes arguments environment t c r) :
    KeepsFiles t (run arguments environment t).tree := by
  obtain ⟨-, hforce, -, -⟩ := of_parse_eq_run hprocesses.request
  rw [tree_run hprocesses]
  exact keepsFiles_processAll (by simpa [h] using hforce) (c.files t) ⟨t, r, []⟩

theorem convert_of_writing? {x : Writing} (h : writing? c i w = some x) :
    (convert c i.2 i.1 w).1 = .ok x.content := by
  unfold writing? at h
  split at h
  · cases h
  · rename_i content hcontent
    split at h <;> cases h
    exact hcontent

/-- A command that shows or plans only, or that ends with a code of failure, leaves the tree as it
is, and one that is not forced keeps all files. What is written comes from inputs that are converted
at their turn; each writing is announced and nothing else is, and the account of all writings is
what has happened to the tree. -/
theorem run_writes_account (arguments : List String) (environment : Option String) (t : Tree) :
    let report := run arguments environment t
    ((∃ a ∈ arguments, a = "--dry-run" ∨ a = "--stdout" ∨ AsksForKeys a) → report.tree = t) ∧
    (report.code ≠ 0 → report.tree = t) ∧
    ("--force" ∉ arguments → KeepsFiles t report.tree) ∧
    ((∀ c r, ¬ Processes arguments environment t c r) → report.IsIdle t) ∧
    ∀ c r, Processes arguments environment t c r →
      let w : World := ⟨t, r, []⟩
      let log := account c (c.files t) w
      let events := (processAll c (c.files t) w).events
      Account c t log report.tree ∧
      report.output = events.flatMap Event.output ∧
      events.filter Event.isWrote = log.map (Writing.event c) ∧
      (c.writes → events = log.map (Writing.event c)) ∧
      ∀ x ∈ log, ∃ before after, c.files t = before ++ x.input :: after ∧
        (convert c x.input.2 x.input.1 (processAll c before w)).1 = .ok x.content := by
  intro report
  -- Without inputs to process the report is idle, so its tree is the old one in all that follows.
  have hcases (P : Prop) (hsame : report.tree = t → P)
      (hrun : ∀ c r, Processes arguments environment t c r → P) : P := by
    by_cases h : ∃ c r, Processes arguments environment t c r
    · obtain ⟨c, r, h⟩ := h
      exact hrun c r h
    · exact hsame (run_of_not_processes fun c r hprocesses => h ⟨c, r, hprocesses⟩).1
  refine ⟨fun h => ?_, fun h => ?_, fun h => ?_, run_of_not_processes, fun c r hprocesses => ?_⟩
  · exact hcases _ id fun c r => tree_run_of_quiet h
  · exact hcases _ id fun c r => tree_run_of_code h
  · exact hcases _ (fun hsame p bytes hp => by rwa [hsame]) fun c r => keepsFiles_run h
  · intro w log events
    obtain ⟨trouble, hrun, -⟩ := run_of_processes hprocesses
    obtain ⟨told, hevents, hfilter, hall⟩ := events_processAll c (c.files t) w
    have htold : events = told := by simpa [w] using hevents
    have haccount := (Account.nil c t).processAll (w := w) (c.files t)
    have htree : report.tree = (processAll c (c.files t) w).tree := by
      simp only [report, hrun, Report.ofWorld_tree, w]
    have houtput : report.output = events.flatMap Event.output := by
      simp only [report, hrun, Report.ofWorld_output, events, w]
    rw [htree, houtput, htold]
    refine ⟨haccount, rfl, hfilter, hall, fun x hx => ?_⟩
    obtain ⟨before, after, hfiles, hwriting⟩ := exists_turn_of_mem_account hx
    exact ⟨before, after, hfiles, convert_of_writing? hwriting⟩

end CommandLine

end QbCodec
