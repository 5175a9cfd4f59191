import QbCodec.Proofs.CommandLine.Writing
import QbCodec.Proofs.File.Renaming
import QbCodec.Proofs.Session.LifeCycle
import QbCodec.Proofs.Tree.Sharing

namespace QbCodec

def Tree.file? (t : Tree) (p : Place) : Option (List UInt8) :=
  match t.get? p with
  | some (.file bytes) => some bytes
  | _ => none

theorem Tree.mem_of_file? {t : Tree} {p : Place} {bytes : List UInt8} (h : t.file? p = some bytes) :
    (p, .file bytes) ∈ t.entries := by
  unfold file? at h
  split at h
  · rename_i bytes' hget
    cases h
    have hp : p ≠ [] := ne_nil_of_get? (by rw [hget]; simp)
    rw [get?, if_neg hp] at hget
    obtain ⟨before, after, hentries, -⟩ := List.lookup_eq_some_iff.mp hget
    simp [hentries]
  · cases h

theorem Tree.readText_of_node? {t : Tree} {path text : String} (h : t.node? path = some (.file (Text.utf8 text))) :
    t.readText path = .ok text := by
  rw [readText, read, h]
  dsimp only
  rw [Text.ofUtf8?_utf8]

namespace CommandLine

variable {c : Command} {i : String × Direction} {is before after order : List (String × Direction)}
  {w v : World} {t u T : Tree} {p : Place} {r : Registry} {S : List Place} {log : List Writing}

structure IsInput (t : Tree) (i : String × Direction) : Prop where
  isFile : t.isFile i.1
  direction : Direction.ofPath? i.1 = some i.2
  plain : Path.IsPlain (Path.name i.1)

theorem mem_inputsBelow {directory : String} : i ∈ inputsBelow t directory ↔
    i.1 ∈ t.filesBelow directory ∧ isHidden i.1 = false ∧ Direction.ofPath? i.1 = some i.2 := by
  obtain ⟨path, d⟩ := i
  simp only [inputsBelow, List.mem_filterMap]
  constructor
  · rintro ⟨path', hpath, hi⟩
    split at hi
    · cases hi
    · rename_i hshown
      obtain ⟨d', hd, hsame⟩ := Option.map_eq_some_iff.mp hi
      cases hsame
      exact ⟨hpath, by simpa using hshown, hd⟩
  · rintro ⟨hpath, hshown, hd⟩
    exact ⟨path, hpath, by simp [hshown, hd]⟩

theorem isInput_of_mem {directory : String} (ht : t.WellFormed) (h : i ∈ inputsBelow t directory) :
    IsInput t i := by
  obtain ⟨hpath, hshown, hd⟩ := mem_inputsBelow.mp h
  refine ⟨ht.isFile_of_mem_filesBelow hpath, hd, Path.isPart_name i.1, ?_, ?_⟩
  · unfold Direction.ofPath? at hd
    cases hextension : (Path.splitName (Path.name i.1)).2 with
    | some extension => rfl
    | none => simp [hextension] at hd
  · simpa [isHidden] using hshown

theorem Direction.isPart_extension (d : Direction) : Path.IsPart d.extension := by
  cases d <;> decide

def outputName (i : String × Direction) : String :=
  Path.withExtension (Path.name i.1) i.2.extension

theorem IsInput.outputName (h : IsInput t i) :
    Path.IsPart (outputName i) ∧ Path.isProper (outputName i) :=
  h.plain.withExtension i.2.isPart_extension

theorem IsInput.neighbours_beside (h : IsInput t i) (houtput : c.output = none) :
    Tree.Neighbours i.1 (c.target i) := by
  refine ⟨Path.directory i.1, Path.name i.1, CommandLine.outputName i, Path.isBase_directory i.1,
    ⟨h.plain.part, h.plain.isProper⟩, h.outputName, (Path.directory_append_name i.1).symm, ?_⟩
  simp only [Command.target, outputPath, houtput]
  rfl

theorem IsInput.target_below {directory : String} (h : IsInput t i)
    (houtput : c.output = some directory) :
    c.target i = Path.join directory (CommandLine.outputName i) := by
  simp only [Command.target, outputPath, houtput]
  exact congrArg _ (if_pos h.outputName.2)

theorem IsInput.neighbours_below {j : String × Direction} {directory : String} (hi : IsInput t i)
    (hj : IsInput t j) (houtput : c.output = some directory) :
    Tree.Neighbours (c.target i) (c.target j) := by
  obtain ⟨base, hbase, -, hjoin⟩ := Path.exists_base_join directory
  rw [hi.target_below houtput, hj.target_below houtput, hjoin, hjoin]
  exact ⟨base, _, _, hbase, hi.outputName, hj.outputName, rfl, rfl⟩

theorem exists_shared (c : Command) (h : ∀ i ∈ is, IsInput t i) :
    ∃ T, Tree.Shared t T (is.map c.target) := by
  cases houtput : c.output with
  | none =>
    refine ⟨t, Tree.shared_of_found fun path hpath => ?_⟩
    obtain ⟨i, hi, rfl⟩ := List.mem_map.mp hpath
    exact ⟨i.1, (h i hi).isFile, (h i hi).neighbours_beside houtput⟩
  | some directory =>
    cases is with
    | nil => exact ⟨t, .nil t⟩
    | cons i is =>
      refine ⟨(t.prepare (c.target i)).1, Tree.shared_of_neighbours t fun path hpath => ?_⟩
      obtain ⟨j, hj, rfl⟩ := List.mem_map.mp hpath
      exact (h i List.mem_cons_self).neighbours_below (h j hj) houtput

/-- No output path leads to where another output path or an input path leads. -/
structure Clear (c : Command) (t : Tree) (is : List (String × Direction)) : Prop where
  targets : (is.map fun i => t.place (c.target i)).Nodup
  sources : ∀ i ∈ is, ∀ j ∈ is, t.place (c.target i) ≠ t.place j.1

theorem reached_turn {x : Option Writing} {paths : List String} (hshared : Tree.Shared t T paths)
    (hpath : c.target i ∈ paths) (h : Tree.Reached t T paths S w.tree) (hturn : Turn c i w x v) :
    ∃ S' ⊆ t.place (c.target i) :: S, Tree.Reached t T paths S' v.tree := by
  cases hturn with
  | failed r => exact ⟨S, List.subset_cons_self _ _, h⟩
  | told quiet e he r => exact ⟨S, List.subset_cons_self _ _, h⟩
  | @refused tree content writes write r =>
    have hreached := h.write hshared hpath content c.force
    rw [write] at hreached
    exact hreached
  | @written tree content writes write r =>
    have hreached := h.write hshared hpath content c.force
    rw [write] at hreached
    exact hreached

theorem reached_processAll {paths : List String} (hshared : Tree.Shared t T paths)
    (hpaths : ∀ i ∈ is, c.target i ∈ paths) (h : Tree.Reached t T paths S w.tree) :
    ∃ S' ⊆ S ++ is.map (fun i => t.place (c.target i)),
      Tree.Reached t T paths S' (processAll c is w).tree := by
  induction is generalizing S w with
  | nil => exact ⟨S, by simp, h⟩
  | cons i is ih =>
    obtain ⟨hi, his⟩ := List.forall_mem_cons.mp hpaths
    obtain ⟨S', hS', hnext⟩ := reached_turn hshared hi h (turn_processFile c i w)
    obtain ⟨S'', hS'', hlast⟩ := ih his hnext
    refine ⟨S'', fun p hp => ?_, hlast⟩
    have hmem := hS'' hp
    simp only [List.map_cons, List.mem_append, List.mem_cons] at hmem ⊢
    rcases hmem with hp | hp
    · have hnow := hS' hp
      simp only [List.mem_cons] at hnow
      tauto
    · exact .inr (.inr hp)

theorem convert_congr {d : Direction} {path : String} {es es' : List Event}
    (hread : u.read path = t.read path) (htext : u.readText path = t.readText path) :
    convert c d path ⟨u, r, es⟩ = convert c d path ⟨t, r, es'⟩ := by
  unfold convert Decompilation.ofPath Compilation.ofPath
  rw [hread, htext]

theorem processFile_congr (hconvert : (convert c i.2 i.1 w).1 = (convert c i.2 i.1 v).1)
    (hwrite : ∀ content, (w.tree.write (c.target i) content c.force).2 =
      (v.tree.write (c.target i) content c.force).2) :
    (processFile c i.2 i.1 w).2 = (processFile c i.2 i.1 v).2 ∧
      (∃ told, (processFile c i.2 i.1 w).1.events = w.events ++ told ∧
        (processFile c i.2 i.1 v).1.events = v.events ++ told) ∧
      writing? c i w = writing? c i v := by
  unfold processFile writing?
  generalize convert c i.2 i.1 w = x at hconvert
  generalize convert c i.2 i.1 v = y at hconvert
  obtain ⟨result, r⟩ := x
  obtain ⟨result', s⟩ := y
  obtain rfl : result = result' := hconvert
  rcases result with trouble | content
  · exact ⟨rfl, ⟨[], by simp⟩, rfl⟩
  · have htold : told c i content w.tree = told c i content v.tree := by
      rw [told, told, hwrite]
    dsimp only
    rw [deliver_eq, deliver_eq, hwrite, htold]
    exact ⟨rfl, ⟨_, rfl, rfl⟩, rfl⟩

theorem registry_processFile (c : Command) (i : String × Direction) (w : World) :
    (processFile c i.2 i.1 w).1.registry = (convert c i.2 i.1 w).2 := by
  unfold processFile
  rcases convert c i.2 i.1 w with ⟨trouble | content, r⟩
  · rfl
  · dsimp only
    rw [deliver_eq]

theorem Account.file? (h : Account c t log u) (p : Place) :
    u.file? p = match lastAt c t p log with
      | some x => some x.content
      | none => t.file? p := by
  cases hlast : lastAt c t p log with
  | some x => rw [Tree.file?, h.written p x hlast]
  | none =>
    rcases h.other p hlast with hsame | ⟨hnone, hdirectory⟩
    · rw [Tree.file?, Tree.file?, hsame]
    · rw [Tree.file?, Tree.file?, hnone, hdirectory]

theorem lastAt_account_of_notMem (h : p ∉ is.map fun i => t.place (c.target i)) (w : World) :
    lastAt c t p (account c is w) = none := by
  rw [lastAt, List.find?_eq_none]
  intro x hx hplace
  obtain ⟨before, after, rfl, -⟩ := exists_turn_of_mem_account (List.mem_reverse.mp hx)
  apply h
  simpa using .inr (.inl (of_decide_eq_true hplace).symm)

theorem lastAt_account (h : ((before ++ i :: after).map fun i => t.place (c.target i)).Nodup)
    (w : World) : lastAt c t (t.place (c.target i)) (account c (before ++ i :: after) w) =
      writing? c i (processAll c before w) := by
  rw [List.map_append, List.map_cons, List.nodup_append, List.nodup_cons] at h
  obtain ⟨-, ⟨hafter, -⟩, hbefore⟩ := h
  have hbefore : t.place (c.target i) ∉ before.map fun i => t.place (c.target i) :=
    fun hmem => hbefore _ hmem _ List.mem_cons_self rfl
  rw [account_append, account, lastAt_append, lastAt_append, lastAt_account_of_notMem hafter,
    lastAt_account_of_notMem hbefore, Option.none_or, Option.or_none]
  cases hx : writing? c i (processAll c before w) with
  | none => rfl
  | some x => simp [lastAt, input_of_writing? hx]

theorem file?_processAll (before after : List (String × Direction))
    (h : ((before ++ i :: after).map fun i => t.place (c.target i)).Nodup) (hw : w.tree = t) :
    (processAll c (before ++ i :: after) w).tree.file? (t.place (c.target i)) =
      match writing? c i (processAll c before w) with
      | some x => some x.content
      | none => t.file? (t.place (c.target i)) := by
  have haccount := Account.nil c t
  rw [← hw] at haccount
  rw [(haccount.processAll (before ++ i :: after)).file?, List.nil_append, hw, lastAt_account h]

structure Outcome where
  trouble : Option Trouble
  told : List Event
  file : Option (List UInt8)

def alone (c : Command) (t : Tree) (r : Registry) (i : String × Direction) : Outcome :=
  let run := runFile c i.1 ⟨t, r, []⟩
  ⟨run.2, run.1.events, run.1.tree.file? (t.place (c.target i))⟩

def among (c : Command) (t : Tree) (r : Registry) (before : List (String × Direction))
    (i : String × Direction) (after : List (String × Direction)) : Outcome :=
  let turn := processAll c before ⟨t, r, []⟩
  let next := processFile c i.2 i.1 turn
  ⟨next.2, next.1.events.drop turn.events.length,
    (processAll c after next.1).tree.file? (t.place (c.target i))⟩

theorem IsInput.exists? (h : IsInput t i) : t.exists? i.1 := by
  obtain ⟨bytes, hfind, -⟩ := Tree.isFile_iff.mp h.isFile
  rw [Tree.exists?, hfind]
  rfl

theorem IsInput.files (h : IsInput t i) (c : Command) :
    { c with input := .file i.1 }.files t = [i] := by
  simp [Command.files, h.exists?, h.isFile, h.direction]

theorem IsInput.runFile_eq (h : IsInput t i) (c : Command) (r : Registry) (es : List Event) :
    runFile c i.1 ⟨t, r, es⟩ = processFile c i.2 i.1 ⟨t, r, es⟩ := by
  simp only [runFile, h.exists?, h.isFile, h.direction]
  rfl

theorem IsInput.file_alone (h : IsInput t i) (c : Command) (r : Registry) :
    (alone c t r i).file = match writing? c i ⟨t, r, []⟩ with
      | some x => some x.content
      | none => t.file? (t.place (c.target i)) := by
  have hsingle := file?_processAll (c := c) (i := i) (w := ⟨t, r, []⟩) [] [] (by simp) rfl
  rw [alone, h.runFile_eq]
  exact hsingle

theorem exists_reached (h : ∀ j ∈ is, IsInput t j) (hbefore : before ⊆ is) (r : Registry) :
    ∃ T S, Tree.Shared t T (is.map c.target) ∧
      S ⊆ before.map (fun j => t.place (c.target j)) ∧
      Tree.Reached t T (is.map c.target) S (processAll c before ⟨t, r, []⟩).tree := by
  obtain ⟨T, hshared⟩ := exists_shared c h
  obtain ⟨S, hS, hreached⟩ := reached_processAll (w := ⟨t, r, []⟩) hshared
    (fun j hj => List.mem_map_of_mem (hbefore hj)) (.start (t := t))
  exact ⟨T, S, hshared, hS, hreached⟩

theorem convert_turn (h : ∀ j ∈ before, IsInput t j) (hi : IsInput t i)
    (hfree : ∀ j ∈ before, t.place (c.target j) ≠ t.place i.1) (r : Registry) :
    let turn := processAll c before ⟨t, r, []⟩
    convert c i.2 i.1 turn = convert c i.2 i.1 ⟨t, turn.registry, []⟩ := by
  intro turn
  obtain ⟨T, S, -, hS, hreached⟩ := exists_reached (c := c) h (List.Subset.refl _) r
  have hsource : t.place i.1 ∉ S := by
    intro hin
    obtain ⟨j, hj, hplace⟩ := List.mem_map.mp (hS hin)
    exact hfree j hj hplace
  exact convert_congr (hreached.read hi.isFile hsource) (hreached.readText hi.isFile hsource)

theorem turn_congr (h : ∀ j ∈ before ++ i :: after, IsInput t j)
    (hclear : Clear c t (before ++ i :: after)) (r : Registry) :
    let turn := processAll c before ⟨t, r, []⟩
    convert c i.2 i.1 turn = convert c i.2 i.1 ⟨t, turn.registry, []⟩ ∧
      ∀ content, (turn.tree.write (c.target i) content c.force).2 =
        (t.write (c.target i) content c.force).2 := by
  intro turn
  have hbefore : before ⊆ before ++ i :: after := List.subset_append_left _ _
  have hi : i ∈ before ++ i :: after := by simp
  refine ⟨convert_turn (fun j hj => h j (hbefore hj)) (h i hi)
    (fun j hj => hclear.sources j (hbefore hj) i hi) r, fun content => ?_⟩
  obtain ⟨T, S, hshared, hS, hreached⟩ := exists_reached (c := c) h hbefore r
  -- The places that have been written at are outputs of inputs before, so none of them is in the way.
  have htarget : t.place (c.target i) ∉ S := by
    intro hin
    have hnodup := hclear.targets
    rw [List.map_append, List.map_cons, List.nodup_append] at hnodup
    exact hnodup.2.2 _ (hS hin) _ List.mem_cons_self rfl
  rw [Bool.eq_iff_iff, Tree.write_snd_iff, Tree.write_snd_iff]
  exact hreached.admits_iff hshared (List.mem_map_of_mem hi) htarget

theorem among_eq_alone (h : ∀ j ∈ before ++ i :: after, IsInput t j)
    (hclear : Clear c t (before ++ i :: after)) (r : Registry) :
    among c t r before i after = alone c t (processAll c before ⟨t, r, []⟩).registry i := by
  have hi := h i (by simp)
  obtain ⟨hconvert, hwrite⟩ := turn_congr h hclear r
  obtain ⟨htrouble, ⟨told, hturn, halone⟩, hwriting⟩ :=
    processFile_congr (congrArg Prod.fst hconvert) hwrite
  have hfile := file?_processAll (w := ⟨t, r, []⟩) before after hclear.targets rfl
  rw [hwriting, ← hi.file_alone] at hfile
  have hsplit : processAll c (before ++ i :: after) ⟨t, r, []⟩ =
      processAll c after (processFile c i.2 i.1 (processAll c before ⟨t, r, []⟩)).1 := by
    rw [processAll, List.foldl_append]
    rfl
  rw [hsplit] at hfile
  simp only [among, hfile, alone, hi.runFile_eq, htrouble, hturn, halone, List.drop_left,
    List.nil_append]

def delivered (c : Command) (t : Tree) (i : String × Direction) (content : List UInt8) : Outcome :=
  ⟨none, told c i content t,
    if c.writes && (t.write (c.target i) content c.force).2 then some content
    else t.file? (t.place (c.target i))⟩

theorem IsInput.alone_eq (h : IsInput t i) (c : Command) (r : Registry) :
    alone c t r i = match (convert c i.2 i.1 ⟨t, r, []⟩).1 with
      | .error trouble => ⟨some trouble, [], t.file? (t.place (c.target i))⟩
      | .ok content => delivered c t i content := by
  have hfile := h.file_alone c r
  unfold alone at hfile ⊢
  rw [h.runFile_eq] at hfile ⊢
  dsimp only at hfile ⊢
  rw [hfile]
  unfold processFile writing? delivered
  rcases convert c i.2 i.1 ⟨t, r, []⟩ with ⟨trouble | content, s⟩
  · rfl
  · dsimp only
    rw [deliver_eq]
    cases hdone : c.writes && (t.write (c.target i) content c.force).2 <;> simp

def Contains (t : Tree) (path : String) (items : List Item) : Prop :=
  ∃ bytes, t.read path = .ok bytes ∧
    (Contents.ofBytes {} bytes).expanded Lzss.expander = .ok items

/-- The outcomes of one input under two registries: the same, or texts of the items in it, where a
key occurs that the registries name differently. -/
inductive Retold (c : Command) (t : Tree) (i : String × Direction) (r s : Registry) :
    Outcome → Outcome → Prop
  | same (o : Outcome) : Retold c t i r s o o
  | renamed (decompiles : i.2 = .decompile) {items : List Item} (contains : Contains t i.1 items)
      (k : Key) (named : ∃ item ∈ items, item.Names {} k) (differs : r.resolve k ≠ s.resolve k) :
      Retold c t i r s (delivered c t i (Text.utf8 (Readable.text r {} items)))
        (delivered c t i (Text.utf8 (Readable.text s {} items)))

theorem convert_compile_eq {path source : String} {file : List UInt8} {s : Registry}
    {es : List Event} (hread : t.readText path = .ok source) (hgame : c.options.game.canCompile)
    (hfile : Compiled.ofSource { container := Key.ofName (Path.name path), game := c.options.game }
      source r = (.ok file, s)) : convert c .compile path ⟨t, r, es⟩ = (.ok file, s) := by
  simp only [convert, Compilation.ofPath, hread, Except.map, Compilation.run, Conversion.runWith,
    Compilation.work, hgame, if_true, hfile, Except.mapError]

theorem convert_compile_congr (c : Command) (path : String) (t : Tree) (r s : Registry) :
    (convert c .compile path ⟨t, r, []⟩).1 = (convert c .compile path ⟨t, s, []⟩).1 := by
  unfold convert
  dsimp only
  cases Compilation.ofPath t path c.options with
  | error e => rfl
  | ok job => exact congrArg (Except.mapError _) (job.run_congr r s).1

theorem Contains.convert_eq {path : String} {items : List Item} (h : Contains t path items)
    (c : Command) (r : Registry) : (convert c .decompile path ⟨t, r, []⟩).1 =
      .ok (Text.utf8 (Readable.text r {} items)) := by
  obtain ⟨bytes, hread, hitems⟩ := h
  unfold convert Decompilation.ofPath
  dsimp only
  rw [hread]
  simp only [Except.map, Decompilation.run, Conversion.runWith, Decompilation.work,
    Readable.ofBytes, hitems]
  rfl

theorem convert_decompile_cases (c : Command) (path : String) (t : Tree) :
    (∃ trouble, ∀ r, (convert c .decompile path ⟨t, r, []⟩).1 = .error trouble) ∨
      ∃ items, Contains t path items := by
  cases hread : t.read path with
  | error e =>
    refine .inl ⟨⟨s!"Failed to open input file: {path}", some e⟩, fun r => ?_⟩
    simp only [convert, Decompilation.ofPath, hread, Except.map]
  | ok bytes =>
    cases hitems : (Contents.ofBytes {} bytes).expanded Lzss.expander with
    | error e =>
      refine .inl ⟨⟨s!"Failed to process {path}", some e⟩, fun r => ?_⟩
      simp only [convert, Decompilation.ofPath, hread, Except.map, Decompilation.run,
        Conversion.runWith, Decompilation.work, Readable.ofBytes, hitems, Except.mapError]
    | ok items => exact .inr ⟨items, bytes, hread, hitems⟩

theorem IsInput.alone_congr (h : IsInput t i) (hcompile : i.2 = .compile) (c : Command)
    (r s : Registry) : alone c t r i = alone c t s i := by
  rw [h.alone_eq, h.alone_eq, hcompile, convert_compile_congr c i.1 t r s]

theorem IsInput.retold_alone (h : IsInput t i) (c : Command) (r s : Registry) :
    Retold c t i r s (alone c t r i) (alone c t s i) := by
  cases hdirection : i.2 with
  | compile =>
    rw [h.alone_congr hdirection c r s]
    exact .same _
  | decompile =>
    rw [h.alone_eq, h.alone_eq, hdirection]
    rcases convert_decompile_cases c i.1 t with ⟨trouble, htrouble⟩ | ⟨items, hcontains⟩
    · rw [htrouble, htrouble]
      exact .same _
    · rw [hcontains.convert_eq, hcontains.convert_eq]
      by_cases hnames : ∀ item ∈ items, ∀ k, item.Names {} k → r.resolve k = s.resolve k
      · rw [Readable.text_congr hnames]
        exact .same _
      · push Not at hnames
        obtain ⟨item, hitem, k, hk, hdiffers⟩ := hnames
        exact .renamed hdirection hcontains k ⟨item, hitem, hk⟩ hdiffers

theorem Retold.isSome_file {o o' : Outcome} {r s : Registry} (h : Retold c t i r s o o') :
    o.file.isSome = o'.file.isSome := by
  cases h with
  | same => rfl
  | @renamed decompiles items contains k named differs =>
    rw [delivered, delivered,
      Tree.write_snd_congr t (c.target i) _ (Text.utf8 (Readable.text s {} items))]
    dsimp only
    split <;> rfl

theorem registry_processAll_of_decompile (h : ∀ i ∈ is, i.2 = .decompile) (w : World) :
    (processAll c is w).registry = w.registry := by
  induction is generalizing w with
  | nil => rfl
  | cons i is ih =>
    obtain ⟨hi, his⟩ := List.forall_mem_cons.mp h
    refine (ih his _).trans ((registry_processFile c i w).trans ?_)
    unfold convert
    rw [hi]
    dsimp only
    cases Decompilation.ofPath w.tree i.1 {} c.options with
    | error e => rfl
    | ok job =>
      simp only [Decompilation.run, Conversion.runWith]
      split <;> rfl

theorem Clear.perm (h : Clear c t is) (horder : order.Perm is) : Clear c t order where
  targets := ((horder.map _).nodup_iff).mpr h.targets
  sources i hi j hj := h.sources i (horder.subset hi) j (horder.subset hj)

theorem file_among (c : Command) (t : Tree) (r : Registry) (before : List (String × Direction))
    (i : String × Direction) (after : List (String × Direction)) :
    (among c t r before i after).file =
      (processAll c (before ++ i :: after) ⟨t, r, []⟩).tree.file? (t.place (c.target i)) := by
  rw [processAll, List.foldl_append]
  rfl

theorem exists_file?_eq_alone (h : ∀ j ∈ order, IsInput t j) (hclear : Clear c t order)
    (r : Registry) (hi : i ∈ order) : ∃ names,
      (processAll c order ⟨t, r, []⟩).tree.file? (t.place (c.target i)) =
        (alone c t names i).file := by
  obtain ⟨before, after, rfl⟩ := List.append_of_mem hi
  exact ⟨_, by rw [← file_among, among_eq_alone h hclear]⟩

theorem file?_processAll_of_notMem (h : p ∉ is.map fun i => t.place (c.target i)) (r : Registry) :
    (processAll c is ⟨t, r, []⟩).tree.file? p = t.file? p := by
  rw [((Account.nil c t).processAll (w := ⟨t, r, []⟩) is).file?, List.nil_append,
    lastAt_account_of_notMem h]

theorem file?_processAll_perm {order' : List (String × Direction)} (h : ∀ j ∈ order, IsInput t j)
    (hclear : Clear c t order) (horder : order'.Perm order) (r : Registry) (p : Place) :
    ((processAll c order ⟨t, r, []⟩).tree.file? p).isSome =
        ((processAll c order' ⟨t, r, []⟩).tree.file? p).isSome ∧
      ((∀ i ∈ order, t.place (c.target i) = p → i.2 = .compile) →
        (processAll c order ⟨t, r, []⟩).tree.file? p =
          (processAll c order' ⟨t, r, []⟩).tree.file? p) := by
  by_cases hp : p ∈ order.map fun i => t.place (c.target i)
  · obtain ⟨i, hi, rfl⟩ := List.mem_map.mp hp
    obtain ⟨names, hfile⟩ := exists_file?_eq_alone h hclear r hi
    obtain ⟨names', hfile'⟩ := exists_file?_eq_alone (fun j hj => h j (horder.subset hj))
      (hclear.perm horder) r (horder.symm.subset hi)
    rw [hfile, hfile']
    refine ⟨((h i hi).retold_alone c names names').isSome_file, fun hcompile => ?_⟩
    rw [(h i hi).alone_congr (hcompile i hi rfl) c names names']
  · have hp' : p ∉ order'.map fun i => t.place (c.target i) :=
      fun hmem => hp ((horder.map _).subset hmem)
    rw [file?_processAll_of_notMem hp, file?_processAll_of_notMem hp']
    exact ⟨rfl, fun _ => rfl⟩

/-- Where no output path leads to another output or to an input, a directory may be visited in any
order: the same files are there in the end, and those that are no decompiled text have the same
bytes. Each input fares among the others as it does alone under the names that are known at its
turn, and that is how it fares under those of the start, unless it is decompiled and a key occurs in
it that inputs before it have named. Only compiled inputs give names. -/
theorem processAll_inAnyOrder {directory : String} (ht : t.WellFormed)
    (hclear : Clear c t (inputsBelow t directory)) (r : Registry)
    (horder : order.Perm (inputsBelow t directory)) :
    (∀ order', order'.Perm (inputsBelow t directory) → ∀ p,
      let final := (processAll c order ⟨t, r, []⟩).tree
      let final' := (processAll c order' ⟨t, r, []⟩).tree
      (final.file? p).isSome = (final'.file? p).isSome ∧
        ((∀ i ∈ order, t.place (c.target i) = p → i.2 = .compile) →
          final.file? p = final'.file? p)) ∧
    ∀ before i after, order = before ++ i :: after →
      let names := (processAll c before ⟨t, r, []⟩).registry
      among c t r before i after = alone c t names i ∧
        Retold c t i names r (alone c t names i) (alone c t r i) ∧
        ((∀ j ∈ before, j.2 = .decompile) → names = r) := by
  have hinputs : ∀ i ∈ order, IsInput t i := fun i hi => isInput_of_mem ht (horder.subset hi)
  have hclear' := hclear.perm horder
  constructor
  · intro order' horder' p
    exact file?_processAll_perm hinputs hclear' (horder'.trans horder.symm) r p
  · rintro before i after rfl
    intro names
    exact ⟨among_eq_alone hinputs hclear' r, (hinputs i (by simp)).retold_alone c names r,
      fun hdecompile => registry_processAll_of_decompile hdecompile _⟩

theorem processAll_withInput (c : Command) (input : Input) (is : List (String × Direction))
    (w : World) : processAll { c with input } is w = processAll c is w := by
  simp only [processAll, processFile, convert, deliver, Command.options]

def oneInteger : List UInt8 := [0, 0, 0, 0, 0, 0, 0, 44, 0, 0, 0, 0, 0, 0, 0, 0, 0, 0, 0, 0, 0, 0,
  0, 0, 0, 0, 0, 0, 0, 32, 1, 0, 195, 244, 22, 154, 103, 232, 113, 37, 0, 0, 0, 1]

def twoSpellings : Tree where
  home := ["home"]
  entries := [(["home"], .directory), (["home", "in"], .directory),
    (["home", "in", "a.q"], .file (Text.utf8 "FILENAME = 1")),
    (["home", "in", "b.qb"], .file oneInteger)]

def plainCommand : Command := ⟨.directory "in", none, .ghwt, [], 0, false, false, false⟩

theorem wellFormed_twoSpellings : twoSpellings.WellFormed :=
  ⟨by decide, by decide, by decide⟩

theorem inputsBelow_twoSpellings :
    inputsBelow twoSpellings "in" = [("in/a.q", .compile), ("in/b.qb", .decompile)] := by
  decide +kernel

theorem clear_twoSpellings : Clear plainCommand twoSpellings (inputsBelow twoSpellings "in") := by
  rw [inputsBelow_twoSpellings]
  exact ⟨by decide, by decide⟩

theorem expanded_oneInteger : (Contents.ofBytes {} oneInteger).expanded Lzss.expander =
    .ok [.integer 3287553690 1743286565 1] := by
  have hsome : ((Contents.ofBytes {} oneInteger).expanded Lzss.expander).toOption =
      some [.integer 3287553690 1743286565 1] := by decide +kernel
  cases h : (Contents.ofBytes {} oneInteger).expanded Lzss.expander with
  | error e =>
    rw [h] at hsome
    cases hsome
  | ok items =>
    rw [h] at hsome
    rw [Option.some.inj hsome]

theorem text_oneInteger {r : Registry} {name : String} (h : r.resolve 3287553690 = some name) :
    Readable.text r {} [.integer 3287553690 1743286565 1] = name ++ " = 1\n" := by
  have hkey : r.spellKey 3287553690 = name := by rw [Registry.spellKey, h, Option.getD_some]
  have hvalue : " = ".toList ++ Text.signedNumeral (Int32.toInt 1) = " = 1".toList := by decide
  have hitem : Item.text r {} (.integer 3287553690 1743286565 1) =
      name.toList ++ " = 1".toList := by
    unfold Item.text
    dsimp only
    rw [hkey, List.append_assoc]
    rw [hvalue]
  apply String.toList_inj.mp
  rw [Readable.text, String.toList_ofList, List.flatMap_singleton, hitem, String.toList_append,
    List.append_assoc]
  rfl

theorem file_alone_twoSpellings {r : Registry} {name : String}
    (h : r.resolve 3287553690 = some name) :
    (alone plainCommand twoSpellings r ("in/b.qb", .decompile)).file =
      some (Text.utf8 (name ++ " = 1\n")) := by
  have hinput : IsInput twoSpellings ("in/b.qb", .decompile) := by
    have hmem : ("in/b.qb", .decompile) ∈ inputsBelow twoSpellings "in" := by
      rw [inputsBelow_twoSpellings]
      simp
    exact isInput_of_mem wellFormed_twoSpellings hmem
  have hread : twoSpellings.read "in/b.qb" = .ok oneInteger := by
    have hnode : twoSpellings.node? "in/b.qb" = some (.file oneInteger) := rfl
    rw [Tree.read, hnode]
  have hwrite : plainCommand.writes && (twoSpellings.write "in/b.q" [] plainCommand.force).2 := rfl
  have htarget : plainCommand.target ("in/b.qb", .decompile) = "in/b.q" := rfl
  rw [hinput.alone_eq]
  dsimp only
  rw [Contains.convert_eq ⟨_, hread, expanded_oneInteger⟩, text_oneInteger h]
  dsimp only
  rw [delivered, htarget, Tree.write_snd_congr _ _ _ [], if_pos hwrite]

theorem resolve_standard : Registry.standard.resolve 3287553690 = some "filename" := by
  have hkey : Key.ofName "filename" = 3287553690 := by decide +kernel
  have hnames : Registry.standardNames = Registry.standardNames.dropLast ++ ["filename"] := rfl
  rw [Registry.standard, hnames, Registry.addAll, List.foldl_append]
  rw [List.foldl_cons, List.foldl_nil, Registry.resolve_add, if_pos hkey.symm]

theorem resolve_afterSource (r : Registry) : ((processAll plainCommand [("in/a.q", .compile)]
    ⟨twoSpellings, r, []⟩).registry).resolve 3287553690 = some "FILENAME" := by
  have hkey : Key.ofName "FILENAME" = 3287553690 := by decide +kernel
  have hnames : Statement.newNames "FILENAME" = ["FILENAME"] := by decide
  have hls : Source.lexemes "FILENAME = 1" =
      .ok [⟨.name "FILENAME", 0⟩, ⟨.mark .equals, 9⟩, ⟨.int 1, 11⟩] := by
    apply Source.lexemes_of_toOption
    decide +kernel
  have hread : twoSpellings.readText "in/a.q" = .ok "FILENAME = 1" := Tree.readText_of_node? rfl
  have hfile := Compiled.ofSource_eq (t := ⟨Key.ofName (Path.name "in/a.q"), .big, .ghwt⟩) hls
    (.value (.name "FILENAME") 1 .nil) r
  rw [hnames, List.append_nil] at hfile
  have hconvert : (convert plainCommand .compile "in/a.q" ⟨twoSpellings, r, []⟩).2 =
      r.addAll ["FILENAME"] := by
    rw [convert_compile_eq (c := plainCommand) hread (by decide) hfile]
  have hturn := registry_processFile plainCommand ("in/a.q", .compile) ⟨twoSpellings, r, []⟩
  rw [processAll, List.foldl_cons, List.foldl_nil, hturn, hconvert, Registry.addAll,
    List.foldl_cons, List.foldl_nil, Registry.resolve_add, if_pos hkey.symm]

theorem isInput_twoSpellings : ∀ i ∈ [("in/a.q", Direction.compile), ("in/b.qb", .decompile)],
    IsInput twoSpellings i := by
  rw [← inputsBelow_twoSpellings]
  exact fun i hi => isInput_of_mem wellFormed_twoSpellings hi

theorem place_twoSpellings :
    twoSpellings.place (plainCommand.target ("in/b.qb", .decompile)) = ["home", "in", "b.q"] := rfl

theorem file?_twoSpellings (before after : List (String × Direction))
    (hperm : (before ++ ("in/b.qb", .decompile) :: after).Perm
      [("in/a.q", .compile), ("in/b.qb", .decompile)]) {r : Registry} {name : String}
    (hname : (processAll plainCommand before ⟨twoSpellings, r, []⟩).registry.resolve 3287553690 =
      some name) :
    (processAll plainCommand (before ++ ("in/b.qb", .decompile) :: after)
      ⟨twoSpellings, r, []⟩).tree.file? ["home", "in", "b.q"] =
        some (Text.utf8 (name ++ " = 1\n")) := by
  have hclear := clear_twoSpellings
  rw [inputsBelow_twoSpellings] at hclear
  rw [← place_twoSpellings, ← file_among,
    among_eq_alone (fun i hi => isInput_twoSpellings i (hperm.subset hi)) (hclear.perm hperm),
    file_alone_twoSpellings hname]

theorem tree_run_directory : (run ["--directory", "in"] none twoSpellings).tree =
    (processAll plainCommand [("in/a.q", .compile), ("in/b.qb", .decompile)]
      ⟨twoSpellings, Registry.standard, []⟩).tree := by
  have hfound : twoSpellings.exists? "in" && twoSpellings.isDirectory "in" := by decide
  have hinput : plainCommand.input = .directory "in" := rfl
  have hprocesses : Processes ["--directory", "in"] none twoSpellings plainCommand
      Registry.standard := ⟨rfl, by simp [plainCommand], rfl⟩
  rw [tree_run hprocesses, Command.files, hinput]
  dsimp only
  rw [if_pos hfound, inputsBelow_twoSpellings]

theorem tree_run_file : (run ["--file", "in/b.qb"] none twoSpellings).tree =
    (runFile plainCommand "in/b.qb" ⟨twoSpellings, Registry.standard, []⟩).1.tree := by
  have hprocesses : Processes ["--file", "in/b.qb"] none twoSpellings
      { plainCommand with input := .file "in/b.qb" } Registry.standard := ⟨rfl, by simp, rfl⟩
  have hinput := isInput_twoSpellings ("in/b.qb", .decompile) (by simp)
  rw [tree_run hprocesses, hinput.files plainCommand, processAll_withInput, hinput.runFile_eq,
    processAll, List.foldl_cons, List.foldl_nil]

theorem processAll_inAnyOrder_twoSpellings :
    let a : String × Direction := ("in/a.q", .compile)
    let b : String × Direction := ("in/b.qb", .decompile)
    let final (order : List (String × Direction)) :=
      (processAll plainCommand order ⟨twoSpellings, Registry.standard, []⟩).tree
    ((final [b, a]).file? ["home", "in", "b.q"]).isSome =
        ((final [a, b]).file? ["home", "in", "b.q"]).isSome ∧
      (final [b, a]).file? ["home", "in", "a.qb"] = (final [a, b]).file? ["home", "in", "a.qb"] ∧
      among plainCommand twoSpellings Registry.standard [] b [a] =
        alone plainCommand twoSpellings Registry.standard b ∧
      among plainCommand twoSpellings Registry.standard [b] a [] =
        alone plainCommand twoSpellings Registry.standard a := by
  intro a b final
  have horder : [b, a].Perm (inputsBelow twoSpellings "in") := by
    rw [inputsBelow_twoSpellings]
    exact .swap a b []
  obtain ⟨hfiles, hturns⟩ := processAll_inAnyOrder wellFormed_twoSpellings clear_twoSpellings
    Registry.standard horder
  obtain ⟨hsome, -⟩ := hfiles [a, b] (by rw [inputsBelow_twoSpellings]) ["home", "in", "b.q"]
  obtain ⟨-, hsame⟩ := hfiles [a, b] (by rw [inputsBelow_twoSpellings]) ["home", "in", "a.qb"]
  obtain ⟨hb, -, hnames⟩ := hturns [] b [a] rfl
  obtain ⟨ha, hretold, hnames'⟩ := hturns [b] a [] rfl
  refine ⟨hsome, hsame ?_, ?_, ?_⟩
  · decide
  · rw [hb, hnames (by simp)]
  · rw [ha, hnames' (by simp [b])]

/-- A name that a source spells in its own way is spelled so in a file that is decompiled later, not
in one that was decompiled before or that is decompiled alone. -/
theorem not_processAll_inAnyOrder :
    let a : String × Direction := ("in/a.q", .compile)
    let b : String × Direction := ("in/b.qb", .decompile)
    let final (order : List (String × Direction)) :=
      (processAll plainCommand order ⟨twoSpellings, Registry.standard, []⟩).tree
    twoSpellings.WellFormed ∧ inputsBelow twoSpellings "in" = [a, b] ∧
      Clear plainCommand twoSpellings [a, b] ∧
      (final [a, b]).file? ["home", "in", "b.q"] = some (Text.utf8 "FILENAME = 1\n") ∧
      (final [b, a]).file? ["home", "in", "b.q"] = some (Text.utf8 "filename = 1\n") ∧
      (run ["--directory", "in"] none twoSpellings).tree = final [a, b] ∧
      (run ["--file", "in/b.qb"] none twoSpellings).tree.file? ["home", "in", "b.q"] =
        some (Text.utf8 "filename = 1\n") := by
  intro a b final
  have hclear := clear_twoSpellings
  rw [inputsBelow_twoSpellings] at hclear
  refine ⟨wellFormed_twoSpellings, inputsBelow_twoSpellings, hclear, ?_, ?_, tree_run_directory, ?_⟩
  · exact file?_twoSpellings [a] [] (.refl _) (resolve_afterSource Registry.standard)
  · have hstart : Registry.resolve
        (processAll plainCommand [] ⟨twoSpellings, Registry.standard, []⟩).registry 3287553690 =
          some "filename" := by
      rw [processAll, List.foldl_nil, resolve_standard]
    have hlater := file?_twoSpellings [] [a] (.swap a b []) hstart
    rw [List.nil_append] at hlater
    exact hlater
  · rw [tree_run_file, ← place_twoSpellings]
    exact file_alone_twoSpellings resolve_standard

end CommandLine

end QbCodec
