import QbCodec.Proofs.Tree.Writing

namespace QbCodec.Tree

variable {t u : Tree} {p q : Place} {path directory : String} {ps qs : List String}

theorem walk?_append : t.walk? p (ps ++ qs) = (t.walk? p ps).bind fun q => t.walk? q qs := by
  induction ps generalizing p with
  | nil => rfl
  | cons part ps ih =>
    rw [List.cons_append, walk?, walk?]
    split
    · exact ih
    · rfl

theorem walk?_cons_eq_some {part : String} : t.walk? p (part :: ps) = some q ↔
    t.get? p = some .directory ∧ (t.get? (child p part)).isSome ∧
      t.walk? (child p part) ps = some q := by
  simp [walk?, isDirectoryAt, and_assoc]

theorem eq_follow_of_walk? (h : t.walk? p ps = some q) : q = follow p ps := by
  induction ps generalizing p with
  | nil =>
    cases h
    rfl
  | cons part ps ih => exact ih (walk?_cons_eq_some.mp h).2.2

theorem find?_eq_some : t.find? path = some p ↔
    path ≠ "" ∧ Path.isFollowable path ∧ t.walk? (t.start path) (Path.parts path) = some p := by
  simp [find?, and_assoc]

theorem eq_place_of_find? (h : t.find? path = some p) : p = t.place path :=
  eq_follow_of_walk? (find?_eq_some.mp h).2.2

theorem get?_directory_of_walk? {part : String} (h : t.walk? p (ps ++ [part]) = some q) :
    t.get? p = some .directory ∧ ∀ a ∈ way p ps, t.get? a = some .directory := by
  induction ps generalizing p with
  | nil => exact ⟨(walk?_cons_eq_some.mp h).1, by simp [way]⟩
  | cons part ps ih =>
    obtain ⟨hp, -, hrest⟩ := walk?_cons_eq_some.mp h
    obtain ⟨hchild, hway⟩ := ih hrest
    exact ⟨hp, List.forall_mem_cons.mpr ⟨hchild, hway⟩⟩

structure Extends (t u : Tree) : Prop where
  home : u.home = t.home
  directory : ∀ p, t.get? p = some .directory → u.get? p = some .directory
  isSome : ∀ p, (t.get? p).isSome → (u.get? p).isSome

theorem Extends.walk? (h : Extends t u) (hwalk : t.walk? p ps = some q) :
    u.walk? p ps = some q := by
  induction ps generalizing p with
  | nil => exact hwalk
  | cons part ps ih =>
    obtain ⟨hp, hchild, hrest⟩ := walk?_cons_eq_some.mp hwalk
    exact walk?_cons_eq_some.mpr ⟨h.directory p hp, h.isSome _ hchild, ih hrest⟩

theorem Extends.find? (h : Extends t u) (hfind : t.find? path = some p) :
    u.find? path = some p := by
  obtain ⟨hne, hfollowable, hwalk⟩ := find?_eq_some.mp hfind
  have hstart : u.start path = t.start path := by rw [start, start, h.home]
  exact find?_eq_some.mpr ⟨hne, hfollowable, hstart ▸ h.walk? hwalk⟩

structure WellFormed (t : Tree) : Prop where
  nodup : (t.entries.map Prod.fst).Nodup
  names : ∀ e ∈ t.entries, ∀ name ∈ e.1, Path.isProper name ∧ Path.IsPart name
  above : ∀ e ∈ t.entries, t.get? e.1.dropLast = some .directory

theorem WellFormed.get?_of_mem {n : Node} (h : WellFormed t) (hmem : (p, n) ∈ t.entries)
    (hp : p ≠ []) : t.get? p = some n := by
  obtain ⟨before, after, hentries⟩ := List.append_of_mem hmem
  have hnodup := h.nodup
  rw [hentries, List.map_append, List.map_cons, List.nodup_append] at hnodup
  rw [get?, if_neg hp, List.lookup_eq_some_iff]
  refine ⟨before, after, hentries, fun e he => ?_⟩
  have hne := hnodup.2.2 e.1 (List.mem_map_of_mem he) p List.mem_cons_self
  simpa using Ne.symm hne

theorem exists_mem_of_isSome (h : (t.get? p).isSome) (hp : p ≠ []) : ∃ n, (p, n) ∈ t.entries := by
  obtain ⟨n, hn⟩ := Option.isSome_iff_exists.mp h
  rw [get?, if_neg hp] at hn
  obtain ⟨before, after, hentries, -⟩ := List.lookup_eq_some_iff.mp hn
  exact ⟨n, by simp [hentries]⟩

theorem WellFormed.walk?_names (h : WellFormed t) {names : List String}
    (hsome : (t.get? (p ++ names)).isSome) : t.walk? p names = some (p ++ names) := by
  induction names using List.reverseRecOn with
  | nil => rw [List.append_nil, walk?]
  | append_singleton names name ih =>
    rw [← List.append_assoc] at hsome ⊢
    obtain ⟨n, hmem⟩ := exists_mem_of_isSome hsome (by simp)
    obtain ⟨hproper, -⟩ := h.names _ hmem name (by simp)
    have habove := h.above _ hmem
    rw [List.dropLast_concat] at habove
    rw [walk?_append, ih (by simp [habove]), Option.bind_some, walk?_cons_eq_some,
      child_of_isProper hproper]
    exact ⟨habove, hsome, rfl⟩

theorem eq_append_of_below? {base place : Place} {names : List String}
    (h : below? base place = some names) : place = base ++ names ∧ names ≠ [] := by
  unfold below? at h
  split at h
  · rename_i hbase
    simp only [Bool.and_eq_true, List.isPrefixOf_iff_prefix, decide_eq_true_eq] at hbase
    obtain ⟨⟨rest, rfl⟩, hlength⟩ := hbase
    cases h
    rw [List.drop_left]
    refine ⟨rfl, ?_⟩
    rintro rfl
    simp at hlength
  · cases h

theorem walk?_join (hfind : t.find? directory = some p) (path : String) :
    t.walk? (t.start (Path.join directory path)) (Path.parts (Path.join directory path)) =
      t.walk? p (Path.parts path) := by
  obtain ⟨hne, -, hwalk⟩ := find?_eq_some.mp hfind
  obtain ⟨ps, hps, hjoin⟩ := Path.exists_parts_join directory
  rw [t.start_join (.inl hne), hjoin, walk?_append]
  rcases hps with hps | hps
  · rw [← hps, hwalk, Option.bind_some]
  · -- The directory ends in a slash, and the idle part behind that slash leads nowhere.
    rw [hps, walk?_append] at hwalk
    obtain ⟨q, hq, hidle⟩ := Option.bind_eq_some_iff.mp hwalk
    obtain rfl : p = q := eq_follow_of_walk? hidle
    rw [hq, Option.bind_some]

theorem WellFormed.find?_of_mem_filesBelow (h : WellFormed t)
    (hmem : path ∈ t.filesBelow directory) : ∃ names bytes, names ≠ [] ∧
      t.find? path = some (t.place directory ++ names) ∧
      t.get? (t.place directory ++ names) = some (.file bytes) := by
  unfold filesBelow at hmem
  split at hmem
  · cases hmem
  · rename_i base hbase
    obtain rfl := eq_place_of_find? hbase
    obtain ⟨hpaths, hfollowable⟩ := List.mem_filter.mp hmem
    obtain ⟨⟨place, n⟩, he, hpath⟩ := List.mem_filterMap.mp hpaths
    cases n with
    | directory => cases hpath
    | file bytes =>
      obtain ⟨names, hbelow, rfl⟩ := Option.map_eq_some_iff.mp hpath
      obtain ⟨rfl, hne⟩ := eq_append_of_below? hbelow
      have hget := h.get?_of_mem he (by simp [hne])
      have hparts : Path.parts ("/".intercalate names) = names :=
        Path.parts_intercalate hne fun name hname =>
          (h.names _ he name (List.mem_append_right _ hname)).2
      refine ⟨names, bytes, hne, find?_eq_some.mpr ⟨?_, hfollowable, ?_⟩, hget⟩
      · exact Path.join_ne_empty (find?_eq_some.mp hbase).1 _
      · rw [walk?_join hbase, hparts, h.walk?_names (by rw [hget]; rfl)]

theorem WellFormed.isFile_of_mem_filesBelow (h : WellFormed t)
    (hmem : path ∈ t.filesBelow directory) : t.isFile path := by
  obtain ⟨names, bytes, -, hfind, hget⟩ := h.find?_of_mem_filesBelow hmem
  simp [isFile, node?, hfind, hget]

theorem WellFormed.place_ne_of_mem_filesBelow (h : WellFormed t) {base : Place} {name : String}
    (hmem : path ∈ t.filesBelow directory) (houtside : ¬ t.place directory <+: base) :
    t.place path ≠ base ++ [name] := by
  obtain ⟨names, bytes, hne, hfind, -⟩ := h.find?_of_mem_filesBelow hmem
  obtain ⟨before, last, rfl⟩ := (List.eq_nil_or_concat names).resolve_left hne
  rw [← eq_place_of_find? hfind, List.concat_eq_append, ← List.append_assoc]
  intro hsame
  exact houtside ⟨before, (List.append_inj' hsame rfl).1⟩

end QbCodec.Tree
