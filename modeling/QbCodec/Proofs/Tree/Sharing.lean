import QbCodec.Proofs.Tree.Finding

/-!
Files that are written one after the other into directories that they share. What the first writing
makes of the directories serves all others, so that each file can be written if and only if it can
be written alone.
-/

namespace QbCodec

namespace Path

variable {base n m : String}

theorem isAbsolute_append_isPart (base : String) (hn : IsPart n) (hm : IsPart m) :
    isAbsolute (base ++ n) = isAbsolute (base ++ m) := by
  by_cases hbase : base = ""
  · simp only [hbase, String.empty_append, isAbsolute_of_isPart hn, isAbsolute_of_isPart hm]
  · rw [isAbsolute_append hbase, isAbsolute_append hbase]

theorem IsBase.name_append (h : IsBase base) (hn : IsPart n) : name (base ++ n) = n := by
  obtain ⟨ps, hps⟩ := h.exists_parts
  obtain ⟨qs, hqs⟩ := Path.exists_parts (base ++ n)
  rw [hps, parts_of_isPart hn] at hqs
  exact (List.append_inj_right' hqs rfl |> List.singleton_inj.mp).symm

theorem IsBase.parent_append (h : IsBase base) (hn : IsPart n) (hproper : isProper n)
    (hm : IsPart m) (hproper' : isProper m) : parent (base ++ n) = parent (base ++ m) := by
  obtain ⟨ps, hps⟩ := h.exists_parts
  rw [parent_of_parts (by rw [hps, parts_of_isPart hn]) hproper,
    parent_of_parts (by rw [hps, parts_of_isPart hm]) hproper']

end Path

namespace Tree

variable {t u T : Tree} {p q : Place} {path : String} {paths ps : List String} {S : List Place}
  {bytes : List UInt8} {force : Bool}

theorem makeDirectories_of_directory {part : String} (ps : List String)
    (h : t.get? (child p part) = some .directory) :
    t.makeDirectories p (part :: ps) = t.makeDirectories (child p part) ps := by
  rw [makeDirectories, h]

theorem makeDirectories_of_file {part : String} (ps : List String)
    (h : t.get? (child p part) = some (.file bytes)) :
    t.makeDirectories p (part :: ps) = (t, none) := by
  rw [makeDirectories, h]

theorem makeDirectories_of_none {part : String} (ps : List String)
    (h : t.get? (child p part) = none) : t.makeDirectories p (part :: ps) =
      if Path.isNameable part then
        (t.put (child p part) .directory).makeDirectories (child p part) ps
      else (t, none) := by
  rw [makeDirectories, h]

theorem makeDirectories_again
    (h : ∀ a ∈ way p ps, u.get? a = (t.makeDirectories p ps).1.get? a) :
    u.makeDirectories p ps = (u, (t.makeDirectories p ps).2) := by
  induction ps generalizing t p with
  | nil => rfl
  | cons part ps ih =>
    have hstep (v : Tree) (hv : v.get? (child p part) = some .directory)
        (hmake : t.makeDirectories p (part :: ps) = v.makeDirectories (child p part) ps) :
        u.makeDirectories p (part :: ps) = (u, (t.makeDirectories p (part :: ps)).2) := by
      rw [hmake] at h ⊢
      obtain ⟨hchild, hway⟩ := List.forall_mem_cons.mp h
      have hgrows := (makeDirectories_spec v (child p part) ps).1
      rw [makeDirectories_of_directory ps (hchild.trans (hgrows.get?_directory hv))]
      exact ih hway
    have hstop (hmake : t.makeDirectories p (part :: ps) = (t, none)) :
        u.get? (child p part) = t.get? (child p part) := by
      rw [hmake] at h
      exact h _ List.mem_cons_self
    rcases hget : t.get? (child p part) with _ | ⟨_ | bytes⟩
    · have hnone := makeDirectories_of_none ps hget
      by_cases hnameable : Path.isNameable part
      · rw [if_pos hnameable] at hnone
        apply hstep _ _ hnone
        rw [get?_put (ne_nil_of_get? (by rw [hget]; simp)), if_pos rfl]
      · rw [if_neg hnameable] at hnone
        rw [hnone, makeDirectories_of_none ps ((hstop hnone).trans hget), if_neg hnameable]
    · exact hstep t hget (makeDirectories_of_directory ps hget)
    · have hfile := makeDirectories_of_file ps hget
      rw [hfile, makeDirectories_of_file ps ((hstop hfile).trans hget)]

theorem prepare_again (hhome : u.home = t.home)
    (h : ∀ a ∈ t.wayTo path, u.get? a = (t.prepare path).1.get? a) :
    u.prepare path = (u, (t.prepare path).2) := by
  have hstart : u.start path = t.start path := by rw [start, start, hhome]
  rw [prepare, hstart]
  exact makeDirectories_again h

theorem write_snd_iff : (t.write path bytes force).2 ↔ t.Admits path force := by
  rcases t.write_cases path bytes force with ⟨h, hwrite⟩ | ⟨h, hwrite | hwrite⟩ <;> simp [hwrite, h]

theorem write_snd_congr (t : Tree) (path : String) (bytes bytes' : List UInt8) (force : Bool) :
    (t.write path bytes force).2 = (t.write path bytes' force).2 := by
  rw [Bool.eq_iff_iff, write_snd_iff, write_snd_iff]

/-- Paths whose directories are shared: whichever is prepared first, the tree after that is the
same, and then all directories above all of them are there, or those of none can be made. -/
structure Shared (t T : Tree) (paths : List String) : Prop where
  prepare : ∀ path ∈ paths, (t.prepare path).1 = T
  ready : (∀ path ∈ paths, ∀ a ∈ t.wayTo path, T.get? a = some .directory) ∨
    ∀ path ∈ paths, (t.prepare path).2 = none

structure Stage (t T : Tree) (paths : List String) (S : List Place) (u : Tree) : Prop where
  grows : ∃ places, Grows places t T
  home : u.home = t.home
  clear : ∀ p ∈ S, T.get? p ≠ some .directory ∧ ∀ path ∈ paths, p ∉ t.wayTo path
  written : ∀ p ∈ S, ∃ bytes, u.get? p = some (.file bytes)
  other : ∀ p ∉ S, u.get? p = T.get? p

inductive Reached (t T : Tree) (paths : List String) : List Place → Tree → Prop
  | start : Reached t T paths [] t
  | stage {S : List Place} {u : Tree} (h : Stage t T paths S u) : Reached t T paths S u

theorem Reached.home (h : Reached t T paths S u) : u.home = t.home := by
  cases h with
  | start => rfl
  | stage h => exact h.home

theorem Reached.prepare (h : Reached t T paths S u) (hshared : Shared t T paths)
    (hpath : path ∈ paths) :
    Stage t T paths S (u.prepare path).1 ∧ (u.prepare path).2 = (t.prepare path).2 := by
  have hT := hshared.prepare path hpath
  cases h with
  | start =>
    obtain ⟨hgrows, -⟩ := t.prepare_spec path
    rw [hT] at hgrows ⊢
    exact ⟨⟨⟨_, hgrows⟩, hgrows.home, by simp, by simp, fun p _ => rfl⟩, rfl⟩
  | stage h =>
    have hagain : u.prepare path = (u, (t.prepare path).2) := by
      apply prepare_again h.home
      intro a ha
      rw [hT]
      exact h.other a fun hS => (h.clear a hS).2 path hpath ha
    constructor
    · rwa [hagain]
    · rw [hagain]

theorem Admits.congr (h : t.Admits path force) (hprepared : (u.prepare path).2 = (t.prepare path).2)
    (hsame : (u.prepare path).1.get? (u.place path) = (t.prepare path).1.get? (t.place path)) :
    u.Admits path force where
  followable := h.followable
  prepared := by
    rw [hprepared]
    exact h.prepared
  admitsFile := h.admitsFile
  clear := by
    rw [hsame]
    exact h.clear

theorem Reached.admits_iff (h : Reached t T paths S u) (hshared : Shared t T paths)
    (hpath : path ∈ paths) (hfree : t.place path ∉ S) :
    u.Admits path force ↔ t.Admits path force := by
  obtain ⟨hstage, hprepared⟩ := h.prepare hshared hpath
  have hsame : (u.prepare path).1.get? (u.place path) = (t.prepare path).1.get? (t.place path) := by
    rw [hshared.prepare path hpath, place_congr h.home, hstage.other _ hfree]
  exact ⟨fun h => h.congr hprepared.symm hsame.symm, fun h => h.congr hprepared hsame⟩

theorem admits_forced_iff : t.Admits path true ↔ Path.isFollowable (Path.parent path) ∧
    (t.prepare path).2.isSome ∧ Path.admitsFile path ∧
    (t.prepare path).1.get? (t.place path) ≠ some .directory := by
  constructor
  · rintro ⟨hfollowable, hprepared, hadmits, hclear⟩
    refine ⟨hfollowable, hprepared, hadmits, ?_⟩
    rcases hclear with hnone | ⟨-, old, hold⟩
    · simp [hnone]
    · simp [hold]
  · rintro ⟨hfollowable, hprepared, hadmits, hclear⟩
    refine ⟨hfollowable, hprepared, hadmits, ?_⟩
    rcases hget : (t.prepare path).1.get? (t.place path) with _ | ⟨_ | old⟩
    · exact .inl rfl
    · exact absurd hget hclear
    · exact .inr ⟨rfl, old, rfl⟩

theorem Reached.admits_forced_iff (h : Reached t T paths S u) (hshared : Shared t T paths)
    (hpath : path ∈ paths) : u.Admits path true ↔ t.Admits path true := by
  obtain ⟨hstage, hprepared⟩ := h.prepare hshared hpath
  have hget : (u.prepare path).1.get? (u.place path) = some .directory ↔
      (t.prepare path).1.get? (t.place path) = some .directory := by
    rw [hshared.prepare path hpath, place_congr h.home]
    by_cases hS : t.place path ∈ S
    · obtain ⟨bytes, hbytes⟩ := hstage.written _ hS
      simp [hbytes, (hstage.clear _ hS).1]
    · rw [hstage.other _ hS]
  rw [Tree.admits_forced_iff, Tree.admits_forced_iff, hprepared, ne_eq, ne_eq, hget]

theorem Stage.put (h : Stage t T paths S u) (hp : T.get? p ≠ some .directory)
    (hclear : ∀ path ∈ paths, p ∉ t.wayTo path) (bytes : List UInt8) :
    Stage t T paths (p :: S) (u.put p (.file bytes)) where
  grows := h.grows
  home := h.home
  clear := List.forall_mem_cons.mpr ⟨⟨hp, hclear⟩, h.clear⟩
  written q hq := by
    rw [get?_put (ne_nil_of_get? hp)]
    split
    · exact ⟨bytes, rfl⟩
    · rename_i hne
      exact h.written q ((List.mem_cons.mp hq).resolve_left hne)
  other q hq := by
    obtain ⟨hne, hS⟩ : q ≠ p ∧ q ∉ S := by simpa using hq
    rw [get?_put (ne_nil_of_get? hp), if_neg hne, h.other q hS]

theorem Reached.write (h : Reached t T paths S u) (hshared : Shared t T paths)
    (hpath : path ∈ paths) (bytes : List UInt8) (force : Bool) :
    ∃ S' ⊆ t.place path :: S, Reached t T paths S' (u.write path bytes force).1 := by
  obtain ⟨hstage, hprepared⟩ := h.prepare hshared hpath
  rcases u.write_cases path bytes force with ⟨hadmits, hwrite⟩ | ⟨-, hwrite | hwrite⟩ <;>
    rw [hwrite] <;> dsimp only
  · refine ⟨_, List.Subset.refl _, .stage ?_⟩
    have hready := hshared.ready.resolve_right fun hnone => by
      have hmade := hadmits.prepared
      rw [hprepared, hnone path hpath] at hmade
      cases hmade
    have hclear := hadmits.clear
    rw [place_congr h.home] at hclear ⊢
    -- The place may have been written before, but never does it lead on to another file.
    have hplace : T.get? (t.place path) ≠ some .directory := by
      by_cases hS : t.place path ∈ S
      · exact (hstage.clear _ hS).1
      · rw [hstage.other _ hS] at hclear
        rcases hclear with hnone | ⟨-, old, hold⟩
        · simp [hnone]
        · simp [hold]
    exact hstage.put hplace (fun path' hpath' hway => hplace (hready path' hpath' _ hway)) bytes
  · exact ⟨S, List.subset_cons_self _ _, h⟩
  · exact ⟨S, List.subset_cons_self _ _, .stage hstage⟩

theorem Grows.extends {places : List Place} (h : Grows places t u) : Extends t u where
  home := h.home
  directory p := h.get?_directory
  isSome p hp := by
    rcases h.get? p with hsame | ⟨-, hnone, -⟩
    · rwa [hsame]
    · rw [hnone] at hp
      cases hp

theorem Reached.extends (h : Reached t T paths S u) : Extends t u := by
  cases h with
  | start => exact ⟨rfl, fun _ => id, fun _ => id⟩
  | stage h =>
    obtain ⟨places, hgrows⟩ := h.grows
    refine ⟨h.home, fun p hp => ?_, fun p hp => ?_⟩
    · have hT := hgrows.get?_directory hp
      rwa [h.other p fun hS => (h.clear p hS).1 hT]
    · by_cases hS : p ∈ S
      · obtain ⟨bytes, hbytes⟩ := h.written p hS
        rw [hbytes]
        rfl
      · rw [h.other p hS]
        exact hgrows.extends.isSome p hp

theorem Reached.get?_file (h : Reached t T paths S u) (hp : p ∉ S)
    (hfile : t.get? p = some (.file bytes)) : u.get? p = some (.file bytes) := by
  cases h with
  | start => exact hfile
  | stage h =>
    obtain ⟨places, hgrows⟩ := h.grows
    rw [h.other p hp]
    exact hgrows.get?_file.mpr hfile

theorem isFile_iff : t.isFile path ↔
    ∃ bytes, t.find? path = some (t.place path) ∧ t.get? (t.place path) = some (.file bytes) := by
  unfold isFile node?
  constructor
  · intro h
    cases hfind : t.find? path with
    | none => simp [hfind] at h
    | some p =>
      obtain rfl := eq_place_of_find? hfind
      rw [hfind, Option.bind_some] at h
      split at h
      · rename_i bytes hbytes
        exact ⟨bytes, rfl, hbytes⟩
      · cases h
  · rintro ⟨bytes, hfind, hbytes⟩
    simp [hfind, hbytes]

theorem Reached.read (h : Reached t T paths S u) (hfile : t.isFile path)
    (hfree : t.place path ∉ S) : u.read path = t.read path := by
  obtain ⟨bytes, hfind, hbytes⟩ := isFile_iff.mp hfile
  rw [Tree.read, Tree.read, node?, node?, hfind, h.extends.find? hfind, Option.bind_some,
    Option.bind_some, hbytes, h.get?_file hfree hbytes]

theorem Reached.readText (h : Reached t T paths S u) (hfile : t.isFile path)
    (hfree : t.place path ∉ S) : u.readText path = t.readText path := by
  rw [Tree.readText, Tree.readText, h.read hfile hfree]

theorem way_append (p : Place) (ps qs : List String) :
    way p (ps ++ qs) = way p ps ++ way (follow p ps) qs := by
  induction ps generalizing p with
  | nil => rfl
  | cons part ps ih => rw [List.cons_append, way, way, ih, List.cons_append, follow_cons]

theorem get?_wayTo_of_find? (h : t.find? path = some p) (hproper : Path.isProper (Path.name path)) :
    ∀ a ∈ t.wayTo path, t.get? a = some .directory := by
  obtain ⟨ps, hps⟩ := Path.exists_parts path
  obtain ⟨-, -, hwalk⟩ := find?_eq_some.mp h
  rw [hps] at hwalk
  obtain ⟨hstart, hway⟩ := get?_directory_of_walk? hwalk
  rw [wayTo, Path.parent_of_parts hps hproper]
  by_cases hne : ps.rdropWhile Path.isIdle = []
  · rw [hne]
    intro a ha
    obtain rfl : a = t.start path := List.mem_singleton.mp ha
    exact hstart
  · obtain ⟨rest, hrest⟩ := List.rdropWhile_prefix Path.isIdle ps
    rw [Path.parts_intercalate hne (Path.isPart_of_mem_rdropWhile hps)]
    intro a ha
    apply hway
    rw [← hrest, way_append]
    exact List.mem_append_left _ ha

theorem start_append (t : Tree) (base : String) {n m : String} (hn : Path.IsPart n)
    (hm : Path.IsPart m) : t.start (base ++ n) = t.start (base ++ m) := by
  rw [start, start, Path.isAbsolute_append_isPart base hn hm]

def Neighbours (path path' : String) : Prop :=
  ∃ base n m, Path.IsBase base ∧ (Path.IsPart n ∧ Path.isProper n) ∧
    (Path.IsPart m ∧ Path.isProper m) ∧ path = base ++ n ∧ path' = base ++ m

theorem Neighbours.wayTo {path' : String} (h : Neighbours path path') (t : Tree) :
    t.wayTo path = t.wayTo path' := by
  obtain ⟨base, n, m, hbase, ⟨hn, hproper⟩, ⟨hm, hproper'⟩, rfl, rfl⟩ := h
  rw [Tree.wayTo, Tree.wayTo, hbase.parent_append hn hproper hm hproper', t.start_append base hn hm]

theorem Neighbours.prepare {path' : String} (h : Neighbours path path') (t : Tree) :
    t.prepare path = t.prepare path' := by
  obtain ⟨base, n, m, hbase, ⟨hn, hproper⟩, ⟨hm, hproper'⟩, rfl, rfl⟩ := h
  rw [Tree.prepare, Tree.prepare, hbase.parent_append hn hproper hm hproper',
    t.start_append base hn hm]

theorem Shared.nil (t : Tree) : Shared t t [] := ⟨by simp, .inl (by simp)⟩

theorem shared_of_neighbours (t : Tree) (h : ∀ path' ∈ paths, Neighbours path path') :
    Shared t (t.prepare path).1 paths where
  prepare path' hpath' := by rw [(h path' hpath').prepare]
  ready := by
    cases hprepared : (t.prepare path).2 with
    | some q =>
      refine .inl fun path' hpath' a ha => ?_
      rw [← (h path' hpath').wayTo] at ha
      exact (t.prepare_spec path).2 (by rw [hprepared]; rfl) a ha
    | none => exact .inr fun path' hpath' => by rw [← (h path' hpath').prepare, hprepared]

theorem shared_of_found (h : ∀ path ∈ paths, ∃ source, t.isFile source ∧ Neighbours source path) :
    Shared t t paths := by
  have hway (path : String) (hpath : path ∈ paths) : ∀ a ∈ t.wayTo path,
      t.get? a = some .directory := by
    obtain ⟨source, hfile, hneighbours⟩ := h path hpath
    obtain ⟨bytes, hfind, -⟩ := isFile_iff.mp hfile
    rw [← hneighbours.wayTo]
    obtain ⟨base, n, m, hbase, ⟨hn, hproper⟩, -, rfl, rfl⟩ := hneighbours
    exact get?_wayTo_of_find? hfind (by rwa [hbase.name_append hn])
  refine ⟨fun path hpath => ?_, .inl hway⟩
  have hagain : t.prepare path = (t, (t.prepare path).2) := by
    apply prepare_again rfl
    intro a ha
    rw [(t.prepare_spec path).1.get?_directory (hway path hpath a ha), hway path hpath a ha]
  rw [hagain]

end Tree

end QbCodec
