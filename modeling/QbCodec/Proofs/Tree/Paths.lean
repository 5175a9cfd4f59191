import Mathlib.Data.List.DropRight
import QbCodec.Proofs.Text.Pieces
import QbCodec.Tree.Basic

namespace QbCodec

namespace Path

def IsPart (part : String) : Prop := '/' ∉ part.toList

instance : DecidablePred IsPart := fun part => inferInstanceAs (Decidable ('/' ∉ part.toList))

theorem isPart_of_mem_parts {path part : String} (h : part ∈ parts path) : IsPart part := by
  obtain ⟨piece, hpiece, rfl⟩ := List.mem_map.mp h
  rw [IsPart, String.toList_ofList]
  exact Text.notMem_of_mem_pieces hpiece

theorem parts_of_isPart {part : String} (h : IsPart part) : parts part = [part] := by
  rw [parts, Text.pieces_of_notMem h]
  simp

theorem parts_append (base path : String) :
    parts (base ++ "/" ++ path) = parts base ++ parts path := by
  have h : (base ++ "/" ++ path).toList = base.toList ++ '/' :: path.toList := by simp
  rw [parts, h, Text.pieces_append, List.map_append]
  rfl

theorem parts_intercalate {ps : List String} (hne : ps ≠ []) (h : ∀ part ∈ ps, IsPart part) :
    parts ("/".intercalate ps) = ps := by
  induction ps with
  | nil => exact absurd rfl hne
  | cons part ps ih =>
    obtain ⟨hpart, hps⟩ := List.forall_mem_cons.mp h
    cases ps with
    | nil =>
      rw [String.intercalate_singleton]
      exact parts_of_isPart hpart
    | cons next ps =>
      rw [String.intercalate_cons_cons, parts_append, parts_of_isPart hpart,
        ih (List.cons_ne_nil _ _) hps]
      rfl

theorem directory_append_name (path : String) : directory path ++ name path = path := by
  apply String.toList_inj.mp
  rw [directory, name, String.toList_append, String.toList_ofList, String.toList_ofList,
    ← List.reverse_append, List.takeWhile_append_dropWhile, List.reverse_reverse]

theorem isPart_name (path : String) : IsPart (name path) := by
  rw [IsPart, name, String.toList_ofList, List.mem_reverse]
  intro h
  have := List.mem_takeWhile_imp h
  simp [notSlash] at this

theorem directory_cases (path : String) :
    directory path = "" ∨ ∃ base, directory path = base ++ "/" := by
  unfold directory
  have hhead := List.head?_dropWhile_not notSlash path.toList.reverse
  cases h : path.toList.reverse.dropWhile notSlash with
  | nil => exact .inl rfl
  | cons c rest =>
    rw [h] at hhead
    obtain rfl : c = '/' := by simpa [notSlash] using hhead
    refine .inr ⟨String.ofList rest.reverse, ?_⟩
    apply String.toList_inj.mp
    simp

theorem parts_eq (path : String) :
    directory path = "" ∧ parts path = [name path] ∨
      ∃ base, directory path = base ++ "/" ∧ parts path = parts base ++ [name path] := by
  have hname := parts_of_isPart (isPart_name path)
  have hpath := directory_append_name path
  rcases directory_cases path with h | ⟨base, h⟩
  · rw [h, String.empty_append] at hpath
    exact .inl ⟨h, by rw [← hname, hpath]⟩
  · refine .inr ⟨base, h, ?_⟩
    rw [h] at hpath
    rw [← hname, ← parts_append, hpath]

def IsBase (base : String) : Prop := base = "" ∨ ∃ path, base = path ++ "/"

theorem isBase_directory (path : String) : IsBase (directory path) := directory_cases path

theorem IsBase.exists_parts {base : String} (h : IsBase base) :
    ∃ ps, ∀ path, parts (base ++ path) = ps ++ parts path := by
  rcases h with rfl | ⟨before, rfl⟩
  · exact ⟨[], by simp⟩
  · exact ⟨parts before, parts_append before⟩

theorem isAbsolute_append {base : String} (h : base ≠ "") (path : String) :
    isAbsolute (base ++ path) = isAbsolute base := by
  have hne : base.toList ≠ [] := by simpa using h
  obtain ⟨c, cs, hcs⟩ := List.exists_cons_of_ne_nil hne
  simp only [isAbsolute, String.toList_append, hcs, List.cons_append, List.head?_cons]

theorem isAbsolute_of_isPart {part : String} (h : IsPart part) : isAbsolute part = false := by
  rw [IsPart] at h
  rw [isAbsolute]
  cases hpart : part.toList with
  | nil => rfl
  | cons c cs =>
    rw [hpart] at h
    simp only [List.head?_cons, Option.any_some, isSlash, decide_eq_false_iff_not]
    rintro rfl
    exact h List.mem_cons_self

theorem exists_base_join (directory : String) : ∃ base, IsBase base ∧
    (directory ≠ "" → base = directory ∨ base = directory ++ "/") ∧
    ∀ path, join directory path = base ++ path := by
  by_cases h : directory = "" ∨ directory.toList.getLast?.any isSlash
  · refine ⟨directory, ?_, fun _ => .inl rfl, fun path => by rw [join, if_pos h]⟩
    rcases h with h | h
    · exact .inl h
    · obtain ⟨c, hc, hslash⟩ := Option.any_eq_true _ _ |>.mp h
      obtain rfl : c = '/' := by simpa [isSlash] using hslash
      obtain ⟨cs, hcs⟩ := List.getLast?_eq_some_iff.mp hc
      refine .inr ⟨String.ofList cs, String.toList_inj.mp ?_⟩
      simp [hcs]
  · exact ⟨directory ++ "/", .inr ⟨directory, rfl⟩, fun _ => .inr rfl,
      fun path => by rw [join, if_neg h]⟩

@[simp] theorem empty_join (path : String) : join "" path = path := by
  rw [join, if_pos (.inl rfl), String.empty_append]

theorem exists_parts_join (directory : String) :
    ∃ ps, (parts directory = ps ∨ parts directory = ps ++ [""]) ∧
      ∀ path, parts (join directory path) = ps ++ parts path := by
  by_cases hne : directory = ""
  · subst hne
    exact ⟨[], .inr rfl, by simp⟩
  · obtain ⟨base, hbase, hends, hjoin⟩ := exists_base_join directory
    simp only [hjoin]
    rcases hends hne with rfl | rfl
    · obtain ⟨before, rfl⟩ := hbase.resolve_left hne
      refine ⟨parts before, .inr ?_, parts_append before⟩
      rw [← String.append_empty (s := before ++ "/"), parts_append]
      rfl
    · exact ⟨parts directory, .inl rfl, parts_append directory⟩

theorem isAbsolute_join {directory : String} (h : directory ≠ "") (path : String) :
    isAbsolute (join directory path) = isAbsolute directory := by
  obtain ⟨base, -, hends, hjoin⟩ := exists_base_join directory
  rw [hjoin]
  rcases hends h with rfl | rfl
  · exact isAbsolute_append h path
  · rw [String.append_assoc, isAbsolute_append h]

theorem join_ne_empty {directory : String} (h : directory ≠ "") (path : String) :
    join directory path ≠ "" := by
  intro hempty
  unfold join at hempty
  split at hempty
  · exact h (String.append_eq_empty_iff.mp hempty).1
  · rw [String.append_assoc] at hempty
    exact h (String.append_eq_empty_iff.mp hempty).1

theorem not_isIdle_of_isProper {part : String} (h : isProper part) : isIdle part = false := by
  simp_all [isProper, isIdle]

theorem parent_of_parts {path part : String} {ps : List String} (h : parts path = ps ++ [part])
    (hpart : isProper part) : parent path = "/".intercalate (ps.rdropWhile isIdle) := by
  rw [parent, h]
  simp [not_isIdle_of_isProper hpart, List.rdropWhile]

theorem isPart_of_mem_rdropWhile {path last : String} {ps : List String}
    (h : parts path = ps ++ [last]) : ∀ part ∈ ps.rdropWhile isIdle, IsPart part := by
  intro part hpart
  have hmem : part ∈ parts path := by
    rw [h]
    exact List.mem_append_left _ ((List.rdropWhile_prefix isIdle ps).subset hpart)
  exact isPart_of_mem_parts hmem

theorem exists_parts (path : String) : ∃ ps, parts path = ps ++ [name path] := by
  rcases parts_eq path with ⟨-, h⟩ | ⟨base, -, h⟩
  · exact ⟨[], h⟩
  · exact ⟨_, h⟩

variable {name extension : String}

theorem isProper_of_head? (hne : name ≠ "") (h : name.toList.head? ≠ some '.') : isProper name := by
  simp only [isProper, Bool.and_eq_true, decide_eq_true_eq]
  refine ⟨⟨hne, ?_⟩, ?_⟩
  · rintro rfl
    exact h rfl
  · rintro rfl
    exact h rfl

theorem splitName_fst_of_isSome (h : (splitName name).2.isSome) :
    (splitName name).1 ≠ "" ∧ (splitName name).1.toList <+: name.toList := by
  unfold splitName at h ⊢
  dsimp only at h ⊢
  split at h
  · rename_i d c stem hdot
    have hname := congrArg List.reverse (List.takeWhile_append_dropWhile (p := notDot)
      (l := name.toList.reverse))
    rw [hdot, List.reverse_append, List.reverse_reverse, List.reverse_cons,
      List.append_assoc] at hname
    refine ⟨by simp [← String.toList_inj],
      [d] ++ (name.toList.reverse.takeWhile notDot).reverse, ?_⟩
    rw [String.toList_ofList]
    exact hname
  · cases h

structure IsPlain (name : String) : Prop where
  part : IsPart name
  extension : (splitName name).2.isSome
  shown : name.toList.head? ≠ some '.'

theorem IsPlain.isProper (h : IsPlain name) : isProper name := by
  apply isProper_of_head? _ h.shown
  rintro rfl
  cases h.extension

theorem IsPlain.withExtension_eq (h : IsPlain name) (extension : String) :
    withExtension name extension = (splitName name).1 ++ "." ++ extension := by
  obtain ⟨-, rest, hrest⟩ := splitName_fst_of_isSome h.extension
  have hdot : (splitName name).1 ≠ "." := by
    intro hdot
    have hshown := h.shown
    rw [← hrest, hdot] at hshown
    exact hshown rfl
  rw [withExtension, if_neg hdot]

theorem IsPlain.withExtension (h : IsPlain name) (hextension : IsPart extension) :
    IsPart (withExtension name extension) ∧ Path.isProper (withExtension name extension) := by
  obtain ⟨hne, rest, hrest⟩ := splitName_fst_of_isSome h.extension
  have hstem : (splitName name).1.toList ≠ [] := by simpa using hne
  obtain ⟨c, cs, hcs⟩ := List.exists_cons_of_ne_nil hstem
  have hpart := h.part
  have hshown := h.shown
  rw [IsPart, ← hrest, hcs, List.mem_append, not_or] at hpart
  rw [← hrest, hcs, List.cons_append, List.head?_cons] at hshown
  rw [h.withExtension_eq]
  constructor
  · rw [IsPart] at hextension ⊢
    simp only [String.toList_append, List.mem_append, hcs, not_or]
    exact ⟨⟨hpart.1, by decide⟩, hextension⟩
  · apply isProper_of_head?
    · simp [hne]
    · simpa [hcs] using hshown

end Path

namespace Tree

theorem child_of_isIdle {part : String} (h : Path.isIdle part) (p : Place) : child p part = p := by
  rw [child, if_pos h]

theorem child_of_isProper {part : String} (h : Path.isProper part) (p : Place) :
    child p part = p ++ [part] := by
  have hidle := Path.not_isIdle_of_isProper h
  have hup : part ≠ ".." := by
    simp only [Path.isProper, Bool.and_eq_true, decide_eq_true_eq] at h
    exact h.2
  rw [child, hidle, if_neg (by decide), if_neg hup]

def follow (p : Place) (ps : List String) : Place := ps.foldl child p

@[simp] theorem follow_nil (p : Place) : follow p [] = p := rfl

@[simp] theorem follow_cons (p : Place) (part : String) (ps : List String) :
    follow p (part :: ps) = follow (child p part) ps := rfl

theorem follow_append (p : Place) (ps qs : List String) :
    follow p (ps ++ qs) = follow (follow p ps) qs := List.foldl_append

theorem follow_rdropWhile (p : Place) (ps : List String) :
    follow p (ps.rdropWhile Path.isIdle) = follow p ps := by
  induction ps using List.reverseRecOn with
  | nil => rfl
  | append_singleton ps part ih =>
    by_cases h : Path.isIdle part
    · rw [List.rdropWhile_concat_pos _ _ _ h, ih, follow_append, follow_cons, follow_nil,
        child_of_isIdle h]
    · rw [List.rdropWhile_concat_neg _ _ _ h]

def place (t : Tree) (path : String) : Place := follow (t.start path) (Path.parts path)

theorem place_congr {t u : Tree} (h : u.home = t.home) (path : String) :
    u.place path = t.place path := by
  rw [place, place, start, start, h]

theorem follow_parts_intercalate (p : Place) {ps : List String}
    (h : ∀ part ∈ ps, Path.IsPart part) :
    follow p (Path.parts ("/".intercalate ps)) = follow p ps := by
  by_cases hne : ps = []
  · subst hne
    rfl
  · rw [Path.parts_intercalate hne h]

theorem follow_parent (t : Tree) {path : String} (h : Path.isProper (Path.name path)) :
    follow (t.start path) (Path.parts (Path.parent path)) ++ [Path.name path] = t.place path := by
  obtain ⟨ps, hps⟩ := Path.exists_parts path
  rw [Path.parent_of_parts hps h, follow_parts_intercalate _ (Path.isPart_of_mem_rdropWhile hps),
    follow_rdropWhile, place, hps, follow_append, follow_cons, follow_nil, child_of_isProper h]

theorem start_join (t : Tree) {directory path : String}
    (h : directory ≠ "" ∨ Path.IsPart path) : t.start (Path.join directory path) =
      t.start directory := by
  rw [start, start]
  by_cases hne : directory = ""
  · subst hne
    rw [Path.empty_join, Path.isAbsolute_of_isPart (h.resolve_left (by simp))]
    rfl
  · rw [Path.isAbsolute_join hne]

theorem place_join (t : Tree) {directory path : String} (h : directory ≠ "" ∨ Path.IsPart path) :
    t.place (Path.join directory path) = follow (t.place directory) (Path.parts path) := by
  obtain ⟨ps, hps, hjoin⟩ := Path.exists_parts_join directory
  rw [place, place, t.start_join h, hjoin, follow_append]
  rcases hps with hps | hps
  · rw [hps]
  · rw [hps, follow_append, follow_cons, follow_nil, child_of_isIdle rfl]

end Tree

end QbCodec
