import QbCodec.Proofs.Tree.Paths

namespace QbCodec.Tree

variable {t u : Tree} {p q : Place} {n : Node} {bytes : List UInt8}

theorem lookup_replace (p q : Place) (n : Node) (es : List (Place × Node)) :
    (replace p n es).lookup q = if q = p then some n else es.lookup q := by
  induction es with
  | nil =>
    by_cases h : q = p
    · simp [replace, h]
    · have hne : (q == p) = false := by simpa using h
      simp [replace, List.lookup_cons, h, hne]
  | cons e es ih =>
    obtain ⟨a, m⟩ := e
    by_cases ha : a = p
    · subst ha
      by_cases h : q = a
      · simp [replace, h]
      · have hne : (q == a) = false := by simpa using h
        simp [replace, List.lookup_cons, h, hne]
    · by_cases h : q = a
      · subst h
        simp [replace, ha]
      · have hne : (q == a) = false := by simpa using h
        simp [replace, ha, List.lookup_cons, hne, ih]

theorem get?_put (hp : p ≠ []) (t : Tree) (n : Node) (q : Place) :
    (t.put p n).get? q = if q = p then some n else t.get? q := by
  by_cases hq : q = []
  · subst hq
    rw [if_neg (Ne.symm hp)]
    rfl
  · simp only [get?, hq, if_false, put, lookup_replace]

theorem ne_nil_of_get? (h : t.get? p ≠ some .directory) : p ≠ [] := by
  rintro rfl
  exact h rfl

def way (p : Place) : List String → List Place
  | [] => []
  | part :: ps => child p part :: way (child p part) ps

structure Grows (places : List Place) (t u : Tree) : Prop where
  home : u.home = t.home
  get? : ∀ q, u.get? q = t.get? q ∨
    q ∈ places ∧ t.get? q = none ∧ u.get? q = some .directory

theorem Grows.refl (places : List Place) (t : Tree) : Grows places t t := ⟨rfl, fun _ => .inl rfl⟩

theorem Grows.get?_directory {places : List Place} (h : Grows places t u)
    (hq : t.get? q = some .directory) : u.get? q = some .directory := by
  rcases h.get? q with hsame | ⟨-, -, hnew⟩
  · rw [hsame, hq]
  · exact hnew

theorem Grows.get?_file {places : List Place} (h : Grows places t u) :
    u.get? q = some (.file bytes) ↔ t.get? q = some (.file bytes) := by
  rcases h.get? q with hsame | ⟨-, hnone, hnew⟩
  · rw [hsame]
  · simp [hnone, hnew]

theorem Grows.mono {places more : List Place} (h : Grows places t u) (hsub : places ⊆ more) :
    Grows more t u where
  home := h.home
  get? q := (h.get? q).imp_right fun ⟨hq, hnone, hnew⟩ => ⟨hsub hq, hnone, hnew⟩

theorem Grows.trans {places : List Place} {v : Tree} (h : Grows places t u)
    (h' : Grows places u v) : Grows places t v where
  home := h'.home.trans h.home
  get? q := by
    rcases h'.get? q with hsame | ⟨hq, hnone, hnew⟩
    · rw [hsame]
      exact h.get? q
    · rcases h.get? q with hsame | ⟨-, -, hnew'⟩
      · exact .inr ⟨hq, hsame ▸ hnone, hnew⟩
      · rw [hnone] at hnew'
        cases hnew'

theorem Grows.put {places : List Place} (h : t.get? p = none) (hp : p ∈ places) :
    Grows places t (t.put p .directory) where
  home := rfl
  get? q := by
    have hne : p ≠ [] := ne_nil_of_get? (by rw [h]; simp)
    rw [get?_put hne]
    split
    · rename_i hq
      subst hq
      exact .inr ⟨hp, h, rfl⟩
    · exact .inl rfl

theorem makeDirectories_spec (t : Tree) (p : Place) (ps : List String) :
    Grows (way p ps) t (t.makeDirectories p ps).1 ∧
      ∀ q, (t.makeDirectories p ps).2 = some q → q = follow p ps ∧
        ∀ a ∈ way p ps, (t.makeDirectories p ps).1.get? a = some .directory := by
  induction ps generalizing t p with
  | nil => exact ⟨.refl _ _, by simp [makeDirectories, way]⟩
  | cons part ps ih =>
    have hstep (v : Tree) (hv : Grows (way p (part :: ps)) t v)
        (hchild : v.get? (child p part) = some .directory) :
        Grows (way p (part :: ps)) t (v.makeDirectories (child p part) ps).1 ∧
          ∀ q, (v.makeDirectories (child p part) ps).2 = some q → q = follow p (part :: ps) ∧
            ∀ a ∈ way p (part :: ps),
              (v.makeDirectories (child p part) ps).1.get? a = some .directory := by
      obtain ⟨hgrows, hsome⟩ := ih v (child p part)
      have hmore := hgrows.mono (List.subset_cons_self (child p part) _)
      refine ⟨hv.trans hmore, fun q hq => ⟨(hsome q hq).1, ?_⟩⟩
      exact List.forall_mem_cons.mpr ⟨hmore.get?_directory hchild, (hsome q hq).2⟩
    rw [makeDirectories]
    split
    · rename_i hdirectory
      exact hstep t (.refl _ _) hdirectory
    · exact ⟨.refl _ _, by simp⟩
    · rename_i hnone
      split
      · have hne : child p part ≠ [] := ne_nil_of_get? (by rw [hnone]; simp)
        exact hstep _ (.put hnone List.mem_cons_self) (by rw [get?_put hne, if_pos rfl])
      · exact ⟨.refl _ _, by simp⟩

def wayTo (t : Tree) (path : String) : List Place :=
  way (t.start path) (Path.parts (Path.parent path))

def prepare (t : Tree) (path : String) : Tree × Option Place :=
  t.makeDirectories (t.start path) (Path.parts (Path.parent path))

theorem prepare_spec (t : Tree) (path : String) : Grows (t.wayTo path) t (t.prepare path).1 ∧
    ((t.prepare path).2.isSome →
      ∀ a ∈ t.wayTo path, (t.prepare path).1.get? a = some .directory) := by
  obtain ⟨hgrows, hsome⟩ := makeDirectories_spec t (t.start path) (Path.parts (Path.parent path))
  refine ⟨hgrows, fun h => ?_⟩
  obtain ⟨q, hq⟩ := Option.isSome_iff_exists.mp h
  exact (hsome q hq).2

/-- A file can be written at a path: the directories above it can be made, and then nothing is there
or, if that is asked for, another file. -/
structure Admits (t : Tree) (path : String) (force : Bool) : Prop where
  followable : Path.isFollowable (Path.parent path)
  prepared : (t.prepare path).2.isSome
  admitsFile : Path.admitsFile path
  clear : (t.prepare path).1.get? (t.place path) = none ∨
    force = true ∧ ∃ old, (t.prepare path).1.get? (t.place path) = some (.file old)

theorem write_cases (t : Tree) (path : String) (bytes : List UInt8) (force : Bool) :
    t.Admits path force ∧
        t.write path bytes force = ((t.prepare path).1.put (t.place path) (.file bytes), true) ∨
      ¬ t.Admits path force ∧ (t.write path bytes force = (t, false) ∨
        t.write path bytes force = ((t.prepare path).1, false)) := by
  obtain ⟨-, hsome⟩ := makeDirectories_spec t (t.start path) (Path.parts (Path.parent path))
  unfold write
  dsimp only
  split
  · rename_i hfollowable
    exact .inr ⟨fun h => by simp [h.followable] at hfollowable, .inl rfl⟩
  · rename_i hfollowable
    split
    · rename_i u hmake
      have hprepare : t.prepare path = (u, none) := hmake
      rw [hprepare]
      exact .inr ⟨fun h => by simpa [hprepare] using h.prepared, .inr rfl⟩
    · rename_i u p hmake
      have hprepare : t.prepare path = (u, some p) := hmake
      rw [hmake] at hsome
      obtain ⟨hp, -⟩ := hsome p rfl
      rw [hprepare]
      split
      · rename_i hadmits
        exact .inr ⟨fun h => by simp [h.admitsFile] at hadmits, .inr rfl⟩
      · rename_i hadmits
        have hadmitsFile : Path.admitsFile path := by simpa using hadmits
        have hproper : Path.isProper (Path.name path) := by
          simp only [Path.admitsFile, Bool.and_eq_true] at hadmitsFile
          exact hadmitsFile.1.2
        have hadmitted (hclear : u.get? (t.place path) = none ∨
            force = true ∧ ∃ old, u.get? (t.place path) = some (.file old)) : t.Admits path force :=
          ⟨by simpa using hfollowable, by rw [hprepare]; rfl, hadmitsFile, by rwa [hprepare]⟩
        rw [hp, follow_parent t hproper]
        split
        · rename_i hdirectory
          refine .inr ⟨fun h => ?_, .inr rfl⟩
          simpa [hprepare, hdirectory] using h.clear
        · rename_i old hold
          split
          · rename_i hforce
            exact .inl ⟨hadmitted (.inr ⟨hforce, old, hold⟩), rfl⟩
          · rename_i hforce
            refine .inr ⟨fun h => ?_, .inr rfl⟩
            simpa [hprepare, hold, hforce] using h.clear
        · rename_i hnone
          exact .inl ⟨hadmitted (.inl hnone), rfl⟩

inductive Written (t : Tree) (path : String) (bytes : List UInt8) (force : Bool) :
    Tree × Bool → Prop
  | refused {u : Tree} (grows : Grows (t.wayTo path) t u) : Written t path bytes force (u, false)
  | done {u : Tree} (grows : Grows (t.wayTo path) t u)
      (clear : u.get? (t.place path) = none ∨
        force = true ∧ ∃ old, u.get? (t.place path) = some (.file old)) :
      Written t path bytes force (u.put (t.place path) (.file bytes), true)

theorem written_write (t : Tree) (path : String) (bytes : List UInt8) (force : Bool) :
    Written t path bytes force (t.write path bytes force) := by
  obtain ⟨hgrows, -⟩ := t.prepare_spec path
  rcases t.write_cases path bytes force with ⟨hadmits, hwrite⟩ | ⟨-, hwrite | hwrite⟩ <;>
    rw [hwrite]
  · exact .done hgrows hadmits.clear
  · exact .refused (.refl _ _)
  · exact .refused hgrows

end QbCodec.Tree
