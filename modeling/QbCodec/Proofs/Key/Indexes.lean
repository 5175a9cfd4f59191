import Mathlib.Data.Set.Card
import QbCodec.Key.Bank
import QbCodec.Proofs.Key.Resolution

namespace QbCodec.Registry

inductive Change
  | name (text : String)
  | pair (k : Key) (literal : String)
  | bank (text : String)

def Change.apply (r : Registry) : Change → Registry
  | .name text => r.add text
  | .pair k literal => r.assign k literal
  | .bank text => (r.register text).1

def Change.writes : Change → List (Key × String)
  | .name text => [(Key.ofName text, text)]
  | .pair k literal => [(k, literal)]
  | .bank text => Key.Bank.entries text

def ofChanges (cs : List Change) : Registry := cs.foldl Change.apply empty

def writes (cs : List Change) : List (Key × String) := cs.flatMap Change.writes

variable {r : Registry} {k : Key} {t literal : String}

theorem apply_eq_assignAll (r : Registry) (c : Change) : c.apply r = r.assignAll c.writes := by
  cases c <;> rfl

theorem assignAll_append (r : Registry) (ws vs : List (Key × String)) :
    r.assignAll (ws ++ vs) = (r.assignAll ws).assignAll vs :=
  List.foldl_append

theorem foldl_apply (r : Registry) (cs : List Change) :
    cs.foldl Change.apply r = r.assignAll (writes cs) := by
  induction cs generalizing r with
  | nil => rfl
  | cons c cs ih =>
    rw [List.foldl_cons, ih, apply_eq_assignAll, ← assignAll_append]
    rfl

theorem ofChanges_eq_assignAll (cs : List Change) : ofChanges cs = empty.assignAll (writes cs) :=
  foldl_apply empty cs

theorem resolve_assignAll (r : Registry) (ws : List (Key × String)) (k : Key) :
    (r.assignAll ws).resolve k = (ws.reverse.lookup k).or (r.resolve k) := by
  induction ws generalizing r with
  | nil => rfl
  | cons w ws ih =>
    obtain ⟨j, literal⟩ := w
    change ((r.assign j literal).assignAll ws).resolve k = _
    rw [ih, resolve_assign, List.reverse_cons, List.lookup_append]
    cases ws.reverse.lookup k with
    | some t => rfl
    | none =>
      by_cases h : k = j
      · simp [h]
      · have hne : (k == j) = false := by simpa using h
        simp [List.lookup_cons, h, hne]

theorem map_fst_setEntry (k : Key) (literal : String) (entries : List (Key × String)) :
    (setEntry k literal entries).map Prod.fst =
      if k ∈ entries.map Prod.fst then entries.map Prod.fst else entries.map Prod.fst ++ [k] := by
  induction entries with
  | nil => rfl
  | cons e entries ih =>
    obtain ⟨j, t⟩ := e
    by_cases h : j = k
    · simp [setEntry, h]
    · have hne : k ≠ j := fun he => h he.symm
      simp only [setEntry, h, if_false, List.map_cons, List.mem_cons, hne, false_or, ih]
      split <;> rfl

def keyCount (literal : String) (entries : List (Key × String)) : Nat :=
  entries.countP fun e => e.2 = literal

theorem keyCount_setEntry (k : Key) (literal t : String) (entries : List (Key × String)) :
    keyCount t (setEntry k literal entries) + (if entries.lookup k = some t then 1 else 0) =
      keyCount t entries + (if literal = t then 1 else 0) := by
  induction entries with
  | nil => simp [setEntry, keyCount, List.countP_cons]
  | cons e entries ih =>
    obtain ⟨j, u⟩ := e
    by_cases h : j = k
    · simp only [setEntry, h, if_true, keyCount, List.countP_cons, List.lookup_cons_self,
        decide_eq_true_eq, Option.some.injEq]
      omega
    · have hne : (k == j) = false := by simpa using fun he => h he.symm
      simp only [keyCount] at ih
      simp only [setEntry, h, if_false, keyCount, List.countP_cons, List.lookup_cons, hne,
        decide_eq_true_eq]
      omega

theorem lookup_acquire (literal t : String) (uses : List (String × Nat)) :
    (acquire literal uses).lookup t =
      if t = literal then some ((uses.lookup literal).getD 0 + 1) else uses.lookup t := by
  induction uses with
  | nil =>
    by_cases h : t = literal
    · simp [acquire, h]
    · have hne : (t == literal) = false := by simpa using h
      simp [acquire, List.lookup_cons, h, hne]
  | cons e uses ih =>
    obtain ⟨u, n⟩ := e
    by_cases hu : u = literal
    · subst hu
      by_cases h : t = u
      · simp [acquire, h]
      · have hne : (t == u) = false := by simpa using h
        simp [acquire, List.lookup_cons, h, hne]
    · have hlit : (literal == u) = false := by simpa using fun he => hu he.symm
      by_cases h : t = u
      · subst h
        simp [acquire, hu]
      · have hne : (t == u) = false := by simpa using h
        simp [acquire, hu, List.lookup_cons, hne, hlit, ih]

theorem lookup_eq_none_of_notMem {uses : List (String × Nat)} (h : t ∉ uses.map Prod.fst) :
    uses.lookup t = none := by
  apply List.lookup_eq_none_iff.mpr
  intro e he
  rw [bne_iff_ne]
  rintro rfl
  exact h (List.mem_map_of_mem he)

theorem lookup_release (literal t : String) {uses : List (String × Nat)}
    (h : (uses.map Prod.fst).Nodup) : (release literal uses).lookup t =
      if t = literal then (uses.lookup literal).bind fun n => if n ≤ 1 then none else some (n - 1)
      else uses.lookup t := by
  induction uses with
  | nil => simp [release]
  | cons e uses ih =>
    obtain ⟨u, n⟩ := e
    rw [List.map_cons, List.nodup_cons] at h
    by_cases hu : u = literal
    · subst hu
      by_cases ht : t = u
      · subst ht
        by_cases hn : n ≤ 1
        · simp [release, hn, lookup_eq_none_of_notMem h.1]
        · simp [release, hn]
      · have hne : (t == u) = false := by simpa using ht
        by_cases hn : n ≤ 1 <;> simp [release, hn, List.lookup_cons, ht, hne]
    · have hlit : (literal == u) = false := by simpa using fun he => hu he.symm
      by_cases ht : t = u
      · subst ht
        simp [release, hu]
      · have hne : (t == u) = false := by simpa using ht
        simp [release, hu, List.lookup_cons, hne, hlit, ih h.2]

theorem map_fst_acquire (literal : String) (uses : List (String × Nat)) :
    (acquire literal uses).map Prod.fst =
      if literal ∈ uses.map Prod.fst then uses.map Prod.fst
      else uses.map Prod.fst ++ [literal] := by
  induction uses with
  | nil => rfl
  | cons e uses ih =>
    obtain ⟨u, n⟩ := e
    by_cases h : u = literal
    · simp [acquire, h]
    · have hne : literal ≠ u := fun he => h he.symm
      simp only [acquire, h, if_false, List.map_cons, List.mem_cons, hne, false_or, ih]
      split <;> rfl

theorem nodup_ite_concat {α : Type} [DecidableEq α] (a : α) {as : List α} (h : as.Nodup) :
    (if a ∈ as then as else as ++ [a]).Nodup := by
  split
  · exact h
  · rename_i ha
    apply List.nodup_append.mpr
    refine ⟨h, List.nodup_singleton a, ?_⟩
    rintro b hb c hc rfl
    rw [List.mem_singleton] at hc
    exact ha (hc ▸ hb)

theorem release_sublist (literal : String) (uses : List (String × Nat)) :
    ((release literal uses).map Prod.fst).Sublist (uses.map Prod.fst) := by
  induction uses with
  | nil => exact .slnil
  | cons e uses ih =>
    obtain ⟨u, n⟩ := e
    simp only [release]
    split
    · split
      · exact .cons _ (.refl _)
      · exact .refl _
    · exact ih.cons_cons u

def counted (n : Nat) : Option Nat := if n = 0 then none else some n

theorem counted_succ (n : Nat) : counted (n + 1) = some (n + 1) := rfl

theorem getD_counted (n : Nat) : (counted n).getD 0 = n := by cases n <;> rfl

theorem bind_counted (n : Nat) :
    ((counted (n + 1)).bind fun m => if m ≤ 1 then none else some (m - 1)) = counted n := by
  cases n <;> rfl

structure Consistent (r : Registry) : Prop where
  keys : (r.entries.map Prod.fst).Nodup
  texts : (r.uses.map Prod.fst).Nodup
  counts : ∀ t, r.uses.lookup t = counted (keyCount t r.entries)

theorem consistent_empty : empty.Consistent :=
  ⟨List.nodup_nil, List.nodup_nil, fun _ => rfl⟩

theorem lookup_acquire_counted {uses : List (String × Nat)} {n : String → Nat}
    (h : ∀ t, uses.lookup t = counted (n t)) (literal t : String) :
    (acquire literal uses).lookup t = counted (n t + if literal = t then 1 else 0) := by
  rw [lookup_acquire]
  by_cases ht : t = literal
  · subst ht
    rw [if_pos rfl, if_pos rfl, h, getD_counted, counted_succ]
  · rw [if_neg ht, if_neg (Ne.symm ht), h, Nat.add_zero]

theorem lookup_release_counted {uses : List (String × Nat)} {n m : String → Nat}
    {literal : String} (hnodup : (uses.map Prod.fst).Nodup)
    (h : ∀ t, uses.lookup t = counted (n t))
    (hm : ∀ t, m t + (if literal = t then 1 else 0) = n t) (t : String) :
    (release literal uses).lookup t = counted (m t) := by
  rw [lookup_release literal t hnodup]
  by_cases ht : t = literal
  · subst ht
    have hn := hm t
    rw [if_pos rfl] at hn
    rw [if_pos rfl, h, ← hn, bind_counted]
  · have hn := hm t
    rw [if_neg (Ne.symm ht), Nat.add_zero] at hn
    rw [if_neg ht, h, hn]

theorem Consistent.assign (h : r.Consistent) (k : Key) (literal : String) :
    (r.assign k literal).Consistent := by
  have hkeys : ((setEntry k literal r.entries).map Prod.fst).Nodup := by
    rw [map_fst_setEntry]
    exact nodup_ite_concat k h.keys
  have hcount := fun t => keyCount_setEntry k literal t r.entries
  unfold Registry.assign
  dsimp only
  cases hk : r.resolve k with
  | none =>
    rw [resolve] at hk
    refine ⟨hkeys, ?_, fun t => ?_⟩
    · rw [map_fst_acquire]
      exact nodup_ite_concat literal h.texts
    · rw [lookup_acquire_counted h.counts, ← hcount t, hk]
      rfl
  | some previous =>
    rw [resolve] at hk
    simp only [hk, Option.some.injEq] at hcount
    by_cases hp : previous = literal
    · subst hp
      simp only [if_true]
      refine ⟨hkeys, h.texts, fun t => ?_⟩
      rw [h.counts, Nat.add_right_cancel (hcount t)]
    · simp only [hp, if_false]
      refine ⟨hkeys, ?_, fun t => ?_⟩
      · rw [map_fst_acquire]
        exact nodup_ite_concat literal ((release_sublist previous r.uses).nodup h.texts)
      · -- The displaced literal has a key to lose, since the one that is written is another.
        have hheld (t : String) : (if previous = t then 1 else 0) ≤ keyCount t r.entries := by
          have ht := hcount t
          by_cases hpt : previous = t
          · have hlt : literal ≠ t := fun he => hp (hpt.trans he.symm)
            rw [if_pos hpt, if_neg hlt] at ht
            rw [if_pos hpt]
            omega
          · simp [hpt]
        have hrelease := lookup_release_counted h.texts h.counts fun t =>
          Nat.sub_add_cancel (hheld t)
        rw [lookup_acquire_counted hrelease]
        have ht := hcount t
        have := hheld t
        change counted _ = counted (keyCount t (setEntry k literal r.entries))
        congr 1
        omega

theorem Consistent.assignAll (h : r.Consistent) (ws : List (Key × String)) :
    (r.assignAll ws).Consistent := by
  induction ws generalizing r with
  | nil => exact h
  | cons w ws ih => exact ih (h.assign w.1 w.2)

theorem consistent_ofChanges (cs : List Change) : (ofChanges cs).Consistent := by
  rw [ofChanges_eq_assignAll]
  exact consistent_empty.assignAll (writes cs)

theorem Consistent.resolve_eq_some_iff (h : r.Consistent) :
    r.resolve k = some t ↔ (k, t) ∈ r.entries := by
  rw [resolve, List.lookup_eq_some_iff]
  constructor
  · rintro ⟨before, after, happend, -⟩
    rw [happend]
    simp
  · intro hmem
    obtain ⟨before, after, happend⟩ := List.append_of_mem hmem
    refine ⟨before, after, happend, fun e he => ?_⟩
    have hkeys := h.keys
    rw [happend, List.map_append, List.nodup_append] at hkeys
    rw [bne_iff_ne]
    exact (hkeys.2.2 e.1 (List.mem_map_of_mem he) k (by simp)).symm

theorem Consistent.isSome_resolve_iff (h : r.Consistent) :
    (r.resolve k).isSome ↔ k ∈ r.entries.map Prod.fst := by
  rw [Option.isSome_iff_exists, List.mem_map]
  constructor
  · rintro ⟨t, ht⟩
    exact ⟨(k, t), h.resolve_eq_some_iff.mp ht, rfl⟩
  · rintro ⟨⟨j, t⟩, hmem, rfl⟩
    exact ⟨t, h.resolve_eq_some_iff.mpr hmem⟩

theorem Consistent.keyCount_eq (h : r.Consistent) (t : String) :
    keyCount t r.entries = {k | r.resolve k = some t}.ncard := by
  have hset : {k | r.resolve k = some t} =
      ((r.entries.filter fun e => e.2 = t).map Prod.fst).toFinset := by
    ext k
    simp [h.resolve_eq_some_iff]
  have hnodup : ((r.entries.filter fun e => e.2 = t).map Prod.fst).Nodup :=
    (List.filter_sublist.map Prod.fst).nodup h.keys
  rw [hset, Set.ncard_coe_finset, List.toFinset_card_of_nodup hnodup, List.length_map, keyCount,
    List.countP_eq_length_filter]

theorem Consistent.size_eq (h : r.Consistent) :
    r.size = (r.entries.map Prod.fst).toFinset.card := by
  rw [List.toFinset_card_of_nodup h.keys, List.length_map, size]

theorem Consistent.keyCount_pos_iff (h : r.Consistent) :
    0 < keyCount t r.entries ↔ ∃ k, r.resolve k = some t := by
  rw [keyCount, List.countP_pos_iff]
  constructor
  · rintro ⟨⟨k, u⟩, hmem, hu⟩
    rw [decide_eq_true_eq] at hu
    exact ⟨k, h.resolve_eq_some_iff.mpr (hu ▸ hmem)⟩
  · rintro ⟨k, hk⟩
    exact ⟨(k, t), h.resolve_eq_some_iff.mp hk, by simp⟩

theorem counted_eq_some_iff {n m : Nat} : counted n = some m ↔ m = n ∧ 0 < m := by
  unfold counted
  split
  · simp only [reduceCtorEq, false_iff]
    omega
  · simp only [Option.some.injEq]
    omega

theorem Consistent.useCount_eq_some_iff (h : r.Consistent) {n : Nat} :
    r.useCount t = some n ↔ n = {k | r.resolve k = some t}.ncard ∧ 0 < n := by
  rw [useCount, h.counts, h.keyCount_eq, counted_eq_some_iff]

theorem Consistent.hasLiteral_iff (h : r.Consistent) :
    r.hasLiteral t ↔ ∃ k, r.resolve k = some t := by
  rw [← h.keyCount_pos_iff, hasLiteral, useCount, h.counts, Option.isSome_iff_exists]
  constructor
  · rintro ⟨n, hn⟩
    obtain ⟨rfl, hpos⟩ := counted_eq_some_iff.mp hn
    exact hpos
  · intro hpos
    exact ⟨_, counted_eq_some_iff.mpr ⟨rfl, hpos⟩⟩

theorem Consistent.exists_useCount (h : r.Consistent) (hk : r.resolve k = some t) :
    ∃ n, r.useCount t = some (n + 1) := by
  have hpos := h.keyCount_pos_iff.mpr ⟨k, hk⟩
  obtain ⟨n, hn⟩ := Nat.exists_eq_succ_of_ne_zero hpos.ne'
  refine ⟨n, ?_⟩
  rw [useCount, h.counts, hn, counted_succ]

theorem resolve_ofChanges (cs : List Change) (k : Key) :
    (ofChanges cs).resolve k = (writes cs).reverse.lookup k := by
  rw [ofChanges_eq_assignAll, resolve_assignAll]
  exact Option.or_none

theorem isSome_resolve_ofChanges (cs : List Change) (k : Key) :
    ((ofChanges cs).resolve k).isSome ↔ k ∈ (writes cs).map Prod.fst := by
  rw [resolve_ofChanges, List.lookup_isSome_iff]
  simp

/-- The last literal that is written for a key is what it resolves to, the known literals are those
that some key resolves to, each with the number of these keys, and the size is the number of keys
that were written. A literal in use has at least one use to give up. -/
theorem indexes_ofChanges (cs : List Change) :
    (∀ k, (ofChanges cs).resolve k = (writes cs).reverse.lookup k) ∧
      (∀ t, ((ofChanges cs).hasLiteral t ↔ ∃ k, (ofChanges cs).resolve k = some t) ∧
        ∀ n, (ofChanges cs).useCount t = some n ↔
          n = {k | (ofChanges cs).resolve k = some t}.ncard ∧ 0 < n) ∧
      (∀ k t, (ofChanges cs).resolve k = some t → ∃ n, (ofChanges cs).useCount t = some (n + 1)) ∧
      (ofChanges cs).size = ((writes cs).map Prod.fst).toFinset.card := by
  have h := consistent_ofChanges cs
  refine ⟨resolve_ofChanges cs, fun t => ⟨h.hasLiteral_iff, fun n => h.useCount_eq_some_iff⟩,
    fun k t hk => h.exists_useCount hk, ?_⟩
  rw [h.size_eq]
  congr 1
  ext k
  rw [List.mem_toFinset, List.mem_toFinset, ← h.isSome_resolve_iff, isSome_resolve_ofChanges]

-- One of two keys that share a literal gets another.
example : (ofChanges [.pair 1 "a", .pair 2 "a", .pair 1 "b"]).useCount "a" = some 1 := by decide

end QbCodec.Registry
