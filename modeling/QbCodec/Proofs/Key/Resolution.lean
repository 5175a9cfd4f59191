import QbCodec.Key.Registry
import QbCodec.Proofs.Text.Numerals

namespace QbCodec

namespace Text

theorem mem_hexFixed {width n : Nat} {c : Char} (h : c ∈ hexFixed width n) :
    ∃ d < 16, c = upperDigit d := by
  induction width generalizing n with
  | zero => cases h
  | succ width ih =>
    rw [hexFixed, List.mem_append, List.mem_singleton] at h
    rcases h with h | rfl
    · exact ih h
    · exact ⟨n % 16, Nat.mod_lt n (by omega), rfl⟩

theorem dropWhile_of_not_blank {cs : List Char} (h : ∀ c ∈ cs, isBlank c = false) :
    cs.dropWhile isBlank = cs := by
  cases cs with
  | nil => rfl
  | cons c cs => simp [h c List.mem_cons_self]

theorem trim_of_not_blank {cs : List Char} (h : ∀ c ∈ cs, isBlank c = false) : trim cs = cs := by
  have hreverse : ∀ c ∈ cs.reverse, isBlank c = false := fun c hc => h c (List.mem_reverse.mp hc)
  rw [trim, trimEnd, trimStart, dropEnd, dropWhile_of_not_blank h, dropWhile_of_not_blank hreverse,
    List.reverse_reverse]

end Text

namespace Key

theorem isCanonicalDigit_upperDigit {d : Nat} (h : d < 16) :
    isCanonicalDigit (Text.upperDigit d) ∧ Text.isBlank (Text.upperDigit d) = false ∧
      Text.upperDigit d ≠ '+' ∧ Text.upperDigit d ≠ '"' := by
  have all : ∀ e < 16, isCanonicalDigit (Text.upperDigit e) ∧
      Text.isBlank (Text.upperDigit e) = false ∧ Text.upperDigit e ≠ '+' ∧
      Text.upperDigit e ≠ '"' := by decide
  exact all d h

theorem toList_spell (k : Key) : k.spell.toList = '0' :: 'x' :: Text.hexFixed 8 k.toNat :=
  String.toList_ofList

theorem isCanonical_spell (k : Key) : isCanonical k.spell := by
  rw [isCanonical, toList_spell, isCanonicalText, Text.hexFixed_length]
  simp only [beq_self_eq_true, Bool.true_and, List.all_eq_true]
  intro c hc
  obtain ⟨d, hd, rfl⟩ := Text.mem_hexFixed hc
  exact (isCanonicalDigit_upperDigit hd).1

theorem not_blank_of_mem_spell {k : Key} {c : Char} (h : c ∈ k.spell.toList) :
    Text.isBlank c = false ∧ c ≠ '"' := by
  rw [toList_spell, List.mem_cons, List.mem_cons] at h
  rcases h with rfl | rfl | h
  · exact ⟨by decide, by decide⟩
  · exact ⟨by decide, by decide⟩
  · obtain ⟨d, hd, rfl⟩ := Text.mem_hexFixed h
    obtain ⟨-, hblank, -, hquote⟩ := isCanonicalDigit_upperDigit hd
    exact ⟨hblank, hquote⟩

theorem dropPlus_hexFixed (n : Nat) : dropPlus (Text.hexFixed 8 n) = Text.hexFixed 8 n := by
  unfold dropPlus
  split
  · rename_i digits hdigits
    have hmem : '+' ∈ Text.hexFixed 8 n := by
      rw [hdigits]
      exact List.mem_cons_self
    obtain ⟨d, hd, he⟩ := Text.mem_hexFixed hmem
    exact absurd he.symm (isCanonicalDigit_upperDigit hd).2.2.1
  · rfl

theorem parseText?_spell (k : Key) : parseText? k.spell.toList = some k := by
  have hlt : k.toNat < 16 ^ 8 := k.toNat_lt
  rw [toList_spell, parseText?, dropMark, Text.hexFixed_length, if_pos (Nat.le_refl 8),
    dropPlus_hexFixed, Text.hexValue?_hexFixed (by omega) hlt]
  simp

theorem ofLiteral_spell (k : Key) : ofLiteral k.spell = k := by
  rw [ofLiteral, parse?, parseText?_spell]
  simp [isCanonical_spell]

theorem ofLiteral_eq_ofName {text : String} (h : isCanonical text = false) :
    ofLiteral text = ofName text := by
  unfold ofLiteral
  split <;> simp [h]

end Key

namespace Registry

variable {r s : Registry} {k j : Key} {literal name : String} {names : List String}

theorem lookup_setEntry (k j : Key) (literal : String) (entries : List (Key × String)) :
    (setEntry k literal entries).lookup j = if j = k then some literal else entries.lookup j := by
  induction entries with
  | nil =>
    by_cases h : j = k
    · simp [setEntry, h]
    · have hne : (j == k) = false := by simpa using h
      simp [setEntry, List.lookup_cons, h, hne]
  | cons e entries ih =>
    obtain ⟨i, t⟩ := e
    by_cases hi : i = k
    · subst hi
      by_cases h : j = i
      · simp [setEntry, h]
      · have hne : (j == i) = false := by simpa using h
        simp [setEntry, List.lookup_cons, h, hne]
    · by_cases h : j = i
      · subst h
        simp [setEntry, hi]
      · have hne : (j == i) = false := by simpa using h
        simp [setEntry, hi, List.lookup_cons, hne, ih]

theorem entries_assign (r : Registry) (k : Key) (literal : String) :
    (r.assign k literal).entries = setEntry k literal r.entries := by
  unfold assign
  dsimp only
  split
  · rfl
  · split <;> rfl

theorem resolve_assign (r : Registry) (k j : Key) (literal : String) :
    (r.assign k literal).resolve j = if j = k then some literal else r.resolve j := by
  rw [resolve, resolve, entries_assign, lookup_setEntry]

theorem resolve_add (r : Registry) (name : String) (j : Key) :
    (r.add name).resolve j = if j = Key.ofName name then some name else r.resolve j :=
  resolve_assign r (Key.ofName name) j name

theorem resolve_empty (k : Key) : ({} : Registry).resolve k = none := rfl

theorem of_resolve_addAll (h : (r.addAll names).resolve k = some literal) :
    r.resolve k = some literal ∨ literal ∈ names ∧ Key.ofName literal = k := by
  induction names generalizing r with
  | nil => exact .inl h
  | cons name names ih =>
    rcases ih h with hadd | ⟨hmem, hkey⟩
    · rw [resolve_add] at hadd
      split at hadd
      · rename_i hk
        cases hadd
        exact .inr ⟨List.mem_cons_self, hk.symm⟩
      · exact .inl hadd
    · exact .inr ⟨List.mem_cons_of_mem _ hmem, hkey⟩

theorem resolve_addAll (r : Registry) (names : List String) (k : Key) :
    (r.addAll names).resolve k =
      (names.reverse.find? fun n => Key.ofName n == k).or (r.resolve k) := by
  induction names generalizing r with
  | nil => rfl
  | cons name names ih =>
    change ((r.add name).addAll names).resolve k = _
    rw [ih, resolve_add, List.reverse_cons, List.find?_append, Option.or_assoc]
    congr 1
    by_cases h : k = Key.ofName name
    · simp [h]
    · have hne : (Key.ofName name == k) = false := by simpa using fun he => h he.symm
      simp [h, hne]

theorem resolve_addAll_of_ne (h : ∀ n ∈ names, Key.ofName n ≠ k) :
    (r.addAll names).resolve k = r.resolve k := by
  have hnone : names.reverse.find? (fun n => Key.ofName n == k) = none := by
    rw [List.find?_eq_none]
    intro n hn
    simpa using h n (List.mem_reverse.mp hn)
  rw [resolve_addAll, hnone, Option.none_or]

theorem resolve_addAll_of_mem (r : Registry) (h : name ∈ names) :
    ∃ front last back, names = front ++ last :: back ∧ Key.ofName last = Key.ofName name ∧
      (∀ n ∈ back, Key.ofName n ≠ Key.ofName name) ∧
      (r.addAll names).resolve (Key.ofName name) = some last := by
  cases hfind : names.reverse.find? fun n => Key.ofName n == Key.ofName name with
  | none =>
    rw [List.find?_eq_none] at hfind
    exact absurd (beq_self_eq_true _) (hfind name (List.mem_reverse.mpr h))
  | some last =>
    obtain ⟨hlast, back, front, hsplit, hback⟩ := List.find?_eq_some_iff_append.mp hfind
    refine ⟨front.reverse, last, back.reverse, ?_, by simpa using hlast, fun n hn => ?_, ?_⟩
    · rw [List.reverse_eq_iff.mp hsplit, List.reverse_append, List.reverse_cons, List.append_assoc]
      rfl
    · simpa using hback n (List.mem_reverse.mp hn)
    · rw [resolve_addAll, hfind, Option.some_or]

theorem isSome_resolve_addAll (h : (r.resolve k).isSome) : ((r.addAll names).resolve k).isSome := by
  induction names generalizing r with
  | nil => exact h
  | cons name names ih =>
    apply ih
    rw [resolve_add]
    split
    · rfl
    · exact h

theorem isSome_resolve_of_mem (h : name ∈ names) :
    ((r.addAll names).resolve (Key.ofName name)).isSome := by
  induction names generalizing r with
  | nil => cases h
  | cons n names ih =>
    rcases List.mem_cons.mp h with rfl | hmem
    · change (((r.add name).addAll names).resolve (Key.ofName name)).isSome
      apply isSome_resolve_addAll
      rw [resolve_add, if_pos rfl]
      rfl
    · exact ih hmem

def Within (r s : Registry) : Prop := ∀ k, r.resolve k = none ∨ r.resolve k = s.resolve k

theorem within_empty (s : Registry) : Within {} s := fun k => .inl (resolve_empty k)

theorem within_refl (s : Registry) : Within s s := fun _ => .inr rfl

theorem Within.addAll (h : Within r s) (hnames : ∀ n ∈ names, s.resolve (Key.ofName n) = some n) :
    Within (r.addAll names) s := by
  induction names generalizing r with
  | nil => exact h
  | cons name names ih =>
    obtain ⟨hname, hrest⟩ := List.forall_mem_cons.mp hnames
    apply ih _ hrest
    intro k
    rw [resolve_add]
    split
    · rename_i hk
      right
      rw [hk, hname]
    · exact h k

theorem Within.resolve_addAll (h : Within r s)
    (hnames : ∀ n ∈ names, s.resolve (Key.ofName n) = some n) (hmem : name ∈ names) :
    (r.addAll names).resolve (Key.ofName name) = some name := by
  rcases h.addAll hnames (Key.ofName name) with hnone | hsome
  · have := isSome_resolve_of_mem (r := r) hmem
    rw [hnone] at this
    cases this
  · rw [hsome, hnames name hmem]

end Registry

end QbCodec
