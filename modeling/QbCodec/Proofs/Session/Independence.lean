import Mathlib.Data.List.Forall2
import QbCodec.Session

namespace QbCodec

def Job.results (r : Registry) : Nat → Job → List (Except Failure Product)
  | 0, _ => []
  | count + 1, j =>
    let (result, j, r) := j.run r
    result :: results r count j

def Session.resultsOf (n : Nat) (s : Session) : List Nat → List (Except Failure Product)
  | [] => []
  | m :: order =>
    let (result, s) := s.run m
    (if m = n then result.toList else []) ++ s.resultsOf n order

variable {n m : Nat} {s : Session} {j : Job}

theorem Session.run_self (h : s.jobs[n]? = some j) :
    s.run n = (some (j.run s.registry).1, ⟨(j.run s.registry).2.2,
      s.jobs.set n (j.run s.registry).2.1⟩) := by
  unfold run
  rw [h]

theorem Session.getElem?_run_self (h : s.jobs[n]? = some j) :
    (s.run n).2.jobs[n]? = some (j.run s.registry).2.1 := by
  obtain ⟨hlt, -⟩ := List.getElem?_eq_some_iff.mp h
  rw [run_self h]
  exact List.getElem?_set_self hlt

theorem Session.getElem?_run_of_ne (h : m ≠ n) (s : Session) :
    (s.run m).2.jobs[n]? = s.jobs[n]? := by
  unfold run
  split
  · rfl
  · exact List.getElem?_set_ne h

def Job.Simulates (R : Job → Job → Prop) (S : Except Failure Product → Except Failure Product → Prop) :
    Prop :=
  ∀ i j, R i j → ∀ r r', S (i.run r).1 (j.run r').1 ∧ R (i.run r).2.1 (j.run r').2.1

theorem Session.forall₂_resultsOf {R : Job → Job → Prop}
    {S : Except Failure Product → Except Failure Product → Prop} (hstep : Job.Simulates R S)
    {i j : Job} (hi : s.jobs[n]? = some i) (hij : R i j) (order : List Nat) (r : Registry) :
    List.Forall₂ S (s.resultsOf n order) (j.results r (order.count n)) := by
  -- The induction is on the requests; those to other conversions change the registry alone.
  induction order generalizing s i j r with
  | nil => exact .nil
  | cons m order ih =>
    by_cases h : m = n
    · subst h
      obtain ⟨hresult, hnext⟩ := hstep i j hij s.registry r
      rw [List.count_cons_self]
      simp only [resultsOf, if_true, run_self hi, Option.toList_some, List.singleton_append]
      apply List.Forall₂.cons hresult
      apply ih _ hnext
      have := getElem?_run_self hi
      rwa [run_self hi] at this
    · rw [List.count_cons_of_ne h]
      simp only [resultsOf, h, if_false, List.nil_append]
      apply ih _ hij
      rw [getElem?_run_of_ne h, hi]

theorem Compilation.work_congr (c : Compilation) (r r' : Registry) :
    (c.work r).1 = (c.work r').1 := by
  unfold work
  dsimp only
  split
  · exact Compiled.ofSource_congr _ _ r r'
  · rfl

theorem Compilation.run_congr (c : Compilation) (r r' : Registry) :
    (c.run r).1 = (c.run r').1 ∧ (c.run r).2.1 = (c.run r').2.1 := by
  have hwork := c.work_congr r r'
  unfold run Conversion.runWith
  cases c.abortReason with
  | some reason => exact ⟨rfl, rfl⟩
  | none => exact ⟨hwork, congrArg c.record hwork⟩

theorem simulates_compilation : Job.Simulates (fun i j => i = j ∧ ∃ c, j = .compilation c) Eq := by
  rintro i j ⟨rfl, c, rfl⟩ r r'
  obtain ⟨hresult, hnext⟩ := c.run_congr r r'
  exact ⟨congrArg (·.map Product.file) hresult, congrArg Job.compilation hnext, _, rfl⟩

/-- The same failure, or texts of the same items under the names of two registries. -/
inductive Renamed (f : Format) : Except Failure Product → Except Failure Product → Prop
  | failure (e : Failure) : Renamed f (.error e) (.error e)
  | text (items : List Item) (r r' : Registry) :
      Renamed f (.ok (.source (Readable.text r f items))) (.ok (.source (Readable.text r' f items)))

structure Decompilation.Alike (f : Format) (c d : Decompilation) : Prop where
  format : c.input.1 = f
  input : c.input = d.input
  abortReason : c.abortReason = d.abortReason

theorem Decompilation.Alike.run {f : Format} {c d : Decompilation} (h : Alike f c d)
    (r r' : Registry) : Renamed f ((c.run r).1.map .source) ((d.run r').1.map .source) ∧
      Alike f (c.run r).2.1 (d.run r').2.1 := by
  have hwork (d : Decompilation) (r : Registry) : d.work r =
      ((Contents.ofBytes d.input.1 d.input.2).expanded Lzss.expander).map
        (Readable.text r d.input.1) := rfl
  unfold Decompilation.run Conversion.runWith
  rw [← h.abortReason]
  cases habort : c.abortReason with
  | some reason => exact ⟨.failure _, h⟩
  | none =>
    dsimp only
    rw [hwork, hwork, ← h.input, h.format]
    cases (Contents.ofBytes f c.input.2).expanded Lzss.expander with
    | error e => exact ⟨.failure e, h.format, h.input, rfl⟩
    | ok items => exact ⟨.text items r r', h.format, h.input, h.abortReason⟩

theorem simulates_decompilation (f : Format) : Job.Simulates
    (fun i j => ∃ c d, i = .decompilation c ∧ j = .decompilation d ∧ Decompilation.Alike f c d)
    (Renamed f) := by
  rintro _ _ ⟨c, d, rfl, rfl, h⟩ r r'
  obtain ⟨hresult, hnext⟩ := h.run r r'
  exact ⟨hresult, _, _, rfl, rfl, hnext⟩

/-- The results of a compilation are those of its own runs alone from an empty registry. The results
of a decompilation are those of its own runs alone from any registry, but for the names in texts. -/
theorem Session.resultsOf_eq_alone (s : Session) (n : Nat) (order : List Nat) :
    (∀ c, s.jobs[n]? = some (.compilation c) →
      s.resultsOf n order = (Job.compilation c).results {} (order.count n)) ∧
    ∀ c, s.jobs[n]? = some (.decompilation c) → ∀ r,
      List.Forall₂ (Renamed c.input.1) (s.resultsOf n order)
        ((Job.decompilation c).results r (order.count n)) := by
  constructor
  · intro c hc
    rw [← List.forall₂_eq_eq_eq]
    exact forall₂_resultsOf simulates_compilation hc ⟨rfl, c, rfl⟩ order {}
  · intro c hc r
    exact forall₂_resultsOf (simulates_decompilation c.input.1) hc
      ⟨c, c, rfl, rfl, rfl, rfl, rfl⟩ order r

theorem Session.resultsOf_eq_alone_pair :
    let c : Compilation := { fileName := "a.q", input := "b = 1", options := {} }
    let file := Compiled.bytes ⟨Key.ofName "a.q", .big, .ghwt⟩ [.value (Key.ofLiteral "b") 1]
    let d : Decompilation := { fileName := "a.qb", input := ({}, file), options := {} }
    let s : Session := ⟨Registry.empty.add "B", [.compilation c, .decompilation d]⟩
    (s.resultsOf 1 [1, 0, 1, 0]).map Except.toOption =
        [some (.source "B = 1\n"), some (.source "b = 1\n")] ∧
      s.resultsOf 0 [1, 0, 1, 0] = (Job.compilation c).results {} 2 ∧
      List.Forall₂ (Renamed {}) (s.resultsOf 1 [1, 0, 1, 0])
        ((Job.decompilation d).results {} 2) := by
  intro c file d s
  refine ⟨by decide +kernel, ?_, ?_⟩
  · exact (resultsOf_eq_alone s 0 [1, 0, 1, 0]).1 c rfl
  · exact (resultsOf_eq_alone s 1 [1, 0, 1, 0]).2 d rfl {}

end QbCodec
