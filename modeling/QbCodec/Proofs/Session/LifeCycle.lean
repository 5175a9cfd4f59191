import QbCodec.Proofs.File.Tiling
import QbCodec.Proofs.Session.Independence

namespace QbCodec

namespace Text

theorem append_ne_empty {s t : String} (h : s ≠ "") : s ++ t ≠ "" :=
  fun happend => h (String.append_eq_empty_iff.mp happend).1

end Text

theorem Diagnostic.message_ne_empty (d : Diagnostic) : d.message ≠ "" := by
  unfold message
  repeat apply Text.append_ne_empty
  decide

namespace Failure

def IsAbort (e : Failure) : Prop := ∃ reason, e = .aborted reason

theorem message_ne_empty (e : Failure) : e.message ≠ "" := by
  cases e with
  | source d => exact d.message_ne_empty
  | _ =>
    unfold message
    repeat apply Text.append_ne_empty
    decide

end Failure

theorem Item.Unreadable.not_isAbort {o : ByteOrder} {d : List UInt8} {a : Nat} {e : Failure}
    (h : Unreadable o d a e) : ¬ e.IsAbort := by
  rintro ⟨reason, rfl⟩
  cases h with
  | cutWord fits htag cut =>
    obtain ⟨k, -, -, -, he⟩ := cut
    cases he

theorem Contents.FirstBad.not_isAbort {x : Expander} (hx : ∀ y e, x y = .error e → ¬ e.IsAbort)
    {o : ByteOrder} {d : List UInt8} {a : Nat} {e : Failure} (h : FirstBad x o d a e) :
    ¬ e.IsAbort := by
  induction h with
  | unreadable more h => exact h.not_isAbort
  | unexpandable here hy h => exact hx _ _ h
  | later here hexpand h ih => exact ih

theorem Lzss.not_isAbort_of_expander (y : Expansion) (e : Failure) (h : expander y = .error e) :
    ¬ e.IsAbort := by
  rintro ⟨reason, rfl⟩
  unfold expander decompress at h
  dsimp only at h
  split at h <;> cases h

theorem Decompilation.not_isAbort_of_work {c : Decompilation} {r : Registry} {e : Failure}
    (h : c.work r = .error e) : ¬ e.IsAbort := by
  rcases Readable.ofBytes_eq_error_iff.mp h with ⟨-, rfl⟩ | ⟨-, hbad⟩
  · rintro ⟨reason, he⟩
    cases he
  · exact hbad.not_isAbort Lzss.not_isAbort_of_expander

theorem Source.not_isAbort_of_lexemes {source : String} {e : Failure}
    (h : lexemes source = .error e) : ¬ e.IsAbort := by
  rintro ⟨reason, rfl⟩
  unfold lexemes at h
  cases hscan : scan source.toList <;> rw [hscan] at h <;> cases h

theorem Compilation.not_isAbort_of_work {c : Compilation} {r : Registry} {e : Failure}
    (h : (c.work r).1 = .error e) : ¬ e.IsAbort := by
  unfold work Compiled.ofSource at h
  dsimp only at h
  split at h
  · split at h
    · rename_i f hlexemes
      obtain rfl : f = e := by simpa using h
      exact Source.not_isAbort_of_lexemes hlexemes
    · rintro ⟨reason, rfl⟩
      unfold Compiled.ofLexemes at h
      dsimp only at h
      split at h <;> cases h
  · rintro ⟨reason, rfl⟩
    cases h

namespace Conversion

variable {α β : Type} {c : Conversion α β} {r : Registry}
  {work : Registry → Except Failure β × Registry}

theorem abortReason_fail (c : Conversion α β) (reason : String) :
    (c.fail reason).abortReason = some (if reason = "" then defaultReason else reason) := rfl

theorem runWith_of_abortReason {reason : String} (h : c.abortReason = some reason) :
    runWith work c r = (.error (.aborted reason), c, r) := by
  simp only [runWith, h]

theorem runWith_of_none (h : c.abortReason = none) :
    runWith work c r = ((work r).1, c.record (work r).1, (work r).2) := by
  simp only [runWith, h]

theorem record_error (c : Conversion α β) (e : Failure) :
    c.record (.error e) = { c with abortReason := some e.message } := by
  simp only [record, fail, e.message_ne_empty, if_false]

end Conversion

inductive Job.Ran (j : Job) : Except Failure Product → Job → Prop
  | ok {p : Product} {k : Job} (output : k.output = some p) (reason : k.abortReason = none) :
      Ran j (.ok p) k
  | error {e : Failure} {k : Job} (abort : ¬ e.IsAbort) (output : k.output = j.output)
      (reason : k.abortReason = some e.message) : Ran j (.error e) k

variable {j k : Job} {r : Registry}

theorem Compilation.ran_run {c : Compilation} (h : c.abortReason = none) :
    (Job.compilation c).Ran ((Job.compilation c).run r).1 ((Job.compilation c).run r).2.1 := by
  have hrun : (Job.compilation c).run r = ((c.work r).1.map .file,
      .compilation (c.record (c.work r).1), (c.work r).2) := by
    simp only [Job.run, run, Conversion.runWith_of_none h]
  rw [hrun]
  cases hwork : (c.work r).1 with
  | ok bytes => exact .ok rfl h
  | error e =>
    rw [c.record_error]
    exact .error (not_isAbort_of_work hwork) rfl rfl

theorem Decompilation.ran_run {c : Decompilation} (h : c.abortReason = none) :
    (Job.decompilation c).Ran ((Job.decompilation c).run r).1
      ((Job.decompilation c).run r).2.1 := by
  have hrun : (Job.decompilation c).run r = ((c.work r).map .source,
      .decompilation (c.record (c.work r)), r) := by
    simp only [Job.run, run, Conversion.runWith_of_none h]
  rw [hrun]
  cases hwork : c.work r with
  | ok text => exact .ok rfl h
  | error e =>
    rw [c.record_error]
    exact .error (not_isAbort_of_work hwork) rfl rfl

namespace Job

theorem ran_run (h : j.abortReason = none) (r : Registry) :
    j.Ran (j.run r).1 (j.run r).2.1 := by
  cases j with
  | compilation c => exact Compilation.ran_run h
  | decompilation c => exact Decompilation.ran_run h

theorem run_of_abortReason {reason : String} (h : j.abortReason = some reason) (r : Registry) :
    j.run r = (.error (.aborted reason), j, r) := by
  cases j with
  | compilation c =>
    simp only [run, Compilation.run, Conversion.runWith_of_abortReason h, Except.map]
  | decompilation c =>
    simp only [run, Decompilation.run, Conversion.runWith_of_abortReason h, Except.map]

theorem abortReason_fail (j : Job) (reason : String) : (j.fail reason).abortReason =
    some (if reason = "" then Conversion.defaultReason else reason) := by
  cases j <;> rfl

theorem output_fail (j : Job) (reason : String) : (j.fail reason).output = j.output := by
  cases j <;> rfl

end Job

namespace Session

inductive Call
  | run (n : Nat)
  | fail (n : Nat) (reason : String)

inductive Event
  | ran (n : Nat) (result : Except Failure Product)
  | stopped (n : Nat) (reason : String)

def Event.conversion : Event → Nat
  | ran n _ | stopped n _ => n

/-- The reason that is recorded for conversion `n`. A run that is refused records none. -/
def Event.reason? (n : Nat) : Event → Option String
  | ran _ (.error (.aborted _)) => none
  | ran m (.error e) => if m = n then some e.message else none
  | ran _ (.ok _) => none
  | stopped m reason =>
    if m = n then some (if reason = "" then Conversion.defaultReason else reason) else none

def Event.output? (n : Nat) : Event → Option Product
  | ran m (.ok p) => if m = n then some p else none
  | _ => none

def lastReason (n : Nat) (log : List Event) : Option String :=
  log.reverse.findSome? (Event.reason? n)

def lastOutput (n : Nat) (log : List Event) : Option Product :=
  log.reverse.findSome? (Event.output? n)

def perform (s : Session) : Call → List Event × Session
  | .run n =>
    match s.run n with
    | (none, s) => ([], s)
    | (some result, s) => ([.ran n result], s)
  | .fail n reason => ([.stopped n reason], s.fail n reason)

def performAll (s : Session) : List Call → List Event × Session
  | [] => ([], s)
  | c :: calls =>
    let (first, s) := s.perform c
    let (rest, s) := s.performAll calls
    (first ++ rest, s)

variable {n : Nat} {log : List Event} {s : Session}

theorem lastReason_append (n : Nat) (log more : List Event) :
    lastReason n (log ++ more) = (lastReason n more).or (lastReason n log) := by
  simp only [lastReason, List.reverse_append, List.findSome?_append]

theorem lastOutput_append (n : Nat) (log more : List Event) :
    lastOutput n (log ++ more) = (lastOutput n more).or (lastOutput n log) := by
  simp only [lastOutput, List.reverse_append, List.findSome?_append]

theorem Event.reason?_ran {e : Failure} (h : ¬ e.IsAbort) (n : Nat) :
    (ran n (.error e)).reason? n = some e.message := by
  unfold reason?
  split
  · rename_i reason heq
    cases heq
    exact absurd ⟨reason, rfl⟩ h
  · rename_i heq
    cases heq
    exact if_pos rfl
  · rename_i heq
    cases heq
  · rename_i heq
    cases heq

theorem Event.reason?_of_ne {e : Event} (h : e.conversion ≠ n) : e.reason? n = none := by
  unfold reason?
  split
  · rfl
  · exact if_neg h
  · rfl
  · exact if_neg h

theorem Event.output?_of_ne {e : Event} (h : e.conversion ≠ n) : e.output? n = none := by
  unfold output?
  split
  · exact if_neg h
  · rfl

theorem Event.reason?_stopped (n : Nat) (reason : String) : (stopped n reason).reason? n =
    some (if reason = "" then Conversion.defaultReason else reason) := if_pos rfl

theorem Event.reason?_ne_empty (n : Nat) (e : Event) : e.reason? n ≠ some "" := by
  unfold reason?
  split
  · simp
  · rename_i e _
    split
    · simpa using e.message_ne_empty
    · simp
  · simp
  · split
    · split
      · decide
      · simpa using ‹_›
    · simp

theorem lastReason_ne_empty (n : Nat) (log : List Event) : lastReason n log ≠ some "" := by
  intro h
  obtain ⟨e, -, he⟩ := List.exists_of_findSome?_eq_some h
  exact e.reason?_ne_empty n he

structure Follows (n : Nat) (log : List Event) (j : Job) : Prop where
  reason : j.abortReason = lastReason n log
  output : j.output = lastOutput n log

theorem Follows.concat {e : Event} (h : Follows n log j)
    (hreason : k.abortReason = (e.reason? n).or j.abortReason)
    (houtput : k.output = (e.output? n).or j.output) : Follows n (log ++ [e]) k where
  reason := by
    rw [lastReason_append, ← h.reason, hreason]
    simp [lastReason]
  output := by
    rw [lastOutput_append, ← h.output, houtput]
    simp [lastOutput]

theorem Follows.other {e : Event} (h : Follows n log j) (he : e.conversion ≠ n) :
    Follows n (log ++ [e]) j :=
  h.concat (by rw [e.reason?_of_ne he]; rfl) (by rw [e.output?_of_ne he]; rfl)

theorem Follows.run (h : Follows n log j) (r : Registry) :
    Follows n (log ++ [.ran n (j.run r).1]) (j.run r).2.1 := by
  cases hreason : j.abortReason with
  | some reason =>
    rw [Job.run_of_abortReason hreason]
    exact h.concat rfl rfl
  | none =>
    have hran := Job.ran_run hreason r
    generalize (j.run r).1 = result at hran ⊢
    generalize (j.run r).2.1 = k at hran ⊢
    cases hran with
    | ok output reason =>
      exact h.concat (reason.trans hreason.symm) (by simp [Event.output?, output])
    | error abort output reason =>
      apply h.concat
      · rw [reason, Event.reason?_ran abort]
        rfl
      · exact output

theorem perform_run_of_none (h : s.jobs[n]? = none) : s.perform (.run n) = ([], s) := by
  simp only [perform, Session.run, h]

theorem perform_run_of_some (h : s.jobs[n]? = some j) :
    s.perform (.run n) = ([.ran n (j.run s.registry).1],
      ⟨(j.run s.registry).2.2, s.jobs.set n (j.run s.registry).2.1⟩) := by
  simp only [perform, run_self h]

theorem Follows.perform (h : Follows n log j) (hj : s.jobs[n]? = some j) (c : Call) :
    ∃ k, (s.perform c).2.jobs[n]? = some k ∧ Follows n (log ++ (s.perform c).1) k := by
  cases c with
  | run m =>
    cases hm : s.jobs[m]? with
    | none =>
      rw [perform_run_of_none hm, List.append_nil]
      exact ⟨j, hj, h⟩
    | some i =>
      rw [perform_run_of_some hm]
      by_cases hmn : m = n
      · subst hmn
        obtain rfl : j = i := Option.some.inj (hj.symm.trans hm)
        refine ⟨_, List.getElem?_set_self ?_, h.run s.registry⟩
        exact (List.getElem?_eq_some_iff.mp hj).1
      · exact ⟨j, (List.getElem?_set_ne hmn).trans hj, h.other hmn⟩
  | fail m reason =>
    have hjobs : (s.fail m reason).jobs[n]? =
        some (if m = n then j.fail reason else j) := by
      rw [Session.fail, List.getElem?_modify, hj]
      split <;> rfl
    refine ⟨_, hjobs, ?_⟩
    by_cases hmn : m = n
    · subst hmn
      rw [if_pos rfl]
      apply h.concat
      · rw [Job.abortReason_fail, Event.reason?_stopped]
        rfl
      · exact j.output_fail reason
    · rw [if_neg hmn]
      exact h.other hmn

theorem Follows.performAll (h : Follows n log j) (hj : s.jobs[n]? = some j) (calls : List Call) :
    ∃ k, (s.performAll calls).2.jobs[n]? = some k ∧
      Follows n (log ++ (s.performAll calls).1) k := by
  induction calls generalizing s j log with
  | nil => exact ⟨j, hj, by simpa [performAll] using h⟩
  | cons c calls ih =>
    obtain ⟨k, hk, hfollows⟩ := h.perform hj c
    obtain ⟨l, hl, hlast⟩ := ih hfollows hk
    rw [List.append_assoc] at hlast
    exact ⟨l, hl, hlast⟩

theorem Follows.failed_iff (h : Follows n log j) :
    j.failed ↔ ∃ reason, j.abortReason = some reason ∧ reason ≠ "" := by
  rw [Job.failed, Option.isSome_iff_exists]
  constructor
  · rintro ⟨reason, hreason⟩
    refine ⟨reason, hreason, ?_⟩
    rintro rfl
    exact lastReason_ne_empty n log (h.reason.symm.trans hreason)
  · rintro ⟨reason, hreason, -⟩
    exact ⟨reason, hreason⟩

theorem Follows.failed_performAll (h : Follows n log j) (hj : s.jobs[n]? = some j)
    (hfailed : j.failed) (calls : List Call) :
    ∃ k, (s.performAll calls).2.jobs[n]? = some k ∧ k.failed := by
  obtain ⟨k, hk, hlater⟩ := h.performAll hj calls
  refine ⟨k, hk, ?_⟩
  rw [Job.failed, h.reason] at hfailed
  rw [Job.failed, hlater.reason, lastReason_append, Option.isSome_or, hfailed, Bool.or_true]

theorem run_of_abortReason {reason : String} (hj : s.jobs[n]? = some j)
    (h : j.abortReason = some reason) : s.run n = (some (.error (.aborted reason)), s) := by
  obtain ⟨hn, rfl⟩ := List.getElem?_eq_some_iff.mp hj
  rw [run_self hj, Job.run_of_abortReason h, List.set_getElem_self]

theorem abortReason_run_of_error {e : Failure} (hj : s.jobs[n]? = some j)
    (h : (s.run n).1 = some (.error e)) (he : ¬ e.IsAbort) :
    ∃ k, (s.run n).2.jobs[n]? = some k ∧ k.failed ∧ k.abortReason = some e.message := by
  refine ⟨_, getElem?_run_self hj, ?_⟩
  simp only [run_self hj, Option.some.injEq] at h
  cases hreason : j.abortReason with
  | some reason =>
    rw [Job.run_of_abortReason hreason] at h
    cases h
    exact absurd ⟨reason, rfl⟩ he
  | none =>
    have hran := Job.ran_run hreason s.registry
    rw [h] at hran
    cases hran with
    | error abort output reason => exact ⟨by rw [Job.failed, reason]; rfl, reason⟩

/-- After any calls each conversion that was new at the start has the last reason recorded for it,
which is never empty, and the last output that it gave. One that has failed refuses to run, naming
that reason, and nothing changes; it stays failed whatever comes. One that fails in a run has the
message of its failure as the reason. -/
theorem lifeCycle_performAll {s : Session} {n : Nat} {j : Job} (hj : s.jobs[n]? = some j)
    (hnew : j.output = none ∧ j.abortReason = none) (calls : List Call) :
    let log := (s.performAll calls).1
    let t := (s.performAll calls).2
    ∃ k, t.jobs[n]? = some k ∧
      (k.failed ↔ ∃ reason, k.abortReason = some reason ∧ reason ≠ "") ∧
      k.abortReason = lastReason n log ∧
      k.output = lastOutput n log ∧
      (∀ reason, k.abortReason = some reason →
        t.run n = (some (.error (.aborted reason)), t)) ∧
      (k.failed → ∀ more, ∃ l, (t.performAll more).2.jobs[n]? = some l ∧ l.failed) ∧
      ∀ e, (t.run n).1 = some (.error e) → ¬ e.IsAbort →
        ∃ l, (t.run n).2.jobs[n]? = some l ∧ l.failed ∧ l.abortReason = some e.message := by
  intro log t
  have hstart : Follows n [] j := ⟨hnew.2, hnew.1⟩
  obtain ⟨k, hk, hfollows⟩ := hstart.performAll hj calls
  exact ⟨k, hk, hfollows.failed_iff, hfollows.reason, hfollows.output,
    fun reason hreason => run_of_abortReason hk hreason,
    fun hfailed more => hfollows.failed_performAll hk hfailed more,
    fun e he habort => abortReason_run_of_error hk he habort⟩

theorem lifeCycle_performAll_pair :
    let c : Compilation := { fileName := "a.q", input := "b = <c", options := {} }
    let d : Decompilation := { fileName := "a.qb", input := ({}, []), options := {} }
    let s : Session := ⟨{}, [.compilation c, .decompilation d]⟩
    let calls : List Call := [.run 0, .fail 0 "", .run 1, .run 0, .fail 0 "late"]
    let t := (s.performAll calls).2
    ∃ k, t.jobs[0]? = some k ∧ k.abortReason = some "late" ∧
      t.run 0 = (some (.error (.aborted "late")), t) := by
  intro c d s calls t
  have hlast : lastReason 0 (s.performAll calls).1 = some "late" := by rfl
  obtain ⟨k, hk, -, hreason, -, hrefused, -⟩ :=
    lifeCycle_performAll (s := s) (n := 0) rfl ⟨rfl, rfl⟩ calls
  rw [hlast] at hreason
  exact ⟨k, hk, hreason, hrefused "late" hreason⟩

end Session

end QbCodec
