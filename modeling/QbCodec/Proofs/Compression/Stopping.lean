import Mathlib.Logic.ExistsUnique
import QbCodec.Compression.Lzss

namespace QbCodec.Lzss

namespace Window

@[simp] theorem produced_put (w : Window) (b : UInt8) : (w.put b).produced = b :: w.produced := rfl

theorem produced_copy (w : Window) (position : Fin 4096) (n : Nat) :
    w.produced <:+ (w.copy position n).produced := by
  induction n generalizing w position with
  | zero => exact List.suffix_refl _
  | succ n ih => exact (List.suffix_cons _ _).trans (ih (w.put w.ring[position]) (position + 1))

def Counted (w : Window) : Prop := w.count = w.produced.length

theorem counted_start : start.Counted := rfl

theorem Counted.put {w : Window} (h : w.Counted) (b : UInt8) : (w.put b).Counted :=
  congrArg (· + 1) h

theorem Counted.copy {w : Window} (h : w.Counted) (position : Fin 4096) (n : Nat) :
    (w.copy position n).Counted := by
  induction n generalizing w position with
  | zero => exact h
  | succ n ih => exact ih (h.put _) _

end Window

def exhaust (w : Window) (left flags : Nat) : List UInt8 → Window
  | [] => w
  | b :: rest =>
    match left with
    | 0 => exhaust w 8 b.toNat rest
    | left + 1 =>
      if flags % 2 = 1 then exhaust (w.put b) left (flags / 2) rest
      else match rest with
        | [] => w
        | high :: rest =>
          exhaust (w.copy (referencePosition b high) (referenceLength high)) left (flags / 2) rest

def output (data : List UInt8) : List UInt8 := (exhaust .start 0 0 data).produced.reverse

variable {w : Window} {left flags : Nat} {data : List UInt8}

theorem exhaust_flags (w : Window) (flags : Nat) (b : UInt8) (rest : List UInt8) :
    exhaust w 0 flags (b :: rest) = exhaust w 8 b.toNat rest := by
  cases rest <;> rfl

theorem exhaust_literal (h : flags % 2 = 1) (w : Window) (left : Nat) (b : UInt8)
    (rest : List UInt8) :
    exhaust w (left + 1) flags (b :: rest) = exhaust (w.put b) left (flags / 2) rest := by
  cases rest <;> simp [exhaust, h]

theorem exhaust_reference (h : flags % 2 ≠ 1) (w : Window) (left : Nat) (low high : UInt8)
    (rest : List UInt8) :
    exhaust w (left + 1) flags (low :: high :: rest) =
      exhaust (w.copy (referencePosition low high) (referenceLength high)) left (flags / 2) rest := by
  simp [exhaust, h]

theorem exhaust_cut (h : flags % 2 ≠ 1) (w : Window) (left : Nat) (low : UInt8) :
    exhaust w (left + 1) flags [low] = w := by
  simp [exhaust, h]

theorem produced_exhaust (w : Window) (left flags : Nat) (data : List UInt8) :
    w.produced <:+ (exhaust w left flags data).produced := by
  fun_induction exhaust w left flags data with
  | case1 => exact List.suffix_refl _
  | case2 w flags b rest ih => exact ih
  | case3 w flags b rest left _ ih => exact (List.suffix_cons _ _).trans ih
  | case4 => exact List.suffix_refl _
  | case5 w flags b left _ high rest ih => exact (Window.produced_copy _ _ _).trans ih

theorem Window.Counted.exhaust (h : w.Counted) (left flags : Nat) (data : List UInt8) :
    (exhaust w left flags data).Counted := by
  fun_induction Lzss.exhaust w left flags data with
  | case1 => exact h
  | case2 w flags b rest ih => exact ih h
  | case3 w flags b rest left _ ih => exact ih (h.put b)
  | case4 => exact h
  | case5 w flags b left _ high rest ih => exact ih (h.copy _ _)

/-- A run is stopped by what is wanted, or it is the run that uses all the data. -/
theorem run_cases (h : w.Counted) (wanted left flags : Nat) (data : List UInt8) :
    run wanted w left flags data = exhaust w left flags data ∨
      (run wanted w left flags data).Counted ∧ wanted ≤ (run wanted w left flags data).count ∧
        (run wanted w left flags data).produced <:+ (exhaust w left flags data).produced := by
  fun_induction run wanted w left flags data with
  | case1 => exact .inl rfl
  | case2 w left flags b rest henough => exact .inr ⟨h, henough, produced_exhaust _ _ _ _⟩
  | case3 w flags b rest _ ih =>
    rw [exhaust_flags]
    exact ih h
  | case4 w flags b rest _ left hliteral ih =>
    rw [exhaust_literal hliteral]
    exact ih (h.put b)
  | case5 w flags b _ left hreference => exact .inl (exhaust_cut hreference w left b).symm
  | case6 w flags b _ left hreference high rest ih =>
    rw [exhaust_reference hreference]
    exact ih (h.copy _ _)

def endedEarly (produced wanted : Nat) : Failure :=
  .decompression s!"LZSS stream ended early: produced {produced} of {wanted} bytes"

def answer (all : List UInt8) (wanted : Nat) : Except Failure (List UInt8) :=
  if wanted ≤ all.length then .ok (all.take wanted) else .error (endedEarly all.length wanted)

theorem answer_of_isPrefix {all all' out : List UInt8} {wanted : Nat} (hstart : all <+: all')
    (h : answer all wanted = .ok out) : answer all' wanted = .ok out := by
  unfold answer at h ⊢
  split at h
  · rename_i henough
    cases h
    have hle := Nat.le_trans henough hstart.length_le
    obtain ⟨later, hlater⟩ := hstart
    rw [if_pos hle, ← hlater, List.take_append_of_le_length henough]
  · cases h

theorem decompress_eq (data : List UInt8) (wanted : Nat) :
    decompress data wanted = answer (output data) wanted := by
  have hall := Window.counted_start.exhaust 0 0 data
  have hlength : (exhaust .start 0 0 data).count = (output data).length := by
    rw [output, List.length_reverse]
    exact hall
  rw [decompress, answer]
  rcases run_cases Window.counted_start wanted 0 0 data with h | ⟨hcounted, henough, hsuffix⟩
  · rw [h, hlength]
    by_cases hw : (output data).length < wanted
    · rw [if_pos hw, if_neg (by omega)]
      rfl
    · rw [if_neg hw, if_pos (by omega)]
      rfl
  · have hprefix : (run wanted .start 0 0 data).produced.reverse <+: output data :=
      List.reverse_prefix.mpr hsuffix
    have hlong : wanted ≤ (run wanted .start 0 0 data).produced.reverse.length := by
      rw [List.length_reverse, ← hcounted]
      exact henough
    rw [if_neg (by omega)]
    exact (answer_of_isPrefix hprefix (if_pos hlong)).symm

theorem produced_exhaust_append (w : Window) (left flags : Nat) (data more : List UInt8) :
    (exhaust w left flags data).produced <:+ (exhaust w left flags (data ++ more)).produced := by
  fun_induction exhaust w left flags data with
  | case1 => exact produced_exhaust _ _ _ _
  | case2 w flags b rest ih =>
    rw [List.cons_append, exhaust_flags]
    exact ih
  | case3 w flags b rest left hliteral ih =>
    rw [List.cons_append, exhaust_literal hliteral]
    exact ih
  | case4 w flags b left hreference => exact produced_exhaust _ _ _ _
  | case5 w flags b left hreference high rest ih =>
    rw [List.cons_append, List.cons_append, exhaust_reference hreference]
    exact ih

theorem output_append (data more : List UInt8) : output data <+: output (data ++ more) :=
  List.reverse_prefix.mpr (produced_exhaust_append .start 0 0 data more)

theorem eq_of_answers {all all' : List UInt8} (h : ∀ wanted, answer all wanted = answer all' wanted) :
    all = all' := by
  have hle := h all.length
  have hge := h all'.length
  simp only [answer, Nat.le_refl, if_true] at hle hge
  split at hle
  · split at hge
    · have hlength : all.length = all'.length := by omega
      rw [List.take_length, hlength, List.take_length] at hle
      exact Except.ok.inj hle
    · cases hge
  · cases hle

theorem decompress?_eq (data : List UInt8) (wanted : Nat) :
    decompress? data wanted = if wanted < 2 ^ 63 then some (answer (output data) wanted) else none := by
  rw [decompress?, decompress_eq]

/-- There is one output of which every run over the data returns the start that is wanted, or tells
how far it came if more is wanted. Where there is no room for what is wanted, the program stops
whatever the data. Data behind what gave a result does not change it. -/
theorem decompress_consistent (data : List UInt8) :
    (∃! all : List UInt8, ∀ wanted, decompress data wanted = answer all wanted ∧
      decompress? data wanted = if wanted < 2 ^ 63 then some (answer all wanted) else none) ∧
      ∀ wanted out more, decompress? data wanted = some (.ok out) →
        decompress? (data ++ more) wanted = some (.ok out) := by
  constructor
  · refine ⟨output data, fun wanted => ⟨decompress_eq data wanted, decompress?_eq data wanted⟩, ?_⟩
    intro all hall
    apply eq_of_answers
    intro wanted
    rw [← decompress_eq]
    exact (hall wanted).1.symm
  · intro wanted out more h
    rw [decompress?_eq] at h ⊢
    split at h
    · rename_i hroom
      rw [if_pos hroom, answer_of_isPrefix (output_append data more) (Option.some.inj h)]
    · cases h

theorem decompress_consistent_literals :
    decompress? [3, 65, 66] 2 = some (.ok [65, 66]) ∧
      decompress? ([3, 65, 66] ++ [67]) 2 = some (.ok [65, 66]) := by
  have h : decompress? [3, 65, 66] 2 = some (.ok [65, 66]) := by rfl
  exact ⟨h, (decompress_consistent [3, 65, 66]).2 2 [65, 66] [67] h⟩

theorem not_decompress_consistent :
    decompress? [] (2 ^ 63) = none ∧
      ¬ ∃ all : List UInt8, ∀ wanted, decompress? [] wanted = some (answer all wanted) := by
  have hstop : decompress? [] (2 ^ 63) = none := by rfl
  refine ⟨hstop, ?_⟩
  rintro ⟨all, hall⟩
  rw [hall] at hstop
  cases hstop

end QbCodec.Lzss
