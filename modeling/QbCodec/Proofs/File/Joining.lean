import QbCodec.Proofs.File.Coding
import QbCodec.Proofs.Source.Joining

namespace QbCodec

namespace Statement

variable {game : Game} {ts us : List Token} {ns ms : List String} {ss rs : List Statement}

theorem Text.append (h : Text game ts ns ss) (h' : Text game us ms rs) :
    Text game (ts ++ us) (ns ++ ms) (ss ++ rs) := by
  induction h with
  | nil => exact h'
  | newLine _ ih => exact .newLine ih
  | value hk v _ ih =>
    rw [List.append_assoc]
    exact .value hk v ih
  | script hk hend hbody _ ih =>
    rw [List.append_assoc, List.append_assoc, List.cons_append, List.cons_append,
      List.append_assoc]
    exact .script hk hend hbody ih

theorem Text.of_newLine (h : Text game (.mark .newLine :: ts) ns ss) : Text game ts ns ss := by
  cases h with
  | newLine h => exact h
  | value hk => cases hk

theorem eq_of_first {e : Token} {bs cs : List Token} (hb : e ∉ bs) (hc : e ∉ cs)
    (h : bs ++ e :: ts = cs ++ e :: us) : ts = us := by
  rcases List.append_eq_append_iff.mp h with ⟨as, rfl, has⟩ | ⟨as, rfl, has⟩
  · cases as with
    | nil => exact (List.cons.inj has).2
    | cons a as =>
      obtain ⟨rfl, -⟩ := List.cons.inj has
      exact absurd (List.mem_append_right _ List.mem_cons_self) hc
  · cases as with
    | nil => exact (List.cons.inj has).2.symm
    | cons a as =>
      obtain ⟨rfl, -⟩ := List.cons.inj has
      exact absurd (List.mem_append_right _ List.mem_cons_self) hb

theorem Text.of_value {n : Token} {k : Key} {v : Int32} (hk : Naming n ms k)
    (h : Text game (n :: .mark .equals :: .int v :: ts) ns ss) :
    ∃ ns' ss', Text game ts ns' ss' := by
  generalize hrest : Token.mark .equals :: .int v :: ts = rest at h
  cases h with
  | newLine => cases hk
  | value _ _ h =>
    cases hrest
    exact ⟨_, _, h⟩
  | script => cases hk

theorem Text.of_script {n : Token} {bs : List Token} (hend : .keyword .endScript ∉ bs)
    (h : Text game (.keyword .script :: n :: (bs ++ .keyword .endScript :: ts)) ns ss) :
    ∃ ns' ss', Text game ts ns' ss' := by
  generalize hafter : bs ++ .keyword .endScript :: ts = after at h
  cases h with
  | value hk => cases hk
  | script _ hend' _ h =>
    rw [eq_of_first hend hend' hafter]
    exact ⟨_, _, h⟩

theorem Text.of_append (h : Text game ts ns ss) (h' : Text game (ts ++ us) ms rs) :
    ∃ ms' rs', Text game us ms' rs' := by
  induction h generalizing ms rs with
  | nil => exact ⟨_, _, h'⟩
  | newLine _ ih => exact ih h'.of_newLine
  | value hk v _ ih =>
    obtain ⟨_, _, h'⟩ := Text.of_value hk h'
    exact ih h'
  | script hk hend hbody _ ih =>
    rw [List.cons_append, List.cons_append, List.append_assoc] at h'
    obtain ⟨_, _, h'⟩ := Text.of_script hend h'
    exact ih h'

theorem text_lineEnds (game : Game) (n : Nat) :
    Text game (List.replicate n (.mark .newLine)) [] [] := by
  induction n with
  | zero => exact .nil
  | succ n ih => exact .newLine ih

theorem Text.joins {ls ks all : List Lexeme} (hall : Source.Joins ls ks all)
    (h : Text game (tokens ls) ns ss) (h' : Text game (tokens ks) ms rs) :
    Text game (tokens all) (ns ++ ms) (ss ++ rs) := by
  obtain ⟨m, n, hall⟩ := hall
  rw [hall]
  exact (text_lineEnds game m).append (h.append ((text_lineEnds game n).append h'))

theorem Text.of_joins {ls ks all : List Lexeme} (hall : Source.Joins ls ks all)
    (h : Text game (tokens ls) ns ss) (h' : Text game (tokens all) ms rs) :
    ∃ ms' rs', Text game (tokens ks) ms' rs' := by
  obtain ⟨m, n, hall⟩ := hall
  rw [hall] at h'
  obtain ⟨_, _, h'⟩ := (text_lineEnds game m).of_append h'
  obtain ⟨_, _, h'⟩ := h.of_append h'
  exact (text_lineEnds game n).of_append h'

end Statement

namespace Compiled

open Statement

variable {t : Target}

theorem drop_bytes (t : Target) (ss : List Statement) :
    (bytes t ss).drop headerSize = items t ss :=
  List.drop_left' (length_header _ _)

theorem length_bytes (t : Target) (ss : List Statement) :
    (bytes t ss).length = headerSize + (items t ss).length := by
  rw [bytes, List.length_append, length_header]
  rfl

def join (o : ByteOrder) (file file' : List UInt8) : List UInt8 :=
  header o (file.length + (file'.drop headerSize).length) ++
    (file.drop headerSize ++ file'.drop headerSize)

theorem bytes_append (t : Target) (ss rs : List Statement) :
    bytes t (ss ++ rs) = join t.order (bytes t ss) (bytes t rs) := by
  have hitems : items t (ss ++ rs) = items t ss ++ items t rs := List.flatMap_append
  rw [join, drop_bytes, drop_bytes, length_bytes, bytes, hitems, List.length_append, Nat.add_assoc]

/-- If a text that ends in a line end compiles and another can be joined to it, both together
compile if and only if the other compiles, to the items of the two files, and they fail to scan as
the other fails, only later. If the other cannot be joined to it, both together fail to scan. -/
theorem ofSource_append {p q : String} {r : Registry} {file : List UInt8}
    (hend : p.toList.getLast? = some '\n') (hfile : (ofSource t p r).1 = .ok file) :
    (Source.Joinable p.toList q.toList →
      ((∃ all, (ofSource t (p ++ q) r).1 = .ok all) ↔ ∃ file', (ofSource t q r).1 = .ok file') ∧
      (∀ file', (ofSource t q r).1 = .ok file' →
        (ofSource t (p ++ q) r).1 = .ok (join t.order file file')) ∧
      ∀ e, Source.lexemes q = .error e → ∃ d d', e = .source d ∧
        Source.lexemes (p ++ q) = .error (.source d') ∧ Source.Shifted p d d') ∧
    (¬ Source.Joinable p.toList q.toList → ∃ d, Source.lexemes (p ++ q) = .error (.source d)) := by
  obtain ⟨ls, ns, ss, hls, hp, rfl⟩ := ofSource_eq_ok hfile
  refine ⟨fun hjoin => ?_, Source.lexemes_append_error hend hls⟩
  rcases Source.lexemes_append hend hls hjoin with
    ⟨ks, all, hq, hall, hjoins⟩ | ⟨d, d', hq, hall, hshifted⟩
  · have hfiles (file' : List UInt8) (h : (ofSource t q r).1 = .ok file') :
        (ofSource t (p ++ q) r).1 = .ok (join t.order (bytes t ss) file') := by
      obtain ⟨ks', ms, rs, hq', htext, rfl⟩ := ofSource_eq_ok h
      rw [hq] at hq'
      cases hq'
      rw [← bytes_append, ofSource_eq hall (hp.joins hjoins htext) r]
    refine ⟨⟨?_, ?_⟩, hfiles, ?_⟩
    · rintro ⟨file', h⟩
      obtain ⟨all', ms, rs, hall', htext, -⟩ := ofSource_eq_ok h
      rw [hall] at hall'
      cases hall'
      obtain ⟨ms', rs', htext⟩ := hp.of_joins hjoins htext
      exact ⟨_, congrArg Prod.fst (ofSource_eq hq htext r)⟩
    · rintro ⟨file', h⟩
      exact ⟨_, hfiles file' h⟩
    · intro e he
      rw [hq] at he
      cases he
  · have hnone {source : String} {d : Diagnostic} (h : Source.lexemes source = .error (.source d))
        (file' : List UInt8) : (ofSource t source r).1 ≠ .ok file' := by
      intro hok
      obtain ⟨ks, -, -, hks, -⟩ := ofSource_eq_ok hok
      rw [h] at hks
      cases hks
    refine ⟨⟨?_, ?_⟩, ?_, ?_⟩
    · rintro ⟨file', h⟩
      exact absurd h (hnone hall file')
    · rintro ⟨file', h⟩
      exact absurd h (hnone hq file')
    · intro file' h
      exact absurd h (hnone hq file')
    · intro e he
      rw [hq] at he
      cases he
      exact ⟨d, d', rfl, hall, hshifted⟩

theorem ofSource_append_values :
    (ofSource ⟨0, .big, .ghwt⟩ ("x = 1\n" ++ "y = 2") {}).1 =
      .ok (join .big (bytes ⟨0, .big, .ghwt⟩ [.value (Key.ofLiteral "x") 1])
        (bytes ⟨0, .big, .ghwt⟩ [.value (Key.ofLiteral "y") 2])) := by
  have hx : Source.lexemes "x = 1\n" =
      .ok [⟨.name "x", 0⟩, ⟨.mark .equals, 2⟩, ⟨.int 1, 4⟩, ⟨.mark .newLine, 5⟩] := by
    apply Source.lexemes_of_toOption
    decide +kernel
  have hy : Source.lexemes "y = 2" = .ok [⟨.name "y", 0⟩, ⟨.mark .equals, 2⟩, ⟨.int 2, 4⟩] := by
    apply Source.lexemes_of_toOption
    decide +kernel
  have hfile := ofSource_eq (t := ⟨0, .big, .ghwt⟩) hx (.value (.name "x") 1 (.newLine .nil)) {}
  have hfile' := ofSource_eq (t := ⟨0, .big, .ghwt⟩) hy (.value (.name "y") 2 .nil) {}
  have hplain : Source.Joinable "x = 1\n".toList "y = 2".toList :=
    .inr ⟨fun h => absurd h (by decide), fun h => absurd h (by decide)⟩
  obtain ⟨hjoin, -⟩ := ofSource_append (q := "y = 2") (by decide) (congrArg Prod.fst hfile)
  exact (hjoin hplain).2.1 _ (congrArg Prod.fst hfile')

/-- A form feed alone is a blank text, but beside another text it stops the scanner. -/
theorem not_ofSource_append_formFeed :
    "\x0c\n".toList.getLast? = some '\n' ∧
      (∃ file, (ofSource ⟨0, .big, .ghwt⟩ "\x0c\n" {}).1 = .ok file) ∧
      (∃ file', (ofSource ⟨0, .big, .ghwt⟩ "x = 1" {}).1 = .ok file') ∧
      ¬ ∃ all, (ofSource ⟨0, .big, .ghwt⟩ ("\x0c\n" ++ "x = 1") {}).1 = .ok all := by
  have hblank : Source.lexemes "\x0c\n" = .ok [] := by
    apply Source.lexemes_of_toOption
    decide +kernel
  have hx : Source.lexemes "x = 1" = .ok [⟨.name "x", 0⟩, ⟨.mark .equals, 2⟩, ⟨.int 1, 4⟩] := by
    apply Source.lexemes_of_toOption
    decide +kernel
  have hnone : (Source.lexemes ("\x0c\n" ++ "x = 1")).toOption = none := by decide +kernel
  have hfile := ofSource_eq (t := ⟨0, .big, .ghwt⟩) hblank .nil {}
  have hfile' := ofSource_eq (t := ⟨0, .big, .ghwt⟩) hx (.value (.name "x") 1 .nil) {}
  refine ⟨by decide, ⟨_, congrArg Prod.fst hfile⟩, ⟨_, congrArg Prod.fst hfile'⟩, ?_⟩
  rintro ⟨all, hall⟩
  obtain ⟨ls, -, -, hls, -⟩ := ofSource_eq_ok hall
  rw [hls] at hnone
  cases hnone

end Compiled

end QbCodec
