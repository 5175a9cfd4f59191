import Mathlib.Data.List.TakeWhile
import QbCodec.Proofs.Key.Digits
import QbCodec.Proofs.Key.Indexes
import QbCodec.Proofs.Text.Pieces

namespace QbCodec

namespace Text

variable {p : Char → Bool} {c : Char} {cs front back : List Char}

theorem dropWhile_of_head? (h : ∀ c ∈ cs.head?, p c = false) : cs.dropWhile p = cs := by
  cases cs with
  | nil => rfl
  | cons c cs => rw [List.dropWhile_cons, h c rfl, if_neg (by decide)]

theorem dropEnd_append (hback : ∀ c ∈ back, p c) (hlast : ∀ c ∈ cs.getLast?, p c = false) :
    dropEnd p (cs ++ back) = cs := by
  have hreverse : ∀ c ∈ back.reverse, p c := fun c hc => hback c (List.mem_reverse.mp hc)
  rw [← List.head?_reverse] at hlast
  rw [dropEnd, List.reverse_append, List.dropWhile_append_of_pos hreverse,
    dropWhile_of_head? hlast, List.reverse_reverse]

theorem dropEnd_dropWhile (hfront : ∀ c ∈ front, p c) (hback : ∀ c ∈ back, p c)
    (hhead : ∀ c ∈ cs.head?, p c = false) (hlast : ∀ c ∈ cs.getLast?, p c = false) :
    dropEnd p ((front ++ cs ++ back).dropWhile p) = cs := by
  rw [List.append_assoc, List.dropWhile_append_of_pos hfront]
  cases cs with
  | nil =>
    rw [List.nil_append, List.dropWhile_eq_nil_iff.mpr hback]
    rfl
  | cons c cs =>
    have hstart : (c :: cs ++ back).dropWhile p = c :: cs ++ back := dropWhile_of_head? hhead
    rw [hstart, dropEnd_append hback hlast]

theorem not_isBlank_of_hexDigit? (h : (hexDigit? c).isSome) : isBlank c = false :=
  of_hexDigit? (p := fun c => isBlank c = false) (by decide) h

end Text

namespace Key

theorem parseText?_of_isBlank {c : Char} (h : Text.isBlank c) (cs : List Char) :
    parseText? (c :: cs) = none := by
  have hne {d : Char} (hd : Text.isBlank d = false) : c ≠ d := by
    rintro rfl
    rw [h] at hd
    cases hd
  have hmark : dropMark (c :: cs) = c :: cs := by
    unfold dropMark
    split
    · rename_i heq
      exact absurd (List.head_eq_of_cons_eq heq) (hne (by decide))
    · rename_i heq
      exact absurd (List.head_eq_of_cons_eq heq) (hne (by decide))
    · rfl
  have hplus : dropPlus (c :: cs) = c :: cs := by
    unfold dropPlus
    split
    · rename_i heq
      exact absurd (List.head_eq_of_cons_eq heq) (hne (by decide))
    · rfl
  have hdigit : Text.hexDigit? c = none := by
    rw [← Option.not_isSome_iff_eq_none]
    intro hsome
    rw [Text.not_isBlank_of_hexDigit? hsome] at h
    cases h
  rw [parseText?, hmark, hplus]
  simp [Text.hexValue?, Text.hexValueFrom?, hdigit]

namespace Bank

variable {k : Key} {literal : String} {line text mark digits cs : List Char}
  {es : List (Key × String)}

structure IsListable (literal : String) : Prop where
  newLine : '\n' ∉ literal.toList
  first : literal.toList.head? ≠ some '"'
  last : literal.toList.getLast? ≠ some '"'

def IsMark (mark : List Char) : Prop := mark = [] ∨ mark = ['0', 'x'] ∨ mark = ['0', 'X']

inductive IsLine : List (Key × String) → List Char → Prop
  | blank {line : List Char} (blank : ∀ c ∈ line, Text.isBlank c) (newLine : '\n' ∉ line) :
    IsLine [] line
  | entry {k : Key} {literal : String} {mark digits blanks : List Char} (marked : IsMark mark)
      (spelled : k.IsSpelledBy digits) (full : digits.length = 8)
      (blank : ∀ c ∈ blanks, Text.isBlank c) (newLine : '\n' ∉ blanks)
      (listable : IsListable literal) :
    IsLine [(k, literal)] (mark ++ digits ++ (blanks ++ ('"' :: literal.toList ++ ['"'])))

inductive Lists : List (Key × String) → List Char → Prop
  | last {es : List (Key × String)} {line : List Char} (isLine : IsLine es line) : Lists es line
  | line {es fs : List (Key × String)} {line lineEnd text : List Char} (isLine : IsLine es line)
      (ended : lineEnd = ['\n'] ∨ lineEnd = ['\r', '\n']) (rest : Lists fs text) :
    Lists (es ++ fs) (line ++ lineEnd ++ text)

def entryOfLine? (line : List Char) : Option (Key × String) :=
  entry? (Text.dropEnd Text.isReturn line)

def textEntries (text : List Char) : List (Key × String) := (Text.lines text).filterMap entryOfLine?

theorem entries_eq (text : String) : entries text = textEntries text.toList := rfl

theorem textEntries_append (above below : List Char) :
    textEntries (above ++ '\n' :: below) = textEntries above ++ textEntries below := by
  rw [textEntries, Text.lines, Text.pieces_append, List.filterMap_append]
  rfl

theorem textEntries_of_notMem (h : '\n' ∉ line) : textEntries line = (entryOfLine? line).toList := by
  rw [textEntries, Text.lines, Text.pieces_of_notMem h]
  cases hentry : entryOfLine? line <;> simp [hentry]

theorem entryOfLine?_return (line : List Char) : entryOfLine? (line ++ ['\r']) = entryOfLine? line := by
  rw [entryOfLine?, entryOfLine?, Text.dropEnd, List.reverse_append, List.reverse_singleton,
    List.singleton_append, List.dropWhile_cons, if_pos (by decide)]
  rfl

theorem entry?_of_isBlank (h : ∀ c ∈ line, Text.isBlank c) : entry? line = none := by
  unfold entry?
  dsimp only
  split
  · rfl
  · rename_i hlength
    have hwidth : ∃ n, keyWidth line = n + 1 := by
      unfold keyWidth
      split <;> exact ⟨_, rfl⟩
    obtain ⟨n, hn⟩ := hwidth
    cases line with
    | nil => simp [hn] at hlength
    | cons c cs =>
      rw [hn, List.take_succ_cons, parseText?_of_isBlank (h c List.mem_cons_self)]
      rfl

theorem dropMark_append (hmark : IsMark mark) (hcs : dropMark cs = cs) :
    dropMark (mark ++ cs) = cs := by
  rcases hmark with rfl | rfl | rfl
  · exact hcs
  · rfl
  · rfl

theorem keyWidth_append (hmark : IsMark mark) (hkey : k.IsSpelledBy digits)
    (hfull : digits.length = 8) (cs : List Char) :
    keyWidth (mark ++ digits ++ cs) = (mark ++ digits).length := by
  rcases hmark with rfl | rfl | rfl
  · match digits, hfull with
    | c :: d :: rest, hfull =>
      obtain ⟨-, hx, hX, -⟩ := Text.plain_of_hexDigit? (hkey.isSome d (by simp))
      unfold keyWidth
      split
      · rename_i heq
        cases heq
        exact absurd rfl hx
      · rename_i heq
        cases heq
        exact absurd rfl hX
      · exact hfull.symm
  · simp [keyWidth, hfull]
  · simp [keyWidth, hfull]

theorem unquote_quoted (h : IsListable literal) :
    unquote ('"' :: literal.toList ++ ['"']) = literal.toList := by
  have hne {o : Option Char} (ho : o ≠ some '"') : ∀ c ∈ o, isQuote c = false := by
    rintro c rfl
    simpa [isQuote] using ho
  have hquote : ∀ c ∈ ['"'], isQuote c := List.forall_mem_singleton.mpr rfl
  exact Text.dropEnd_dropWhile hquote hquote (hne h.first) (hne h.last)

theorem eq_quote_of_getLast? {c : Char} {cs : List Char} (h : c ∈ (cs ++ ['"']).getLast?) :
    c = '"' := by
  rw [List.getLast?_concat] at h
  exact (Option.some.inj h).symm

theorem trim_quoted {blanks : List Char} (h : ∀ c ∈ blanks, Text.isBlank c) (cs : List Char) :
    Text.trim (blanks ++ ('"' :: cs ++ ['"'])) = '"' :: cs ++ ['"'] := by
  have hquote : Text.isBlank '"' = false := by decide
  have hlast : ∀ c ∈ ('"' :: cs ++ ['"']).getLast?, Text.isBlank c = false := by
    intro c hc
    rw [eq_quote_of_getLast? hc, hquote]
  have hnone : ∀ c ∈ ([] : List Char), Text.isBlank c := by simp
  have hstrip := Text.dropEnd_dropWhile h hnone (by simpa using hquote) hlast
  rwa [List.append_nil] at hstrip

theorem IsLine.entryOfLine? (h : IsLine es line) : (entryOfLine? line).toList = es := by
  cases h with
  | blank blank newLine =>
    have hentry : Bank.entryOfLine? line = none := by
      apply entry?_of_isBlank
      intro c hc
      exact blank c (List.mem_reverse.mp
        ((List.dropWhile_sublist _).subset (List.mem_reverse.mp hc)))
    rw [hentry]
    rfl
  | @entry k literal mark digits blanks marked spelled full blank newLine listable =>
    have hlast : ∀ c ∈ (mark ++ digits ++ (blanks ++ ('"' :: literal.toList ++ ['"']))).getLast?,
        Text.isReturn c = false := by
      intro c hc
      rw [← List.append_assoc, ← List.append_assoc] at hc
      rw [eq_quote_of_getLast? hc]
      rfl
    have hnone : ∀ c ∈ ([] : List Char), Text.isReturn c := by simp
    have hreturn := Text.dropEnd_append hnone hlast
    rw [List.append_nil] at hreturn
    have hwidth := keyWidth_append marked spelled full (blanks ++ ('"' :: literal.toList ++ ['"']))
    rw [Bank.entryOfLine?, hreturn, entry?, hwidth, List.take_left, List.drop_left, trim_quoted blank,
      unquote_quoted listable, spelled.parseText?_of_dropMark (dropMark_append marked
        (dropMark_of_isSome spelled.isSome))]
    simp

theorem IsLine.newLine_notMem (h : IsLine es line) : '\n' ∉ line := by
  cases h with
  | blank blank newLine => exact newLine
  | @entry k literal mark digits blanks marked spelled full blank newLine listable =>
    have hmark : '\n' ∉ mark := by rcases marked with rfl | rfl | rfl <;> decide
    have hdigits : '\n' ∉ digits := fun hmem =>
      (Text.plain_of_hexDigit? (spelled.isSome _ hmem)).2.2.2 rfl
    simp [hmark, hdigits, newLine, listable.newLine]

theorem IsLine.textEntries (h : IsLine es line) : textEntries line = es := by
  rw [textEntries_of_notMem h.newLine_notMem, h.entryOfLine?]

theorem Lists.textEntries (h : Lists es text) : textEntries text = es := by
  induction h with
  | last isLine => exact isLine.textEntries
  | @line es fs line lineEnd text isLine ended rest ih =>
    rcases ended with rfl | rfl
    · rw [List.append_assoc, List.singleton_append, textEntries_append, isLine.textEntries, ih]
    · have hreturn : '\n' ∉ line ++ ['\r'] := by simp [isLine.newLine_notMem]
      have hsplit : line ++ ['\r', '\n'] ++ text = line ++ ['\r'] ++ '\n' :: text := by simp
      rw [hsplit, textEntries_append, textEntries_of_notMem hreturn, entryOfLine?_return,
        isLine.entryOfLine?, ih]

end Bank

end Key

namespace Registry

variable {r : Registry}

theorem register_append (r : Registry) (above below : String) :
    r.register (above ++ "\n" ++ below) =
      (((r.register above).1.register below).1,
        (r.register above).2 + ((r.register above).1.register below).2) := by
  have htext : (above ++ "\n" ++ below).toList = above.toList ++ '\n' :: below.toList := by simp
  simp only [register, Key.Bank.entries_eq, htext, Key.Bank.textEntries_append, assignAll_append,
    List.length_append]

/-- A bank that lists entries assigns them in order and counts them, and a bank of two parts does what
its parts do one after the other. -/
theorem register_listed :
    (∀ (r : Registry) (entries : List (Key × String)) (text : String),
      Key.Bank.Lists entries text.toList →
        r.register text = (entries.foldl (fun r e => r.assign e.1 e.2) r, entries.length)) ∧
      ∀ (r : Registry) (above below : String),
        r.register (above ++ "\n" ++ below) =
          (((r.register above).1.register below).1,
            (r.register above).2 + ((r.register above).1.register below).2) := by
  refine ⟨fun r entries text hlists => ?_, register_append⟩
  rw [register, Key.Bank.entries_eq, hlists.textEntries]
  rfl

theorem register_listed_mixed :
    empty.register "d16B61E6 \t\"a \"b\" c\"\r\n \n0X28DDB24A\"0xFF\"" =
      ((empty.assign 0xD16B61E6 "a \"b\" c").assign 0x28DDB24A "0xFF", 2) := by
  have hupper : Key.IsSpelledBy 0xD16B61E6 "d16B61E6".toList :=
    ⟨by decide, by decide, [13, 1, 6, 11, 6, 1, 14, 6], by repeat constructor, rfl⟩
  have hlower : Key.IsSpelledBy 0x28DDB24A "28DDB24A".toList :=
    ⟨by decide, by decide, [2, 8, 13, 13, 11, 2, 4, 10], by repeat constructor, rfl⟩
  have hspace : Text.isBlank ' ' := by decide
  have htab : Text.isBlank '\t' := by decide
  have hblanks : ∀ c ∈ [' ', '\t'], Text.isBlank c := by simp [hspace, htab]
  have hnone : ∀ c ∈ ([] : List Char), Text.isBlank c := by simp
  have hfirst : Key.Bank.IsLine [(0xD16B61E6, "a \"b\" c")] _ :=
    .entry (.inl rfl) hupper rfl hblanks (by decide)
      ⟨by decide, by decide, by decide⟩
  have hlast : Key.Bank.IsLine [(0x28DDB24A, "0xFF")] _ :=
    .entry (.inr (.inr rfl)) hlower rfl hnone (by decide)
      ⟨by decide, by decide, by decide⟩
  have hblank : Key.Bank.IsLine [] [' '] := .blank (by simpa using hspace) (by decide)
  have hlists := Key.Bank.Lists.line hfirst (.inr rfl) (.line hblank (.inl rfl) (.last hlast))
  exact register_listed.1 empty _ _ (cast (congrArg _ (by decide)) hlists)

end Registry

end QbCodec
