import QbCodec.Proofs.Ieee.Notation
import QbCodec.Proofs.Key.Resolution
import QbCodec.Proofs.Source.Tokens
import QbCodec.Script.Reading

namespace QbCodec

theorem Text.Ranges.of_has {rs : Ranges} {n : Nat} (h : rs.has n) : ∃ r ∈ rs, r.1 ≤ n ∧ n ≤ r.2 := by
  induction rs with
  | nil => cases h
  | cons r rs ih =>
    obtain ⟨first, last⟩ := r
    unfold has at h
    split at h
    · cases h
    · split at h
      · exact ⟨_, List.mem_cons_self, by omega, by omega⟩
      · obtain ⟨r, hr, hn⟩ := ih h
        exact ⟨r, List.mem_cons_of_mem _ hr, hn⟩

def Keyword.spelling (k : Keyword) : List Char :=
  Text.trim ((k.tag?.bind Tag.fragment?).getD k.word).toList

def Mark.spelling : Mark → List Char
  | equals => ['=']
  | dot => ['.']
  | comma => [',']
  | plus => ['+']
  | minus => ['-']
  | multiply => ['*']
  | divide => ['/']
  | openParen => ['(']
  | closeParen => [')']
  | openBrace => ['\x7b']
  | closeBrace => ['\x7d']
  | openBracket => ['[']
  | closeBracket => [']']
  | lessThan => ['<']
  | lessThanEqual => ['<', '=']
  | shiftLeft => ['<', '<']
  | greaterThan => ['>']
  | greaterThanEqual => ['>', '=']
  | shiftRight => ['>', '>']
  | notEqual => ['!', '=']
  | or => ['|', '|']
  | and => ['&']
  | colon => [':', ':']
  | dollar => ['$']
  | inlinePackStruct => ['\\', '\x7b']
  | newLine => ['\n']

def Mark.isSpaced (m : Mark) : Bool := (m.tag? false).any fun t => Script.piece t = .spaced

namespace Token

def spelling : Token → List Char
  | int value => Text.signedNumeral value.toInt
  | float value => value.sourceText
  | string text => '\'' :: text.toList.flatMap Script.escapeChar ++ ['\'']
  | wideString text => '"' :: text.toList ++ ['"']
  | name text => text.toList
  | argument text => '<' :: text.toList ++ ['>']
  | rawKey key => rawKeyText key
  | keyword word => word.spelling
  | mark m => m.spelling

def isStopper (c : Char) : Bool :=
  c == ' ' || c == '\n' || c == ')' || c == ']' || c == ',' || c == ':' || c == '('

def allows : Token → Char → Bool
  | int _, c => isStopper c
  | float _, c | name _, c | keyword _, c => isStopper c || c == '.'
  | string _, c => c != '\''
  | mark .dot, c => !Text.isDigit c
  | mark m, c => !m.isSpaced || c == ' ' || c == '\n'
  | _, _ => true

end Token

namespace Source

structure IsWord (text : String) : Prop where
  chars : text.toList.all isNameChar
  not_number : text.toList.all isIntChar = false
  not_keyword : Keyword.ofWord? text = none

/-- A token whose spelling is scanned as the token. -/
def Legible : Token → Prop
  | .float value => value.isFinite
  | .string text => isStringText text ∧ text.toList.getLast? ≠ some '\\'
  | .wideString text => isStringText text
  | .name text => IsWord text
  | .argument text => text ≠ "" ∧ text.toList.all isNameChar
  | _ => True

theorem find?_word (k : Keyword) : Keyword.all.find? (fun j => j.word == k.word) = some k := by
  cases k <;> decide

theorem map_toLower_spelling (k : Keyword) : k.spelling.map Char.toLower = k.word.toList := by
  cases k <;> decide

theorem ofWord?_spelling (k : Keyword) : Keyword.ofWord? (String.ofList k.spelling) = some k := by
  have hfolded : (String.ofList k.spelling).map Char.toLower = k.word := by
    rw [← String.toList_inj, String.toList_map, String.toList_ofList, map_toLower_spelling]
  unfold Keyword.ofWord?
  rw [hfolded]
  exact find?_word k

theorem word_spelling (k : Keyword) : word k.spelling = .keyword k := by
  unfold word
  rw [ofWord?_spelling]

theorem keyword_chars {k : Keyword} (h : k ≠ .allArgs) : k.spelling.all isNameChar ∧
    k.spelling.all isIntChar = false ∧ k.spelling.head? ≠ some '<' := by
  cases k <;> first | exact absurd rfl h | exact ⟨by decide, by decide, by decide⟩

theorem word_of_isWord {text : String} (h : IsWord text) : word text.toList = .name text := by
  have hopened : isOpened text.toList = false := by
    unfold isOpened
    split
    · rename_i cs htext
      have hchars := h.chars
      rw [htext, List.all_cons, Bool.and_eq_true] at hchars
      exact absurd hchars.1 (by decide)
    · rfl
  unfold word
  rw [String.ofList_toList, h.not_keyword, hopened, Bool.and_false, Bool.false_and]
  rfl

theorem of_ofWord? {text : String} {k : Keyword} (h : Keyword.ofWord? text = some k) :
    text.toList.map Char.toLower = k.word.toList := by
  have hword := List.find?_some h
  rw [beq_iff_eq] at hword
  rw [hword, String.toList_map]

theorem head?_word (k : Keyword) {c : Char} (h : k.word.toList.head? = some c) :
    isIntChar c = false ∧ (c = '<' → k = .allArgs) := by
  cases k <;> cases h <;> decide

theorem isNameChar_of_isDigit {c : Char} (h : Text.isDigit c) : isNameChar c := by
  have digits : ∀ n < 58, 48 ≤ n → Text.alphanumericRanges.has n = true := by decide
  rw [Text.isDigit, Bool.and_eq_true, decide_eq_true_eq, decide_eq_true_eq] at h
  have hlow : 48 ≤ c.toNat := h.1
  have hhigh : c.toNat ≤ 57 := h.2
  have halpha : Text.isAlphanumeric c = true := digits c.toNat (by omega) hlow
  simp [isNameChar, halpha]

theorem not_blank_of_isNameChar {c : Char} (h : isNameChar c) : Text.isBlank c = false := by
  have blanks : ∀ r ∈ Text.blankRanges, ∀ i < r.2 - r.1 + 1,
      Text.alphanumericRanges.has (r.1 + i) = false := by decide +kernel
  by_contra hblank
  rw [Bool.not_eq_false] at hblank
  obtain ⟨r, hr, hlow, hhigh⟩ := Text.Ranges.of_has hblank
  have hnone := blanks r hr (c.toNat - r.1) (by omega)
  rw [Nat.add_sub_cancel' hlow] at hnone
  have halpha : Text.isAlphanumeric c = false := hnone
  rw [isNameChar, halpha, Bool.false_or, beq_iff_eq] at h
  rw [h] at hblank
  revert hblank
  decide

theorem isIntChar_of_isDigit {c : Char} (h : Text.isDigit c) : isIntChar c := by
  simp [isIntChar, h]

theorem ne_of_isNameChar {c d : Char} (hc : isNameChar c) (hd : isNameChar d = false) : c ≠ d := by
  rintro rfl
  rw [hc] at hd
  cases hd

theorem toLower_of_lt {c : Char} (h : c.toNat < 65) : c.toLower = c := by
  have hnot : ¬ (c.val ≥ 'A'.val ∧ c.val ≤ 'Z'.val) := by
    rintro ⟨hle, -⟩
    have hnat : 65 ≤ c.toNat := hle
    omega
  exact dif_neg hnot

theorem toLower_ne_point {c : Char} (h : c ≠ '.') : c.toLower ≠ '.' := by
  by_cases hupper : c.val ≥ 'A'.val ∧ c.val ≤ 'Z'.val
  · have hval : c.toLower.val = c.val + 32 := congrArg Char.val (dif_pos hupper)
    have hle : 65 ≤ c.val.toNat := hupper.1
    have hge : c.val.toNat ≤ 90 := hupper.2
    intro he
    have hnat : (c.val + 32).toNat = 46 := by rw [← hval, he]; rfl
    rw [UInt32.toNat_add] at hnat
    change (c.val.toNat + 32) % 4294967296 = 46 at hnat
    omega
  · have hsame : c.toLower = c := dif_neg hupper
    rwa [hsame]

theorem lt_of_isIntChar {c : Char} (h : isIntChar c) : c.toNat < 65 := by
  rw [isIntChar, Bool.or_eq_true, beq_iff_eq] at h
  rcases h with rfl | h
  · decide
  · rw [Text.isDigit, Bool.and_eq_true, decide_eq_true_eq, decide_eq_true_eq] at h
    have hle : c.toNat ≤ 57 := h.2
    omega

theorem ofWord?_of_isIntChar {c : Char} {cs : List Char} (h : isIntChar c) :
    Keyword.ofWord? (String.ofList (c :: cs)) = none := by
  cases hword : Keyword.ofWord? (String.ofList (c :: cs)) with
  | none => rfl
  | some k =>
    have hfold := of_ofWord? hword
    rw [String.toList_ofList, List.map_cons, toLower_of_lt (lt_of_isIntChar h)] at hfold
    have hhead := (head?_word k (c := c) (by rw [← hfold]; rfl)).1
    rw [h] at hhead
    cases hhead

theorem ofWord?_argument {cs : List Char} (hne : cs ≠ []) (h : cs.all isNameChar) :
    Keyword.ofWord? (String.ofList ('<' :: cs ++ ['>'])) = none := by
  cases hword : Keyword.ofWord? (String.ofList ('<' :: cs ++ ['>'])) with
  | none => rfl
  | some k =>
    have hfold := of_ofWord? hword
    obtain ⟨c, cs, rfl⟩ := List.exists_cons_of_ne_nil hne
    rw [String.toList_ofList, List.cons_append, List.map_cons, toLower_of_lt (by decide),
      List.cons_append, List.map_cons] at hfold
    have hall := (head?_word k (c := '<') (by rw [← hfold]; rfl)).2 rfl
    subst hall
    have hpoint : c.toLower = '.' := (List.cons.inj (List.cons.inj hfold).2).1
    have hc : isNameChar c := List.all_eq_true.mp h c List.mem_cons_self
    exact absurd hpoint (toLower_ne_point (ne_of_isNameChar hc (by decide)))

theorem isWord_spell (k : Key) : IsWord k.spell := by
  have digits : ∀ d < 16, isNameChar (Text.upperDigit d) := by decide
  constructor
  · rw [Key.toList_spell, List.all_cons, List.all_cons, Bool.and_eq_true, Bool.and_eq_true]
    refine ⟨by decide, by decide, ?_⟩
    rw [List.all_eq_true]
    intro c hc
    obtain ⟨d, hd, rfl⟩ := Text.mem_hexFixed hc
    exact digits d hd
  · rw [Key.toList_spell]
    rfl
  · exact ofWord?_of_isIntChar (by decide)

theorem mark?_of_isNameChar {c : Char} (h : isNameChar c) (next : Option Char) :
    mark? c next = none := by
  unfold mark?
  split <;> first | rfl | exact absurd h (by decide)

theorem spelling_of_mark? {c : Char} {next : Option Char} {m : Mark} {both : Bool}
    (h : mark? c next = some (m, both)) :
    both = false ∧ m.spelling = [c] ∨ ∃ d, both = true ∧ next = some d ∧ m.spelling = [c, d] := by
  unfold mark? at h
  split at h
  case h_26 => cases h
  all_goals
    cases h
    first
      | exact .inl ⟨rfl, rfl⟩
      | exact .inr ⟨_, rfl, rfl, rfl⟩

end Source

end QbCodec
