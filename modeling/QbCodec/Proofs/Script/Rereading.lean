import QbCodec.Proofs.File.Coding
import QbCodec.Proofs.Script.Spelling
import QbCodec.Proofs.Source.Joining

namespace QbCodec

open Source Layout

namespace Script

variable {r : Registry} {indent : List Char} {order : ByteOrder} {game : Game}
  {is js : List Instruction} {ts : List Token}

def reread (r : Registry) (indent : List Char) (order : ByteOrder) (is : List Instruction) :
    Except Failure (List Token) :=
  (lexemes (String.ofList (bodyText r indent order (Instruction.encodeBody order.inverse is)))).map
    tokens

def recompile (game : Game) (r : Registry) (indent : List Char) (order : ByteOrder)
    (is : List Instruction) : Except Failure (List Instruction) :=
  match lexemes (String.ofList (bodyText r indent order (Instruction.encodeBody order.inverse is)))
    with
  | .error e => .error e
  | .ok ls =>
    (Statement.readBody game 0 0 ls).outcome.mapError fun fault => .compile fault.reason

theorem exists_lexemes_of_reread (h : reread r indent order is = .ok ts) :
    ∃ ls, lexemes (String.ofList (bodyText r indent order
      (Instruction.encodeBody order.inverse is))) = .ok ls ∧ tokens ls = ts := by
  unfold reread at h
  generalize lexemes _ = scanned at h
  cases scanned with
  | error e => cases h
  | ok ls => exact ⟨ls, rfl, Except.ok.inj h⟩

theorem recompile_of_body {ns : List String} (h : reread r indent order is = .ok ts)
    (hbody : Statement.Body game 0 ts ns js) : recompile game r indent order is = .ok js := by
  obtain ⟨ls, hls, htokens⟩ := exists_lexemes_of_reread h
  unfold recompile
  rw [hls]
  simp only [hbody.readBody htokens]
  rfl

theorem bodyText_encodeBody (h : ∀ i ∈ is, i.WellFormed ∧ i ≠ .bare .endScript) :
    bodyText r indent order (Instruction.encodeBody order.inverse is) = render r indent is := by
  rw [bodyText, Instruction.decodeBody_encodeBody _ h]

theorem reread_of_scan (order : ByteOrder) (h : ∀ i ∈ is, i.WellFormed ∧ i ≠ .bare .endScript)
    {ls : List Lexeme} (hls : scan (render r indent is) = .ok ls) :
    reread r indent order is = .ok (tokens ls) := by
  rw [reread, bodyText_encodeBody h, lexemes_of_scan hls]
  rfl

theorem reread_of_scan_error (h : ∀ i ∈ is, i.WellFormed ∧ i ≠ .bare .endScript) {stop : Stop}
    (hstop : scan (render r indent is) = .error stop) :
    reread r indent order is =
      .error (.source (diagnose (render r indent is) stop.offset stop.fault.reason)) := by
  rw [reread, bodyText_encodeBody h, lexemes, String.toList_ofList, hstop]
  rfl

theorem exists_body_of_recompile (h : ∀ i ∈ is, i.WellFormed ∧ i ≠ .bare .endScript)
    (hjs : recompile game r indent order is = .ok js) :
    ∃ ls ns, scan (render r indent is) = .ok ls ∧ Statement.Body game 0 (tokens ls) ns js := by
  unfold recompile at hjs
  rw [bodyText_encodeBody h] at hjs
  cases hls : lexemes (String.ofList (render r indent is)) with
  | error e =>
    rw [hls] at hjs
    cases hjs
  | ok ls =>
    have hscan := scan_of_lexemes hls
    rw [String.toList_ofList] at hscan
    rw [hls] at hjs
    cases hread : (Statement.readBody game 0 0 ls).outcome with
    | error fault =>
      simp only [hread] at hjs
      cases hjs
    | ok ks =>
      simp only [hread] at hjs
      cases hjs
      refine ⟨ls, (Statement.readBody game 0 0 ls).names, hscan, ?_⟩
      apply Statement.readBody_iff.mp
      rw [← hread]

theorem text_of_not_blank {l : Layout} (h : l.endsBlank = false) : l.text = l.written.reverse := by
  rw [Layout.text]
  cases hwritten : l.written with
  | nil => rfl
  | cons c cs =>
    rw [endsBlank, hwritten] at h
    rw [List.dropWhile_cons_of_neg (by simpa using h)]

theorem render_of_write {text : List Char} {c : Char}
    (h : allActions r false is = [.write .word text]) (hlast : text.getLast? = some c)
    (hc : Text.isBlank c = false) : render r indent is = text := by
  obtain ⟨cs, rfl⟩ := List.getLast?_eq_some_iff.mp hlast
  have hwritten : (acts indent {} [.write .word (cs ++ [c])]).written = (cs ++ [c]).reverse := by
    simp [acts, act, writeAt]
  have hblank : (acts indent {} [.write .word (cs ++ [c])]).endsBlank = false := by
    rw [endsBlank, hwritten]
    simp [hc]
  rw [render_eq, h, text_of_not_blank hblank, hwritten, List.reverse_reverse]

theorem scan_spelling {t : Token} (h : Legible t) (hne : t ≠ .mark .newLine)
    (hbracket : isScriptBracket t = false) : ∃ ls, scan t.spelling = .ok ls ∧ tokens ls = [t] := by
  obtain ⟨c, cs, hcs, hblank, -⟩ := spelling_first h hne
  have hopen : openScripts 0 (inkTokens [.token t]) = some 0 :=
    openScripts_of_not_bracket 0 (by simpa using hbracket)
  obtain ⟨ls, hls, htokens⟩ := scan_inks (readable_token h) hopen (by
    rw [inkText_token, hcs, List.all_cons, hblank]
    exact fun hall => by cases hall)
  rw [inkText_token] at hls
  exact ⟨ls, hls, htokens⟩

end Script

end QbCodec
