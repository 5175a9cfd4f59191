import QbCodec.Proofs.File.Coding
import QbCodec.Proofs.Source.Returns

namespace QbCodec.Compiled

open Source

theorem ofSource_of_tokens {p q : String} {ls ms : List Lexeme} {t : Target} {r : Registry}
    {file : List UInt8} (hls : lexemes p = .ok ls) (hms : lexemes q = .ok ms)
    (htokens : tokens ms = tokens ls) (hfile : (ofSource t p r).1 = .ok file) :
    (ofSource t q r).1 = .ok file := by
  obtain ⟨ks, ns, ss, hks, htext, rfl⟩ := ofSource_eq_ok hfile
  rw [hls] at hks
  cases hks
  rw [← htokens] at htext
  exact congrArg Prod.fst (ofSource_eq hms htext r)

/-- With a return in front of every line end a text has the same tokens and compiles to the same
file, or it has none either, and the scanner stops on the same line and in the same column. -/
theorem ofSource_withReturns (source : String) :
    ((∃ ls ms, lexemes source = .ok ls ∧
        lexemes (String.ofList (withReturns source.toList)) = .ok ms ∧ tokens ms = tokens ls) ∨
      ∃ d d', lexemes source = .error (.source d) ∧
        lexemes (String.ofList (withReturns source.toList)) = .error (.source d') ∧
        d'.line = d.line ∧ d'.column = d.column) ∧
    ∀ t r file, (ofSource t source r).1 = .ok file ↔
      (ofSource t (String.ofList (withReturns source.toList)) r).1 = .ok file := by
  have hlexemes := lexemes_withReturns source
  refine ⟨hlexemes, fun t r file => ?_⟩
  rcases hlexemes with ⟨ls, ms, hls, hms, htokens⟩ | ⟨d, d', hd, hd', -⟩
  · exact ⟨ofSource_of_tokens hls hms htokens, ofSource_of_tokens hms hls htokens.symm⟩
  · simp [ofSource, hd, hd']

end QbCodec.Compiled
