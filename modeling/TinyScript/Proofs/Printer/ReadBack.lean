import TinyScript.Proofs.Grammar.Program
import TinyScript.Proofs.Printer.Statements
import TinyScript.Proofs.Printer.Written

namespace TinyScript

namespace Program

/-- The program that a source is read as, and the errors of its grammar. -/
def ofSource (source : Text) : Program × List Diagnostic :=
  ofTokens (Source.ofText source).tokens (Source.ofText source).finish

end Program

/-- The program of every source, with or without errors, is written as a text that is read without an error, and the
program that is read from it differs in its places only, if its numbers are zero or normal. -/
theorem Program.text_reads_back (source : Text) (normal : ∀ v ∈ (ofSource source).1.numbers, ZeroOrNormal v) :
    let program := (ofSource source).1
    (Source.ofText program.text).diagnostics = [] ∧ (ofSource program.text).2 = [] ∧
      (ofSource program.text).1.placeless = program.placeless := by
  intro program
  have written := written_ofTokens (Source.tokens_lexed source) (Source.ofText source).finish
  have legible : ∀ s ∈ program.statements, s.Legible := fun s inside =>
    (written s inside).legible fun v mem => normal v (mem_bodyNumbers inside mem)
  have phrase := phrase_body legible [] .nil
  obtain ⟨diagnostics, body, same, derives⟩ := phrase.source
  have reads : (ofSource program.text).1.statements = body ∧ (ofSource program.text).2 = [] :=
    (derives .endOfInput (by simp)).ofTokens
  refine ⟨diagnostics, reads.2, ?_⟩
  rw [placeless, placeless, reads.1, same]

/-- What is left of a source with errors: an `else` that belongs to the inner `if`, and a string with escapes. -/
theorem Program.text_reads_back_recovered :
    let source : Text := "if (a) if (b) c = -1.5; else d.e; @ var ; f(\"\\n\", 1e300)"
    let program := (ofSource source).1
    program.text = "if (a) if (b) (c = (-1.5)); else (d[\"e\"]); f(\"\\n\", 1e+300);" ∧
      (ofSource program.text).2 = [] ∧ (ofSource program.text).1.placeless = program.placeless := by
  intro source program
  have text : program.text = "if (a) if (b) (c = (-1.5)); else (d[\"e\"]); f(\"\\n\", 1e+300);" := by decide +kernel
  have numbers : program.numbers.map Exact.ofFloat =
      [.finite false 6755399441055744 (-52), .finite false 6724873095247260 944] := by decide +kernel
  have normal : ∀ v ∈ program.numbers, ZeroOrNormal v := by
    intro v mem
    have exact : Exact.ofFloat v ∈ program.numbers.map Exact.ofFloat := List.mem_map_of_mem mem
    have large {m : Nat} {e : Int} (some : 1 ≤ m) (least : -1022 ≤ e) : (2 : ℚ) ^ (-1022 : Int) ≤ m * 2 ^ e := by
      have some : (1 : ℚ) ≤ m := by exact_mod_cast some
      have power : (2 : ℚ) ^ (-1022 : Int) ≤ 2 ^ e := zpow_le_zpow_right₀ (by norm_num) least
      exact power.trans (le_mul_of_one_le_left (by positivity) some)
    rw [numbers, List.mem_cons, List.mem_singleton] at exact
    unfold ZeroOrNormal
    rcases exact with exact | exact
    · rw [exact]
      exact .inr (large (by decide) (by decide))
    · rw [exact]
      exact .inr (large (by decide) (by decide))
  obtain ⟨_, errors, same⟩ := Program.text_reads_back source normal
  exact ⟨text, errors, same⟩

end TinyScript
