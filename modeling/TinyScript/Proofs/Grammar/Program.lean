import TinyScript.Proofs.Grammar.Reading
import TinyScript.Proofs.Grammar.Soundness
import TinyScript.Proofs.Parser.Statements

namespace TinyScript

open Grammar TinyScript.Parser

variable {tokens : List Token} {finish : Location} {body : List Stmt}

/-- A grammar without two readings of the same tokens. -/
theorem Grammar.Derives.unique {other : List Stmt} (h : Derives (.statements .endOfInput) tokens body)
    (h' : Derives (.statements .endOfInput) tokens other) : body = other := by
  have same := ((h.reads .start).2 rfl).unique ((h'.reads .start).2 rfl)
  cases same
  rfl

theorem Grammar.Derives.ofTokens (h : Derives (.statements .endOfInput) tokens body) :
    (Program.ofTokens tokens finish).1.statements = body ∧ (Program.ofTokens tokens finish).2 = [] := by
  have reply := (settles_statements tokens finish).unique ((h.reads finish).2 rfl)
  rw [Program.ofTokens, reply]
  exact ⟨rfl, rfl⟩

theorem Program.ofTokens_derives (only : ∀ t ∈ tokens, t.kind ≠ .endOfInput)
    (clean : (Program.ofTokens tokens finish).2 = []) :
    Derives (.statements .endOfInput) tokens (Program.ofTokens tokens finish).1.statements := by
  have enough := enough_budget tokens
  unfold Program.ofTokens at clean ⊢
  cases run : Parser.statements (budget tokens) finish tokens with
  | ok body rest errors =>
    rw [run] at clean
    obtain rfl : errors = [] := List.map_eq_nil_iff.1 clean
    obtain ⟨xs, same, last, derives⟩ := statements_sound _ enough body rest run
    have none : rest = [] := by
      cases rest with
      | nil => rfl
      | cons t rest => exact absurd last (only t (by simp [same]))
    rw [none, List.append_nil] at same
    exact same ▸ derives
  | failed resume errors =>
    rw [run] at clean
    obtain rfl : errors = [] := List.map_eq_nil_iff.1 clean
    exact absurd run ((statements_agree _ enough).blamed resume)

/-- Before the end of the source, tokens are a program of the grammar if and only if they are read without an
error, and the program that is read is the only tree that the grammar gives them. -/
theorem Program.derives_iff_ofTokens (tokens : List Token) (finish : Location)
    (only : ∀ t ∈ tokens, t.kind ≠ .endOfInput) (body : List Stmt) :
    Derives (.statements .endOfInput) tokens body ↔
      (Program.ofTokens tokens finish).2 = [] ∧ (Program.ofTokens tokens finish).1.statements = body := by
  constructor
  · exact fun h => h.ofTokens.symm
  · rintro ⟨clean, rfl⟩
    exact ofTokens_derives only clean

/-- A product without a semicolon, at the end of the source. -/
theorem Program.derives_iff_ofTokens_product :
    let a : Token := ⟨.identifier, "a", ⟨1, 1⟩⟩
    let times : Token := ⟨.asterisk, "*", ⟨1, 2⟩⟩
    let b : Token := ⟨.identifier, "b", ⟨1, 3⟩⟩
    (Program.ofTokens [a, times, b] ⟨1, 4⟩).2 = [] ∧ (Program.ofTokens [a, times, b] ⟨1, 4⟩).1.statements =
      [.expression ⟨1, 1⟩ (.binary ⟨1, 2⟩ .multiply (.identifier ⟨1, 1⟩ "a") (.identifier ⟨1, 3⟩ "b"))] := by
  intro a times b
  refine (Program.derives_iff_ofTokens [a, times, b] ⟨1, 4⟩ (by simp [a, times, b]) _).1 ?_
  have left : Derives (.expr .multiplicative) [a] _ := (Derives.literal (.identifier rfl)).loosen _ (by decide)
  have right : Derives (.expr .unary) [b] _ := (Derives.literal (.identifier rfl)).loosen _ (by decide)
  have product := (Derives.join .multiply left (t := times) rfl right).loosen .expression (by decide)
  have statement : Derives (.statement (firstKind [] .endOfInput)) [a, times, b] _ :=
    .expression product (by decide) (by decide) (.omitted (.inr rfl))
  exact statement.andThen .done

end TinyScript
