import TinyScript.Proofs.Number.Underflow
import TinyScript.Proofs.Token.Lexed

namespace TinyScript

open Exact

namespace Piece.Spelling

/-- A number alone is one piece. -/
theorem split_text (n : Spelling) : split n.text = [n.piece] := by
  have cut := n.number_eq Clear.nil
  obtain ⟨b, tail, same, digit⟩ := n.begins
  rw [List.append_nil, same] at cut
  rw [same, split_cons, first_number digit, cut, split]

/-- A number in range is read as one token. -/
theorem ofText_of_value {n : Spelling} {d : Float} (reads : n.numeral.value? = Option.some d) :
    Source.ofText n.text = ⟨[⟨.number d, n.text, .start⟩], Location.start.after n.text, []⟩ := by
  rw [Source.ofText, n.split_text, piece, reads]
  rfl

/-- A number out of range is rejected. -/
theorem ofText_of_none {n : Spelling} (out : n.numeral.value? = Option.none) :
    Source.ofText n.text = ⟨[], Location.start.after n.text,
      [⟨.lexical, 1, [], LexicalFault.message (.numberOutOfRange n.text)⟩]⟩ := by
  rw [Source.ofText, n.split_text, piece, out]
  rfl

end Piece.Spelling

/-- What is printed for a number of a source reads as the same number, or the number is below the normal ones and what
is printed is rejected as out of range. -/
theorem Source.printed_number {source : Text} {t : Token} {d : Float} (mem : t ∈ (Source.ofText source).tokens)
    (kind : t.kind = .number d) :
    (ZeroOrNormal d → Source.ofText (numberText d) =
      ⟨[⟨.number d, numberText d, .start⟩], Location.start.after (numberText d), []⟩) ∧
    (¬ ZeroOrNormal d → Source.ofText (numberText d) = ⟨[], Location.start.after (numberText d),
      [⟨.lexical, 1, [], LexicalFault.message (.numberOutOfRange (numberText d))⟩]⟩) := by
  have finite := (Source.tokens_lexed source t mem).magnitude kind
  constructor
  · intro normal
    obtain ⟨n, text, reads⟩ := numberText_spelled finite normal
    exact text ▸ Piece.Spelling.ofText_of_value reads
  · intro small
    obtain ⟨n, text, out⟩ := numberText_underflows finite small
    exact text ▸ Piece.Spelling.ofText_of_none out

/-- The number of the source `6.25e-2` is printed as `0.0625` and read again. -/
theorem Source.printed_number_fraction : ∃ t ∈ (Source.ofText "6.25e-2").tokens, ∃ d, t.kind = .number d ∧
    numberText d = "0.0625" ∧
    Source.ofText (numberText d) =
      ⟨[⟨.number d, numberText d, .start⟩], Location.start.after (numberText d), []⟩ := by
  have tokens : (Source.ofText "6.25e-2").tokens = [⟨.number 0.0625, "6.25e-2", .start⟩] := by decide +kernel
  have mem : (⟨.number 0.0625, "6.25e-2", .start⟩ : Token) ∈ (Source.ofText "6.25e-2").tokens := by
    rw [tokens]
    exact List.mem_singleton_self _
  have normal : ZeroOrNormal 0.0625 := by
    have exact : ofFloat 0.0625 = .finite false (twoTo 52) (-56) := by decide +kernel
    rw [ZeroOrNormal, exact]
    exact .inr (Full.normal ⟨Nat.le_refl _, by decide⟩ (by decide))
  exact ⟨_, mem, 0.0625, rfl, by decide +kernel, (Source.printed_number mem rfl).1 normal⟩

/-- The least double above zero, written out exactly: `2 ^ -1074` is `5 ^ 1074 · 10 ^ -1074`. -/
def leastSpelling : Piece.Spelling where
  whole := Text.ofNat (5 ^ 1074)
  fraction := []
  exponent := ⟨[ascii 'e'], [ascii '-'], Text.ofNat 1074⟩
  some := Text.ofNat_ne_nil _
  digits := by
    rw [List.append_nil]
    exact Text.allDigits_ofNat _
  proper := .some (.inr rfl) (Text.ofNat_ne_nil _) (Text.allDigits_ofNat _)

/-- The least double above zero as it is printed. -/
def leastPrinted : Piece.Spelling where
  whole := Text.ofNat 5
  fraction := []
  exponent := ⟨[ascii 'e'], [ascii '-'], Text.ofNat 324⟩
  some := Text.ofNat_ne_nil _
  digits := by
    rw [List.append_nil]
    exact Text.allDigits_ofNat _
  proper := .some (.inr rfl) (Text.ofNat_ne_nil _) (Text.allDigits_ofNat _)

/-- The least double above zero can stand in a source, and what is printed for it cannot. -/
theorem Source.printed_number_lost : ∃ t ∈ (Source.ofText leastSpelling.text).tokens,
    t.kind = .number (Float.ofBits 1) ∧ numberText (Float.ofBits 1) = "5e-324" ∧
    (Source.ofText "5e-324").tokens = [] ∧ (Source.ofText "5e-324").diagnostics ≠ [] := by
  have reads : leastSpelling.numeral.value? = some (Float.ofBits 1) := by decide +kernel
  have out : leastPrinted.numeral.value? = none := by decide +kernel
  have printed : leastPrinted.text = "5e-324" := by decide +kernel
  have written : numberText (Float.ofBits 1) = "5e-324" := by decide +kernel
  have rejected := Piece.Spelling.ofText_of_none out
  rw [printed] at rejected
  rw [Piece.Spelling.ofText_of_value reads, rejected]
  exact ⟨_, List.mem_singleton_self _, rfl, written, rfl, List.cons_ne_nil _ _⟩

end TinyScript
