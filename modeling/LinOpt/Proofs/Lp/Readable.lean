import LinOpt.Proofs.Lp.ErrorLines
import LinOpt.Proofs.Lp.Longest

/-!
# Numbers that can be read

Whatever the lexer takes for a number has the form of one, and every text of this form can be read.
A reader that fails blames a token of the source, so it never blames a number.
-/

namespace LinOpt.Lp

open Lexer

theorem exists_numeral_of_form {word : List Char} (member : word ∈ TokenKind.number.form) :
    ∃ numeral, Numeral.read? word = some numeral := by
  cases word with
  | nil => exact absurd member (nil_not_mem_form _)
  | cons first more =>
    obtain ⟨numeral, read⟩ := @exists_numeral (String.ofList (first :: more))
      ⟨first, more, String.toList_ofList, lexeme_alone member⟩
    rw [String.toList_ofList] at read
    exact ⟨numeral, read⟩

theorem tokenize_number {source : String} {token : Token} (member : token ∈ tokenize source)
    (number : token.kind = .number) : token.text.toList ∈ TokenKind.number.form := by
  have inside : token.kind ≠ .eof := by simp [number]
  obtain ⟨before, after, _, _, longest⟩ := scan_longest 0 1 source.toList token member inside
  rw [number] at longest
  cases longest with
  | token _ member _ => exact member

theorem parse_ne_invalidNumber {α β : Type} [Scalar α] [Endpoint β α] (source text : String)
    (line : Nat) : (parse source : Logged (Event α) ParseError (File α β)).result ≠
      .error (.invalidNumber text line) := by
  intro failed
  obtain blames | ⟨missing, _⟩ := parse_blames failed
  · cases blames with
    | invalidNumber known number unreadable =>
      obtain ⟨numeral, read⟩ := exists_numeral_of_form (tokenize_number known.1 number)
      rw [unreadable] at read
      cases read
  · cases missing

/-- Every token but the last is the longest text where it starts, and so no number fails to be
read. -/
theorem tokenize_longest (source : String) :
    (∀ token ∈ tokenize source, token.kind ≠ .eof → ∃ before after,
      source.toList = before ++ token.text.toList ++ after ∧
        token.span.start = byteLength before ∧
        Longest (token.text.toList ++ after) token.kind token.text.toList) ∧
      (∀ word ∈ TokenKind.number.form, ∃ numeral, Numeral.read? word = some numeral) ∧
      ∀ (α β : Type) [Scalar α] [Endpoint β α] (text : String) (line : Nat),
        (parse source : Logged (Event α) ParseError (File α β)).result ≠
          .error (.invalidNumber text line) := by
  refine ⟨fun token member inside => ?_, fun word => exists_numeral_of_form, fun α β _ _ =>
    parse_ne_invalidNumber source⟩
  obtain ⟨before, after, parts, start, longest⟩ :=
    scan_longest 0 1 source.toList token member inside
  rw [Nat.zero_add] at start
  exact ⟨before, after, parts, start, longest⟩

end LinOpt.Lp
