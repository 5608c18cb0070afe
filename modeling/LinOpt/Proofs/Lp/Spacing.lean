import LinOpt.Proofs.Lp.Longest

/-!
# Spaces between tokens

A token is the longest text where it starts, so what follows it matters only as far as it could go
on. Nothing goes on over a space: written with single spaces between them, the tokens of a source
are found again, on the same lines.
-/

namespace LinOpt.Lp

namespace Token

/-- The token without its place in the line. -/
def label (token : Token) : TokenKind × String × Nat := (token.kind, token.text, token.line)

/-- The token is neither a comment nor the end of the source. -/
def isWritten (token : Token) : Bool := token.kind != .comment && token.kind != .eof

end Token

/-- The tokens of a source, without its comments, and one space between each two of them. -/
def spaced (source : String) : String :=
  " ".intercalate (((Lexer.tokenize source).filter Token.isWritten).map Token.text)

namespace Lexer

/-- The characters of tokens with one space between each two of them. -/
def spacedText (tokens : List Token) : List Char :=
  [' '].intercalate ((tokens.filter Token.isWritten).map (·.text.toList))

theorem toList_spaced (source : String) :
    (spaced source).toList = spacedText (tokenize source) := by
  rw [spaced, String.toList_intercalate]
  rw [spacedText, List.map_map]
  rfl

/-- The text of a token, and after it nothing or a space. -/
theorem spacedText_cons {token : Token} (written : token.isWritten = true) (tokens : List Token) :
    ∃ rest, spacedText (token :: tokens) = token.text.toList ++ rest ∧
      (rest = spacedText tokens ∧ rest = [] ∨ rest = ' ' :: spacedText tokens) := by
  rw [spacedText, List.filter_cons_of_pos written, List.map_cons]
  cases more : (tokens.filter Token.isWritten).map (·.text.toList) with
  | nil =>
    have empty : spacedText tokens = [] := by rw [spacedText, more, List.intercalate_nil]
    exact ⟨[], by simp, .inl ⟨empty.symm, rfl⟩⟩
  | cons text texts =>
    refine ⟨' ' :: spacedText tokens, ?_, .inr rfl⟩
    rw [List.intercalate_cons_cons, spacedText, more, List.append_assoc]
    rfl

/-- Spaces between the tokens of a text change nothing, wherever the text stands. -/
theorem scan_spacedText (offset offset' line : Nat) (text : List Char) :
    (scan offset' line (spacedText (scan offset line text))).map Token.label =
      ((scan offset line text).filter (·.kind != .comment)).map Token.label := by
  induction text using text_induction generalizing offset offset' line with
  | blanks blanks blank =>
    rw [scan_ended blank]
    show (scan offset' line []).map Token.label = _
    rw [scan_nil]
    rfl
  | token blanks first more after kind blank visible taken ih =>
    rw [scan_blanks blank, scan_lexeme visible taken]
    generalize offset + blanks.length = offset
    by_cases comment : kind = .comment
    · subst comment
      exact ih _ _ _
    · have plain : first ≠ '\\' := by
        rintro rfl
        exact comment (congrArg Prod.fst taken).symm
      have inside : kind ≠ .eof := by
        have other := (lexeme_kind first (more ++ after)).1
        rwa [taken] at other
      obtain ⟨rest, parts, spaced⟩ := @spacedText_cons
        ⟨kind, ⟨offset, offset + byteLength (first :: more)⟩, String.ofList (first :: more), line⟩
        (by simp [Token.isWritten, comment, inside])
        (scan (offset + byteLength (first :: more)) (if kind = .newline then line + 1 else line)
          after)
      -- After the token stands a space or nothing, and it does not go on over either.
      have ends : ∀ c ∈ rest.head?, isSolid c = false := by
        obtain ⟨_, rfl⟩ | rfl := spaced <;> simp [isSolid, isBlank]
      have solid : (more ++ rest).takeWhile isSolid <+: more ++ after := by
        rw [takeWhile_append_of_stop ends]
        exact (List.takeWhile_prefix _).trans (List.prefix_append _ _)
      have found := lexeme_congr plain solid taken
      rw [parts, String.toList_ofList, scan_lexeme visible found,
        List.filter_cons_of_pos (by simpa using comment), List.map_cons, List.map_cons]
      refine congrArg (_ :: ·) ?_
      obtain ⟨rfl, _⟩ | rfl := spaced
      · exact ih _ _ _
      · rw [scan_blank]
        exact ih _ _ _

end Lexer

/-- The tokens are the same if there is one space between each two of them. -/
theorem tokenize_spaced (source : String) :
    (Lexer.tokenize (spaced source)).map Token.label =
      ((Lexer.tokenize source).filter (·.kind != .comment)).map Token.label := by
  rw [Lexer.tokenize, Lexer.toList_spaced]
  exact Lexer.scan_spacedText 0 0 1 source.toList

example : (Lexer.tokenize "3x1<=4").map Token.label =
    (Lexer.tokenize "3 x1 <= 4").map Token.label := by cbv

end LinOpt.Lp
