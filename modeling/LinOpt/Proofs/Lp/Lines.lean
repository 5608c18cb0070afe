import LinOpt.Lp.Reader
import LinOpt.Proofs.Results

/-!
# Logical lines

The lines that a reader sees are the tokens between line ends, without comments, as far as anything
is left of them. Splitting fails on a character that starts no token, and on nothing else.
-/

namespace LinOpt.Lp

namespace Token

/-- The token ends a line. -/
def endsLine (token : Token) : Bool := token.kind == .newline || token.kind == .eof

end Token

/-- The tokens between line ends, without comments and without lines that have no tokens. -/
def logicalLines (tokens : List Token) : List Line :=
  ((tokens.filter (·.kind != .comment)).splitOnP (·.endsLine)).filterMap Line.ofTokens?

/-! ### The last token -/

namespace Lexer

theorem scan_eof (offset line : Nat) (text : List Char) :
    ∃ before stop, scan offset line text = before ++ [stop] ∧ stop.kind = .eof := by
  fun_induction scan offset line text with
  | case1 offset line text start split => exact ⟨[], _, rfl, rfl⟩
  | case2 offset line text start first rest split kind length lexed characters stop ih =>
    obtain ⟨before, last, more, ended⟩ := ih
    exact ⟨_ :: before, last, congrArg _ more, ended⟩

end Lexer

/-! ### Splitting -/

/-- The logical lines when some tokens of the first one have been read already. -/
def logicalLinesFrom (current : List Token) (tokens : List Token) : List Line :=
  (((tokens.filter (·.kind != .comment)).splitOnP (·.endsLine)).modifyHead
    (current ++ ·)).filterMap Line.ofTokens?

theorem logicalLinesFrom_nil (tokens : List Token) :
    logicalLinesFrom [] tokens = logicalLines tokens := by
  rw [logicalLinesFrom, logicalLines]
  congr 1
  cases (tokens.filter (·.kind != .comment)).splitOnP (·.endsLine) <;> rfl

theorem logicalLinesFrom_finished (current : List Token) :
    logicalLinesFrom current [] = (Line.ofTokens? current).toList := by
  simp [logicalLinesFrom, List.splitOnP_nil, List.filterMap_cons]
  cases Line.ofTokens? current <;> rfl

theorem logicalLinesFrom_comment {token : Token} (comment : token.kind = .comment)
    (current rest : List Token) :
    logicalLinesFrom current (token :: rest) = logicalLinesFrom current rest := by
  simp [logicalLinesFrom, comment]

theorem logicalLinesFrom_end {token : Token} (ends : token.endsLine = true)
    (current rest : List Token) :
    logicalLinesFrom current (token :: rest) =
      (Line.ofTokens? current).toList ++ logicalLines rest := by
  have kept : token.kind ≠ .comment := by
    intro comment
    simp [Token.endsLine, comment] at ends
  simp only [logicalLinesFrom, logicalLines, List.filter_cons, bne_iff_ne, ne_eq, kept,
    not_false_eq_true, if_true, List.splitOnP_cons_eq_if_modifyHead, ends, List.modifyHead_cons,
    List.append_nil, List.filterMap_cons]
  cases Line.ofTokens? current <;> rfl

theorem logicalLinesFrom_token {token : Token} (inside : token.endsLine = false)
    (kept : token.kind ≠ .comment) (current rest : List Token) :
    logicalLinesFrom current (token :: rest) = logicalLinesFrom (current ++ [token]) rest := by
  simp only [logicalLinesFrom, List.filter_cons, bne_iff_ne, ne_eq, kept, not_false_eq_true,
    if_true, List.splitOnP_cons_eq_if_modifyHead, inside, Bool.false_eq_true, if_false,
    List.modifyHead_modifyHead]
  congr 2
  funext tokens
  simp

theorem splitLines_end {token : Token} (ends : token.endsLine = true)
    (current rest : List Token) :
    splitLines current (token :: rest) =
      (do return (Line.ofTokens? current).toList ++ (← splitLines [] rest)) := by
  rw [splitLines]
  cases kind : token.kind <;> first | rfl | simp [Token.endsLine, kind] at ends

theorem splitLines_token {token : Token} (inside : token.endsLine = false)
    (kept : token.kind ≠ .comment) (sound : token.kind ≠ .error) (current rest : List Token) :
    splitLines current (token :: rest) = splitLines (current ++ [token]) rest := by
  rw [splitLines]
  cases kind : token.kind <;> first | rfl | simp_all [Token.endsLine]

theorem splitLines_comment {token : Token} (comment : token.kind = .comment)
    (current rest : List Token) :
    splitLines current (token :: rest) = splitLines current rest := by
  rw [splitLines, comment]

/-- Comments make no difference to the lines. -/
theorem splitLines_filter (current tokens : List Token) :
    splitLines current (tokens.filter (·.kind != .comment)) = splitLines current tokens := by
  induction tokens generalizing current with
  | nil => rfl
  | cons token tokens ih =>
    by_cases comment : token.kind = .comment
    · rw [List.filter_cons_of_neg (by simpa using comment), splitLines_comment comment, ih]
    · rw [List.filter_cons_of_pos (by simpa using comment), splitLines, splitLines]
      simp only [ih]

/-- Up to the end of the file, splitting finds the logical lines. -/
theorem splitLines_eq_ok_iff {stop : Token} (ended : stop.kind = .eof) {tokens : List Token}
    (current : List Token) {lines : List Line} :
    splitLines current (tokens ++ [stop]) = .ok lines ↔
      (∀ token ∈ tokens, token.kind ≠ .error) ∧
        lines = logicalLinesFrom current (tokens ++ [stop]) := by
  -- The tokens of the line that is being read are carried along.
  induction tokens generalizing current lines with
  | nil =>
    have ends : stop.endsLine = true := by simp [Token.endsLine, ended]
    have nothing : logicalLines [] = [] := rfl
    rw [List.nil_append, splitLines_end ends, logicalLinesFrom_end ends, nothing]
    simp [splitLines, bind, Except.bind, pure, Except.pure, eq_comm]
  | cons token tokens ih =>
    rw [List.cons_append, List.forall_mem_cons]
    by_cases ends : token.endsLine = true
    · have sound : token.kind ≠ .error := by
        intro error
        simp [Token.endsLine, error] at ends
      rw [splitLines_end ends, logicalLinesFrom_end ends, bind_eq_ok_iff, and_iff_right sound]
      simp only [ih, logicalLinesFrom_nil]
      constructor
      · rintro ⟨rest, ⟨passed, rfl⟩, same⟩
        cases same
        exact ⟨passed, rfl⟩
      · rintro ⟨passed, rfl⟩
        exact ⟨_, ⟨passed, rfl⟩, rfl⟩
    · have inside : token.endsLine = false := by simpa using ends
      by_cases comment : token.kind = .comment
      · have sound : token.kind ≠ .error := by simp [comment]
        rw [logicalLinesFrom_comment comment, and_iff_right sound, ← ih current,
          splitLines_comment comment]
      by_cases error : token.kind = .error
      · simp [splitLines, error]
      rw [splitLines_token inside comment error, logicalLinesFrom_token inside comment,
        and_iff_right error, ih]

/-- The tokens of a source split into its logical lines if every character starts a token. -/
theorem splitLines_tokenize {source : String} {lines : List Line} :
    splitLines [] (Lexer.tokenize source) = .ok lines ↔
      (∀ token ∈ Lexer.tokenize source, token.kind ≠ .error) ∧
        lines = logicalLines (Lexer.tokenize source) := by
  obtain ⟨before, stop, all, ended⟩ := Lexer.scan_eof 0 1 source.toList
  have sound : ∀ token ∈ [stop], token.kind ≠ .error := by simp [ended]
  rw [Lexer.tokenize, all, splitLines_eq_ok_iff ended, logicalLinesFrom_nil,
    List.forall_mem_append, and_iff_left sound]

end LinOpt.Lp
