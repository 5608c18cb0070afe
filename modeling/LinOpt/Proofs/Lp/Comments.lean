import LinOpt.Lp.Model
import LinOpt.Proofs.Lp.Lines
import LinOpt.Proofs.Lp.Longest

/-!
# Comments

A comment reads like blanks. If each of its bytes is turned into a blank, every token before it ends
where it ended, every token after it has the place that it had, and only the token of the comment
is missing, which the reader of a file passes over.
-/

namespace LinOpt.Lp

/-- The text with a space for each byte of its comments; it starts `inside` of one or not. -/
def blankComments (inside : Bool) : List Char → List Char
  | [] => []
  | c :: text =>
    if c = '\n' then c :: blankComments false text
    else if inside || c = '\\' then List.replicate c.utf8Size ' ' ++ blankComments true text
    else c :: blankComments false text

/-- The source with a space for each byte of its comments. -/
def withoutComments (source : String) : String :=
  String.ofList (blankComments false source.toList)

namespace Lexer

theorem blankComments_plain {before : List Char} (plain : '\\' ∉ before) (text : List Char) :
    blankComments false (before ++ text) = before ++ blankComments false text := by
  induction before with
  | nil => rfl
  | cons c before ih =>
    rw [List.mem_cons, not_or] at plain
    rw [List.cons_append, blankComments, ih plain.2]
    split_ifs with newline comment
    · rfl
    · simp [Ne.symm plain.1] at comment
    · rfl

theorem blankComments_inside {more text : List Char} (line : '\n' ∉ more) :
    blankComments true (more ++ text) =
      List.replicate (byteLength more) ' ' ++ blankComments true text := by
  induction more with
  | nil => rfl
  | cons c more ih =>
    rw [List.mem_cons, not_or] at line
    rw [List.cons_append, blankComments, if_neg (Ne.symm line.1), Bool.true_or, if_pos rfl,
      ih line.2, byteLength, List.replicate_add, List.append_assoc]

/-- A comment ends where its line ends. -/
theorem blankComments_ended {text : List Char} (ended : ∀ c ∈ text.head?, c = '\n') :
    blankComments true text = blankComments false text := by
  cases text with
  | nil => rfl
  | cons c text =>
    obtain rfl := ended c rfl
    rfl

/-- Solid characters are in no comment, and a comment becomes blanks, which are not solid either. -/
theorem takeWhile_blankComments (text : List Char) :
    (blankComments false text).takeWhile isSolid = text.takeWhile isSolid := by
  induction text with
  | nil => rfl
  | cons c text ih =>
    rw [blankComments]
    split_ifs with newline comment
    · subst newline
      rfl
    · obtain rfl : c = '\\' := by simpa using comment
      rfl
    · rw [List.takeWhile_cons, List.takeWhile_cons, ih]

/-- A comment goes on to the end of its line. -/
theorem comment_ends {more after : List Char}
    (taken : lexeme '\\' (more ++ after) = (.comment, more.length + 1)) :
    '\n' ∉ more ∧ ∀ c ∈ after.head?, c = '\n' := by
  have length : runLength (· != '\n') (more ++ after) = more.length := by
    have taken : 1 + runLength (· != '\n') (more ++ after) = more.length + 1 :=
      congrArg Prod.snd taken
    omega
  have run : (more ++ after).takeWhile (· != '\n') = more := by
    rw [← take_runLength, length, List.take_left]
  have inside : ∀ c ∈ more, (c != '\n') = true := by
    intro c member
    rw [← run] at member
    exact List.mem_takeWhile_imp (p := (· != '\n')) member
  refine ⟨fun member => absurd (inside _ member) (by decide), fun c found => ?_⟩
  rw [List.takeWhile_append_of_pos inside, List.append_right_eq_self] at run
  obtain ⟨after, rfl⟩ := List.head?_eq_some_iff.mp found
  simpa using run

theorem scan_blankComments (offset line : Nat) (text : List Char) :
    scan offset line (blankComments false text) =
      (scan offset line text).filter (·.kind != .comment) := by
  induction text using text_induction generalizing offset line with
  | blanks blanks blank =>
    have plain : '\\' ∉ blanks := fun member => absurd (blank _ member) (by decide)
    have kept := blankComments_plain plain []
    rw [List.append_nil, blankComments, List.append_nil] at kept
    rw [kept, scan_ended blank]
    rfl
  | token blanks first more after kind blank visible taken ih =>
    have plain : '\\' ∉ blanks := fun member => absurd (blank _ member) (by decide)
    rw [blankComments_plain plain, scan_blanks blank, scan_blanks blank, scan_lexeme visible taken]
    generalize offset + blanks.length = offset
    by_cases comment : first = '\\'
    · -- The blanks in place of the comment join those before the next token.
      subst comment
      obtain rfl : kind = .comment := (congrArg Prod.fst taken).symm
      obtain ⟨within, ended⟩ := comment_ends taken
      have blanked : blankComments false ('\\' :: more ++ after) =
          List.replicate (byteLength ('\\' :: more)) ' ' ++ blankComments false after := by
        rw [← blankComments_ended ended]
        exact @blankComments_inside ('\\' :: more) after (by simp [within])
      have blank : ∀ c ∈ List.replicate (byteLength ('\\' :: more)) ' ', isBlank c = true := by
        intro c member
        rw [List.eq_of_mem_replicate member]
        rfl
      rw [blanked, scan_blanks blank, ih, List.length_replicate]
      rfl
    · -- Another token ends before a backslash, and before the blank in its place just the same.
      have solid := solid_of_lexeme comment taken
      have other : kind ≠ .comment := fun same =>
        comment (lexeme_comment_iff.mp ((congrArg Prod.fst taken).trans same))
      have plain : '\\' ∉ first :: more := by
        rw [List.mem_cons, not_or]
        exact ⟨Ne.symm comment, fun member => absurd (solid _ member) (by decide)⟩
      have kept : (more ++ blankComments false after).takeWhile isSolid <+: more ++ after := by
        rw [List.takeWhile_append_of_pos solid, takeWhile_blankComments,
          ← List.takeWhile_append_of_pos solid]
        exact List.takeWhile_prefix _
      rw [blankComments_plain plain, scan_lexeme visible (lexeme_congr comment kept taken),
        List.filter_cons_of_pos (by simpa using other), ih]

end Lexer

theorem tokenize_withoutComments (source : String) :
    Lexer.tokenize (withoutComments source) =
      (Lexer.tokenize source).filter (·.kind != .comment) := by
  rw [Lexer.tokenize, withoutComments, String.toList_ofList]
  exact Lexer.scan_blankComments 0 1 source.toList

/-- Files read alike, and compile alike, without their comments. -/
theorem parse_withoutComments {α β : Type} [Scalar α] [Endpoint β α] (source : String) :
    (parse (withoutComments source) : Logged (Event α) ParseError (File α β)) = parse source ∧
      (compileSource (withoutComments source) : Logged (Event α) CompileError (Model α β)) =
        compileSource source := by
  have parsed : (parse (withoutComments source) : Logged (Event α) ParseError (File α β)) =
      parse source := by
    rw [parse, parse, tokenize_withoutComments, splitLines_filter]
  exact ⟨parsed, by rw [compileSource, compileSource, parsed]⟩

end LinOpt.Lp
