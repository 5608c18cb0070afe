import Mathlib.Data.List.Chain
import Mathlib.Data.List.TakeWhile
import Mathlib.Tactic.SplitIfs
import LinOpt.Proofs.Lp.Bytes

/-!
# Where tokens stand

The tokens of a source tile it: blanks, a token, and so on, until only blanks are left before the
end of the file. That a scan never gets out of step with what it has passed is one induction over
the scan; where the tokens stand is then read off the tiles.
-/

namespace LinOpt.Lp

open Lexer (byteLength isBlank)

/-! ### The characters of a token -/

namespace Lexer

theorem take_runLength (p : Char → Bool) (text : List Char) :
    text.take (runLength p text) = text.takeWhile p :=
  (List.prefix_iff_eq_take.mp (List.takeWhile_prefix p)).symm

/-- Digits, a point, and the mark and the sign of an exponent. -/
def isNumberPart (c : Char) : Bool := c.isDigit || ['.', 'e', 'E', '+', '-'].contains c

theorem digits_isNumberPart (text : List Char) :
    ∀ c ∈ text.take (runLength Char.isDigit text), isNumberPart c = true := by
  intro c member
  rw [take_runLength] at member
  rw [isNumberPart, List.mem_takeWhile_imp member, Bool.true_or]

theorem exponent_isNumberPart (text : List Char) :
    ∀ c ∈ text.take (exponentLength text), isNumberPart c = true := by
  cases text with
  | nil => simp
  | cons mark text =>
    have signPart : ∀ c ∈ text.take
        (if text.head? == some '+' || text.head? == some '-' then 1 else 0),
        isNumberPart c = true := by
      cases text with
      | nil => simp
      | cons first text =>
        split
        next signed =>
          have signed : first = '+' ∨ first = '-' := by simpa using signed
          rw [List.take_succ_cons, List.take_zero, List.forall_mem_singleton]
          rcases signed with rfl | rfl <;> rfl
        · simp
    rw [exponentLength]
    generalize (if text.head? == some '+' || text.head? == some '-' then 1 else 0) = sign
      at signPart ⊢
    split
    next marked =>
      simp only [Bool.and_eq_true, Bool.or_eq_true, beq_iff_eq] at marked
      have first : isNumberPart mark = true := by rcases marked.1 with rfl | rfl <;> rfl
      rw [Nat.add_assoc, Nat.add_comm, List.take_succ_cons, List.forall_mem_cons, List.take_add,
        List.forall_mem_append]
      exact ⟨first, signPart, digits_isNumberPart _⟩
    · simp

theorem number_isNumberPart (text : List Char) :
    ∀ c ∈ text.take (numberLength text), isNumberPart c = true := by
  have fraction (rest : List Char) : ∀ c ∈ rest.take
      (if rest.head? == some '.' then 1 + runLength Char.isDigit (rest.drop 1) else 0),
      isNumberPart c = true := by
    split
    next pointed =>
      cases rest with
      | nil => simp
      | cons point rest =>
        obtain rfl : point = '.' := by simpa using pointed
        rw [Nat.add_comm, List.take_succ_cons, List.forall_mem_cons]
        exact ⟨rfl, digits_isNumberPart rest⟩
    · simp
  rw [numberLength, List.take_add, List.take_add, List.forall_mem_append, List.forall_mem_append,
    ← List.drop_drop]
  exact ⟨⟨digits_isNumberPart text, fraction _⟩, exponent_isNumberPart _⟩

theorem take_relation (first : Char) (rest : List Char) :
    ∀ c ∈ rest.take ((relation first rest.head?).2 - 1), c = '=' ∨ c = '<' ∨ c = '>' := by
  cases rest with
  | nil => simp
  | cons second rest =>
    rw [List.head?_cons, relation.eq_def]
    split <;> simp_all

/-- Nothing of a token after its first character is a line end. -/
theorem lexeme_newline_free (first : Char) (rest : List Char) :
    '\n' ∉ rest.take ((lexeme first rest).2 - 1) := by
  rw [lexeme]
  split_ifs
  · simp
  · rw [Nat.add_sub_cancel_left, take_runLength]
    intro member
    exact absurd (List.mem_takeWhile_imp member) (by decide)
  · simp
  · simp
  · simp
  · intro member
    rcases take_relation first rest _ member with other | other | other <;> cases other
  · intro member
    have part := number_isNumberPart (first :: rest) '\n'
    cases length : numberLength (first :: rest) with
    | zero => simp [length] at member
    | succ length =>
      rw [length, Nat.add_sub_cancel_right] at member
      rw [length, List.take_succ_cons] at part
      exact absurd (part (.tail _ member)) (by decide)
  · rw [Nat.add_sub_cancel_left, take_runLength]
    intro member
    exact absurd (List.mem_takeWhile_imp member) (by decide)
  · simp

/-- Only a line end is taken for one, and no character for the end of the source. -/
theorem lexeme_kind (first : Char) (rest : List Char) :
    (lexeme first rest).1 ≠ .eof ∧ ((lexeme first rest).1 = .newline ↔ first = '\n') := by
  by_cases newline : first = '\n'
  · simp [lexeme, newline]
  · have other (second? : Option Char) : (relation first second?).1 ≠ .eof ∧
        (relation first second?).1 ≠ .newline := by
      rw [relation.eq_def]
      split <;> simp
    simp only [lexeme, beq_iff_eq, newline, if_false, iff_false]
    split_ifs <;> simp [other]

end Lexer

/-! ### Tiles -/

/-- The number of the line that follows a text. -/
def lineAfter (text : List Char) : Nat := 1 + text.count '\n'

theorem lineAfter_blanks {blanks : List Char} (blank : ∀ c ∈ blanks, isBlank c = true)
    (before : List Char) : lineAfter (before ++ blanks) = lineAfter before := by
  rw [lineAfter, List.count_append, count_blanks blank, Nat.add_zero, lineAfter]

/-- How tokens lie in a text that comes after the characters `before`. -/
inductive Tiles : (before text : List Char) → List Token → Prop
  | stop {before blanks : List Char} (blank : ∀ c ∈ blanks, isBlank c = true) :
    Tiles before blanks
      [⟨.eof, ⟨byteLength (before ++ blanks), byteLength (before ++ blanks)⟩, "",
        lineAfter (before ++ blanks)⟩]
  | token {before blanks text rest : List Char} {kind : TokenKind} {tokens : List Token}
    (blank : ∀ c ∈ blanks, isBlank c = true) (some : text ≠ []) (inside : kind ≠ .eof)
    (ends : text.count '\n' = if kind = .newline then 1 else 0)
    (tiles : Tiles (before ++ blanks ++ text) rest tokens) :
    Tiles before (blanks ++ text ++ rest)
      (⟨kind, ⟨byteLength (before ++ blanks), byteLength (before ++ blanks ++ text)⟩,
        String.ofList text, lineAfter (before ++ blanks)⟩ :: tokens)

theorem Lexer.scan_tiles (before : List Char) (offset line : Nat) (text : List Char)
    (at_offset : offset = byteLength before) (at_line : line = lineAfter before) :
    Tiles before text (scan offset line text) := by
  -- along the scan: `offset` and `line` are those of the characters that have been passed
  fun_induction scan offset line text generalizing before with
  | case1 offset line text start split =>
    have blank : ∀ c ∈ text, isBlank c = true := List.dropWhile_eq_nil_iff.mp split
    have last : start = byteLength (before ++ text) := by
      rw [byteLength_append, byteLength_blanks blank, ← at_offset]
      simp only [start, runLength]
      rw [List.takeWhile_eq_self_iff.mpr blank]
    rw [last, at_line, ← lineAfter_blanks blank]
    exact .stop blank
  | case2 offset line text start first rest split kind length lexed characters stop ih =>
    obtain ⟨inside, newline⟩ := lexeme_kind first rest
    have rest_free := lexeme_newline_free first rest
    rw [lexed] at inside newline rest_free
    have blank : ∀ c ∈ text.takeWhile isBlank, isBlank c = true := fun c =>
      List.mem_takeWhile_imp
    have ends : characters.count '\n' = if kind = .newline then 1 else 0 := by
      rw [List.count_cons, List.count_eq_zero.mpr rest_free, Nat.zero_add]
      simp [newline]
    have parts : text.takeWhile isBlank ++ characters ++ rest.drop (length - 1) = text := by
      rw [List.append_assoc, List.cons_append, List.take_append_drop, ← split,
        List.takeWhile_append_dropWhile]
    have first_byte : start = byteLength (before ++ text.takeWhile isBlank) := by
      rw [byteLength_append, byteLength_blanks blank, ← at_offset]
      rfl
    have last_byte : stop = byteLength (before ++ text.takeWhile isBlank ++ characters) := by
      rw [byteLength_append, ← first_byte]
    have next_line : (if kind = .newline then line + 1 else line) =
        lineAfter (before ++ text.takeWhile isBlank ++ characters) := by
      rw [lineAfter, List.count_append, ends, ← Nat.add_assoc, ← lineAfter,
        lineAfter_blanks blank, ← at_line]
      split <;> rfl
    -- The offsets and lines that the scan has counted are those of the tile.
    have tile := Tiles.token blank (List.cons_ne_nil first _) inside ends
      (ih _ last_byte next_line)
    rw [parts, ← first_byte, ← last_byte, lineAfter_blanks blank, ← at_line] at tile
    exact tile

/-! ### What tiles say -/

/-- The token is a part of the source, and its span and its line say which. -/
def Token.StandsIn (token : Token) (source : List Char) : Prop :=
  ∃ before after, source = before ++ token.text.toList ++ after ∧
    token.span = ⟨byteLength before, byteLength (before ++ token.text.toList)⟩ ∧
    token.line = lineAfter before

/-- The bytes between two spans are blanks, tabs and carriage returns. -/
def BlankBetween (source : String) (left right : Span) : Prop :=
  left.stop ≤ right.start ∧
    ∀ byte ∈ (⟨left.stop, right.start⟩ : Span).bytes source, byte = 32 ∨ byte = 9 ∨ byte = 13

theorem BlankBetween.of_blanks {source : String} {before blanks after : List Char}
    (blank : ∀ c ∈ blanks, isBlank c = true) (parts : source.toList = before ++ blanks ++ after)
    (stop : Nat) {span : Span} (passed : span.stop = byteLength before) :
    BlankBetween source span ⟨byteLength (before ++ blanks), stop⟩ := by
  rw [BlankBetween, passed, Span.bytes_part parts, Lexer.byteLength_append]
  exact ⟨Nat.le_add_right _ _, bytes_blanks blank⟩

namespace Tiles

variable {before text : List Char} {tokens : List Token}

theorem ended (tiles : Tiles before text tokens) :
    ∃ inside stop, tokens = inside ++ [stop] ∧ stop.kind = .eof ∧
      stop.span = ⟨byteLength (before ++ text), byteLength (before ++ text)⟩ ∧
      ∀ token ∈ inside, token.kind ≠ .eof ∧ token.span.start < token.span.stop := by
  induction tiles with
  | stop blank => exact ⟨[], _, rfl, rfl, rfl, by simp⟩
  | @token before blanks text rest kind tokens blank some not_eof ends tiles ih =>
    obtain ⟨inside, stop, parts, last, span, more⟩ := ih
    refine ⟨_ :: inside, stop, by rw [parts, List.cons_append], last, ?_,
      List.forall_mem_cons.mpr ⟨⟨not_eof, ?_⟩, more⟩⟩
    · rw [span, List.append_assoc, List.append_assoc, List.append_assoc]
    · rw [Lexer.byteLength_append _ text]
      exact Nat.lt_add_of_pos_right (Lexer.byteLength_pos some)

theorem standsIn (tiles : Tiles before text tokens) :
    ∀ token ∈ tokens, token.StandsIn (before ++ text) := by
  induction tiles with
  | @stop before blanks blank =>
    rw [List.forall_mem_singleton]
    exact ⟨before ++ blanks, [], by simp, by simp, rfl⟩
  | @token before blanks text rest kind tokens blank some inside ends tiles ih =>
    rw [List.forall_mem_cons]
    constructor
    · exact ⟨before ++ blanks, rest, by simp, by simp, rfl⟩
    · simpa only [List.append_assoc] using ih

theorem newline_free (tiles : Tiles before text tokens) :
    ∀ token ∈ tokens, token.kind ≠ .newline → '\n' ∉ token.text.toList := by
  induction tiles with
  | stop blank => simp
  | @token before blanks text rest kind tokens blank some inside ends tiles ih =>
    refine List.forall_mem_cons.mpr ⟨fun other => ?_, ih⟩
    rw [String.toList_ofList, ← List.count_eq_zero, ends, if_neg other]

/-- No token starts before what has been passed. -/
theorem start_le (tiles : Tiles before text tokens) :
    ∀ token ∈ tokens, byteLength before ≤ token.span.start := by
  induction tiles with
  | stop blank =>
    rw [List.forall_mem_singleton, Lexer.byteLength_append]
    exact Nat.le_add_right _ _
  | token blank some inside ends tiles ih =>
    rw [List.forall_mem_cons]
    constructor
    · rw [Lexer.byteLength_append]
      exact Nat.le_add_right _ _
    · intro token member
      have passed := ih token member
      rw [Lexer.byteLength_append, Lexer.byteLength_append, Nat.add_assoc] at passed
      exact Nat.le_of_add_right_le passed

theorem ordered (tiles : Tiles before text tokens) :
    tokens.Pairwise fun earlier later => earlier.span.stop ≤ later.span.start := by
  induction tiles with
  | stop blank => exact List.pairwise_singleton _ _
  | token blank some inside ends tiles ih => exact List.pairwise_cons.mpr ⟨tiles.start_le, ih⟩

theorem gaps {source : String} (tiles : Tiles before text tokens)
    (parts : source.toList = before ++ text) (span : Span)
    (passed : span.stop = byteLength before) :
    List.IsChain (BlankBetween source) (span :: tokens.map Token.span) := by
  induction tiles generalizing span with
  | @stop before blanks blank =>
    have cut : source.toList = before ++ blanks ++ [] := by rw [parts, List.append_nil]
    exact .cons_cons (.of_blanks blank cut _ passed) (.singleton _)
  | @token before blanks text rest kind tokens blank some inside ends tiles ih =>
    have cut : source.toList = before ++ blanks ++ (text ++ rest) := by
      rw [parts, List.append_assoc, List.append_assoc]
    exact .cons_cons (.of_blanks blank cut _ passed)
      (ih (cut.trans (List.append_assoc _ text rest).symm) _ rfl)

end Tiles

/-! ### The tokens of a source -/

/-- Tokens stand for the whole source: they come in order, each has its own bytes, text and line,
and there is nothing else in the source but blanks. -/
structure Covers (source : String) (tokens : List Token) : Prop where
  /-- One token stands for the end of the source; all others have bytes. -/
  ended : ∃ inside stop, tokens = inside ++ [stop] ∧ stop.kind = .eof ∧
    stop.span = ⟨source.utf8ByteSize, source.utf8ByteSize⟩ ∧
    ∀ token ∈ inside, token.kind ≠ .eof ∧ token.span.start < token.span.stop
  ordered : tokens.Pairwise fun earlier later => earlier.span.stop ≤ later.span.start
  boundaries : ∀ token ∈ tokens,
    IsBoundary source token.span.start ∧ IsBoundary source token.span.stop
  text : ∀ token ∈ tokens, token.span.bytes source = token.text.toByteArray.data
  gaps : List.IsChain (BlankBetween source) (⟨0, 0⟩ :: tokens.map Token.span)
  line : ∀ token ∈ tokens,
    token.line = 1 + ((⟨0, token.span.start⟩ : Span).bytes source).count 10

namespace Lexer

theorem tokenize_tiles (source : String) : Tiles [] source.toList (tokenize source) :=
  scan_tiles [] 0 1 source.toList rfl rfl

theorem tokenize_standsIn (source : String) :
    ∀ token ∈ tokenize source, token.StandsIn source.toList :=
  (tokenize_tiles source).standsIn

end Lexer

/-- Every source is covered by its tokens. -/
theorem tokenize_covers (source : String) : Covers source (Lexer.tokenize source) where
  ended := by
    have ended := (Lexer.tokenize_tiles source).ended
    rw [List.nil_append, Lexer.byteLength_toList] at ended
    exact ended
  ordered := (Lexer.tokenize_tiles source).ordered
  boundaries := by
    intro token member
    obtain ⟨before, after, parts, span, -⟩ := Lexer.tokenize_standsIn source token member
    have cut : source.toList = before ++ (token.text.toList ++ after) := by
      rw [parts, List.append_assoc]
    rw [span]
    exact ⟨isBoundary_part cut, isBoundary_part parts⟩
  text := by
    intro token member
    obtain ⟨before, after, parts, span, -⟩ := Lexer.tokenize_standsIn source token member
    rw [span, Span.bytes_part parts, data_toByteArray]
  gaps := (Lexer.tokenize_tiles source).gaps rfl ⟨0, 0⟩ rfl
  line := by
    intro token member
    obtain ⟨before, after, parts, span, line⟩ := Lexer.tokenize_standsIn source token member
    have cut : source.toList = [] ++ before ++ (token.text.toList ++ after) := by
      rw [parts, List.nil_append, List.append_assoc]
    have bytes := Span.bytes_part cut
    rw [List.nil_append, byteLength] at bytes
    rw [line, span, bytes, count_newline, lineAfter]

end LinOpt.Lp
