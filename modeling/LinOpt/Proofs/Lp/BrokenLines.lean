import Mathlib.Data.List.SplitBy
import LinOpt.Proofs.Lp.Comments
import LinOpt.Proofs.Lp.Unlined

/-!
# Lines that are broken

If characters between the tokens of a source become line ends, the tokens are those from before, on
other lines, and line ends among them. The logical lines are then the old ones, each of them cut
where a new line end has come between two of its tokens.
-/

namespace LinOpt.Lp

/-- The text with line ends in place of the characters that start at the chosen bytes; its own first
character is at byte `offset`. -/
def breakLines (chosen : Nat → Bool) (offset : Nat) : List Char → List Char
  | [] => []
  | c :: text =>
    (if chosen offset then '\n' else c) :: breakLines chosen (offset + c.utf8Size) text

/-- The source with line ends in place of the characters that start at the chosen bytes. -/
def broken (chosen : Nat → Bool) (source : String) : String :=
  String.ofList (breakLines chosen 0 source.toList)

/-- The chosen bytes from `start` up to, but not including, `stop`. -/
def chosenIn (chosen : Nat → Bool) (start stop : Nat) : List Nat :=
  (List.range' start (stop - start)).filter chosen

/-- The token of a new line end, without its line. -/
def newEnd (byte : Nat) : Token := ⟨.newline, ⟨byte, byte + 1⟩, "\n", 0⟩

/-- The tokens with all new line ends, before each of them and after byte `passed`. -/
def withEnds (chosen : Nat → Bool) (passed : Nat) : List Token → List Token
  | [] => []
  | token :: tokens =>
    (chosenIn chosen passed token.span.start).map newEnd
      ++ token :: withEnds chosen token.span.stop tokens

/-- No chosen byte is between the tokens. -/
def joined (chosen : Nat → Bool) (left right : Token) : Bool :=
  (chosenIn chosen left.span.stop right.span.start).isEmpty

theorem joined_eq_false_iff {chosen : Nat → Bool} {left right : Token} :
    joined chosen left right = false ↔
      ∃ byte, chosen byte = true ∧ left.span.stop ≤ byte ∧ byte < right.span.start := by
  rw [joined, List.isEmpty_eq_false_iff_exists_mem]
  apply exists_congr
  intro byte
  rw [chosenIn, List.mem_filter, List.mem_range'_1]
  constructor
  · rintro ⟨⟨low, high⟩, isChosen⟩
    exact ⟨isChosen, low, by omega⟩
  · rintro ⟨isChosen, low, high⟩
    exact ⟨⟨low, by omega⟩, isChosen⟩

theorem mem_withEnds {chosen : Nat → Bool} {passed : Nat} {tokens : List Token} {token : Token}
    (member : token ∈ withEnds chosen passed tokens) : token ∈ tokens ∨ token.kind = .newline := by
  induction tokens generalizing passed with
  | nil => cases member
  | cons first tokens ih =>
    rw [withEnds, List.mem_append, List.mem_cons] at member
    obtain added | rfl | later := member
    · obtain ⟨byte, _, rfl⟩ := List.mem_map.mp added
      exact .inr rfl
    · exact .inl List.mem_cons_self
    · exact (ih later).imp_left (List.mem_cons_of_mem _)

/-! ### Tokens -/

/-- No chosen byte is in a token. -/
def Outside (chosen : Nat → Bool) (tokens : List Token) : Prop :=
  ∀ token ∈ tokens, ∀ byte, token.span.start ≤ byte → byte < token.span.stop → chosen byte = false

namespace Lexer

variable {chosen : Nat → Bool}

theorem breakLines_append (offset : Nat) (text more : List Char) :
    breakLines chosen offset (text ++ more) =
      breakLines chosen offset text ++ breakLines chosen (offset + byteLength text) more := by
  induction text generalizing offset with
  | nil => rfl
  | cons c text ih =>
    rw [List.cons_append, breakLines, breakLines, ih, byteLength, Nat.add_assoc, List.cons_append]

/-- Nothing changes in a text without chosen bytes. -/
theorem breakLines_eq_self {offset : Nat} {text : List Char}
    (kept : ∀ byte, offset ≤ byte → byte < offset + byteLength text → chosen byte = false) :
    breakLines chosen offset text = text := by
  induction text generalizing offset with
  | nil => rfl
  | cons c text ih =>
    have size := c.utf8Size_pos
    rw [byteLength] at kept
    rw [breakLines, kept offset (Nat.le_refl _) (by omega), ih]
    · rfl
    · exact fun byte low high => kept byte (by omega) (by omega)

/-- A line end is not solid, so no token becomes longer. -/
theorem takeWhile_breakLines (offset : Nat) (text : List Char) :
    (breakLines chosen offset text).takeWhile isSolid <+: text := by
  induction text generalizing offset with
  | nil => exact List.prefix_rfl
  | cons c text ih =>
    rw [breakLines]
    split
    · exact List.nil_prefix
    · rw [List.takeWhile_cons]
      split
      · exact List.cons_prefix_cons.mpr ⟨rfl, ih _⟩
      · exact List.nil_prefix

theorem scan_newline (offset line : Nat) (text : List Char) :
    scan offset line ('\n' :: text) =
      ⟨.newline, ⟨offset, offset + 1⟩, "\n", line⟩ :: scan (offset + 1) (line + 1) text :=
  @scan_lexeme '\n' [] text .newline rfl rfl offset line

theorem chosenIn_cons {start stop : Nat} (before : start < stop) :
    chosenIn chosen start stop =
      (if chosen start then [start] else []) ++ chosenIn chosen (start + 1) stop := by
  have length : stop - start = stop - (start + 1) + 1 := by omega
  rw [chosenIn, length, List.range'_succ, List.filter_cons, chosenIn]
  split <;> rfl

/-- Blanks become blanks and line ends. -/
theorem scan_breakLines_blanks (chosen : Nat → Bool) {blanks : List Char}
    (blank : ∀ c ∈ blanks, isBlank c = true) (offset line : Nat) (text : List Char) : ∃ line',
      (scan offset line (breakLines chosen offset blanks ++ text)).map Token.unlined =
        (chosenIn chosen offset (offset + blanks.length)).map newEnd ++
          (scan (offset + blanks.length) line' text).map Token.unlined := by
  induction blanks generalizing offset line with
  | nil => exact ⟨line, by simp [breakLines, chosenIn]⟩
  | cons c blanks ih =>
    rw [List.forall_mem_cons] at blank
    have size : c.utf8Size = 1 := by
      have bytes := byteLength_blanks (List.forall_mem_singleton.mpr blank.1)
      simpa [byteLength] using bytes
    have passed : offset + (c :: blanks).length = offset + 1 + blanks.length := by
      rw [List.length_cons]
      omega
    rw [breakLines, size, passed, chosenIn_cons (by omega)]
    -- The first blank becomes a line end, or it stays and is skipped.
    cases chosen offset with
    | true =>
      obtain ⟨line', same⟩ := ih blank.2 (offset + 1) (line + 1)
      refine ⟨line', ?_⟩
      rw [if_pos rfl, if_pos rfl, List.map_append, List.append_assoc, ← same, List.cons_append,
        scan_newline]
      rfl
    | false =>
      obtain ⟨line', same⟩ := ih blank.2 (offset + 1) line
      have skipped := @scan_blanks [c] (List.forall_mem_singleton.mpr blank.1) offset line
        (breakLines chosen (offset + 1) blanks ++ text)
      refine ⟨line', ?_⟩
      rw [if_neg (by decide), if_neg (by decide), List.nil_append, ← same]
      exact congrArg (List.map Token.unlined) skipped

/-- A token outside of which the characters are chosen is still there when they are line ends. -/
theorem lexeme_breakLines {first : Char} {more after : List Char} {kind : TokenKind}
    (taken : lexeme first (more ++ after) = (kind, more.length + 1)) (offset : Nat) :
    lexeme first (more ++ breakLines chosen offset after) = (kind, more.length + 1) := by
  by_cases comment : first = '\\'
  · -- A comment ends where its line ends, and the line still ends there.
    subst comment
    obtain rfl : kind = .comment := (congrArg Prod.fst taken).symm
    obtain ⟨within, ended⟩ := comment_ends taken
    have inside : ∀ c ∈ more, (c != '\n') = true := by
      intro c member
      rw [bne_iff_ne]
      rintro rfl
      exact within member
    have run : runLength (· != '\n') (breakLines chosen offset after) = 0 := by
      cases after with
      | nil => rfl
      | cons c after =>
        obtain rfl := ended c rfl
        simp [breakLines, runLength]
    have length : lexeme '\\' (more ++ breakLines chosen offset after) =
        (.comment, 1 + runLength (· != '\n') (more ++ breakLines chosen offset after)) := rfl
    rw [length, runLength_append_of_pos inside, run, Nat.add_comm]
  · -- Any other token depends on the solid characters after it, and only fewer of them are left.
    have solid := solid_of_lexeme comment taken
    apply lexeme_congr comment ?_ taken
    rw [List.takeWhile_append_of_pos solid]
    exact List.prefix_append_right_inj _ |>.mpr (takeWhile_breakLines _ _)

/-- The tokens of the new text are those of the old one and the new line ends. -/
theorem scan_breakLines (offset line line' : Nat) (text : List Char)
    (outside : Outside chosen (scan offset line text)) :
    (scan offset line' (breakLines chosen offset text)).map Token.unlined =
      withEnds chosen offset ((scan offset line text).map Token.unlined) := by
  -- Token by token: the blanks before it become blanks and line ends, and it stays as it is.
  induction text using text_induction generalizing offset line line' with
  | blanks blanks blank =>
    obtain ⟨last, same⟩ := scan_breakLines_blanks chosen blank offset line' []
    rw [List.append_nil] at same
    rw [same, scan_ended blank, scan_nil]
    rfl
  | token blanks first more after kind blank visible taken ih =>
    rw [scan_blanks blank, scan_lexeme visible taken] at outside ⊢
    obtain ⟨own, later⟩ := List.forall_mem_cons.mp outside
    have bytes := byteLength_blanks blank
    have kept : breakLines chosen (offset + blanks.length) (first :: more) = first :: more :=
      breakLines_eq_self own
    let after' := breakLines chosen (offset + blanks.length + byteLength (first :: more)) after
    obtain ⟨middle, same⟩ :=
      scan_breakLines_blanks chosen blank offset line' (first :: more ++ after')
    rw [breakLines_append, bytes, breakLines_append, kept, same,
      scan_lexeme visible (lexeme_breakLines taken _), List.map_cons, List.map_cons, withEnds,
      ih _ _ _ later]
    rfl

end Lexer

/-! ### Blanks -/

open Lexer (byteLength isBlank)

/-- Blanks have one byte each, so every byte of blanks starts one of them. -/
theorem exists_among_blanks {blanks : List Char} (blank : ∀ c ∈ blanks, isBlank c = true)
    {before : List Char} {byte : Nat} (low : byteLength before ≤ byte)
    (high : byte < byteLength (before ++ blanks)) : ∃ left c right,
      blanks = left ++ c :: right ∧ byteLength (before ++ left) = byte ∧ isBlank c = true := by
  rw [Lexer.byteLength_append, Lexer.byteLength_blanks blank] at high
  have within : byte - byteLength before < blanks.length := by omega
  have parts := List.take_append_drop (byte - byteLength before) blanks
  rw [List.drop_eq_getElem_cons within] at parts
  refine ⟨_, _, _, parts.symm, ?_, blank _ (List.getElem_mem within)⟩
  have earlier : ∀ c ∈ blanks.take (byte - byteLength before), isBlank c = true :=
    fun c member => blank c (List.mem_of_mem_take member)
  rw [Lexer.byteLength_append, Lexer.byteLength_blanks earlier, List.length_take]
  omega

/-- A blank starts at every byte that is outside of all tokens. -/
theorem Tiles.exists_blank {before text : List Char} {tokens : List Token}
    (tiles : Tiles before text tokens) {byte : Nat} (low : byteLength before ≤ byte)
    (high : byte < byteLength (before ++ text))
    (outside : ∀ token ∈ tokens, token.span.start ≤ byte → token.span.stop ≤ byte) :
    ∃ left c right, text = left ++ c :: right ∧ byteLength (before ++ left) = byte ∧
      isBlank c = true := by
  induction tiles with
  | stop blank => exact exists_among_blanks blank low high
  | @token before blanks text rest kind tokens blank some inside ends tiles ih =>
    obtain ⟨own, later⟩ := List.forall_mem_cons.mp outside
    -- The byte is in the blanks before the token, or else after the token.
    by_cases early : byte < byteLength (before ++ blanks)
    · obtain ⟨left, c, right, rfl, at_byte, isBlank⟩ := exists_among_blanks blank low early
      exact ⟨left, c, right ++ text ++ rest, by simp, at_byte, isBlank⟩
    · have high : byte < byteLength (before ++ blanks ++ text ++ rest) := by
        simpa only [List.append_assoc] using high
      obtain ⟨left, c, right, rfl, at_byte, isBlank⟩ := ih (own (Nat.not_lt.mp early)) high later
      refine ⟨blanks ++ text ++ left, c, right, by simp, ?_, isBlank⟩
      simpa only [List.append_assoc] using at_byte

/-! ### Lines -/

/-- The tokens of the logical lines, some of the first one of which have been read already. -/
def rows (current tokens : List Token) : List (List Token) :=
  (logicalLinesFrom current tokens).map Line.tokens

/-- The tokens of a line, if it has any. -/
def row (tokens : List Token) : List (List Token) :=
  (Line.ofTokens? tokens).toList.map Line.tokens

theorem row_nil : row [] = [] := rfl

theorem row_of_ne_nil {tokens : List Token} (filled : tokens ≠ []) : row tokens = [tokens] := by
  obtain ⟨first, rest, rfl⟩ := List.exists_cons_of_ne_nil filled
  rfl

theorem rows_nil (current : List Token) : rows current [] = row current := by
  rw [rows, logicalLinesFrom_finished, row]

theorem rows_end {token : Token} (ends : token.endsLine = true) (current tokens : List Token) :
    rows current (token :: tokens) = row current ++ rows [] tokens := by
  rw [rows, logicalLinesFrom_end ends, List.map_append, row, rows, logicalLinesFrom_nil]

theorem rows_comment {token : Token} (comment : token.kind = .comment)
    (current tokens : List Token) : rows current (token :: tokens) = rows current tokens := by
  rw [rows, logicalLinesFrom_comment comment, rows]

theorem rows_token {token : Token} (inside : token.endsLine = false) (kept : token.kind ≠ .comment)
    (current tokens : List Token) :
    rows current (token :: tokens) = rows (current ++ [token]) tokens := by
  rw [rows, logicalLinesFrom_token inside kept, rows]

/-- What has been read of the first line comes before the rest of it. -/
theorem exists_rows (tokens : List Token) : ∃ first later,
    ∀ current, rows current tokens = row (current ++ first) ++ later := by
  induction tokens with
  | nil => exact ⟨[], [], fun current => by rw [rows_nil]; simp⟩
  | cons token tokens ih =>
    obtain ⟨first, later, same⟩ := ih
    by_cases ends : token.endsLine = true
    · exact ⟨[], rows [] tokens, fun current => by rw [rows_end ends, List.append_nil]⟩
    by_cases comment : token.kind = .comment
    · exact ⟨first, later, fun current => by rw [rows_comment comment, same]⟩
    · refine ⟨token :: first, later, fun current => ?_⟩
      rw [rows_token (by simpa using ends) comment, same, List.append_assoc]
      rfl

theorem rows_newEnds (bytes : List Nat) (current tokens : List Token) :
    rows current (bytes.map newEnd ++ tokens) =
      if bytes = [] then rows current tokens else row current ++ rows [] tokens := by
  induction bytes generalizing current with
  | nil => rfl
  | cons byte bytes ih =>
    have ends : (newEnd byte).endsLine = true := rfl
    rw [List.map_cons, List.cons_append, rows_end ends, ih, if_neg (List.cons_ne_nil _ _)]
    split <;> rfl

/-- The current line has been read if a line end comes next or nothing does. -/
theorem rows_ended {tokens : List Token} (ended : ∀ next ∈ tokens.head?, next.endsLine = true)
    (current : List Token) : rows current tokens = row current ++ rows [] tokens := by
  cases tokens with
  | nil => rw [rows_nil, rows_nil, row_nil, List.append_nil]
  | cons next tokens =>
    have ends : next.endsLine = true := ended next rfl
    rw [rows_end ends, rows_end ends, row_nil, List.nil_append]

theorem head?_withEnds {chosen : Nat → Bool} {passed : Nat} {tokens : List Token}
    (ended : ∀ next ∈ tokens.head?, next.endsLine = true) :
    ∀ next ∈ (withEnds chosen passed tokens).head?, next.endsLine = true := by
  intro next found
  cases tokens with
  | nil => cases found
  | cons token tokens =>
    rw [withEnds] at found
    cases added : chosenIn chosen passed token.span.start with
    | nil =>
      rw [added] at found
      exact ended next found
    | cons byte bytes =>
      rw [added] at found
      cases found
      rfl

theorem rows_newEnds_end {token : Token} (ends : token.endsLine = true) (bytes : List Nat)
    (current tokens : List Token) :
    rows current (bytes.map newEnd ++ token :: tokens) = row current ++ rows [] tokens := by
  rw [rows_newEnds, rows_end ends, rows_end ends]
  split <;> rfl

section Cuts

variable {chosen : Nat → Bool}

/-- Tokens without new line ends between them are one line. -/
theorem splitBy_chain {tokens : List Token} (chain : tokens.IsChain (joined chosen · ·)) :
    tokens.splitBy (joined chosen) = row tokens := by
  by_cases empty : tokens = []
  · subst empty
    rfl
  · rw [row_of_ne_nil empty, List.splitBy_of_isChain empty chain]

theorem splitBy_row {tokens : List Token} (chain : tokens.IsChain (joined chosen · ·)) :
    (row tokens).flatMap (·.splitBy (joined chosen)) = row tokens := by
  by_cases empty : tokens = []
  · subst empty
    rfl
  · rw [row_of_ne_nil empty, List.flatMap_singleton, splitBy_chain chain, row_of_ne_nil empty]

/-- A line is cut before a token if a new line end comes before it. -/
theorem rows_cut {current : List Token} {token : Token}
    (chain : current.IsChain (joined chosen · ·))
    (apart : ∀ previous ∈ current.getLast?, joined chosen previous token = false)
    (tokens : List Token) :
    (rows (current ++ [token]) tokens).flatMap (·.splitBy (joined chosen)) =
      row current ++ (rows [token] tokens).flatMap (·.splitBy (joined chosen)) := by
  obtain ⟨first, later, same⟩ := exists_rows tokens
  have filled : current ++ token :: first ≠ [] := by simp
  rw [same, same, List.append_assoc, List.singleton_append, row_of_ne_nil filled,
    row_of_ne_nil (List.cons_ne_nil _ _), List.singleton_append, List.singleton_append,
    List.flatMap_cons, List.flatMap_cons, List.splitBy_append_cons first apart,
    splitBy_chain chain, List.append_assoc]

/-- The lines of the tokens with the new line ends are those of the tokens, each of them cut. -/
theorem rows_withEnds {passed : Nat} {current tokens : List Token}
    (alone : tokens.IsChain fun token next => token.kind = .comment → next.endsLine = true)
    (chain : current.IsChain (joined chosen · ·))
    (last : ∀ token ∈ current.getLast?, token.span.stop = passed) :
    rows current (withEnds chosen passed tokens) =
      (rows current tokens).flatMap (·.splitBy (joined chosen)) := by
  -- The current line has not been cut, and its last token is the one before byte `passed`.
  induction tokens generalizing passed current with
  | nil => rw [withEnds, rows_nil, splitBy_row chain]
  | cons token tokens ih =>
    obtain ⟨next, alone⟩ := List.isChain_cons.mp alone
    rw [withEnds]
    by_cases ends : token.endsLine = true
    · rw [rows_newEnds_end ends, rows_end ends, List.flatMap_append, splitBy_row chain,
        ih alone .nil (by simp)]
    by_cases comment : token.kind = .comment
    · -- A comment is followed by a line end, so the line has been read.
      have ended : ∀ stop ∈ tokens.head?, stop.endsLine = true :=
        fun stop found => next stop found comment
      rw [rows_newEnds, rows_comment comment, rows_comment comment, rows_comment comment,
        rows_ended (head?_withEnds ended) current, ite_self, rows_ended ended,
        List.flatMap_append, splitBy_row chain, ih alone .nil (by simp)]
    · -- The token goes on with the current line, unless a new line end comes before it.
      have inside : token.endsLine = false := by simpa using ends
      rw [rows_newEnds, rows_token inside comment, rows_token inside comment,
        rows_token inside comment]
      split
      next none =>
        refine ih alone (List.isChain_append.mpr ⟨chain, .singleton _, ?_⟩) (by simp)
        intro previous found first same
        obtain rfl : token = first := by simpa using same
        rw [joined, last previous found, none]
        rfl
      next some =>
        have apart : ∀ previous ∈ current.getLast?, joined chosen previous token = false := by
          intro previous found
          rw [joined, last previous found]
          simpa using some
        rw [rows_cut chain apart, List.nil_append, ih alone (.singleton _) (by simp)]

/-- A comment is the last token of its line. -/
theorem Lexer.scan_comment (offset line : Nat) (text : List Char) :
    (scan offset line text).IsChain fun token next =>
      token.kind = .comment → next.endsLine = true := by
  induction text using text_induction generalizing offset line with
  | blanks blanks blank =>
    rw [scan_ended blank]
    exact .singleton _
  | token blanks first more after kind blank visible taken ih =>
    rw [scan_blanks blank, scan_lexeme visible taken]
    refine List.isChain_cons.mpr ⟨fun next found comment => ?_, ih _ _⟩
    obtain rfl : kind = .comment := comment
    obtain rfl := lexeme_comment_iff.mp (congrArg Prod.fst taken)
    obtain ⟨_, ended⟩ := comment_ends taken
    cases after with
    | nil =>
      rw [scan_nil] at found
      cases found
      rfl
    | cons c after =>
      obtain rfl := ended c rfl
      rw [scan_newline] at found
      cases found
      rfl

theorem rows_unlined (current tokens : List Token) :
    rows (current.map Token.unlined) (tokens.map Token.unlined) =
      (rows current tokens).map (·.map Token.unlined) := by
  have row_unlined (current : List Token) :
      row (current.map Token.unlined) = (row current).map (·.map Token.unlined) := by
    cases current <;> rfl
  induction tokens generalizing current with
  | nil => rw [List.map_nil, rows_nil, rows_nil, row_unlined]
  | cons token tokens ih =>
    rw [List.map_cons]
    by_cases ends : token.endsLine = true
    · have unlined : token.unlined.endsLine = true := ends
      rw [rows_end unlined, rows_end ends, List.map_append, row_unlined, ← ih]
      rfl
    by_cases comment : token.kind = .comment
    · have unlined : token.unlined.kind = .comment := comment
      rw [rows_comment unlined, rows_comment comment, ih]
    · have inside : token.endsLine = false := by simpa using ends
      have unlined : token.unlined.endsLine = false := inside
      rw [rows_token unlined comment, rows_token inside comment, ← ih, List.map_append]
      rfl

end Cuts

variable {chosen : Nat → Bool} {source : String}

/-- The tokens of the broken source are those of the source and new line ends. -/
theorem tokenize_broken (outside : Outside chosen (Lexer.tokenize source)) :
    (Lexer.tokenize (broken chosen source)).map Token.unlined =
      withEnds chosen 0 ((Lexer.tokenize source).map Token.unlined) := by
  rw [Lexer.tokenize, broken, String.toList_ofList]
  exact Lexer.scan_breakLines 0 1 1 source.toList outside

/-- No token becomes an error. -/
theorem readable_broken (outside : Outside chosen (Lexer.tokenize source))
    (readable : ∀ token ∈ Lexer.tokenize source, token.kind ≠ .error) :
    ∀ token ∈ Lexer.tokenize (broken chosen source), token.kind ≠ .error := by
  intro token member
  have among := List.mem_map_of_mem (f := Token.unlined) member
  rw [tokenize_broken outside] at among
  obtain known | newline := mem_withEnds among
  · obtain ⟨other, inside, same⟩ := List.mem_map.mp known
    rw [← (Token.eq_of_unlined same).1]
    exact readable other inside
  · rw [← Token.kind_unlined, newline]
    decide

/-- The lines of the broken source are those of the source, each of them cut. -/
theorem logicalLines_broken (outside : Outside chosen (Lexer.tokenize source)) :
    (logicalLines (Lexer.tokenize (broken chosen source))).map (·.unlined.tokens) =
      (logicalLines (Lexer.tokenize source)).flatMap fun line =>
        line.unlined.tokens.splitBy (joined chosen) := by
  have each (tokens : List Token) : (logicalLines tokens).map (·.unlined.tokens) =
      rows [] (tokens.map Token.unlined) := by
    have unlined := rows_unlined [] tokens
    rw [List.map_nil] at unlined
    rw [unlined, rows, logicalLinesFrom_nil, List.map_map]
    rfl
  have alone : ((Lexer.tokenize source).map Token.unlined).IsChain fun token next =>
      token.kind = .comment → next.endsLine = true :=
    (List.isChain_map _).mpr (Lexer.scan_comment 0 1 source.toList)
  rw [each, tokenize_broken outside, rows_withEnds alone .nil (by simp), ← each,
    List.flatMap_map]

end LinOpt.Lp
