import LinOpt.Proofs.Lp.Sections
import LinOpt.Proofs.Lp.Written

/-!
# Written lines are recognized

A line with the lexemes of a written statement is read as this statement: terms, numbers and bounds
come back as they were written, and no line is taken for a keyword that is none.
-/

namespace LinOpt.Lp

open Lexer

theorem exists_of_map_lexeme_cons {tokens : List Token} {lexeme : Lexeme} {lexemes : List Lexeme}
    (same : tokens.map Token.lexeme = lexeme :: lexemes) : ∃ token rest, tokens = token :: rest ∧
      token.kind = lexeme.kind ∧ token.text = lexeme.text ∧ rest.map Token.lexeme = lexemes := by
  obtain ⟨token, rest, rfl, first, others⟩ := List.map_eq_cons_iff.mp same
  exact ⟨token, rest, rfl, congrArg Lexeme.kind first, congrArg Lexeme.text first, others⟩

theorem exists_of_lexemes_cons {line : Line} {lexeme : Lexeme} {lexemes : List Lexeme}
    (same : line.lexemes = lexeme :: lexemes) : ∃ first rest, line = ⟨first, rest⟩ ∧
      first.kind = lexeme.kind ∧ first.text = lexeme.text ∧ rest.map Token.lexeme = lexemes := by
  obtain ⟨first, rest⟩ := line
  obtain ⟨_, _, all, spelled⟩ := exists_of_map_lexeme_cons same
  cases all
  exact ⟨first, rest, rfl, spelled⟩

theorem map_toLower {word : String} (small : word.toList.map Char.toLower = word.toList) :
    word.map Char.toLower = word :=
  String.toList_inj.mp (by rw [String.toList_map, small])

/-! ### Numbers -/

theorem ReadsBack.readNumber {x : Float} (back : ReadsBack x) {token : Token}
    (text : token.text = Layout.plain.text x.abs) : readNumber token = .ok x.abs := by
  obtain ⟨numeral, read, value⟩ := back.exists_read?
  simp [Lp.readNumber, text, read, value]

theorem readRhs_value {x : Float} (finite : x.isFinite = true) (back : ReadsBack x) (line : Nat)
    {tokens : List Token} (same : tokens.map Token.lexeme = valueLexemes x) :
    readRhs line false tokens = .ok x := by
  obtain ⟨negative, magnitude, value⟩ := float_isFinite_iff.mp finite
  have magnitude_ {line : Nat} {tokens : List Token}
      (same : tokens.map Token.lexeme = [⟨.number, Layout.plain.text x.abs⟩]) :
      readRhs line negative tokens = .ok x := by
    obtain ⟨token, rest, rfl, kind, text, nothing⟩ := exists_of_map_lexeme_cons same
    obtain rfl := List.map_eq_nil_iff.mp nothing
    simp [readRhs, kind, back.readNumber text, signed_abs value]
  rw [valueLexemes, value] at same
  cases negative with
  | false => exact magnitude_ same
  | true =>
    obtain ⟨sign, rest, rfl, kind, _, others⟩ := exists_of_map_lexeme_cons same
    simp only [readRhs, kind]
    exact magnitude_ others

/-! ### Terms -/

/-- A term without its place. -/
def Term.pair {α : Type} (term : Term α) : α × String := (term.coefficient, term.name)

/-- What the terms of an expression have to be, so that they can be read back. -/
def Legible (term : Float × String) : Prop :=
  term.1.isFinite = true ∧ (term.1 == 0) = false ∧ ReadsBack term.1

theorem Legible.signed_abs {term : Float × String} (legible : Legible term) :
    Scalar.signed (decide (term.1 < 0)) term.1.abs = term.1 := by
  obtain ⟨negative, magnitude, value⟩ := float_isFinite_iff.mp legible.1
  rw [← negative_eq_decide value legible.2.1]
  exact LinOpt.signed_abs value

/-- After its sign, a term is read as it was written. -/
theorem readTermsFrom_factor {term : Float × String} (legible : Legible term) (line : Nat)
    (signed : Bool) {tokens : List Token} {lexemes : List Lexeme}
    (same : tokens.map Token.lexeme = factorLexemes term ++ lexemes) :
    ∃ span line' rest, rest.map Token.lexeme = lexemes ∧
      readTermsFrom line (.operand (decide (term.1 < 0)) signed) tokens =
        (⟨term.1, term.2, span⟩ :: ·) <$> readTermsFrom line' .separator rest := by
  unfold factorLexemes at same
  split at same
  next one =>
    obtain ⟨token, rest, rfl, kind, text, others⟩ := exists_of_map_lexeme_cons same
    have one : term.1.abs = 1 := (float_beq_iff_eq (by decide) _).mp one
    have value := legible.signed_abs
    rw [one] at value
    have read : readTermsFrom line (.operand (decide (term.1 < 0)) signed) (token :: rest) =
        (⟨term.1, term.2, token.span⟩ :: ·) <$> readTermsFrom token.line .separator rest := by
      simp [readTermsFrom, kind, text, value]
    exact ⟨token.span, token.line, rest, others, read⟩
  next =>
    obtain ⟨number, rest, rfl, numeric, digits, others⟩ := exists_of_map_lexeme_cons same
    obtain ⟨token, rest, rfl, kind, text, others⟩ := exists_of_map_lexeme_cons others
    have read : readTermsFrom line (.operand (decide (term.1 < 0)) signed)
        (number :: token :: rest) = (⟨term.1, term.2, number.span.merge token.span⟩ :: ·) <$>
          readTermsFrom token.line .separator rest := by
      simp [readTermsFrom, numeric, kind, text, legible.2.2.readNumber digits, ok_bind,
        legible.signed_abs]
    exact ⟨_, token.line, rest, others, read⟩

theorem readTermsFrom_later {terms : List (Float × String)} (legible : ∀ term ∈ terms, Legible term)
    (line : Nat) {tokens : List Token}
    (same : tokens.map Token.lexeme = terms.flatMap laterLexemes) :
    ∃ read, readTermsFrom line .separator tokens = .ok read ∧ read.map Term.pair = terms := by
  induction terms generalizing line tokens with
  | nil =>
    obtain rfl := List.map_eq_nil_iff.mp same
    exact ⟨[], rfl, rfl⟩
  | cons term terms ih =>
    rw [List.forall_mem_cons] at legible
    rw [List.flatMap_cons, laterLexemes, List.cons_append] at same
    obtain ⟨sign, rest, rfl, kind, _, others⟩ := exists_of_map_lexeme_cons same
    obtain ⟨span, line', rest', others, first⟩ :=
      readTermsFrom_factor legible.1 sign.line true others
    obtain ⟨later, readLater, pairs⟩ := ih legible.2 line' others
    refine ⟨⟨term.1, term.2, span⟩ :: later, ?_, by rw [List.map_cons, pairs]; rfl⟩
    rw [readLater] at first
    by_cases negative : term.1 < 0
    · simp_all [readTermsFrom]
    · simp_all [readTermsFrom]

theorem readTerms_expression {terms : List (Float × String)}
    (legible : ∀ term ∈ terms, Legible term) {tokens : List Token}
    (same : tokens.map Token.lexeme = expressionLexemes terms) :
    ∃ read, readTerms tokens = .ok read ∧ read.map Term.pair = terms := by
  cases terms with
  | nil =>
    obtain rfl := List.map_eq_nil_iff.mp same
    exact ⟨[], rfl, rfl⟩
  | cons term terms =>
    rw [List.forall_mem_cons] at legible
    -- A sign before the first term changes the state of the reader, and the term follows.
    have opened : ∃ line signed rest, rest.map Token.lexeme =
        factorLexemes term ++ terms.flatMap laterLexemes ∧ readTerms tokens =
          readTermsFrom line (.operand (decide (term.1 < 0)) signed : TermState Float) rest := by
      rw [expressionLexemes, List.append_assoc] at same
      by_cases negative : term.1 < 0
      · rw [decide_eq_true negative] at same ⊢
        obtain ⟨sign, rest, rfl, kind, _, others⟩ := exists_of_map_lexeme_cons same
        exact ⟨sign.line, true, rest, others, by simp [readTerms, readTermsFrom, kind]⟩
      · rw [decide_eq_false negative] at same ⊢
        exact ⟨0, false, tokens, same, rfl⟩
    obtain ⟨line, signed, rest, others, read⟩ := opened
    obtain ⟨span, line', rest', others, first⟩ := readTermsFrom_factor legible.1 line signed others
    obtain ⟨later, readLater, pairs⟩ := readTermsFrom_later legible.2 line' others
    refine ⟨⟨term.1, term.2, span⟩ :: later, ?_, by rw [List.map_cons, pairs]; rfl⟩
    rw [read, first, readLater]
    rfl

/-! ### Bounds -/

theorem readOperand_value {x : Float} (readable : Readable x) {tokens : List Token}
    {lexemes : List Lexeme} (same : tokens.map Token.lexeme = valueLexemes x ++ lexemes) :
    ∃ sign? token rest, rest.map Token.lexeme = lexemes ∧
      ∀ line, readOperand line false none tokens = .ok ⟨.value x, sign?, token, rest⟩ := by
  -- The sign comes first, if there is one, and then what it belongs to.
  have signed {negative : Bool} {word : Lexeme}
      (same : tokens.map Token.lexeme = minusIf negative ++ word :: lexemes)
      (other : word.kind ≠ .minus) (operand : ∀ sign? token rest, token.lexeme = word →
        ∀ line, readOperand line negative sign? (token :: rest) =
          .ok ⟨.value x, sign?, token, rest⟩) :
      ∃ sign? token rest, rest.map Token.lexeme = lexemes ∧
        ∀ line, readOperand line false none tokens = .ok ⟨.value x, sign?, token, rest⟩ := by
    cases negative with
    | false =>
      obtain ⟨token, rest, rfl, first, others⟩ := List.map_eq_cons_iff.mp same
      exact ⟨none, token, rest, others, operand none token rest first⟩
    | true =>
      obtain ⟨sign, _, rfl, kind, _, others⟩ := exists_of_map_lexeme_cons same
      obtain ⟨token, rest, rfl, first, others⟩ := List.map_eq_cons_iff.mp others
      have read (line : Nat) : readOperand line false none (sign :: token :: rest) =
          .ok ⟨.value x, some sign, token, rest⟩ := by
        rw [readOperand, kind]
        exact operand (some sign) token rest first line
      exact ⟨some sign, token, rest, others, read⟩
  unfold valueLexemes at same
  cases value : FloatValue.ofFloat x with
  | nan => exact absurd (float_isNaN_of_nan value) (by simpa using readable.1)
  | infinite negative =>
    rw [value, List.append_assoc] at same
    apply signed same (by simp)
    rintro sign? token rest first line
    have kind : token.kind = .ident := congrArg Lexeme.kind first
    have infinity : token.isInfinity = true := by
      have text : token.text = "inf" := congrArg Lexeme.text first
      simp [Token.isInfinity, Token.isKeyword, Token.folded, kind, text]
    rw [readOperand, kind]
    simp [infinity, infinity_eq value]
  | finite negative magnitude =>
    rw [value, List.append_assoc] at same
    apply signed same (by simp)
    rintro sign? token rest first line
    have kind : token.kind = .number := congrArg Lexeme.kind first
    have text : token.text = Layout.plain.text x.abs := congrArg Lexeme.text first
    have back := readable.2 (float_isFinite_iff.mpr ⟨negative, magnitude, value⟩)
    rw [readOperand, kind]
    simp only [back.readNumber text, ok_bind, signed_abs value]
    rfl

theorem isInfinity_of_unreserved {token : Token} (unreserved : ¬ IsReserved token.text) :
    token.isInfinity = false := by
  have inf : "inf".map Char.toLower = "inf" := map_toLower rfl
  have infinity : "infinity".map Char.toLower = "infinity" := map_toLower rfl
  simp only [IsReserved, not_or] at unreserved
  simp [Token.isInfinity, Token.isKeyword, Token.folded, inf, infinity, unreserved]

theorem readOperand_name {token : Token} (word : token.kind = .ident)
    (unreserved : ¬ IsReserved token.text) (line : Nat) (rest : List Token) :
    (readOperand line false none (token :: rest) : Except ParseError (OperandReading Float)) =
      .ok ⟨.name token, none, token, rest⟩ := by
  simp [readOperand, word, isInfinity_of_unreserved unreserved]

/-- A statement says what a bound says that has been written. -/
structure BoundStatement.Repeats (statement : BoundStatement Float)
    (bounded : String × Bounds Float) : Prop where
  name : statement.name = bounded.1
  apply : ∀ earlier, statement.kind.apply earlier =
    if bounded.2.isFree then .free else bounded.2

section Bound

variable {bounded : String × Bounds Float} {line : Line}

theorem readBound_free (free : bounded.2.isFree = true)
    (same : line.lexemes = boundLexemes bounded) :
    ∃ statement : BoundStatement Float, readBound line = .ok statement ∧
      statement.Repeats bounded := by
  rw [boundLexemes, if_pos free] at same
  obtain ⟨name, _, rfl, named, text, others⟩ := exists_of_lexemes_cons same
  obtain ⟨word, _, rfl, marked, spelled, nothing⟩ := exists_of_map_lexeme_cons others
  obtain rfl := List.map_eq_nil_iff.mp nothing
  refine ⟨⟨name.text, .free, name.line, Token.spanOf [name, word]⟩, ?_, text, fun earlier => ?_⟩
  · simp [readBound, freeName?, Line.tokens, named, marked, spelled, Token.isKeyword, Token.folded]
  · rw [if_pos free]
    rfl

theorem readBoundKind_range (bound : bounded.2.isFree = false)
    (unreserved : ¬ IsReserved bounded.1) (lower : Readable bounded.2.lower)
    (upper : Readable bounded.2.upper) (same : line.lexemes = boundLexemes bounded) :
    readBoundKind line = .ok (bounded.1, .range bounded.2.lower bounded.2.upper, []) := by
  rw [boundLexemes, bound, if_neg Bool.false_ne_true] at same
  obtain ⟨_, _, _, others, readLower⟩ := readOperand_value lower same
  obtain ⟨first, _, rfl, firstKind, _, others⟩ := exists_of_map_lexeme_cons others
  obtain ⟨name, _, rfl, named, text, others⟩ := exists_of_map_lexeme_cons others
  obtain ⟨second, _, rfl, secondKind, _, others⟩ := exists_of_map_lexeme_cons others
  rw [← List.append_nil (valueLexemes _)] at others
  obtain ⟨_, _, _, nothing, readUpper⟩ := readOperand_value upper others
  obtain rfl := List.map_eq_nil_iff.mp nothing
  have readName := readOperand_name named (by rwa [text])
  have le : TokenKind.le.sense? = some .le := rfl
  simp only [readBoundKind, readLower, readRelation, firstKind, readName, secondKind, readUpper, le,
    ok_bind]
  simp [BoundKind.between?, pure, Except.pure, text]

theorem readBound_range (bound : bounded.2.isFree = false)
    (unreserved : ¬ IsReserved bounded.1) (lower : Readable bounded.2.lower)
    (upper : Readable bounded.2.upper) (same : line.lexemes = boundLexemes bounded) :
    ∃ statement : BoundStatement Float, readBound line = .ok statement ∧
      statement.Repeats bounded := by
  have kind := readBoundKind_range bound unreserved lower upper same
  rw [boundLexemes, bound, if_neg Bool.false_ne_true] at same
  have plain : line.tokens.find? (·.kind == .colon) = none := by
    have other (x : Float) : ∀ lexeme ∈ valueLexemes x, lexeme.kind ≠ .colon := by
      intro lexeme member
      obtain kind | kind | kind := kind_valueLexemes x lexeme member <;> simp [kind]
    have lexemes : ∀ lexeme ∈ line.lexemes, lexeme.kind ≠ .colon := by
      simp only [same, List.forall_mem_append, List.forall_mem_cons]
      exact ⟨other _, by simp, by simp, by simp, other _⟩
    simp only [List.find?_eq_none, beq_iff_eq]
    exact fun token member => lexemes _ (List.mem_map_of_mem member)
  have long : freeName? line = none := by
    have length : line.rest.length + 1 = (valueLexemes bounded.2.lower).length +
        ((valueLexemes bounded.2.upper).length + 3) := by
      simpa [Line.lexemes, Line.tokens] using congrArg List.length same
    unfold freeName?
    split
    next word rest =>
      rw [rest, List.length_singleton] at length
      omega
    next => rfl
  refine ⟨⟨bounded.1, .range bounded.2.lower bounded.2.upper, line.first.line,
    Token.spanOf line.tokens⟩, ?_, rfl, fun earlier => ?_⟩
  · simp [readBound, plain, long, kind, ok_bind, pure, Except.pure]
  · rw [bound, if_neg Bool.false_ne_true]
    rfl

/-- The line of a bound is read as the bound. -/
theorem readBound_written (unreserved : ¬ IsReserved bounded.1)
    (lower : Readable bounded.2.lower) (upper : Readable bounded.2.upper)
    (same : line.lexemes = boundLexemes bounded) :
    ∃ statement : BoundStatement Float, readBound line = .ok statement ∧
      statement.Repeats bounded := by
  cases bound : bounded.2.isFree with
  | true => exact readBound_free bound same
  | false => exact readBound_range bound unreserved lower upper same

end Bound

/-! ### Objectives and rows -/

/-- A statement says what a row says that has been written. -/
structure ConstraintStatement.Repeats (statement : ConstraintStatement Float)
    (names : List String) (row : Constraint Float) : Prop where
  name : statement.name? = some row.name
  terms : statement.terms.map Term.pair = nonzeroTerms row.coefficients names
  sense : statement.sense = row.sense
  rhs : statement.rhs = row.rhs

theorem objectiveReads_written {terms : List (Float × String)}
    (legible : ∀ term ∈ terms, Legible term) {line : Line}
    (same : line.lexemes = expressionLexemes terms) (keyword : Token) (goal : Goal) :
    ∃ statement : ObjectiveStatement Float, ObjectiveReads keyword goal [line.tokens] statement ∧
      statement.goal = goal ∧ statement.terms.map Term.pair = terms := by
  obtain ⟨read, readTerms, pairs⟩ := readTerms_expression legible same
  have plain := colonFree_of_readTerms readTerms
  rw [← @List.flatten_singleton _ line.tokens] at readTerms plain
  exact ⟨_, .intro (.unnamed [line.tokens]) plain readTerms, rfl, pairs⟩

theorem constraintReads_written {names : List String} {row : Constraint Float}
    (legible : ∀ term ∈ nonzeroTerms row.coefficients names, Legible term)
    (finite : row.rhs.isFinite = true) (back : ReadsBack row.rhs) {line : Line}
    (same : line.lexemes = constraintLexemes names row) :
    ∃ statement : ConstraintStatement Float, ConstraintReads [line] statement ∧
      statement.Repeats names row := by
  obtain ⟨name, _, rfl, word, text, others⟩ := exists_of_lexemes_cons same
  obtain ⟨colon, _, rfl, mark, _, others⟩ := exists_of_map_lexeme_cons others
  obtain ⟨left, _, rfl, expression, others⟩ := List.map_eq_append_iff.mp others
  obtain ⟨relation, right, rfl, compares, _, value⟩ := exists_of_map_lexeme_cons others
  obtain ⟨terms, readLeft, pairs⟩ := readTerms_expression legible expression
  have readRight := readRhs_value finite back relation.line value
  have sense : relation.kind.sense? = some row.sense := by
    rw [compares]
    cases row.sense <;> rfl
  have firstRelation (token) (member : token ∈ left) : token.isRelation = false :=
    (plain_of_readTermsFrom readLeft token member).2
  have extended : Progress.extendConstraint none ⟨name, colon :: (left ++ relation :: right)⟩ =
      .ok ⟨some name.text, name.line, left ++ relation :: right⟩ :=
    extendConstraint_none_iff.mpr
      ⟨some ⟨name.text, colon⟩, _, splitLabel_eq_some_iff.mpr ⟨name, rfl, word, mark, rfl⟩, rfl⟩
  obtain ⟨taken, waits⟩ := taken_concat_iff.mpr ⟨none, rfl, extended⟩
  have complete := (@OpenConstraint.isComplete_iff ⟨some name.text, name.line, _⟩).mpr
    ⟨left, relation, right, rfl, firstRelation, TokenKind.isRelation_iff.mpr ⟨_, sense⟩,
      exists_number_of_readRhs readRight⟩
  obtain ⟨statement, closed, repeats⟩ : ∃ statement : ConstraintStatement Float,
      OpenConstraint.close ⟨some name.text, name.line, left ++ relation :: right⟩ = .ok statement ∧
        statement.Repeats names row := by
    refine ⟨_, OpenConstraint.close_eq_ok_iff.mpr
      ⟨left, relation, right, _, _, _, rfl, sense, firstRelation, readLeft, readRight, rfl⟩, ?_⟩
    exact ⟨congrArg some text, pairs, rfl, rfl⟩
  exact ⟨statement, constraintReads_concat_iff.mpr ⟨_, taken, waits, complete, closed⟩, repeats⟩

/-! ### Markers -/

theorem ofLine?_of_word {line : Line} {word : String} {keyword : Keyword}
    (same : line.lexemes = [⟨.ident, word⟩]) (small : word.toList.map Char.toLower = word.toList)
    (known : Keyword.ofWord? word = some keyword) :
    Keyword.ofLine? line.tokens = some (keyword, []) := by
  obtain ⟨first, _, rfl, kind, text, nothing⟩ := exists_of_lexemes_cons same
  obtain rfl := List.map_eq_nil_iff.mp nothing
  simp [Keyword.ofLine?, Line.tokens, Token.folded, kind, text, map_toLower small, known]

theorem marker?_of_word {line : Line} {word : String} {keyword : Keyword}
    (same : line.lexemes = [⟨.ident, word⟩]) (small : word.toList.map Char.toLower = word.toList)
    (known : Keyword.ofWord? word = some keyword) : line.marker? = some keyword := by
  rw [Line.marker?, Keyword.ofWholeLine?, ofLine?_of_word same small known]

theorem marker?_subjectTo {line : Line}
    (same : line.lexemes = [⟨.ident, "subject"⟩, ⟨.ident, "to"⟩]) :
    line.marker? = some .subjectTo := by
  obtain ⟨first, _, rfl, kind, text, others⟩ := exists_of_lexemes_cons same
  obtain ⟨second, _, rfl, secondKind, secondText, nothing⟩ := exists_of_map_lexeme_cons others
  obtain rfl := List.map_eq_nil_iff.mp nothing
  have subject : "subject".map Char.toLower = "subject" := map_toLower rfl
  have unknown : Keyword.ofWord? "subject" = none := by decide
  simp [Line.marker?, Keyword.ofWholeLine?, Keyword.ofLine?, Line.tokens, Token.isKeyword,
    Token.folded, kind, text, secondKind, secondText, subject, unknown]

/-- A line is no marker if it does not start with a word, or if that word is no keyword by itself
and the next one makes none of it. -/
theorem marker?_eq_none {line : Line} {first : Lexeme} {rest : List Lexeme}
    (same : line.lexemes = first :: rest) (other : first.kind = .ident →
      (Keyword.ofWord? (first.text.map Char.toLower) = none ∨ rest ≠ []) ∧
        ∀ second ∈ rest.head?, second.kind = .ident →
          second.text.map Char.toLower ≠ "to" ∧ second.text.map Char.toLower ≠ "that") :
    line.marker? = none := by
  obtain ⟨token, tokens, rfl, kind, text, rfl⟩ := exists_of_lexemes_cons same
  rw [← kind, ← text] at other
  by_cases word : token.kind = .ident
  · obtain ⟨alone, followed⟩ := other word
    have to_ : "to".map Char.toLower = "to" := map_toLower rfl
    have that : "that".map Char.toLower = "that" := map_toLower rfl
    cases tokens with
    | nil =>
      have unknown : Keyword.ofWord? token.folded = none := by
        simpa [Token.folded] using alone
      simp [Line.marker?, Keyword.ofWholeLine?, Keyword.ofLine?, Line.tokens, unknown]
    | cons second tokens =>
      have next := followed second.lexeme rfl
      have separate : second.isKeyword "to" = false ∧ second.isKeyword "that" = false := by
        simp [Token.isKeyword, Token.folded, to_, that]
        exact ⟨fun kind => (next kind).1, fun kind => (next kind).2⟩
      cases known : Keyword.ofWord? token.folded <;>
        simp [Line.marker?, Keyword.ofWholeLine?, Keyword.ofLine?, Line.tokens, known, separate]
  · simp [Line.marker?, Keyword.ofWholeLine?, Keyword.ofLine?, Line.tokens, word]

theorem ofWord?_of_unreserved {word : String} (unreserved : ¬ IsReserved word) :
    Keyword.ofWord? (word.map Char.toLower) = none := by
  simp only [IsReserved, not_or] at unreserved
  simpa using unreserved.1

theorem marker?_expression {terms : List (Float × String)} (some : terms ≠ [])
    (unreserved : ∀ term ∈ terms, ¬ IsReserved term.2) {line : Line}
    (same : line.lexemes = expressionLexemes terms) : line.marker? = none := by
  obtain ⟨term, rest, rfl⟩ := List.exists_cons_of_ne_nil some
  have unknown := ofWord?_of_unreserved (unreserved term List.mem_cons_self)
  have signed : ∀ second ∈ (rest.flatMap laterLexemes).head?, second.kind ≠ .ident := by
    cases rest with
    | nil => simp
    | cons term rest =>
      rw [List.flatMap_cons, laterLexemes]
      split <;> simp
  rw [expressionLexemes] at same
  by_cases negative : term.1 < 0
  · rw [decide_eq_true negative] at same
    exact marker?_eq_none same (by simp)
  · rw [decide_eq_false negative, factorLexemes] at same
    by_cases one : (term.1.abs == 1) = true
    · rw [if_pos one] at same
      apply marker?_eq_none same
      exact fun _ => ⟨.inl unknown, fun second first kind => absurd kind (signed second first)⟩
    · rw [if_neg one] at same
      exact marker?_eq_none same (by simp)

theorem marker?_constraint {names : List String} {row : Constraint Float} {line : Line}
    (same : line.lexemes = constraintLexemes names row) : line.marker? = none :=
  marker?_eq_none same (by simp)

theorem marker?_bound {bounded : String × Bounds Float} (unreserved : ¬ IsReserved bounded.1)
    {line : Line} (same : line.lexemes = boundLexemes bounded) : line.marker? = none := by
  rw [boundLexemes] at same
  split at same
  · have free : "free".map Char.toLower = "free" := map_toLower rfl
    apply marker?_eq_none same
    simp [ofWord?_of_unreserved unreserved, free]
  · unfold valueLexemes at same
    cases value : FloatValue.ofFloat bounded.2.lower with
    | nan =>
      rw [value] at same
      exact marker?_eq_none same (by simp)
    | infinite negative | finite negative =>
      rw [value] at same
      cases negative <;> exact marker?_eq_none same (by simp)

/-! ### Files -/

/-- A file says what a problem says that has been written. -/
structure File.Repeats (file : File Float Float) (problem : Problem Float Float) : Prop where
  goal : file.objective.goal = problem.objective.goal
  terms : file.objective.terms.map Term.pair =
    nonzeroTerms problem.objective.coefficients problem.names
  constraints : List.Forall₂ (fun statement row => statement.Repeats problem.names row)
    file.constraints problem.constraints
  bounds : List.Forall₂ BoundStatement.Repeats file.bounds problem.bounded

/-- Entries that are related through something in between are related through a list of these. -/
theorem exists_forall₂ {ι κ μ : Type} {R : ι → κ → Prop} {S : ι → μ → Prop} {T : μ → κ → Prop}
    {xs : List ι} {ys : List κ} (related : List.Forall₂ R xs ys)
    (step : ∀ x, ∀ y ∈ ys, R x y → ∃ z, S x z ∧ T z y) :
    ∃ zs, List.Forall₂ S xs zs ∧ List.Forall₂ T zs ys := by
  induction related with
  | nil => exact ⟨[], .nil, .nil⟩
  | @cons x y xs ys first _ ih =>
    obtain ⟨z, left, right⟩ := step x y List.mem_cons_self first
    obtain ⟨zs, lefts, rights⟩ := ih fun x y member => step x y (List.mem_cons_of_mem _ member)
    exact ⟨z :: zs, .cons left lefts, .cons right rights⟩

theorem map_eq_map_iff {ι κ μ : Type} {f : ι → μ} {g : κ → μ} {xs : List ι} {ys : List κ} :
    xs.map f = ys.map g ↔ List.Forall₂ (fun x y => f x = g y) xs ys := by
  rw [← List.forall₂_eq_eq_eq, List.forall₂_map_left_iff, List.forall₂_map_right_iff]

/-- The last lines of a problem are the bounds and the end of a file. -/
theorem exists_ending {bounded : List (String × Bounds Float)}
    (unreserved : ∀ bound ∈ bounded, ¬ IsReserved bound.1)
    (readable : ∀ bound ∈ bounded, Readable bound.2.lower ∧ Readable bound.2.upper)
    {header limits : List Line} {closing : Line}
    (marker : header.map Line.lexemes = if bounded.isEmpty then [] else [[⟨.ident, "bounds"⟩]])
    (bounds : limits.map Line.lexemes = bounded.map boundLexemes)
    (closed : closing.lexemes = [⟨.ident, "end"⟩]) :
    ∃ ending : Ending, ∃ statements, ending.lines = header ++ limits ++ [closing] ∧
      ending.Reads statements ∧ List.Forall₂ BoundStatement.Repeats statements bounded := by
  have finish : closing.marker? = some .finish := marker?_of_word closed rfl rfl
  have related := map_eq_map_iff.mp bounds
  -- Without bounds their keyword is left out.
  cases bounded with
  | nil =>
    obtain rfl := List.map_eq_nil_iff.mp marker
    obtain rfl := List.map_eq_nil_iff.mp bounds
    exact ⟨⟨none, closing⟩, [], rfl, ⟨by simp, by simp [Ending.limits], .nil, finish⟩, .nil⟩
  | cons bound bounded =>
    obtain ⟨line, _, rfl, word, nothing⟩ := List.map_eq_cons_iff.mp marker
    obtain rfl := List.map_eq_nil_iff.mp nothing
    obtain ⟨statements, read, repeats⟩ := exists_forall₂ related fun line bound member same =>
      readBound_written (unreserved bound member) (readable bound member).1
        (readable bound member).2 same
    refine ⟨⟨some (line, limits), closing⟩, statements, rfl, ⟨?_, ?_, read, finish⟩, repeats⟩
    · rintro _ ⟨⟩
      exact marker?_of_word word rfl rfl
    · intro line member
      have among : line.lexemes ∈ limits.map Line.lexemes := List.mem_map_of_mem member
      rw [bounds] at among
      obtain ⟨bound, inside, same⟩ := List.mem_map.mp among
      exact marker?_bound (unreserved bound inside) same.symm

end LinOpt.Lp

namespace LinOpt.Problem.Printable

open Lp

variable {problem : Problem Float Float}

theorem legible (printable : problem.Printable)
    (back : ∀ x ∈ problem.numbers, x.isFinite = true → ReadsBack x) {row : List Float}
    (member : row ∈ problem.expressions) : ∀ term ∈ nonzeroTerms row problem.names,
      Legible term := by
  intro term inside
  obtain ⟨zipped, nonzero⟩ := List.mem_filter.mp inside
  have among := (List.of_mem_zip zipped).1
  have finite := printable.finite term.1
    (List.mem_append_left _ (List.mem_flatten.mpr ⟨row, member, among⟩))
  exact ⟨finite, by simpa using nonzero, (printable.written back member term inside).2⟩

theorem unreserved (printable : problem.Printable) {row : List Float} :
    ∀ term ∈ nonzeroTerms row problem.names, ¬ IsReserved term.2 := by
  intro term inside
  exact (printable.names _ (List.of_mem_zip (List.mem_filter.mp inside).1).2).2

theorem unreserved_bounded (printable : problem.Printable) :
    ∀ bounded ∈ problem.bounded, ¬ IsReserved bounded.1 := by
  intro bounded inside
  exact (printable.names _ (List.of_mem_zip (List.mem_filter.mp inside).1).1).2

/-- The lines of a problem are sections of a file that says what the problem says. -/
theorem exists_sections (printable : problem.Printable)
    (back : ∀ x ∈ problem.numbers, x.isFinite = true → ReadsBack x) {lines : List Line}
    (same : lines.map Line.lexemes = problem.lineLexemes) :
    ∃ parts : Sections, ∃ file, parts.lines = lines ∧ parts.Reads file ∧
      file.Repeats problem := by
  have costs : problem.objective.coefficients ∈ problem.expressions := List.mem_cons_self
  -- The lines are taken apart from the last to the first, and then each is read.
  obtain ⟨_, last, rfl, front, closed⟩ := List.map_eq_append_iff.mp same
  obtain ⟨_, limits, rfl, front, bounds⟩ := List.map_eq_append_iff.mp front
  obtain ⟨_, header, rfl, front, marker⟩ := List.map_eq_append_iff.mp front
  obtain ⟨start, rows, rfl, front, constraints⟩ := List.map_eq_append_iff.mp front
  obtain ⟨opening, _, rfl, goal, front⟩ := List.map_eq_cons_iff.mp front
  obtain ⟨objective, _, rfl, sum, front⟩ := List.map_eq_cons_iff.mp front
  obtain ⟨subjectTo, _, rfl, subject, nothing⟩ := List.map_eq_cons_iff.mp front
  obtain rfl := List.map_eq_nil_iff.mp nothing
  obtain ⟨closing, _, rfl, finish, nothing⟩ := List.map_eq_cons_iff.mp closed
  obtain rfl := List.map_eq_nil_iff.mp nothing
  have related := map_eq_map_iff.mp constraints
  obtain ⟨stated, read, goals, terms⟩ := objectiveReads_written (printable.legible back costs) sum
    opening.first problem.objective.goal
  obtain ⟨statements, readRows, repeats⟩ :
      ∃ statements, List.Forall₂ (fun line statement => ConstraintReads [line] statement) rows
          statements ∧ List.Forall₂ (fun statement row => statement.Repeats problem.names row)
            statements problem.constraints := by
    apply exists_forall₂ related
    intro line row member same
    have among : row.coefficients ∈ problem.expressions :=
      List.mem_cons_of_mem _ (List.mem_map_of_mem member)
    exact constraintReads_written (printable.legible back among) (printable.finite_rhs member)
      ((printable.readable_rhs back member).2 (printable.finite_rhs member)) same
  obtain ⟨ending, limits, all, ended, bounded⟩ := exists_ending printable.unreserved_bounded
    (printable.readable_bounds back) marker bounds finish
  refine ⟨⟨opening, [objective], some (subjectTo, rows.map ([·])), ending⟩,
    ⟨stated, statements, limits⟩, ?_, ?_, ⟨goals, terms, repeats, bounded⟩⟩
  · have each : (rows.map ([·])).flatten = rows := List.flatMap_singleton' rows
    simp [Sections.lines, all, each]
  · constructor
    case ending => exact ended
    case constraints => exact List.forall₂_map_left_iff.mpr readRows
    case marked =>
      rintro _ ⟨⟩
      exact marker?_subjectTo subject
    case unmarked =>
      intro line member
      obtain rfl | inside : line = objective ∨ line ∈ rows := by
        simpa [Sections.constraints] using member
      · exact marker?_expression (printable.nonzeroTerms_ne_nil costs) printable.unreserved sum
      · have among : line.lexemes ∈ rows.map Line.lexemes := List.mem_map_of_mem inside
        rw [constraints] at among
        obtain ⟨row, _, same⟩ := List.mem_map.mp among
        exact marker?_constraint same.symm
    case objective =>
      refine ⟨problem.objective.goal, [], ?_, by simpa [Line.tokens] using read⟩
      cases which : problem.objective.goal <;> rw [which] at goal <;>
        exact ofLine?_of_word goal rfl rfl

end LinOpt.Problem.Printable
