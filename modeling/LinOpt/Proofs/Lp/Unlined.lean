import LinOpt.Proofs.Lp.Statements

/-!
# Tokens without their lines

The line of a token is for messages: what is read from some tokens is also read from the same tokens
on other lines, except for the lines themselves.
-/

namespace LinOpt.Lp

variable {α β : Type} [Scalar α] [Endpoint β α]

namespace Token

/-- The token without its line. -/
def unlined (token : Token) : Token := { token with line := 0 }

@[simp] theorem kind_unlined (token : Token) : token.unlined.kind = token.kind := rfl

@[simp] theorem span_unlined (token : Token) : token.unlined.span = token.span := rfl

@[simp] theorem text_unlined (token : Token) : token.unlined.text = token.text := rfl

@[simp] theorem folded_unlined (token : Token) : token.unlined.folded = token.folded := rfl

@[simp] theorem isKeyword_unlined (token : Token) (word : String) :
    token.unlined.isKeyword word = token.isKeyword word := rfl

@[simp] theorem isInfinity_unlined (token : Token) :
    token.unlined.isInfinity = token.isInfinity := rfl

@[simp] theorem isRelation_unlined (token : Token) :
    token.unlined.isRelation = token.isRelation := rfl

/-- Only the lines of the tokens may differ. -/
theorem eq_of_unlined {left right : Token} (same : left.unlined = right.unlined) :
    left.kind = right.kind ∧ left.span = right.span ∧ left.text = right.text := by
  cases left
  cases right
  simpa [unlined] using same

theorem exists_of_unlined {tokens tokens' : List Token}
    (same : tokens'.map unlined = tokens.map unlined) {token : Token} (member : token ∈ tokens') :
    ∃ other ∈ tokens, other.unlined = token.unlined :=
  List.mem_map.mp (same ▸ List.mem_map_of_mem member)

theorem spanOf_unlined (tokens : List Token) : spanOf (tokens.map unlined) = spanOf tokens := by
  rw [spanOf, spanOf, List.head?_map, List.getLast?_map]
  cases tokens.head? <;> cases tokens.getLast? <;> rfl

theorem spanOf_congr {tokens tokens' : List Token}
    (same : tokens'.map unlined = tokens.map unlined) : spanOf tokens' = spanOf tokens := by
  rw [← spanOf_unlined, same, spanOf_unlined]

end Token

/-- The line without the lines of its tokens. -/
def Line.unlined (line : Line) : Line := ⟨line.first.unlined, line.rest.map Token.unlined⟩

theorem Line.tokens_unlined (line : Line) :
    line.unlined.tokens = line.tokens.map Token.unlined := rfl

def ObjectiveStatement.unlined (statement : ObjectiveStatement α) : ObjectiveStatement α :=
  { statement with line := 0 }

def ConstraintStatement.unlined (statement : ConstraintStatement α) : ConstraintStatement α :=
  { statement with line := 0 }

def BoundStatement.unlined (statement : BoundStatement β) : BoundStatement β :=
  { statement with line := 0 }

/-- The file without the lines of its statements. -/
def File.unlined (file : File α β) : File α β :=
  ⟨file.objective.unlined, file.constraints.map ConstraintStatement.unlined,
    file.bounds.map BoundStatement.unlined⟩

/-! ### Results -/

section Results

variable {error γ δ : Type}

@[simp] theorem toOption_ok (x : γ) : (Except.ok x : Except error γ).toOption = some x := rfl

@[simp] theorem toOption_error (reason : error) :
    (Except.error reason : Except error γ).toOption = none := rfl

theorem toOption_bind (first : Except error γ) (rest : γ → Except error δ) :
    (first >>= rest).toOption = first.toOption.bind fun x => (rest x).toOption := by
  cases first <;> rfl

/-- A sequence returns what another one does, if each step does. -/
theorem toOption_bind_unlined {γ' δ' : Type} {first : Except error γ} {first' : Except error γ'}
    {rest : γ → Except error δ} {rest' : γ' → Except error δ'} {g : γ → γ'} {h : δ → δ'}
    (start : first'.toOption = first.toOption.map g)
    (next : ∀ x, (rest' (g x)).toOption = (rest x).toOption.map h) :
    (first' >>= rest').toOption = (first >>= rest).toOption.map h := by
  rw [toOption_bind, toOption_bind, start]
  cases first with
  | error => rfl
  | ok x => exact next x

theorem toOption_map (f : γ → δ) (result : Except error γ) :
    (f <$> result).toOption = result.toOption.map f := by
  cases result <;> rfl

theorem toOption_eq_some_iff {result : Except error γ} {x : γ} :
    result.toOption = some x ↔ result = .ok x := by
  cases result <;> simp

end Results

/-! ### Expressions -/

section Expressions

omit [Endpoint β α]

theorem readNumber_unlined (token : Token) :
    (readNumber token.unlined : Except ParseError α).toOption = (readNumber token).toOption := by
  unfold readNumber
  rw [Token.text_unlined]
  cases Numeral.read? token.text.toList <;> rfl

theorem readTermsFrom_unlined (line line' : Nat) (state : TermState α) (tokens : List Token) :
    (readTermsFrom line' state (tokens.map Token.unlined)).toOption =
      (readTermsFrom line state tokens).toOption := by
  fun_induction readTermsFrom line state tokens generalizing line' <;>
    simp_all [readTermsFrom, toOption_bind, toOption_map, readNumber_unlined]

theorem readRhs_unlined (line line' : Nat) (negative : Bool) (tokens : List Token) :
    (readRhs line' negative (tokens.map Token.unlined) : Except ParseError α).toOption =
      (readRhs line negative tokens).toOption := by
  fun_induction readRhs (α := α) line negative tokens generalizing line'
  case case4 token rest isNumber =>
    cases rest <;> simp_all [readRhs, toOption_bind, toOption_map, readNumber_unlined]
  all_goals simp_all [readRhs]

variable {tokens tokens' : List Token}

theorem readTerms_congr (same : tokens'.map Token.unlined = tokens.map Token.unlined)
    {terms : List (Term α)} (read : readTerms tokens = .ok terms) :
    readTerms tokens' = .ok terms := by
  rw [← toOption_eq_some_iff, readTerms, ← readTermsFrom_unlined 0 0] at read ⊢
  rwa [same]

theorem readRhs_congr (same : tokens'.map Token.unlined = tokens.map Token.unlined)
    {line : Nat} {negative : Bool} {rhs : α} (read : readRhs line negative tokens = .ok rhs)
    (line' : Nat) : readRhs line' negative tokens' = .ok rhs := by
  rw [← toOption_eq_some_iff, ← readRhs_unlined _ 0] at read ⊢
  rwa [same]

end Expressions

/-! ### Bounds -/

def Operand.unlined : Operand β → Operand β
  | .value x => .value x
  | .name token => .name token.unlined

def OperandReading.unlined (reading : OperandReading β) : OperandReading β :=
  ⟨reading.operand.unlined, reading.sign?.map Token.unlined, reading.token.unlined,
    reading.rest.map Token.unlined⟩

theorem readOperand_unlined (line line' : Nat) (negative : Bool) (sign? : Option Token)
    (tokens : List Token) :
    (readOperand line' negative (sign?.map Token.unlined) (tokens.map Token.unlined) :
        Except ParseError (OperandReading β)).toOption =
      (readOperand line negative sign? tokens).toOption.map OperandReading.unlined := by
  -- The signs that have been read are carried along.
  induction tokens generalizing negative sign? with
  | nil => rfl
  | cons token rest ih =>
    rw [List.map_cons, readOperand, readOperand, Token.kind_unlined, Token.isInfinity_unlined]
    cases token.kind with
    | plus => exact ih negative (some token)
    | minus => exact ih (!negative) (some token)
    | number =>
      dsimp only
      rw [toOption_bind, toOption_bind, readNumber_unlined]
      cases (readNumber token : Except ParseError α).toOption <;> rfl
    | ident => cases token.isInfinity <;> cases sign? <;> rfl
    | _ => rfl

theorem readRelation_unlined (line line' : Nat) (tokens : List Token) :
    (readRelation line' (tokens.map Token.unlined)).toOption =
      (readRelation line tokens).toOption.map fun (sense, relation, rest) =>
        (sense, relation.unlined, rest.map Token.unlined) := by
  cases tokens with
  | nil => rfl
  | cons token rest => cases kind : token.kind.sense? <;> simp [readRelation, kind]

theorem readBoundKind_unlined (line : Line) :
    (readBoundKind line.unlined : Except ParseError (String × BoundKind β × List Token)).toOption =
      (readBoundKind line).toOption.map fun (name, kind, rest) =>
        (name, kind, rest.map Token.unlined) := by
  have operand (tokens : List Token) :
      (readOperand line.unlined.first.line false none (tokens.map Token.unlined) :
          Except ParseError (OperandReading β)).toOption =
        (readOperand line.first.line false none tokens).toOption.map OperandReading.unlined :=
    readOperand_unlined _ _ false none tokens
  have relation := readRelation_unlined line.first.line line.unlined.first.line
  refine toOption_bind_unlined (operand line.tokens) fun left =>
    toOption_bind_unlined (relation left.rest) ?_
  rintro ⟨sense, related, rest⟩
  refine toOption_bind_unlined (operand rest) fun right => ?_
  obtain ⟨value | name, leftSign?, leftToken, leftRest⟩ := left <;>
    obtain ⟨value' | name', rightSign?, rightToken, rest⟩ := right
  case value.name =>
    cases rest with
    | nil => rfl
    | cons next rest =>
      refine toOption_bind_unlined (relation (next :: rest)) ?_
      rintro ⟨sense', related', rest⟩
      refine toOption_bind_unlined (operand rest) fun last => ?_
      obtain ⟨second | other, sign?, token, rest⟩ := last
      · cases between : BoundKind.between? value sense sense' second <;>
          simp [OperandReading.unlined, Operand.unlined, between, pure, Except.pure]
      · rfl
  all_goals rfl

theorem freeName?_unlined (line : Line) : freeName? line.unlined = freeName? line := by
  obtain ⟨first, rest⟩ := line
  match rest with
  | [] | [_] | _ :: _ :: _ => rfl

theorem readBound_unlined (line : Line) :
    (readBound line.unlined : Except ParseError (BoundStatement β)).toOption =
      (readBound line).toOption.map BoundStatement.unlined := by
  have mark : (line.tokens.map Token.unlined).find? (·.kind == .colon) =
      (line.tokens.find? (·.kind == .colon)).map Token.unlined := List.find?_map
  unfold readBound
  rw [freeName?_unlined, Line.tokens_unlined, mark, Token.spanOf_unlined]
  cases line.tokens.find? (·.kind == .colon) with
  | some colon => rfl
  | none =>
    cases freeName? line with
    | some name => rfl
    | none =>
      refine toOption_bind_unlined (readBoundKind_unlined line) ?_
      rintro ⟨name, kind, rest⟩
      cases rest <;> rfl

/-- A line has the bound that the same tokens have on another line. -/
theorem readBound_congr {line line' : Line} (same : line'.unlined = line.unlined)
    {bound : BoundStatement β} (read : readBound line = .ok bound) :
    ∃ bound', readBound line' = .ok bound' ∧ bound'.unlined = bound.unlined := by
  have alike := readBound_unlined (β := β) line'
  rw [same, readBound_unlined, read] at alike
  obtain ⟨bound', read', same'⟩ := Option.map_eq_some_iff.mp alike.symm
  exact ⟨bound', toOption_eq_some_iff.mp read', same'⟩

end LinOpt.Lp
