import Mathlib.Computability.Language
import LinOpt.Lp.Expression
import LinOpt.Proofs.Lp.Numbers
import LinOpt.Proofs.Results
import LinOpt.Proofs.Scalar.Negation
import LinOpt.Scalar.Rational

/-!
# What an expression is

The reader of expressions goes through the tokens once and remembers the signs and the number that
it has seen. The expressions themselves are a regular language over the kinds of tokens, and what
one of them says is read off the way it is put together: a minus in front of a summand turns its
coefficient. The reader accepts the language, and it returns what the expression says.
-/

namespace LinOpt.Lp

open Computability

/-! ### The language -/

namespace TokenKind

def sign : Language TokenKind := {[.plus], [.minus]}

/-- Any number of signs, then a name that may have a number before it. -/
def summand : Language TokenKind := sign∗ * (1 + {[.number]}) * {[.ident]}

/-- Nothing, or summands of which only the first may go without a sign. -/
def expression : Language TokenKind := 1 + summand * (sign * summand)∗

end TokenKind

/-! ### What an expression says -/

variable {α : Type} [Scalar α]

/-- The tokens of one summand and the term that they say. -/
inductive SummandReads : List Token → Term α → Prop
  | name {name : Token} (isName : name.kind = .ident) :
    SummandReads [name] ⟨1, name.text, name.span⟩
  | product {number name : Token} {numeral : Numeral} (isNumber : number.kind = .number)
    (read : Numeral.read? number.text.toList = some numeral) (isName : name.kind = .ident) :
    SummandReads [number, name] ⟨numeral.toScalar, name.text, number.span.merge name.span⟩
  | plus {sign : Token} {tokens : List Token} {term : Term α} (isPlus : sign.kind = .plus)
    (unsigned : SummandReads tokens term) : SummandReads (sign :: tokens) term
  | minus {sign : Token} {tokens : List Token} {term : Term α} (isMinus : sign.kind = .minus)
    (unsigned : SummandReads tokens term) :
    SummandReads (sign :: tokens) { term with coefficient := -term.coefficient }

/-- Summands after the first one, which have a sign each. -/
inductive LaterReads : List Token → List (Term α) → Prop
  | nil : LaterReads [] []
  | cons {sign : Token} {first rest : List Token} {term : Term α} {terms : List (Term α)}
    (isSign : sign.kind = .plus ∨ sign.kind = .minus) (reads : SummandReads (sign :: first) term)
    (later : LaterReads rest terms) : LaterReads (sign :: first ++ rest) (term :: terms)

/-- The tokens of an expression and its terms, one for each summand. -/
inductive ExpressionReads : List Token → List (Term α) → Prop
  | empty : ExpressionReads [] []
  | cons {first rest : List Token} {term : Term α} {terms : List (Term α)}
    (reads : SummandReads first term) (later : LaterReads rest terms) :
    ExpressionReads (first ++ rest) (term :: terms)

/-! ### The first token of a summand -/

namespace SummandReads

variable {token : Token} {tokens : List Token} {term : Term α}

theorem plus_iff (isPlus : token.kind = .plus) :
    SummandReads (token :: tokens) term ↔ SummandReads tokens term := by
  constructor
  · intro reads
    cases reads with
    | plus _ unsigned => exact unsigned
    | _ => simp_all
  · exact .plus isPlus

theorem minus_iff (isMinus : token.kind = .minus) :
    SummandReads (token :: tokens) term ↔ ∃ unsigned : Term α, SummandReads tokens unsigned ∧
      term = { unsigned with coefficient := -unsigned.coefficient } := by
  constructor
  · intro reads
    cases reads with
    | minus _ unsigned => exact ⟨_, unsigned, rfl⟩
    | _ => simp_all
  · rintro ⟨unsigned, reads, rfl⟩
    exact .minus isMinus reads

theorem name_iff (isName : token.kind = .ident) :
    SummandReads (token :: tokens) term ↔
      tokens = [] ∧ term = ⟨1, token.text, token.span⟩ := by
  constructor
  · intro reads
    cases reads with
    | name => exact ⟨rfl, rfl⟩
    | _ => simp_all
  · rintro ⟨rfl, rfl⟩
    exact .name isName

theorem number_iff (isNumber : token.kind = .number) :
    SummandReads (token :: tokens) term ↔ ∃ numeral name,
      Numeral.read? token.text.toList = some numeral ∧ tokens = [name] ∧ name.kind = .ident ∧
      term = ⟨numeral.toScalar, name.text, token.span.merge name.span⟩ := by
  constructor
  · intro reads
    cases reads with
    | product _ read isName => exact ⟨_, _, read, rfl, isName, rfl⟩
    | _ => simp_all
  · rintro ⟨numeral, name, read, rfl, isName, rfl⟩
    exact .product isNumber read isName

theorem kind_head (reads : SummandReads (token :: tokens) term) :
    token.kind = .plus ∨ token.kind = .minus ∨ token.kind = .ident ∨ token.kind = .number := by
  cases reads with
  | name isName => exact .inr (.inr (.inl isName))
  | product isNumber => exact .inr (.inr (.inr isNumber))
  | plus isPlus => exact .inl isPlus
  | minus isMinus => exact .inr (.inl isMinus)

end SummandReads

/-! ### The states of the reader -/

/-- A term after signs that are negative together, or not. -/
def Term.signed (negative : Bool) (term : Term α) : Term α :=
  { term with coefficient := Scalar.signed negative term.coefficient }

/-- A summand, into which signs before it go, and the summands after it. -/
def OperandReads (negative : Bool) (tokens : List Token) (terms : List (Term α)) : Prop :=
  ∃ first rest term others, tokens = first ++ rest ∧ SummandReads first term ∧
    LaterReads rest others ∧ terms = Term.signed negative term :: others

/-- The variable of a coefficient and the summands after it. -/
def FactorReads (negative : Bool) (coefficient : α) (span : Span) (tokens : List Token)
    (terms : List (Term α)) : Prop :=
  ∃ name rest others, tokens = name :: rest ∧ name.kind = .ident ∧ LaterReads rest others ∧
    terms = ⟨Scalar.signed negative coefficient, name.text, span.merge name.span⟩ :: others

/-- What the rest of an expression says in a state of the reader. -/
def TermState.Reads : TermState α → List Token → List (Term α) → Prop
  | .operand negative signed, tokens, terms =>
    signed = false ∧ tokens = [] ∧ terms = [] ∨ OperandReads negative tokens terms
  | .factor negative coefficient span, tokens, terms =>
    FactorReads negative coefficient span tokens terms
  | .separator, tokens, terms => LaterReads tokens terms

theorem not_operandReads_nil {negative : Bool} {terms : List (Term α)} :
    ¬ OperandReads negative [] terms := by
  rintro ⟨first, rest, term, others, same, reads, -⟩
  obtain ⟨rfl, -⟩ := List.append_eq_nil_iff.mp same.symm
  cases reads

theorem laterReads_nil_iff {terms : List (Term α)} : LaterReads [] terms ↔ terms = [] := by
  constructor
  · intro later
    generalize empty : ([] : List Token) = tokens at later
    cases later with
    | nil => rfl
    | cons => cases empty
  · rintro rfl
    exact .nil

theorem operandReads_cons_iff {negative : Bool} {token : Token} {tokens : List Token}
    {terms : List (Term α)} :
    OperandReads negative (token :: tokens) terms ↔ ∃ first rest term others,
      tokens = first ++ rest ∧ SummandReads (token :: first) term ∧ LaterReads rest others ∧
        terms = Term.signed negative term :: others := by
  constructor
  · rintro ⟨first, rest, term, others, same, reads, later, rfl⟩
    cases first with
    | nil => cases reads
    | cons head first =>
      obtain ⟨rfl, rfl⟩ : token = head ∧ tokens = first ++ rest := by simpa using same
      exact ⟨first, rest, term, others, rfl, reads, later, rfl⟩
  · rintro ⟨first, rest, term, others, rfl, reads, later, rfl⟩
    exact ⟨token :: first, rest, term, others, rfl, reads, later, rfl⟩

theorem operandReads_plus_iff {negative : Bool} {token : Token} {tokens : List Token}
    {terms : List (Term α)} (isPlus : token.kind = .plus) :
    OperandReads negative (token :: tokens) terms ↔ OperandReads negative tokens terms := by
  simp only [operandReads_cons_iff, SummandReads.plus_iff isPlus]
  rfl

theorem operandReads_name_iff {negative : Bool} {token : Token} {tokens : List Token}
    {terms : List (Term α)} (isName : token.kind = .ident) :
    OperandReads negative (token :: tokens) terms ↔ ∃ others, LaterReads tokens others ∧
      terms = ⟨Scalar.signed negative 1, token.text, token.span⟩ :: others := by
  rw [operandReads_cons_iff]
  simp only [SummandReads.name_iff isName]
  constructor
  · rintro ⟨_, rest, _, others, rfl, ⟨rfl, rfl⟩, later, rfl⟩
    exact ⟨others, later, rfl⟩
  · rintro ⟨others, later, rfl⟩
    exact ⟨[], tokens, _, others, rfl, ⟨rfl, rfl⟩, later, rfl⟩

theorem operandReads_number_iff {negative : Bool} {token : Token} {tokens : List Token}
    {terms : List (Term α)} (isNumber : token.kind = .number) :
    OperandReads negative (token :: tokens) terms ↔ ∃ numeral,
      Numeral.read? token.text.toList = some numeral ∧
        FactorReads negative numeral.toScalar token.span tokens terms := by
  rw [operandReads_cons_iff]
  simp only [SummandReads.number_iff isNumber]
  constructor
  · rintro ⟨_, rest, _, others, rfl, ⟨numeral, name, read, rfl, isName, rfl⟩, later, rfl⟩
    exact ⟨numeral, read, name, rest, others, rfl, isName, later, rfl⟩
  · rintro ⟨numeral, read, name, rest, others, rfl, isName, later, rfl⟩
    exact ⟨[name], rest, _, others, rfl, ⟨numeral, name, read, rfl, isName, rfl⟩, later, rfl⟩

/-- After the first summand a sign is needed, and then it is one more sign of the next summand. -/
theorem laterReads_cons_iff {token : Token} {tokens : List Token} {terms : List (Term α)} :
    LaterReads (token :: tokens) terms ↔ (token.kind = .plus ∨ token.kind = .minus) ∧
      OperandReads false (token :: tokens) terms := by
  constructor
  · intro later
    generalize same : token :: tokens = all at later
    cases later with
    | nil => cases same
    | @cons sign first rest term others isSign reads later =>
      obtain ⟨rfl, rfl⟩ : token = sign ∧ tokens = first ++ rest := by simpa using same
      exact ⟨isSign, operandReads_cons_iff.mpr ⟨first, rest, term, others, rfl, reads, later, rfl⟩⟩
  · rintro ⟨isSign, operand⟩
    obtain ⟨first, rest, term, others, rfl, reads, later, rfl⟩ := operandReads_cons_iff.mp operand
    exact .cons isSign reads later

theorem expressionReads_iff {tokens : List Token} {terms : List (Term α)} :
    ExpressionReads tokens terms ↔ (TermState.operand false false).Reads tokens terms := by
  constructor
  · intro expression
    cases expression with
    | empty => exact .inl ⟨rfl, rfl, rfl⟩
    | @cons first rest term others reads later =>
      exact .inr ⟨first, rest, term, others, rfl, reads, later, rfl⟩
  · rintro (⟨_, rfl, rfl⟩ | ⟨first, rest, term, others, rfl, reads, later, rfl⟩)
    · exact .empty
    · exact .cons reads later

theorem readNumber_eq_ok_iff {token : Token} {x : α} :
    readNumber token = .ok x ↔
      ∃ numeral, Numeral.read? token.text.toList = some numeral ∧ numeral.toScalar = x := by
  rw [readNumber]
  split <;> simp_all

section Negation

variable (neg_neg : ∀ x : α, - -x = x)

include neg_neg

theorem signed_neg (negative : Bool) (x : α) :
    Scalar.signed negative (-x) = Scalar.signed (!negative) x := by
  cases negative with
  | false => rfl
  | true => exact neg_neg x

theorem operandReads_minus_iff {negative : Bool} {token : Token} {tokens : List Token}
    {terms : List (Term α)} (isMinus : token.kind = .minus) :
    OperandReads negative (token :: tokens) terms ↔ OperandReads (!negative) tokens terms := by
  -- A minus in the tokens and one before them add up to none.
  have turned (term : Term α) :
      Term.signed negative { term with coefficient := -term.coefficient } =
        Term.signed (!negative) term := by
    simp only [Term.signed, signed_neg neg_neg]
  rw [operandReads_cons_iff]
  simp only [SummandReads.minus_iff isMinus]
  constructor
  · rintro ⟨first, rest, _, others, rfl, ⟨unsigned, reads, rfl⟩, later, rfl⟩
    exact ⟨first, rest, unsigned, others, rfl, reads, later, by rw [turned]⟩
  · rintro ⟨first, rest, unsigned, others, rfl, reads, later, rfl⟩
    exact ⟨first, rest, _, others, rfl, ⟨unsigned, reads, rfl⟩, later, by rw [turned]⟩

/-- In every state the reader returns what the rest of the expression says. -/
theorem readTermsFrom_eq_ok_iff {line : Nat} {state : TermState α} {tokens : List Token}
    {terms : List (Term α)} :
    readTermsFrom line state tokens = .ok terms ↔ state.Reads tokens terms := by
  -- A token takes the reader to another state, and what is said there about the rest of the tokens
  -- is what is said here about all of them.
  induction tokens generalizing line state terms with
  | nil =>
    cases state with
    | operand negative signed =>
      cases signed with
      | false => simp [readTermsFrom, TermState.Reads, not_operandReads_nil, eq_comm]
      | true => simp [readTermsFrom, TermState.Reads, not_operandReads_nil]
    | factor negative coefficient span => simp [readTermsFrom, TermState.Reads, FactorReads]
    | separator => simp [readTermsFrom, TermState.Reads, laterReads_nil_iff, eq_comm]
  | cons token rest ih =>
    cases state with
    | operand negative signed =>
      have filled : (TermState.operand negative signed).Reads (token :: rest) terms ↔
          OperandReads negative (token :: rest) terms := by
        simp [TermState.Reads]
      have after (turned : Bool) : (TermState.operand turned true).Reads rest terms ↔
          OperandReads turned rest terms := by
        simp [TermState.Reads]
      rw [filled, readTermsFrom]
      split
      next isPlus => rw [ih, after, operandReads_plus_iff isPlus]
      next isMinus => rw [ih, after, operandReads_minus_iff neg_neg isMinus]
      next isNumber =>
        simp only [operandReads_number_iff isNumber, bind_eq_ok_iff, readNumber_eq_ok_iff, ih]
        constructor
        · rintro ⟨_, ⟨numeral, read, rfl⟩, reads⟩
          exact ⟨numeral, read, reads⟩
        · rintro ⟨numeral, read, reads⟩
          exact ⟨_, ⟨numeral, read, rfl⟩, reads⟩
      next isName =>
        simp only [operandReads_name_iff isName, bind_eq_ok_iff, ih, TermState.Reads, pure,
          Except.pure, Except.ok.injEq]
        exact exists_congr fun others => and_congr_right' eq_comm
      next notPlus notMinus notNumber notName =>
        -- No summand starts with another token.
        constructor
        · intro accepted
          cases accepted
        · intro reads
          obtain ⟨first, _, term, _, _, reads, -⟩ := operandReads_cons_iff.mp reads
          obtain isPlus | isMinus | isName | isNumber := reads.kind_head
          · exact absurd isPlus notPlus
          · exact absurd isMinus notMinus
          · exact absurd isName notName
          · exact absurd isNumber notNumber
    | factor negative coefficient span =>
      rw [readTermsFrom]
      split
      next isName =>
        simp only [TermState.Reads, FactorReads, bind_eq_ok_iff, ih, pure, Except.pure,
          Except.ok.injEq]
        constructor
        · rintro ⟨others, later, rfl⟩
          exact ⟨token, rest, others, rfl, isName, later, rfl⟩
        · rintro ⟨name, rest, others, same, -, later, rfl⟩
          cases same
          exact ⟨others, later, rfl⟩
      -- A number after a number lacks its sign, and anything else is no variable.
      next isNumber => simp [TermState.Reads, FactorReads, isNumber]
      next notName _ =>
        have other : token.kind ≠ .ident := notName
        simp [TermState.Reads, FactorReads, other]
    | separator =>
      rw [readTermsFrom]
      split
      next isPlus =>
        rw [ih, TermState.Reads, TermState.Reads, laterReads_cons_iff, operandReads_plus_iff isPlus]
        simp [isPlus]
      next isMinus =>
        rw [ih, TermState.Reads, TermState.Reads, laterReads_cons_iff,
          operandReads_minus_iff neg_neg isMinus]
        simp [isMinus]
      all_goals simp_all [TermState.Reads, laterReads_cons_iff]

end Negation

theorem readTerms_eq_ok_iff (neg_neg : ∀ x : α, - -x = x) {tokens : List Token}
    {terms : List (Term α)} :
    readTerms tokens = .ok terms ↔ ExpressionReads tokens terms :=
  (readTermsFrom_eq_ok_iff neg_neg).trans expressionReads_iff.symm

/-! ### Expressions and the language -/

namespace TokenKind

/-- A summand is one without a sign, or a sign before another summand. -/
theorem summand_eq : summand = (1 + {[.number]}) * {[.ident]} + sign * summand := by
  calc summand
      = (1 + sign * sign∗) * (1 + {[.number]}) * {[.ident]} := by
        rw [Language.one_add_self_mul_kstar_eq_kstar]
        rfl
    _ = (1 + {[.number]}) * {[.ident]} + sign * summand := by
        rw [add_mul, one_mul, add_mul, summand, mul_assoc sign, mul_assoc sign]

theorem mem_sign_mul_iff {kinds : List TokenKind} {language : Language TokenKind} :
    kinds ∈ sign * language ↔ ∃ kind rest, kinds = kind :: rest ∧
      (kind = .plus ∨ kind = .minus) ∧ rest ∈ language := by
  rw [Language.mem_mul]
  constructor
  · rintro ⟨_, rfl | rfl, rest, member, rfl⟩
    · exact ⟨.plus, rest, rfl, .inl rfl, member⟩
    · exact ⟨.minus, rest, rfl, .inr rfl, member⟩
  · rintro ⟨kind, rest, rfl, rfl | rfl, member⟩
    · exact ⟨[.plus], .inl rfl, rest, member, rfl⟩
    · exact ⟨[.minus], .inr rfl, rest, member, rfl⟩

theorem mem_unsigned_iff {kinds : List TokenKind} :
    kinds ∈ (1 + {[.number]}) * ({[.ident]} : Language TokenKind) ↔
      kinds = [.ident] ∨ kinds = [.number, .ident] := by
  rw [add_mul, one_mul, Language.mem_add, Language.mem_mul]
  constructor
  · rintro (same | ⟨_, rfl, _, rfl, rfl⟩)
    · exact .inl same
    · exact .inr rfl
  · rintro (same | rfl)
    · exact .inl same
    · exact .inr ⟨[.number], rfl, [.ident], rfl, rfl⟩

theorem mem_summand_iff {kinds : List TokenKind} :
    kinds ∈ summand ↔ (kinds = [.ident] ∨ kinds = [.number, .ident]) ∨
      ∃ kind rest, kinds = kind :: rest ∧ (kind = .plus ∨ kind = .minus) ∧ rest ∈ summand := by
  rw [← mem_unsigned_iff, ← mem_sign_mul_iff, ← Language.mem_add, ← summand_eq]

theorem mem_expression_iff {kinds : List TokenKind} :
    kinds ∈ expression ↔ kinds = [] ∨ ∃ first ∈ summand, ∃ rest ∈ (sign * summand)∗,
      first ++ rest = kinds := by
  rw [expression, Language.mem_add, Language.mem_one, Language.mem_mul]

end TokenKind

namespace SummandReads

theorem mem_summand {tokens : List Token} {term : Term α} (reads : SummandReads tokens term) :
    tokens.map Token.kind ∈ TokenKind.summand := by
  induction reads with
  | name isName => exact TokenKind.mem_summand_iff.mpr (.inl (.inl (by simp [isName])))
  | product isNumber _ isName =>
    exact TokenKind.mem_summand_iff.mpr (.inl (.inr (by simp [isNumber, isName])))
  | plus isPlus _ ih =>
    exact TokenKind.mem_summand_iff.mpr (.inr ⟨_, _, rfl, .inl isPlus, ih⟩)
  | minus isMinus _ ih =>
    exact TokenKind.mem_summand_iff.mpr (.inr ⟨_, _, rfl, .inr isMinus, ih⟩)

/-- Numbers that can be read are all that the language leaves open. -/
theorem of_mem_summand {tokens : List Token}
    (numeric : ∀ token ∈ tokens, token.kind = .number → Lexer.IsNumber token.text)
    (member : tokens.map Token.kind ∈ TokenKind.summand) :
    ∃ term : Term α, SummandReads tokens term := by
  induction tokens with
  | nil =>
    rw [TokenKind.mem_summand_iff] at member
    simp at member
  | cons token rest ih =>
    rw [List.forall_mem_cons] at numeric
    obtain (same | same) | ⟨kind, kinds, same, isSign, unsigned⟩ :=
      TokenKind.mem_summand_iff.mp member
    · obtain ⟨isName, rfl⟩ : token.kind = .ident ∧ rest = [] := by simpa using same
      exact ⟨_, .name isName⟩
    · obtain ⟨isNumber, name, rfl, isName⟩ :
          token.kind = .number ∧ ∃ name, rest = [name] ∧ name.kind = .ident := by
        simpa [List.map_eq_cons_iff] using same
      obtain ⟨numeral, read⟩ := Lexer.exists_numeral (numeric.1 isNumber)
      exact ⟨_, .product isNumber read isName⟩
    · obtain ⟨rfl, rfl⟩ : token.kind = kind ∧ rest.map Token.kind = kinds := by simpa using same
      obtain ⟨term, reads⟩ := ih numeric.2 unsigned
      obtain isPlus | isMinus := isSign
      · exact ⟨_, .plus isPlus reads⟩
      · exact ⟨_, .minus isMinus reads⟩

end SummandReads

namespace LaterReads

theorem mem_later {tokens : List Token} {terms : List (Term α)} (later : LaterReads tokens terms) :
    tokens.map Token.kind ∈ (TokenKind.sign * TokenKind.summand)∗ := by
  induction later with
  | nil => exact Language.nil_mem_kstar _
  | @cons sign first rest _ _ isSign reads _ ih =>
    -- The sign is read as part of its summand, and in the language it stands before a summand.
    have signed : (sign :: first).map Token.kind ∈ TokenKind.sign * TokenKind.summand := by
      refine TokenKind.mem_sign_mul_iff.mpr ⟨sign.kind, first.map Token.kind, rfl, isSign, ?_⟩
      obtain isPlus | isMinus := isSign
      · exact ((SummandReads.plus_iff isPlus).mp reads).mem_summand
      · obtain ⟨_, unsigned, -⟩ := (SummandReads.minus_iff isMinus).mp reads
        exact unsigned.mem_summand
    rw [List.map_append, ← Language.one_add_self_mul_kstar_eq_kstar]
    exact .inr (Language.append_mem_mul signed ih)

theorem of_mem_later {tokens : List Token}
    (numeric : ∀ token ∈ tokens, token.kind = .number → Lexer.IsNumber token.text)
    (member : tokens.map Token.kind ∈ (TokenKind.sign * TokenKind.summand)∗) :
    ∃ terms : List (Term α), LaterReads tokens terms := by
  obtain ⟨parts, same, each⟩ := Language.mem_kstar.mp member
  -- The induction is on the signed summands that the word of the language is made of.
  induction parts generalizing tokens with
  | nil =>
    obtain rfl : tokens = [] := by simpa using same
    exact ⟨[], .nil⟩
  | cons part parts ih =>
    rw [List.forall_mem_cons] at each
    obtain ⟨first, rest, rfl, rfl, others⟩ := List.map_eq_append_iff.mp same
    rw [List.forall_mem_append] at numeric
    obtain ⟨kind, kinds, starts, isSign, unsigned⟩ := TokenKind.mem_sign_mul_iff.mp each.1
    obtain ⟨sign, first, rfl, rfl, rfl⟩ := List.map_eq_cons_iff.mp starts
    have signed : (sign :: first).map Token.kind ∈ TokenKind.summand :=
      TokenKind.mem_summand_iff.mpr (.inr ⟨_, _, rfl, isSign, unsigned⟩)
    obtain ⟨term, reads⟩ : ∃ term : Term α, SummandReads (sign :: first) term :=
      SummandReads.of_mem_summand numeric.1 signed
    obtain ⟨terms, later⟩ := ih numeric.2 (others ▸ Language.join_mem_kstar each.2) others each.2
    exact ⟨term :: terms, .cons isSign reads later⟩

end LaterReads

/-- The tokens that say something are those of the language. -/
theorem exists_expressionReads_iff {tokens : List Token}
    (numeric : ∀ token ∈ tokens, token.kind = .number → Lexer.IsNumber token.text) :
    (∃ terms : List (Term α), ExpressionReads tokens terms) ↔
      tokens.map Token.kind ∈ TokenKind.expression := by
  rw [TokenKind.mem_expression_iff]
  constructor
  · rintro ⟨_, expression⟩
    cases expression with
    | empty => exact .inl rfl
    | @cons first rest _ _ reads later =>
      exact .inr ⟨_, reads.mem_summand, _, later.mem_later, List.map_append.symm⟩
  · rintro (empty | ⟨_, summand, _, others, same⟩)
    · obtain rfl : tokens = [] := by simpa using empty
      exact ⟨[], .empty⟩
    · obtain ⟨first, rest, rfl, rfl, rfl⟩ := List.map_eq_append_iff.mp same.symm
      rw [List.forall_mem_append] at numeric
      -- The kinds leave open what the numbers are, and every number can be read.
      obtain ⟨term, reads⟩ : ∃ term : Term α, SummandReads first term :=
        SummandReads.of_mem_summand numeric.1 summand
      obtain ⟨terms, later⟩ : ∃ terms : List (Term α), LaterReads rest terms :=
        LaterReads.of_mem_later numeric.2 others
      exact ⟨term :: terms, .cons reads later⟩

/-! ### One term for each name -/

/-- The tokens that are names. -/
def names (tokens : List Token) : List Token := tokens.filter (·.kind == .ident)

namespace SummandReads

theorem names_eq {tokens : List Token} {term : Term α} (reads : SummandReads tokens term) :
    (names tokens).map Token.text = [term.name] := by
  induction reads with
  | name isName => simp [names, isName]
  | product isNumber _ isName => simp [names, isNumber, isName]
  | plus isPlus _ ih => simpa [names, isPlus] using ih
  | minus isMinus _ ih => simpa [names, isMinus] using ih

end SummandReads

theorem LaterReads.names_eq {tokens : List Token} {terms : List (Term α)}
    (later : LaterReads tokens terms) : (names tokens).map Token.text = terms.map Term.name := by
  induction later with
  | nil => rfl
  | @cons sign first rest _ _ _ reads _ ih =>
    have split : names (sign :: first ++ rest) = names (sign :: first) ++ names rest :=
      List.filter_append ..
    rw [split, List.map_append, reads.names_eq, ih]
    rfl

theorem ExpressionReads.names_eq {tokens : List Token} {terms : List (Term α)}
    (expression : ExpressionReads tokens terms) :
    (names tokens).map Token.text = terms.map Term.name := by
  cases expression with
  | empty => rfl
  | @cons first rest _ _ reads later =>
    have split : names (first ++ rest) = names first ++ names rest := List.filter_append ..
    rw [split, List.map_append, reads.names_eq, later.names_eq]
    rfl

/-! ### The reader -/

/-- The reader accepts the tokens if they are an expression and only then. It returns what the
expression says, which is one term for each name. -/
structure ReadsExpression (α : Type) [Scalar α] (tokens : List Token) : Prop where
  accepts : (∃ terms : List (Term α), readTerms tokens = .ok terms) ↔
    tokens.map Token.kind ∈ TokenKind.expression
  returns : ∀ terms : List (Term α), readTerms tokens = .ok terms ↔ ExpressionReads tokens terms
  named : ∀ terms : List (Term α), readTerms tokens = .ok terms →
    terms.map Term.name = (names tokens).map Token.text

theorem readsExpression_of_neg_neg (neg_neg : ∀ x : α, - -x = x) {tokens : List Token}
    (numeric : ∀ token ∈ tokens, token.kind = .number → Lexer.IsNumber token.text) :
    ReadsExpression α tokens where
  accepts := by simp only [readTerms_eq_ok_iff neg_neg, exists_expressionReads_iff numeric]
  returns _ := readTerms_eq_ok_iff neg_neg
  named _ read := ((readTerms_eq_ok_iff neg_neg).mp read).names_eq.symm

/-- The tokens stand in the order of the source. -/
def InOrder (tokens : List Token) : Prop :=
  tokens.Pairwise fun left right =>
    left.span.start ≤ right.span.start ∧ left.span.stop ≤ right.span.stop

/-- In the order of the source, a product goes from the start of its number to the end of its
name. -/
theorem InOrder.merge_eq {tokens : List Token} (inOrder : InOrder tokens) {number name : Token}
    (adjacent : [number, name] <:+: tokens) :
    number.span.merge name.span = ⟨number.span.start, name.span.stop⟩ := by
  have ordered := List.rel_of_pairwise_cons (inOrder.sublist adjacent.sublist)
    (List.mem_singleton.mpr rfl)
  rw [Span.merge, Nat.min_eq_left ordered.1, Nat.max_eq_right ordered.2]

/-- Expressions are read exactly, with floating-point numbers and with rational ones. -/
theorem readTerms_reads_expressions {tokens : List Token}
    (numeric : ∀ token ∈ tokens, token.kind = .number → Lexer.IsNumber token.text) :
    ReadsExpression Float tokens ∧ ReadsExpression Rat tokens ∧
      (InOrder tokens → ∀ number name, [number, name] <:+: tokens →
        number.span.merge name.span = ⟨number.span.start, name.span.stop⟩) :=
  ⟨readsExpression_of_neg_neg float_neg_neg numeric,
    readsExpression_of_neg_neg Rat.neg_neg numeric, fun inOrder _ _ => inOrder.merge_eq⟩

/-- The tokens of `- - 2.5 x + y`. -/
def twoSigns : List Token :=
  [⟨.minus, ⟨0, 1⟩, "-", 1⟩, ⟨.minus, ⟨2, 3⟩, "-", 1⟩, ⟨.number, ⟨4, 7⟩, "2.5", 1⟩,
    ⟨.ident, ⟨8, 9⟩, "x", 1⟩, ⟨.plus, ⟨10, 11⟩, "+", 1⟩, ⟨.ident, ⟨12, 13⟩, "y", 1⟩]

theorem readTerms_reads_two_signs :
    (∀ token ∈ twoSigns, token.kind = .number → Lexer.IsNumber token.text) ∧
      InOrder twoSigns ∧ twoSigns.map Token.kind ∈ TokenKind.expression ∧
      ExpressionReads twoSigns [(⟨5 / 2, "x", ⟨4, 9⟩⟩ : Term Rat), ⟨1, "y", ⟨12, 13⟩⟩] := by
  have numeric : ∀ token ∈ twoSigns, token.kind = .number → Lexer.IsNumber token.text := by
    intro token member isNumber
    obtain rfl : token = ⟨.number, ⟨4, 7⟩, "2.5", 1⟩ := by
      simp only [twoSigns, List.mem_cons, List.not_mem_nil, or_false] at member
      obtain rfl | rfl | rfl | rfl | rfl | rfl := member <;> first | rfl | cases isNumber
    exact ⟨'2', ['.', '5'], rfl, by decide⟩
  have read : readTerms twoSigns =
      .ok [(⟨5 / 2, "x", ⟨4, 9⟩⟩ : Term Rat), ⟨1, "y", ⟨12, 13⟩⟩] := by
    have value : (Numeral.toScalar ⟨25, -1⟩ : Rat) = 5 / 2 := by
      show ((25 : Nat) : Rat) * 10 ^ (-1 : Int) = 5 / 2
      norm_num
    rw [← value]
    rfl
  obtain ⟨-, exactly, -⟩ := readTerms_reads_expressions numeric
  exact ⟨numeric, by simp [InOrder, twoSigns], exactly.accepts.mp ⟨_, read⟩,
    (exactly.returns _).mp read⟩

end LinOpt.Lp
