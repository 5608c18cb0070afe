import LinOpt.Proofs.Lp.Expressions
import LinOpt.Proofs.Lp.Letters
import LinOpt.Proofs.Lp.Places
import LinOpt.Proofs.Scalar.Extended

/-!
# What a bound is

The statements of bounds are a finite number of forms, in which signed numbers and infinities stand
around a variable. What one of them says is a set on the extended real line: the places of which
its comparisons hold. The reader accepts these forms and no others, and the interval that it
returns is this set.
-/

namespace LinOpt.Lp

open Computability

/-! ### The language -/

namespace Token

def isSign (token : Token) : Bool := token.kind == .plus || token.kind == .minus

/-- A bound can have the token as its variable. -/
def isVariable (token : Token) : Bool := token.kind == .ident && !token.isInfinity

/-- The token is an amount without signs. -/
def isUnsigned (token : Token) : Bool := token.kind == .number || token.isInfinity

def hasKind (kind : TokenKind) (token : Token) : Bool := token.kind == kind

/-- Any number of signs, then a number or infinity. -/
def amount : Language Token := (letter isSign)∗ * letter isUnsigned

/-- A variable between two amounts, with the same relation on either side of it. -/
def range (kind : TokenKind) : Language Token :=
  amount * (letter (hasKind kind) * (letter isVariable * (letter (hasKind kind) * amount)))

/-- A variable is free, it is compared with an amount, or it is between two amounts, of which the
larger one may be on either side. -/
def bound : Language Token :=
  letter (hasKind .ident) * letter (isKeyword · "free") +
  letter isVariable * (letter isRelation * amount) +
  amount * (letter isRelation * letter isVariable) + range .le + range .ge

end Token

/-! ### What a bound says -/

variable {α : Type} (β : Type) [Scalar α] [Endpoint β α] [Valued β α]

/-- The tokens of an amount and its value, into which the signs go. -/
inductive AmountReads : List Token → EReal → Prop
  | number {token : Token} {numeral : Numeral} {v : EReal} (isNumber : token.kind = .number)
    (read : Numeral.read? token.text.toList = some numeral)
    (value : Valued.value? (Endpoint.ofScalar numeral.toScalar : β) = some v) :
    AmountReads [token] v
  | infinity {token : Token} (isInfinity : token.isInfinity = true) : AmountReads [token] ⊤
  | plus {sign : Token} {tokens : List Token} {v : EReal} (isPlus : sign.kind = .plus)
    (unsigned : AmountReads tokens v) : AmountReads (sign :: tokens) v
  | minus {sign : Token} {tokens : List Token} {v : EReal} (isMinus : sign.kind = .minus)
    (unsigned : AmountReads tokens v) : AmountReads (sign :: tokens) (-v)

/-- The tokens of a bound, its variable, and the values for which its comparisons hold. -/
inductive BoundReads : List Token → String → Set EReal → Prop
  | free {name word : Token} (isName : name.kind = .ident)
    (isFree : word.isKeyword "free" = true) : BoundReads [name, word] name.text Set.univ
  | right {name relation : Token} {amount : List Token} {sense : Sense} {v : EReal}
    (isVariable : name.isVariable = true) (related : relation.kind.sense? = some sense)
    (reads : AmountReads β amount v) :
    BoundReads (name :: relation :: amount) name.text {x | sense.Relates x v}
  | left {name relation : Token} {amount : List Token} {sense : Sense} {v : EReal}
    (reads : AmountReads β amount v) (related : relation.kind.sense? = some sense)
    (isVariable : name.isVariable = true) :
    BoundReads (amount ++ [relation, name]) name.text {x | sense.Relates v x}
  | between {first second name : Token} {amount other : List Token} {sense : Sense}
    {v w : EReal} (reads : AmountReads β amount v) (related : first.kind.sense? = some sense)
    (isVariable : name.isVariable = true) (again : second.kind.sense? = some sense)
    (ordered : sense ≠ .eq) (also : AmountReads β other w) :
    BoundReads (amount ++ first :: name :: second :: other) name.text
      {x | sense.Relates v x ∧ sense.Relates x w}

variable {β}

/-- The interval of a variable that has this bound alone. -/
def BoundKind.Denotes (kind : BoundKind β) (stated : Set EReal) : Prop :=
  ∃ low high, Valued.value? (kind.apply .free).lower = some low ∧
    Valued.value? (kind.apply .free).upper = some high ∧ stated = Set.Icc low high

/-! ### Intervals -/

namespace BoundKind

variable {sense : Sense} {x y : β} {v w : EReal}

theorem denotes_free : (BoundKind.free : BoundKind β).Denotes Set.univ :=
  ⟨⊥, ⊤, Valued.value?_negInf, Valued.value?_posInf, Set.Icc_bot_top.symm⟩

theorem denotes_ofRight (value : Valued.value? x = some v) :
    (BoundKind.ofRight sense x).Denotes {z | sense.Relates z v} := by
  cases sense with
  | le => exact ⟨⊥, v, Valued.value?_negInf, value, Set.Icc_bot.symm⟩
  | ge => exact ⟨v, ⊤, value, Valued.value?_posInf, Set.Icc_top.symm⟩
  | eq => exact ⟨v, v, value, value, (Set.Icc_self v).symm⟩

theorem denotes_ofLeft (value : Valued.value? x = some v) :
    (BoundKind.ofLeft sense x).Denotes {z | sense.Relates v z} := by
  have turned : {z | sense.Relates v z} = {z | sense.flipped.Relates z v} := by
    cases sense with
    | le | ge => rfl
    | eq => exact Set.ext fun z => eq_comm
  rw [turned]
  exact denotes_ofRight value

theorem exists_between (ordered : sense ≠ .eq) (first : Valued.value? x = some v)
    (second : Valued.value? y = some w) : ∃ kind, BoundKind.between? x sense sense y = some kind ∧
      kind.Denotes {z | sense.Relates v z ∧ sense.Relates z w} := by
  cases sense with
  | le => exact ⟨_, rfl, v, w, first, second, rfl⟩
  | ge => exact ⟨_, rfl, w, v, second, first, Set.ext fun z => and_comm⟩
  | eq => exact absurd rfl ordered

theorem between?_eq_some {left right : Sense} {kind : BoundKind β}
    (found : BoundKind.between? x left right y = some kind) : left = right ∧ left ≠ .eq := by
  cases left <;> cases right <;> simp [BoundKind.between?] at found ⊢

end BoundKind

/-! ### Amounts -/

theorem kind_of_isInfinity {token : Token} (isInfinity : token.isInfinity = true) :
    token.kind = .ident := by
  simp only [Token.isInfinity, Token.isKeyword, Bool.or_eq_true, Bool.and_eq_true,
    beq_iff_eq] at isInfinity
  tauto

theorem value?_signed {negative : Bool} {x : α} {v : EReal}
    (value : Valued.value? (Endpoint.ofScalar x : β) = some v) :
    Valued.value? (Endpoint.ofScalar (Scalar.signed negative x) : β) =
      some (if negative then -v else v) := by
  cases negative with
  | false => exact value
  | true => exact (Valued.value?_neg x).trans (congrArg _ value)

theorem value?_infinity (negative : Bool) :
    Valued.value? (Endpoint.infinity negative : β) = some (if negative then -⊤ else ⊤) := by
  cases negative with
  | false => exact Valued.value?_posInf
  | true => exact Valued.value?_negInf

/-- The tokens before the rest are an amount with signs before it, or a variable without any. -/
def OperandReading.Describes (negative signed : Bool) (tokens : List Token)
    (reading : OperandReading β) : Prop :=
  match reading.operand with
  | .value x => ∃ part v, tokens = part ++ reading.rest ∧ AmountReads β part v ∧
      Valued.value? x = some (if negative then -v else v)
  | .name token =>
    signed = false ∧ tokens = token :: reading.rest ∧ token.isVariable = true

/-- A sign is one more sign of an amount, and no variable has one. -/
theorem OperandReading.Describes.signed {negative turned signed : Bool} {sign : Token}
    {tokens : List Token} {reading : OperandReading β}
    (described : reading.Describes turned true tokens)
    (step : ∀ part v, AmountReads β part v → ∃ w, AmountReads β (sign :: part) w ∧
      (if negative then -w else w) = if turned then -v else v) :
    reading.Describes negative signed (sign :: tokens) := by
  unfold OperandReading.Describes at described ⊢
  split at described
  next x _ =>
    obtain ⟨part, v, rfl, reads, value⟩ := described
    obtain ⟨w, also, same⟩ := step part v reads
    exact ⟨sign :: part, w, rfl, also, same ▸ value⟩
  next => cases described.1

theorem readOperand_describes (line : Nat) (negative : Bool) (sign? : Option Token)
    (tokens : List Token) :
    Ends (OperandReading.Describes (β := β) negative sign?.isSome tokens) (fun _ => True)
      (readOperand line negative sign? tokens : Except ParseError (OperandReading β)) := by
  -- The signs that have been read turn what is still to come.
  induction tokens generalizing negative sign? with
  | nil => trivial
  | cons token rest ih =>
    rw [readOperand]
    cases kind : token.kind with
    | plus =>
      exact (ih negative (some token)).imp fun reading described =>
        described.signed fun part v reads => ⟨v, .plus kind reads, rfl⟩
    | minus =>
      exact (ih (!negative) (some token)).imp fun reading described =>
        described.signed fun part v reads =>
          ⟨-v, .minus kind reads, by cases negative <;> simp⟩
    | number =>
      dsimp only
      cases read : Numeral.read? token.text.toList with
      | none =>
        have unread : readNumber token = (.error (.invalidNumber token.text token.line) :
            Except ParseError α) := by rw [readNumber, read]
        rw [unread]
        trivial
      | some numeral =>
        have reading : readNumber token = .ok (numeral.toScalar : α) :=
          readNumber_eq_ok_iff.mpr ⟨numeral, read, rfl⟩
        obtain ⟨v, value⟩ := Valued.exists_value (β := β) numeral
        rw [reading]
        exact ⟨[token], v, rfl, .number kind read value, value?_signed value⟩
    | ident =>
      dsimp only
      split_ifs with isInfinity unsigned
      · exact ⟨[token], ⊤, rfl, .infinity isInfinity, value?_infinity negative⟩
      · exact ⟨by simpa using unsigned, rfl, by simp [Token.isVariable, kind, isInfinity]⟩
      · trivial
    | _ => trivial

/-- An amount is read to its end. -/
theorem readOperand_amount {amount : List Token} {v : EReal} (reads : AmountReads β amount v)
    (line : Nat) (negative : Bool) (sign? : Option Token) (rest : List Token) :
    ∃ x last? token, readOperand line negative sign? (amount ++ rest) =
        .ok (⟨.value x, last?, token, rest⟩ : OperandReading β) ∧
      Valued.value? x = some (if negative then -v else v) := by
  induction reads generalizing negative sign? with
  | @number token numeral v isNumber read value =>
    have reading : readNumber token = .ok (numeral.toScalar : α) :=
      readNumber_eq_ok_iff.mpr ⟨numeral, read, rfl⟩
    refine ⟨_, sign?, token, ?_, value?_signed value⟩
    simp only [List.singleton_append, readOperand, isNumber, reading]
    rfl
  | @infinity token isInfinity =>
    refine ⟨_, sign?, token, ?_, value?_infinity negative⟩
    simp only [List.singleton_append, readOperand, kind_of_isInfinity isInfinity, isInfinity]
    rfl
  | @plus sign tokens v isPlus unsigned ih =>
    obtain ⟨x, last?, token, same, value⟩ := ih negative (some sign)
    refine ⟨x, last?, token, ?_, value⟩
    rw [List.cons_append, readOperand, isPlus, ← same]
  | @minus sign tokens v isMinus unsigned ih =>
    obtain ⟨x, last?, token, same, value⟩ := ih (!negative) (some sign)
    refine ⟨x, last?, token, ?_, ?_⟩
    · rw [List.cons_append, readOperand, isMinus, ← same]
    · rw [value]
      cases negative <;> simp

/-! ### Bounds -/

namespace OperandReading.Describes

variable {signed : Bool} {tokens : List Token} {reading : OperandReading β}

theorem value {x : β} (described : reading.Describes false signed tokens)
    (isValue : reading.operand = .value x) : ∃ part v, tokens = part ++ reading.rest ∧
      AmountReads β part v ∧ Valued.value? x = some v := by
  rw [OperandReading.Describes, isValue] at described
  exact described

theorem name {token : Token} (described : reading.Describes false signed tokens)
    (isName : reading.operand = .name token) :
    tokens = token :: reading.rest ∧ token.isVariable = true := by
  rw [OperandReading.Describes, isName] at described
  exact described.2

end OperandReading.Describes

theorem readBoundKind_reads (line : Line) :
    Ends (fun (reading : String × BoundKind β × List Token) => reading.2.2 = [] →
        ∃ stated, reading.2.1.Denotes stated ∧ BoundReads β line.tokens reading.1 stated)
      (fun _ => True) (readBoundKind line) := by
  have related (tokens : List Token) : Ends (fun reading => tokens = reading.2.1 :: reading.2.2 ∧
      reading.2.1.kind.sense? = some reading.1) (fun _ => True)
      (readRelation line.first.line tokens) :=
    Ends.of_forall_ok fun _ read => readRelation_eq_ok_iff.mp read
  -- Every step reads the tokens before its rest, so the parts add up to the line.
  refine (readOperand_describes _ _ _ _).bind fun left first => ?_
  refine (related _).bind fun (sense, relation, after) ⟨parts, isRelation⟩ => ?_
  refine (readOperand_describes _ _ _ _).bind fun right second => ?_
  dsimp only
  split
  next name x isName isValue =>
    obtain ⟨start, isVariable⟩ := first.name isName
    obtain ⟨amount, v, rfl, reads, value⟩ := second.value isValue
    intro ended
    have tokens : line.tokens = name :: relation :: amount := by
      have ended : right.rest = [] := ended
      rw [start, parts, ended, List.append_nil]
    exact ⟨_, BoundKind.denotes_ofRight value, tokens ▸ .right isVariable isRelation reads⟩
  next x name isValue isName =>
    obtain ⟨amount, v, start, reads, value⟩ := first.value isValue
    obtain ⟨rfl, isVariable⟩ := second.name isName
    split
    next alone =>
      intro _
      have tokens : line.tokens = amount ++ [relation, name] := by
        rw [start, parts, List.isEmpty_iff.mp alone]
      exact ⟨_, BoundKind.denotes_ofLeft value, tokens ▸ .left reads isRelation isVariable⟩
    next =>
      refine (related _).bind fun (again, relation', after) ⟨more, isRelation'⟩ => ?_
      refine (readOperand_describes _ _ _ _).bind fun last third => ?_
      dsimp only
      split
      · trivial
      next y isValue' =>
        obtain ⟨other, w, rfl, reads', value'⟩ := third.value isValue'
        split
        next kind found =>
          intro ended
          obtain ⟨rfl, ordered⟩ := BoundKind.between?_eq_some found
          obtain ⟨_, same, denotes⟩ := BoundKind.exists_between ordered value value'
          cases found.symm.trans same
          have tokens : line.tokens = amount ++ relation :: name :: relation' :: other := by
            have ended : last.rest = [] := ended
            rw [start, parts, more, ended, List.append_nil]
          refine ⟨_, denotes, tokens ▸ ?_⟩
          exact .between reads isRelation isVariable isRelation' ordered reads'
        · trivial
  · trivial
  · trivial

theorem freeName?_eq_some {line : Line} {name : String} (found : freeName? line = some name) :
    ∃ word, line.rest = [word] ∧ line.first.kind = .ident ∧ word.isKeyword "free" = true ∧
      line.first.text = name := by
  unfold freeName? at found
  split at found
  next word rest =>
    split_ifs at found with both
    simp only [Bool.and_eq_true, beq_iff_eq] at both
    exact ⟨word, rest, both.1, both.2, by simpa using found⟩
  · cases found

/-- What the reader returns is what the line says. -/
theorem readBound_reads (line : Line) :
    Ends (fun (statement : BoundStatement β) => ∃ stated, statement.kind.Denotes stated ∧
      BoundReads β line.tokens statement.name stated) (fun _ => True) (readBound line) := by
  unfold readBound
  dsimp only
  split
  · trivial
  next name _ found =>
    obtain ⟨word, rest, isName, isFree, rfl⟩ := freeName?_eq_some found
    refine ⟨_, BoundKind.denotes_free, ?_⟩
    rw [Line.tokens, rest]
    exact .free isName isFree
  · refine (readBoundKind_reads line).bind fun (name, kind, rest) reads => ?_
    cases rest with
    | nil => exact reads rfl
    | cons => trivial

/-! ### Forms that are accepted -/

theorem kind_of_isVariable {token : Token} (isVariable : token.isVariable = true) :
    token.kind = .ident ∧ token.isInfinity = false := by
  simpa [Token.isVariable] using isVariable

theorem kind_of_sense? {token : Token} {sense : Sense} (related : token.kind.sense? = some sense) :
    token.kind ≠ .colon := by
  rintro colon
  rw [colon] at related
  cases related

theorem AmountReads.ne_colon {amount : List Token} {v : EReal} (reads : AmountReads β amount v) :
    amount ≠ [] ∧ ∀ token ∈ amount, token.kind ≠ .colon := by
  induction reads with
  | number isNumber => simp [isNumber]
  | infinity isInfinity => simp [kind_of_isInfinity isInfinity]
  | plus isPlus _ ih => exact ⟨by simp, List.forall_mem_cons.mpr ⟨by simp [isPlus], ih.2⟩⟩
  | minus isMinus _ ih => exact ⟨by simp, List.forall_mem_cons.mpr ⟨by simp [isMinus], ih.2⟩⟩

omit [Valued β α] in
theorem readOperand_variable {name : Token} (isVariable : name.isVariable = true) (line : Nat)
    (negative : Bool) (rest : List Token) :
    readOperand line negative none (name :: rest) =
      .ok (⟨.name name, none, name, rest⟩ : OperandReading β) := by
  obtain ⟨isName, notInfinity⟩ := kind_of_isVariable isVariable
  simp [readOperand, isName, notInfinity]

theorem BoundReads.ne_colon {tokens : List Token} {name : String} {stated : Set EReal}
    (reads : BoundReads β tokens name stated) : ∀ token ∈ tokens, token.kind ≠ .colon := by
  have named {name : Token} (isVariable : name.isVariable = true) : name.kind ≠ .colon := by
    simp [kind_of_isVariable isVariable]
  cases reads with
  | free isName isFree =>
    simp only [Token.isKeyword, Bool.and_eq_true, beq_iff_eq] at isFree
    simp [isName, isFree.1]
  | right isVariable related reads =>
    simpa [named isVariable, kind_of_sense? related] using reads.ne_colon.2
  | left reads related isVariable =>
    simpa [named isVariable, kind_of_sense? related, or_imp, forall_and] using reads.ne_colon.2
  | between reads related isVariable again _ also =>
    simpa [named isVariable, kind_of_sense? related, kind_of_sense? again, or_imp, forall_and] using
      And.intro reads.ne_colon.2 also.ne_colon.2

omit [Valued β α] in
theorem readBound_of_readBoundKind {line : Line} {name : String} {kind : BoundKind β}
    (plain : ∀ token ∈ line.tokens, token.kind ≠ .colon) (long : 3 ≤ line.tokens.length)
    (read : readBoundKind line = .ok (name, kind, [])) :
    readBound line = .ok ⟨name, kind, line.first.line, Token.spanOf line.tokens⟩ := by
  have unlabelled : line.tokens.find? (·.kind == .colon) = none := by
    simpa using plain
  have bounded : freeName? line = none := by
    cases free : freeName? line with
    | none => rfl
    | some name =>
      obtain ⟨word, rest, _⟩ := freeName?_eq_some free
      rw [Line.tokens, rest] at long
      simp at long
  rw [readBound, unlabelled, bounded]
  dsimp only
  rw [read]
  rfl

/-- Whatever a line says is accepted. -/
theorem exists_readBound {line : Line} {name : String} {stated : Set EReal}
    (reads : BoundReads β line.tokens name stated) : ∃ statement : BoundStatement β,
      readBound line = .ok statement ∧ statement.name = name ∧ statement.kind.Denotes stated := by
  have plain := reads.ne_colon
  -- The forms other than the free one have an amount, a relation and a variable at least, so that
  -- they are not taken for it.
  generalize same : line.tokens = tokens at reads
  cases reads with
  | @free name word isName isFree =>
    obtain ⟨rfl, rest⟩ : line.first = name ∧ line.rest = [word] := by simpa [Line.tokens] using same
    have unlabelled : line.tokens.find? (·.kind == .colon) = none := by simpa using plain
    have free : freeName? line = some line.first.text := by simp [freeName?, rest, isName, isFree]
    exact ⟨⟨_, .free, _, _⟩, by rw [readBound, unlabelled, free], rfl, BoundKind.denotes_free⟩
  | @right name relation amount sense v isVariable related reads =>
    obtain ⟨x, last?, token, read, value⟩ := readOperand_amount reads line.first.line false none []
    rw [List.append_nil] at read
    have bounded : readBoundKind line = .ok (name.text, .ofRight sense x, []) := by
      rw [readBoundKind, same, readOperand_variable isVariable, ok_bind,
        readRelation_eq_ok_iff.mpr ⟨rfl, related⟩, ok_bind]
      dsimp only
      rw [read]
      rfl
    have filled := List.length_pos_of_ne_nil reads.ne_colon.1
    have long : 3 ≤ line.tokens.length := by
      simp only [same, List.length_cons]
      omega
    exact ⟨_, readBound_of_readBoundKind plain long bounded, rfl, BoundKind.denotes_ofRight value⟩
  | @left name relation amount sense v reads related isVariable =>
    obtain ⟨x, last?, token, read, value⟩ :=
      readOperand_amount reads line.first.line false none [relation, name]
    have bounded : readBoundKind line = .ok (name.text, .ofLeft sense x, []) := by
      rw [readBoundKind, same, read, ok_bind, readRelation_eq_ok_iff.mpr ⟨rfl, related⟩, ok_bind]
      dsimp only
      rw [readOperand_variable isVariable]
      rfl
    have filled := List.length_pos_of_ne_nil reads.ne_colon.1
    have long : 3 ≤ line.tokens.length := by
      simp only [same, List.length_append, List.length_cons]
      omega
    exact ⟨_, readBound_of_readBoundKind plain long bounded, rfl, BoundKind.denotes_ofLeft value⟩
  | @between first second name amount other sense v w reads related isVariable again ordered
      also =>
    obtain ⟨x, last?, token, read, value⟩ := readOperand_amount reads line.first.line false none
      (first :: name :: second :: other)
    obtain ⟨y, last'?, token', read', value'⟩ :=
      readOperand_amount also line.first.line false none []
    rw [List.append_nil] at read'
    obtain ⟨kind, between, denotes⟩ := BoundKind.exists_between ordered value value'
    have bounded : readBoundKind line = .ok (name.text, kind, []) := by
      rw [readBoundKind, same, read, ok_bind, readRelation_eq_ok_iff.mpr ⟨rfl, related⟩, ok_bind]
      dsimp only
      rw [readOperand_variable isVariable, ok_bind]
      dsimp only
      rw [if_neg (by simp), readRelation_eq_ok_iff.mpr ⟨rfl, again⟩, ok_bind]
      dsimp only
      rw [read', ok_bind]
      dsimp only
      rw [between]
      rfl
    have long : 3 ≤ line.tokens.length := by
      simp only [same, List.length_append, List.length_cons]
      omega
    exact ⟨_, readBound_of_readBoundKind plain long bounded, rfl, denotes⟩

/-! ### Bounds and the language -/

namespace Token

theorem mem_amount {tokens : List Token} :
    tokens ∈ amount ↔ ∃ (signs : List Token) (last : Token), tokens = signs ++ [last] ∧
      (∀ sign ∈ signs, sign.kind = .plus ∨ sign.kind = .minus) ∧
      (last.kind = .number ∨ last.isInfinity = true) := by
  rw [amount, Language.mem_mul]
  simp only [mem_kstar_letter, mem_letter, isSign, isUnsigned, Bool.or_eq_true, beq_iff_eq]
  constructor
  · rintro ⟨signs, signed, _, ⟨last, counts, rfl⟩, rfl⟩
    exact ⟨signs, last, rfl, signed, counts⟩
  · rintro ⟨signs, last, rfl, signed, counts⟩
    exact ⟨signs, signed, [last], ⟨last, counts, rfl⟩, rfl⟩

theorem isRelation_iff {token : Token} :
    token.isRelation = true ↔ ∃ sense, token.kind.sense? = some sense := by
  cases kind : token.kind <;> simp [isRelation, TokenKind.isRelation, TokenKind.sense?, kind]

theorem sense?_eq_le_iff {kind : TokenKind} : kind.sense? = some .le ↔ kind = .le := by
  cases kind <;> simp [TokenKind.sense?]

theorem sense?_eq_ge_iff {kind : TokenKind} : kind.sense? = some .ge ↔ kind = .ge := by
  cases kind <;> simp [TokenKind.sense?]

end Token

/-- The lexer takes the text of a number for one number. -/
def Numeric (tokens : List Token) : Prop :=
  ∀ token ∈ tokens, token.kind = .number → Lexer.IsNumber token.text

theorem AmountReads.mem_amount {tokens : List Token} {v : EReal} (reads : AmountReads β tokens v) :
    tokens ∈ Token.amount := by
  induction reads with
  | number isNumber => exact Token.mem_amount.mpr ⟨[], _, rfl, by simp, .inl isNumber⟩
  | infinity isInfinity => exact Token.mem_amount.mpr ⟨[], _, rfl, by simp, .inr isInfinity⟩
  | @plus sign _ _ isPlus _ ih =>
    obtain ⟨signs, last, rfl, signed, counts⟩ := Token.mem_amount.mp ih
    exact Token.mem_amount.mpr
      ⟨sign :: signs, last, rfl, List.forall_mem_cons.mpr ⟨.inl isPlus, signed⟩, counts⟩
  | @minus sign _ _ isMinus _ ih =>
    obtain ⟨signs, last, rfl, signed, counts⟩ := Token.mem_amount.mp ih
    exact Token.mem_amount.mpr
      ⟨sign :: signs, last, rfl, List.forall_mem_cons.mpr ⟨.inr isMinus, signed⟩, counts⟩

theorem exists_amountReads {tokens : List Token} (member : tokens ∈ Token.amount)
    (numeric : Numeric tokens) : ∃ v, AmountReads β tokens v := by
  obtain ⟨signs, last, rfl, signed, counts⟩ := Token.mem_amount.mp member
  induction signs with
  | nil =>
    obtain isNumber | isInfinity := counts
    · obtain ⟨numeral, read⟩ := Lexer.exists_numeral (numeric last List.mem_cons_self isNumber)
      obtain ⟨v, value⟩ := Valued.exists_value (β := β) numeral
      exact ⟨v, .number isNumber read value⟩
    · exact ⟨⊤, .infinity isInfinity⟩
  | cons sign signs ih =>
    obtain ⟨isSign, signed⟩ := List.forall_mem_cons.mp signed
    obtain ⟨v, reads⟩ := ih (Token.mem_amount.mpr ⟨signs, last, rfl, signed, counts⟩)
      (fun token member => numeric token (List.mem_cons_of_mem _ member)) signed
    obtain isPlus | isMinus := isSign
    · exact ⟨v, .plus isPlus reads⟩
    · exact ⟨-v, .minus isMinus reads⟩

theorem BoundReads.mem_bound {tokens : List Token} {name : String} {stated : Set EReal}
    (reads : BoundReads β tokens name stated) : tokens ∈ Token.bound := by
  simp only [Token.bound, Language.mem_add, or_assoc]
  cases reads with
  | @free name word isName isFree =>
    exact .inl (cons_mem_letter_mul.mpr ⟨beq_iff_eq.mpr isName, word, isFree, rfl⟩)
  | right isVariable related reads =>
    have isRelation := Token.isRelation_iff.mpr ⟨_, related⟩
    exact .inr (.inl (cons_mem_letter_mul.mpr
      ⟨isVariable, cons_mem_letter_mul.mpr ⟨isRelation, reads.mem_amount⟩⟩))
  | @left name _ _ _ _ reads related isVariable =>
    have isRelation := Token.isRelation_iff.mpr ⟨_, related⟩
    refine .inr (.inr (.inl (Language.mem_mul.mpr ⟨_, reads.mem_amount, _, ?_, rfl⟩)))
    exact cons_mem_letter_mul.mpr ⟨isRelation, name, isVariable, rfl⟩
  | @between first second name amount other sense _ _ reads related isVariable again ordered also =>
    -- Both relations are the same, and it has a direction.
    have around {kind : TokenKind} (isFirst : first.kind = kind) (isSecond : second.kind = kind) :
        amount ++ first :: name :: second :: other ∈ Token.range kind := by
      refine Language.mem_mul.mpr ⟨amount, reads.mem_amount, _, ?_, rfl⟩
      refine cons_mem_letter_mul.mpr ⟨beq_iff_eq.mpr isFirst, ?_⟩
      refine cons_mem_letter_mul.mpr ⟨isVariable, ?_⟩
      exact cons_mem_letter_mul.mpr ⟨beq_iff_eq.mpr isSecond, also.mem_amount⟩
    cases sense with
    | le =>
      rw [Token.sense?_eq_le_iff] at related again
      exact .inr (.inr (.inr (.inl (around related again))))
    | ge =>
      rw [Token.sense?_eq_ge_iff] at related again
      exact .inr (.inr (.inr (.inr (around related again))))
    | eq => exact absurd rfl ordered

theorem exists_boundReads {tokens : List Token} (member : tokens ∈ Token.bound)
    (numeric : Numeric tokens) : ∃ name stated, BoundReads β tokens name stated := by
  simp only [Token.bound, Language.mem_add, or_assoc] at member
  -- Two amounts around a variable, in either direction
  have between {kind : TokenKind} {sense : Sense} (related : kind.sense? = some sense)
      (ordered : sense ≠ .eq) (member : tokens ∈ Token.range kind) :
      ∃ name stated, BoundReads β tokens name stated := by
    obtain ⟨amount, isAmount, _, more, rfl⟩ := Language.mem_mul.mp member
    obtain ⟨first, _, rfl, isFirst, more⟩ := mem_letter_mul.mp more
    obtain ⟨name, _, rfl, isVariable, more⟩ := mem_letter_mul.mp more
    obtain ⟨second, other, rfl, isSecond, isOther⟩ := mem_letter_mul.mp more
    rw [Numeric, List.forall_mem_append] at numeric
    obtain ⟨v, reads⟩ := exists_amountReads (β := β) isAmount numeric.1
    obtain ⟨w, also⟩ := exists_amountReads (β := β) isOther
      fun token member => numeric.2 token (by simp [member])
    refine ⟨_, _, .between reads ?_ isVariable ?_ ordered also⟩
    · rw [beq_iff_eq.mp isFirst, related]
    · rw [beq_iff_eq.mp isSecond, related]
  obtain free | right | left | rising | falling := member
  · obtain ⟨name, _, rfl, isName, word, isFree, rfl⟩ := mem_letter_mul.mp free
    exact ⟨_, _, .free (beq_iff_eq.mp isName) isFree⟩
  · obtain ⟨name, _, rfl, isVariable, more⟩ := mem_letter_mul.mp right
    obtain ⟨relation, amount, rfl, isRelation, isAmount⟩ := mem_letter_mul.mp more
    obtain ⟨sense, related⟩ := Token.isRelation_iff.mp isRelation
    obtain ⟨v, reads⟩ := exists_amountReads (β := β) isAmount
      fun token member => numeric token (by simp [member])
    exact ⟨_, _, .right isVariable related reads⟩
  · obtain ⟨amount, isAmount, _, more, rfl⟩ := Language.mem_mul.mp left
    obtain ⟨relation, _, rfl, isRelation, name, isVariable, rfl⟩ := mem_letter_mul.mp more
    obtain ⟨sense, related⟩ := Token.isRelation_iff.mp isRelation
    rw [Numeric, List.forall_mem_append] at numeric
    obtain ⟨v, reads⟩ := exists_amountReads (β := β) isAmount numeric.1
    exact ⟨_, _, .left reads related isVariable⟩
  · exact between rfl (by decide) rising
  · exact between rfl (by decide) falling

/-! ### Reading bounds -/

variable (β) in
/-- The reader accepts the bounds, and no other lines, and returns what they say. It never looks for
a token where the line has none. -/
structure ReadsBound (line : Line) : Prop where
  accepts : (∃ statement : BoundStatement β, readBound line = .ok statement) ↔
    line.tokens ∈ Token.bound
  returns : ∀ name stated, (∃ statement : BoundStatement β, readBound line = .ok statement ∧
    statement.name = name ∧ statement.kind.Denotes stated) ↔ BoundReads β line.tokens name stated
  denotes : ∀ statement : BoundStatement β, readBound line = .ok statement →
    ∃ stated, statement.kind.Denotes stated
  found : (readBoundAt line.tokens).run = some (readBound (β := β) line)

theorem BoundKind.Denotes.unique {kind : BoundKind β} {stated other : Set EReal}
    (denotes : kind.Denotes stated) (also : kind.Denotes other) : stated = other := by
  obtain ⟨low, high, lower, upper, rfl⟩ := denotes
  obtain ⟨low', high', lower', upper', rfl⟩ := also
  cases lower.symm.trans lower'
  cases upper.symm.trans upper'
  rfl

theorem readsBound_of_numeric {line : Line} (numeric : Numeric line.tokens) :
    ReadsBound β line where
  accepts := by
    constructor
    · rintro ⟨statement, read⟩
      obtain ⟨stated, _, reads⟩ := (readBound_reads line).of_ok read
      exact reads.mem_bound
    · intro member
      obtain ⟨name, stated, reads⟩ := exists_boundReads (β := β) member numeric
      obtain ⟨statement, read, _⟩ := exists_readBound reads
      exact ⟨statement, read⟩
  returns name stated := by
    constructor
    · rintro ⟨statement, read, rfl, denotes⟩
      obtain ⟨other, also, reads⟩ := (readBound_reads line).of_ok read
      exact denotes.unique also ▸ reads
    · exact exists_readBound
  denotes statement read := by
    obtain ⟨stated, denotes, _⟩ := (readBound_reads line).of_ok read
    exact ⟨stated, denotes⟩
  found := congrArg ExceptT.run (readBoundAt_eq line)

/-- Bounds are read exactly, with floating-point numbers and with rational ones. -/
theorem readBound_reads_bounds {line : Line}
    (numeric : ∀ token ∈ line.tokens, token.kind = .number → Lexer.IsNumber token.text) :
    ReadsBound Float line ∧ ReadsBound ExtendedRat line :=
  ⟨readsBound_of_numeric numeric, readsBound_of_numeric numeric⟩

/-- The line `- inf <= x <= - - 4`. -/
def twoSided : Line :=
  ⟨⟨.minus, ⟨0, 1⟩, "-", 1⟩, [⟨.ident, ⟨2, 5⟩, "inf", 1⟩, ⟨.le, ⟨6, 8⟩, "<=", 1⟩,
    ⟨.ident, ⟨9, 10⟩, "x", 1⟩, ⟨.le, ⟨11, 13⟩, "<=", 1⟩, ⟨.minus, ⟨14, 15⟩, "-", 1⟩,
    ⟨.minus, ⟨16, 17⟩, "-", 1⟩, ⟨.number, ⟨18, 19⟩, "4", 1⟩]⟩

theorem readBound_reads_two_sided :
    (∀ token ∈ twoSided.tokens, token.kind = .number → Lexer.IsNumber token.text) ∧
      twoSided.tokens ∈ Token.bound ∧
      ∃ statement : BoundStatement ExtendedRat, readBound twoSided = .ok statement ∧
        statement.name = "x" ∧ statement.kind.Denotes (Set.Icc ⊥ ((4 : ℝ) : EReal)) := by
  have numeric : ∀ token ∈ twoSided.tokens, token.kind = .number → Lexer.IsNumber token.text := by
    intro token member isNumber
    obtain rfl : token = ⟨.number, ⟨18, 19⟩, "4", 1⟩ := by
      simp only [twoSided, Line.tokens, List.mem_cons, List.not_mem_nil, or_false] at member
      obtain rfl | rfl | rfl | rfl | rfl | rfl | rfl | rfl := member <;>
        first | rfl | cases isNumber
    exact ⟨'4', [], rfl, by decide⟩
  have below : AmountReads ExtendedRat
      [⟨.minus, ⟨0, 1⟩, "-", 1⟩, ⟨.ident, ⟨2, 5⟩, "inf", 1⟩] (-⊤) :=
    .minus rfl (.infinity (by cbv))
  have value : ExtendedRat.value (.finite (Numeral.toScalar ⟨4, 0⟩)) = ((4 : ℝ) : EReal) := by
    have four : (Numeral.toScalar ⟨4, 0⟩ : Rat) = 4 := by
      show ((4 : Nat) : Rat) * 10 ^ (0 : Int) = 4
      norm_num
    rw [four]
    norm_num [ExtendedRat.value]
  have above : AmountReads ExtendedRat [⟨.minus, ⟨14, 15⟩, "-", 1⟩, ⟨.minus, ⟨16, 17⟩, "-", 1⟩,
      ⟨.number, ⟨18, 19⟩, "4", 1⟩] (- -((4 : ℝ) : EReal)) :=
    .minus rfl (.minus rfl (.number rfl rfl (congrArg some value)))
  have reads : BoundReads ExtendedRat twoSided.tokens "x" (Set.Icc (-⊤) (- -((4 : ℝ) : EReal))) :=
    have isVariable : (⟨.ident, ⟨9, 10⟩, "x", 1⟩ : Token).isVariable = true := by cbv
    have ordered : Sense.le ≠ .eq := by decide
    .between below rfl isVariable rfl ordered above
  rw [EReal.neg_top, neg_neg] at reads
  obtain ⟨-, exactly⟩ := readBound_reads_bounds numeric
  obtain ⟨statement, read, named, denotes⟩ := (exactly.returns _ _).mpr reads
  exact ⟨numeric, exactly.accepts.mp ⟨statement, read⟩, statement, read, named, denotes⟩

end LinOpt.Lp
