import LinOpt.Lp.Bound
import LinOpt.Proofs.Results

/-!
# Places of tokens

The reader of bounds takes tokens off a list. It can as well keep the list and count how far it has
come; an error then looks back for the token that it blames, which is the last one or the one
before. Such a look-up could miss the list. It never does, and both readers return the same.
-/

namespace LinOpt.Lp

variable {α β : Type} [Scalar α] [Endpoint β α]

/-! ### The reader that counts -/

/-- A computation whose look-ups have all found a token, or nothing. -/
abbrev Checked (γ : Type) : Type := ExceptT ParseError Option γ

def checked {γ : Type} (result : Except ParseError γ) : Checked γ := ExceptT.mk (some result)

/-- The token at the given distance before a place. -/
def tokenBefore (tokens : List Token) (distance place : Nat) : Checked Token :=
  ExceptT.mk ((if distance ≤ place then tokens[place - distance]? else none).map .ok)

/-- Reads an operand from a place on and returns the place after it. -/
def readOperandAt (tokens : List Token) (line : Nat) (negative signed : Bool) (place : Nat) :
    Except ParseError (Operand β × Nat) :=
  match _found : tokens[place]? with
  | none => .error (.unexpectedEol .numberOrVariable line)
  | some token =>
    match token.kind with
    | .plus => readOperandAt tokens line negative true (place + 1)
    | .minus => readOperandAt tokens line (!negative) true (place + 1)
    | .number => do
      let value : α ← readNumber token
      return (.value (Endpoint.ofScalar (Scalar.signed negative value)), place + 1)
    | .ident =>
      if token.isInfinity then .ok (.value (Endpoint.infinity negative), place + 1)
      else if signed then .error (.unexpected token .number)
      else .ok (.name token, place + 1)
    | _ => .error (.unexpected token .numberOrVariable)
termination_by tokens.length - place
decreasing_by
  all_goals
    obtain ⟨below, _⟩ := List.getElem?_eq_some_iff.mp _found
    omega

def readRelationAt (tokens : List Token) (line place : Nat) : Except ParseError (Sense × Nat) :=
  match tokens[place]? with
  | none => .error (.unexpectedEol .relation line)
  | some token =>
    match token.kind.sense? with
    | some sense => .ok (sense, place + 1)
    | none => .error (.unexpected token .relation)

def readBoundKindAt (tokens : List Token) (line : Nat) : Checked (String × BoundKind β × Nat) := do
  let (left, place) ← checked (readOperandAt tokens line false false 0)
  let (sense, place) ← checked (readRelationAt tokens line place)
  let (right, place) ← checked (readOperandAt tokens line false false place)
  match left, right with
  | .name token, .value value => return (token.text, .ofRight sense value, place)
  | .value value, .name token =>
    if place = tokens.length then return (token.text, .ofLeft sense value, place)
    else
      let (secondSense, place) ← checked (readRelationAt tokens line place)
      let (last, place) ← checked (readOperandAt tokens line false false place)
      match last with
      | .name _ => throw (.unexpected (← tokenBefore tokens 1 place) .number)
      | .value second =>
        match BoundKind.between? value sense secondSense second with
        | some kind => return (token.text, kind, place)
        | none => throw (.unexpected (← tokenBefore tokens 2 place) .matchingRelation)
  | .value _, .value _ => throw (.unexpected (← tokenBefore tokens 1 place) .variableName)
  | .name _, .name token => throw (.unexpected token .number)

def readBoundAt (tokens : List Token) : Checked (BoundStatement β) := do
  let first ← tokenBefore tokens 0 0
  match tokens.find? (·.kind == .colon), freeName? ⟨first, tokens.tail⟩ with
  | some colon, _ => throw (.nameInBounds colon.line)
  | none, some name => return ⟨name, .free, first.line, Token.spanOf tokens⟩
  | none, none =>
    let (name, kind, place) ← readBoundKindAt tokens first.line
    match tokens[place]? with
    | none => return ⟨name, kind, first.line, Token.spanOf tokens⟩
    | some extra => throw (.unexpected extra .endOfLine)

/-! ### Places and rests -/

variable {tokens rest : List Token}

theorem getElem?_of_suffix (suffix : rest <:+ tokens) (distance : Nat) :
    tokens[tokens.length - rest.length + distance]? = rest[distance]? := by
  obtain ⟨before, rfl⟩ := suffix
  rw [List.length_append, Nat.add_sub_cancel, List.getElem?_append_right (Nat.le_add_right _ _),
    Nat.add_sub_cancel_left]

/-- The tokens between a place and the rest are found when looking back from where it begins. -/
theorem tokenBefore_of_suffix {seen : List Token} (suffix : seen ++ rest <:+ tokens) {token : Token}
    (first : seen.head? = some token) :
    tokenBefore tokens seen.length (tokens.length - rest.length) = checked (.ok token) := by
  have fits := suffix.length_le
  rw [List.length_append] at fits
  -- Going back over the tokens that have been seen leads to where the suffix begins.
  have place : tokens.length - rest.length - seen.length =
      tokens.length - (seen ++ rest).length + 0 := by
    rw [List.length_append]
    omega
  rw [tokenBefore, if_pos (by omega), place, getElem?_of_suffix suffix, ← List.head?_eq_getElem?,
    List.head?_append, first]
  rfl

theorem readOperandAt_eq (line : Nat) (negative : Bool) (sign? : Option Token)
    (suffix : rest <:+ tokens) :
    readOperandAt tokens line negative sign?.isSome (tokens.length - rest.length) =
      (readOperand (β := β) line negative sign? rest).map
        fun reading => (reading.operand, tokens.length - reading.rest.length) := by
  induction rest generalizing negative sign? with
  | nil =>
    have found := getElem?_of_suffix suffix 0
    rw [Nat.add_zero, List.getElem?_nil] at found
    rw [readOperandAt]
    split
    next => rfl
    next token some =>
      rw [found] at some
      cases some
  | cons token rest ih =>
    have found := getElem?_of_suffix suffix 0
    have next : tokens.length - (token :: rest).length + 1 = tokens.length - rest.length := by
      have fits := suffix.length_le
      rw [List.length_cons] at fits ⊢
      omega
    rw [Nat.add_zero, List.getElem?_cons_zero] at found
    have ih (negative : Bool) (sign? : Option Token) :=
      ih negative sign? ((List.suffix_cons token rest).trans suffix)
    rw [readOperandAt]
    split
    next none =>
      rw [found] at none
      cases none
    next token' some =>
      obtain rfl : token = token' := Option.some_inj.mp (found.symm.trans some)
      rw [readOperand, next]
      cases kind : token.kind with
      | plus => exact ih negative (Option.some token)
      | minus => exact ih (!negative) (Option.some token)
      | number =>
        dsimp only
        cases (readNumber token : Except ParseError α) <;> rfl
      | ident =>
        dsimp only
        by_cases infinite : token.isInfinity = true
        · rw [if_pos infinite, if_pos infinite]
          rfl
        · rw [if_neg infinite, if_neg infinite]
          cases sign? <;> rfl
      | _ => rfl

omit [Scalar α] [Endpoint β α] in
theorem readRelationAt_eq (line : Nat) (suffix : rest <:+ tokens) :
    readRelationAt tokens line (tokens.length - rest.length) =
      (readRelation line rest).map
        fun reading => (reading.1, tokens.length - reading.2.2.length) := by
  have found := getElem?_of_suffix suffix 0
  rw [Nat.add_zero] at found
  rw [readRelationAt, found]
  cases rest with
  | nil => rfl
  | cons token rest =>
    have next : tokens.length - (token :: rest).length + 1 = tokens.length - rest.length := by
      have fits := suffix.length_le
      rw [List.length_cons] at fits ⊢
      omega
    rw [List.getElem?_cons_zero, readRelation, next]
    dsimp only
    cases token.kind.sense? <;> rfl

/-- The last sign and the token of an operand stand before the rest. Without a sign the token
before the operand takes its place. -/
theorem readOperand_suffix {line : Nat} {negative : Bool} {sign? : Option Token}
    {tokens : List Token} {reading : OperandReading β}
    (read : readOperand line negative sign? tokens = .ok reading) (prior : Token) :
    reading.sign?.getD prior :: reading.token :: reading.rest <:+ sign?.getD prior :: tokens ∧
      ∀ name, reading.operand = .name name → reading.token = name := by
  induction tokens generalizing negative sign? with
  | nil => cases read
  | cons token rest ih =>
    rw [readOperand] at read
    cases kind : token.kind with
    | plus | minus =>
      rw [kind] at read
      obtain ⟨suffix, named⟩ := ih read
      exact ⟨suffix.trans (List.suffix_cons _ _), named⟩
    | number =>
      rw [kind] at read
      obtain ⟨value, _, same⟩ := bind_eq_ok_iff.mp read
      cases same
      exact ⟨List.suffix_rfl, nofun⟩
    | ident =>
      rw [kind] at read
      dsimp only at read
      split_ifs at read <;> cases read
      · exact ⟨List.suffix_rfl, nofun⟩
      · exact ⟨List.suffix_rfl, by rintro _ ⟨⟩; rfl⟩
    | _ =>
      rw [kind] at read
      cases read

theorem readOperand_rest {line : Nat} {negative : Bool} {tokens : List Token}
    {reading : OperandReading β} (read : readOperand line negative none tokens = .ok reading) :
    reading.token :: reading.rest <:+ tokens := by
  obtain whole | inside := List.suffix_cons_iff.mp (readOperand_suffix read reading.token).1
  · exact (List.cons.inj whole).2 ▸ List.suffix_rfl
  · exact (List.suffix_cons _ _).trans inside

theorem readRelation_eq_ok_iff {line : Nat} {tokens rest : List Token} {sense : Sense}
    {relation : Token} : readRelation line tokens = .ok (sense, relation, rest) ↔
      tokens = relation :: rest ∧ relation.kind.sense? = some sense := by
  cases tokens with
  | nil => simp [readRelation]
  | cons token tokens =>
    rw [readRelation]
    split
    next found =>
      constructor
      · intro same
        cases same
        exact ⟨rfl, found⟩
      · rintro ⟨same, related⟩
        cases same
        cases found.symm.trans related
        rfl
    next none =>
      constructor
      · intro same
        cases same
      · rintro ⟨same, related⟩
        cases same
        cases none.symm.trans related

/-! ### Both readers -/

theorem checked_ok_bind {γ δ : Type} (x : γ) (rest : γ → Checked δ) :
    checked (.ok x) >>= rest = rest x := rfl

/-- A step that returns what the other reader returns, and then the same with another rest. -/
theorem checked_bind {γ γ' δ δ' : Type} {result : Except ParseError γ} {place : γ → γ'}
    {here : γ' → Checked δ'} {there : γ → Except ParseError δ} {final : δ → δ'}
    (same : ∀ x, result = .ok x → here (place x) = checked ((there x).map final)) :
    checked (result.map place) >>= here = checked ((result >>= there).map final) := by
  cases result with
  | error => rfl
  | ok x => exact same x rfl

theorem readBoundKindAt_eq (line : Line) :
    readBoundKindAt line.tokens line.first.line = checked ((readBoundKind (β := β) line).map
      fun reading => (reading.1, reading.2.1, line.tokens.length - reading.2.2.length)) := by
  -- The places of the one reader belong to the rests of the other, so both go the same way.
  have operandAt (rest : List Token) (suffix : rest <:+ line.tokens) :
      readOperandAt line.tokens line.first.line false false
        (line.tokens.length - rest.length) = _ :=
    readOperandAt_eq (β := β) line.first.line false none suffix
  have start := operandAt line.tokens List.suffix_rfl
  rw [Nat.sub_self] at start
  rw [readBoundKindAt, readBoundKind, start]
  refine checked_bind fun left first => ?_
  have leftSuffix := (List.suffix_cons _ _).trans (readOperand_rest first)
  dsimp only
  rw [readRelationAt_eq _ leftSuffix]
  refine checked_bind fun (sense, relation, after) second => ?_
  rw [(readRelation_eq_ok_iff.mp second).1] at leftSuffix
  have afterSuffix := (List.suffix_cons _ _).trans leftSuffix
  dsimp only
  rw [operandAt after afterSuffix]
  refine checked_bind fun right third => ?_
  have tokenSuffix := (readOperand_rest third).trans afterSuffix
  have rightSuffix := (List.suffix_cons _ _).trans tokenSuffix
  cases left.operand with
  | name token => cases right.operand <;> rfl
  | value x =>
    cases right.operand with
    | value y =>
      have found : tokenBefore line.tokens 1 _ = _ :=
        @tokenBefore_of_suffix _ _ [right.token] tokenSuffix _ rfl
      dsimp only
      rw [found]
      rfl
    | name token =>
      have ended : line.tokens.length - right.rest.length = line.tokens.length ↔
          right.rest.isEmpty = true := by
        have fits := tokenSuffix.length_le
        rw [List.length_cons] at fits
        rw [List.isEmpty_iff_length_eq_zero]
        omega
      simp only [ended]
      split_ifs with alone
      · rw [List.isEmpty_iff.mp alone]
        rfl
      rw [readRelationAt_eq _ rightSuffix]
      refine checked_bind fun (sense', relation', after') fourth => ?_
      rw [(readRelation_eq_ok_iff.mp fourth).1] at rightSuffix
      have afterSuffix' := (List.suffix_cons _ _).trans rightSuffix
      dsimp only
      rw [operandAt after' afterSuffix']
      refine checked_bind fun last fifth => ?_
      obtain ⟨signSuffix, named⟩ := readOperand_suffix fifth relation'
      cases operand : last.operand with
      | name other =>
        have found : tokenBefore line.tokens 1 _ = _ := @tokenBefore_of_suffix _ _ [last.token]
          ((readOperand_rest fifth).trans afterSuffix') _ rfl
        dsimp only
        rw [found, named other operand]
        rfl
      | value y =>
        have found : tokenBefore line.tokens 2 _ = _ :=
          @tokenBefore_of_suffix _ _ [_, last.token] (signSuffix.trans rightSuffix) _ rfl
        dsimp only
        cases BoundKind.between? x sense sense' y with
        | some kind => rfl
        | none =>
          dsimp only
          rw [found]
          rfl

theorem readBoundKind_suffix (line : Line) :
    Ends (fun reading => reading.2.2 <:+ line.tokens) (fun _ => True)
      (readBoundKind (β := β) line) := by
  have operand {rest : List Token} (suffix : rest <:+ line.tokens) :
      Ends (fun reading => reading.rest <:+ line.tokens) (fun _ => True)
        (readOperand (β := β) line.first.line false none rest) :=
    Ends.of_forall_ok fun reading read =>
      (List.suffix_cons _ _).trans ((readOperand_rest read).trans suffix)
  have relation {rest : List Token} (suffix : rest <:+ line.tokens) :
      Ends (fun reading => reading.2.2 <:+ line.tokens) (fun _ => True)
        (readRelation line.first.line rest) :=
    Ends.of_forall_ok fun reading read => by
      rw [(readRelation_eq_ok_iff.mp read).1] at suffix
      exact (List.suffix_cons _ _).trans suffix
  refine (operand List.suffix_rfl).bind fun left leftSuffix => ?_
  refine (relation leftSuffix).bind fun (sense, first, after) afterSuffix => ?_
  refine (operand afterSuffix).bind fun right rightSuffix => ?_
  dsimp only
  split
  · exact rightSuffix
  · split_ifs
    · exact List.nil_suffix
    · refine (relation rightSuffix).bind fun (again, second, after) afterSuffix => ?_
      refine (operand afterSuffix).bind fun last lastSuffix => ?_
      dsimp only
      split
      · trivial
      · split
        · exact lastSuffix
        · trivial
  · trivial
  · trivial

/-- No look-up misses the tokens of the line, and both readers return the same. -/
theorem readBoundAt_eq (line : Line) :
    readBoundAt line.tokens = checked (readBound (β := β) line) := by
  have first : tokenBefore line.tokens 0 0 = checked (.ok line.first) := rfl
  have whole : (⟨line.first, line.tokens.tail⟩ : Line) = line := rfl
  rw [readBoundAt, readBound, first, checked_ok_bind, whole]
  cases line.tokens.find? (·.kind == .colon) with
  | some colon => rfl
  | none =>
    cases freeName? line with
    | some name => rfl
    | none =>
      dsimp only
      rw [readBoundKindAt_eq]
      cases read : readBoundKind (β := β) line with
      | error => rfl
      | ok reading =>
        obtain ⟨name, kind, rest⟩ := reading
        have found := getElem?_of_suffix ((readBoundKind_suffix line).of_ok read) 0
        rw [Except.map, checked_ok_bind, ok_bind]
        dsimp only at found ⊢
        rw [Nat.add_zero] at found
        rw [found]
        cases rest <;> rfl

end LinOpt.Lp
