import Mathlib.Tactic.SplitIfs
import LinOpt.Lp.Model
import LinOpt.Proofs.Lp.Sections

/-!
# Lines of errors

A reader blames a token that it has seen, or at least the line of one, and the statements that it
returns are on lines that it has seen, which the compiler blames in turn. Only a file without any
token to read has no line to blame.
-/

namespace LinOpt.Lp

variable {α β : Type} [Scalar α] [Endpoint β α]

/-- A token on the line has been seen. -/
def LineOf (seen : Token → Prop) (line : Nat) : Prop := ∃ token, seen token ∧ token.line = line

/-- The error is about a token that has been seen, or about its line. -/
inductive ParseError.Blames (seen : Token → Prop) : ParseError → Prop
  | unexpectedToken {token : Token} (known : seen token) (expected : Expected) :
    Blames seen (.unexpected token expected)
  | unexpectedEol {line : Nat} (known : LineOf seen line) (expected : Expected) :
    Blames seen (.unexpectedEol expected line)
  | invalidNumber {token : Token} (known : seen token) (number : token.kind = .number)
    (unreadable : Numeral.read? token.text.toList = none) :
    Blames seen (.invalidNumber token.text token.line)
  | invalidCharacter {token : Token} (known : seen token) (error : token.kind = .error) :
    Blames seen (.invalidCharacter token.text token.line)
  | invalidName {line : Nat} (known : LineOf seen line) (text : String) :
    Blames seen (.invalidName text line)
  | nameInBounds {line : Nat} (known : LineOf seen line) : Blames seen (.nameInBounds line)
  | incompleteConstraint {line : Nat} (known : LineOf seen line) :
    Blames seen (.incompleteConstraint line)
  | missingEnd {line : Nat} (known : LineOf seen line) : Blames seen (.missingEnd line)

/-- All tokens have been seen. -/
def Located (seen : Token → Prop) (tokens : List Token) : Prop := ∀ token ∈ tokens, seen token

/-- A reader looks at the token. -/
def Token.Visible (token : Token) : Prop :=
  token.kind ≠ .newline ∧ token.kind ≠ .comment ∧ token.kind ≠ .eof

section Seen

variable {seen : Token → Prop}

theorem Located.append {left right : List Token} (first : Located seen left)
    (second : Located seen right) : Located seen (left ++ right) :=
  List.forall_mem_append.mpr ⟨first, second⟩

theorem Located.of_subset {part tokens : List Token} (located : Located seen tokens)
    (subset : part ⊆ tokens) : Located seen part :=
  fun token member => located token (subset member)

theorem Located.cons_iff {token : Token} {tokens : List Token} :
    Located seen (token :: tokens) ↔ seen token ∧ Located seen tokens :=
  List.forall_mem_cons

theorem LineOf.of_seen {token : Token} (known : seen token) : LineOf seen token.line :=
  ⟨token, known, rfl⟩

/-! ### Expressions -/

theorem readNumber_on {token : Token} (known : seen token) (number : token.kind = .number) :
    Ends (fun _ : α => True) (ParseError.Blames seen) (readNumber token) := by
  rw [readNumber]
  split
  · exact trivial
  next unreadable => exact .invalidNumber known number unreadable

/-- Where the end of the tokens is an error, one of them has been read. -/
theorem readTermsFrom_on {line : Nat} {state : TermState α} {tokens : List Token}
    (read : LineOf seen line ∨ ∃ negative, state = .operand negative false)
    (located : Located seen tokens) :
    Ends (fun _ => True) (ParseError.Blames seen) (readTermsFrom line state tokens) := by
  fun_induction readTermsFrom line state tokens
  case case1 | case2 => trivial
  case case3 | case4 =>
    rcases read with read | ⟨_, same⟩
    · exact .unexpectedEol read _
    · cases same
  case case5 ih | case6 ih | case13 ih | case14 ih =>
    rw [Located.cons_iff] at located
    exact ih (.inl (.of_seen located.1)) located.2
  case case7 number ih =>
    rw [Located.cons_iff] at located
    exact (readNumber_on located.1 number).bind fun coefficient _ =>
      ih coefficient (.inl (.of_seen located.1)) located.2
  case case8 ih | case10 ih =>
    rw [Located.cons_iff] at located
    exact (ih (.inl (.of_seen located.1)) located.2).bind fun _ _ => trivial
  all_goals exact .unexpectedToken (located _ List.mem_cons_self) _

theorem readTerms_on {tokens : List Token} (located : Located seen tokens) :
    Ends (fun _ : List (Term α) => True) (ParseError.Blames seen) (readTerms tokens) :=
  readTermsFrom_on (.inr ⟨false, rfl⟩) located

theorem readRhs_on {line : Nat} (opened : LineOf seen line) {negative : Bool} {tokens : List Token}
    (located : Located seen tokens) :
    Ends (fun _ : α => True) (ParseError.Blames seen) (readRhs line negative tokens) := by
  fun_induction readRhs (α := α) line negative tokens
  case case1 => exact .unexpectedEol opened _
  case case2 ih | case3 ih => exact ih (Located.cons_iff.mp located).2
  case case4 token rest number =>
    rw [Located.cons_iff] at located
    refine (readNumber_on located.1 number).bind fun value _ => ?_
    cases rest with
    | nil => trivial
    | cons extra rest => exact .unexpectedToken (located.2 extra List.mem_cons_self) _
  case case5 => exact .unexpectedToken (located _ List.mem_cons_self) _

/-! ### Objectives and constraints -/

theorem splitLabel_on {tokens : List Token} (located : Located seen tokens) :
    Ends (fun parts => Located seen parts.2 ∧ ∀ label ∈ parts.1, seen label.colon)
      (ParseError.Blames seen) (splitLabel tokens) := by
  have after : Located seen (tokens.dropWhile (·.kind != .colon)) :=
    located.of_subset (List.dropWhile_subset _)
  dsimp only [splitLabel]
  split
  · exact ⟨located, by simp⟩
  next colon rest name split _ =>
    rw [split, Located.cons_iff] at after
    split
    · exact ⟨after.2, by simpa using after.1⟩
    · exact .invalidName (.of_seen after.1) _
  next colon rest split _ =>
    rw [split, Located.cons_iff] at after
    exact .invalidName (.of_seen after.1) _

theorem OpenObjective.addLine_on {objective : OpenObjective} {tokens : List Token}
    (opened : Located seen (objective.keyword :: objective.tokens))
    (located : Located seen tokens) :
    Ends (fun next => Located seen (next.keyword :: next.tokens)) (ParseError.Blames seen)
      (objective.addLine tokens) := by
  rw [Located.cons_iff] at opened
  refine (splitLabel_on located).bind fun (label?, rest) ⟨more, labelled⟩ => ?_
  cases label? with
  | none => exact Located.cons_iff.mpr ⟨opened.1, opened.2.append more⟩
  | some label =>
    dsimp only
    split
    · exact .unexpectedToken (labelled label rfl) _
    · exact Located.cons_iff.mpr ⟨opened.1, more⟩

theorem OpenObjective.close_on {objective : OpenObjective}
    (opened : Located seen (objective.keyword :: objective.tokens)) :
    Ends (fun _ : ObjectiveStatement α => True) (ParseError.Blames seen) objective.close :=
  (readTerms_on (Located.cons_iff.mp opened).2).bind fun _ _ => trivial

/-- The constraint is on a line that has been seen, and so have been its tokens. -/
def OpenConstraint.Located (seen : Token → Prop) (constraint : OpenConstraint) : Prop :=
  LineOf seen constraint.line ∧ Lp.Located seen constraint.tokens

theorem OpenConstraint.close_on {constraint : OpenConstraint} (opened : constraint.Located seen) :
    Ends (fun statement : ConstraintStatement α => LineOf seen statement.line)
      (ParseError.Blames seen) constraint.close := by
  unfold OpenConstraint.close
  split
  · exact .incompleteConstraint opened.1
  next left relation right parts =>
    -- Both sides are tokens of the constraint, so a side that fails to read blames one of them.
    obtain ⟨first, second⟩ : left ⊆ constraint.tokens ∧ relation :: right ⊆ constraint.tokens := by
      unfold OpenConstraint.split? at parts
      split at parts
      · cases parts
      next split =>
        cases parts
        rw [← split]
        exact ⟨List.takeWhile_subset _, List.dropWhile_subset _⟩
    have after := Located.cons_iff.mp (opened.2.of_subset second)
    refine (readTerms_on (opened.2.of_subset first)).bind fun terms _ => ?_
    exact (readRhs_on (.of_seen after.1) after.2).bind fun rhs _ => opened.1

theorem Progress.extendConstraint_on {open? : Option OpenConstraint} {line : Line}
    (opened : ∀ constraint ∈ open?, constraint.Located seen)
    (located : Located seen line.tokens) :
    Ends (OpenConstraint.Located seen) (ParseError.Blames seen) (extendConstraint open? line) := by
  refine (splitLabel_on located).bind fun (label?, rest) ⟨more, _⟩ => ?_
  cases open? with
  | none =>
    have first : LineOf seen line.first.line := .of_seen (located _ List.mem_cons_self)
    cases label? <;> exact ⟨first, more⟩
  | some constraint =>
    have opened := opened constraint rfl
    cases label? with
    | none => exact ⟨opened.1, opened.2.append more⟩
    | some label => exact .incompleteConstraint opened.1

/-! ### Bounds -/

/-- The tokens of a reading have been seen, and so have been those that are left. -/
structure OperandReading.Located (seen : Token → Prop) (reading : OperandReading β) : Prop where
  token : seen reading.token
  sign : ∀ token ∈ reading.sign?, seen token
  name : ∀ token, reading.operand = .name token → seen token
  rest : Lp.Located seen reading.rest

theorem readOperand_on {line : Nat} (opened : LineOf seen line) {negative : Bool}
    {sign? : Option Token} (signed : ∀ token ∈ sign?, seen token) {tokens : List Token}
    (located : Located seen tokens) :
    Ends (OperandReading.Located seen) (ParseError.Blames seen)
      (readOperand (β := β) line negative sign? tokens) := by
  -- Along the signs, each of which is remembered as the one to be blamed later.
  fun_induction readOperand (β := β) line negative sign? tokens
  case case1 => exact .unexpectedEol opened _
  case case2 ih | case3 ih =>
    rw [Located.cons_iff] at located
    exact ih (by simpa using located.1) located.2
  case case4 number =>
    rw [Located.cons_iff] at located
    exact (readNumber_on located.1 number).bind fun value _ =>
      ⟨located.1, signed, by simp, located.2⟩
  case case5 =>
    rw [Located.cons_iff] at located
    exact ⟨located.1, signed, by simp, located.2⟩
  case case6 =>
    rw [Located.cons_iff] at located
    exact ⟨located.1, signed, by simpa using located.1, located.2⟩
  all_goals exact .unexpectedToken (located _ List.mem_cons_self) _

theorem readRelation_on {line : Nat} (opened : LineOf seen line) {tokens : List Token}
    (located : Located seen tokens) :
    Ends (fun reading => seen reading.2.1 ∧ Located seen reading.2.2) (ParseError.Blames seen)
      (readRelation line tokens) := by
  cases tokens with
  | nil => exact .unexpectedEol opened _
  | cons token rest =>
    rw [Located.cons_iff] at located
    rw [readRelation]
    split
    · exact located
    · exact .unexpectedToken located.1 _

theorem readBoundKind_on {line : Line} (located : Located seen line.tokens) :
    Ends (fun reading => Located seen reading.2.2) (ParseError.Blames seen)
      (readBoundKind (β := β) line) := by
  have first : LineOf seen line.first.line := .of_seen (located _ List.mem_cons_self)
  have unsigned : ∀ token ∈ (none : Option Token), seen token := by simp
  refine (readOperand_on first unsigned located).bind fun left left_located => ?_
  refine (readRelation_on first left_located.rest).bind fun (_, _, _) ⟨_, more⟩ => ?_
  refine (readOperand_on first unsigned more).bind fun right right_located => ?_
  dsimp only
  split
  · exact right_located.rest
  · split
    · exact List.forall_mem_nil _
    · refine (readRelation_on first right_located.rest).bind fun (_, _, _) ⟨related, more⟩ => ?_
      refine (readOperand_on first unsigned more).bind fun last last_located => ?_
      dsimp only
      split
      next other named => exact .unexpectedToken (last_located.name other named) _
      · split
        · exact last_located.rest
        · -- Relations in opposite directions blame the last sign, or the relation before it.
          refine .unexpectedToken ?_ _
          cases sign : last.sign? with
          | none => exact related
          | some token => exact last_located.sign token sign
  · exact .unexpectedToken right_located.token _
  next token _ named => exact .unexpectedToken (right_located.name token named) _

theorem readBound_on {line : Line} (located : Located seen line.tokens) :
    Ends (fun statement => LineOf seen statement.line) (ParseError.Blames seen)
      (readBound (β := β) line) := by
  have first : LineOf seen line.first.line := .of_seen (located _ List.mem_cons_self)
  unfold readBound
  dsimp only
  split
  next colon found =>
    exact .nameInBounds (.of_seen (located colon (List.mem_of_find?_eq_some found)))
  · exact first
  · refine (readBoundKind_on located).bind fun (name, kind, rest) more => ?_
    cases rest with
    | nil => exact first
    | cons extra rest => exact .unexpectedToken (more extra List.mem_cons_self) _

/-! ### Files -/

theorem Keyword.ofLine?_subset {tokens rest : List Token} {keyword : Keyword}
    (found : Keyword.ofLine? tokens = some (keyword, rest)) : rest ⊆ tokens := by
  unfold Keyword.ofLine? at found
  split at found
  · cases found
  next first more =>
    split_ifs at found
    split at found
    · cases found
      exact List.subset_cons_self _ _
    · split_ifs at found
      cases found
      exact fun token member => .tail _ (.tail _ member)
    · cases found

/-- The statements that a compiler may blame stand on known lines. -/
structure File.Located (known : Nat → Prop) (file : File α β) : Prop where
  constraints : ∀ statement ∈ file.constraints, known statement.line
  bounds : ∀ statement ∈ file.bounds, known statement.line

namespace Progress

/-- Something has been read: its tokens have been seen, and its statements are on lines of such. -/
def Located (seen : Token → Prop) : Progress α β → Prop
  | .start => False
  | .objective opened => Lp.Located seen (opened.keyword :: opened.tokens)
  | .constraints _ rows open? =>
    (∀ row ∈ rows, LineOf seen row.line) ∧ ∀ constraint ∈ open?, constraint.Located seen
  | .bounds _ rows limits =>
    (∀ row ∈ rows, LineOf seen row.line) ∧ ∀ limit ∈ limits, LineOf seen limit.line
  | .finished file => file.Located (LineOf seen)

section Sections

variable {line : Line} {stated : ObjectiveStatement α} {rows : List (ConstraintStatement α)}

omit [Scalar α] [Endpoint β α] in
theorem enter_located {part : Section} (located : ∀ row ∈ rows, LineOf seen row.line) :
    (enter part stated rows : Progress α β).Located seen := by
  cases part with
  | constraints => exact ⟨located, by simp⟩
  | bounds => exact ⟨located, by simp⟩
  | finish => exact ⟨located, by simp⟩

omit [Scalar α] [Endpoint β α] in
theorem addFirstLine_on (located : Lp.Located seen line.tokens) :
    Ends (Located seen) (ParseError.Blames seen)
      (addFirstLine line : Logged (Event α) ParseError (Progress α β)).result := by
  have first : seen line.first := located _ List.mem_cons_self
  unfold addFirstLine
  split
  next goal rest found =>
    have opened : Lp.Located seen [line.first] := by simpa [Lp.Located] using first
    have more := located.of_subset (Keyword.ofLine?_subset found)
    simp only [Logged.result_bind, Logged.result_emit, Except.bind]
    split
    · exact opened
    · simp only [Logged.result_bind, Logged.result_ofExcept, Logged.result_pure]
      have added : Ends _ _ ((⟨goal, none, line.first, []⟩ : OpenObjective).addLine rest) :=
        OpenObjective.addLine_on opened more
      exact added.bind fun next located => located
  · exact .unexpectedToken first _

omit [Endpoint β α] in
theorem closeObjective_on {opened : OpenObjective} {part : Section}
    (located : Lp.Located seen (opened.keyword :: opened.tokens)) :
    Ends (Located seen) (ParseError.Blames seen)
      (closeObjective (α := α) (β := β) opened part line).result := by
  simp only [closeObjective, Logged.result_bind, Logged.result_emit, Logged.result_ofExcept]
  exact (OpenObjective.close_on located).bind fun stated _ => enter_located (by simp)

omit [Endpoint β α] in
theorem addObjectiveLine_on {opened : OpenObjective}
    (read : Lp.Located seen (opened.keyword :: opened.tokens))
    (located : Lp.Located seen line.tokens) :
    Ends (Located seen) (ParseError.Blames seen)
      (addObjectiveLine opened line : Logged (Event α) ParseError (Progress α β)).result := by
  unfold addObjectiveLine
  split
  · exact closeObjective_on read
  · exact closeObjective_on read
  · exact closeObjective_on read
  · exact .unexpectedToken (located _ List.mem_cons_self) _
  · simp only [Logged.result_bind, Logged.result_ofExcept, Logged.result_pure]
    exact (OpenObjective.addLine_on read located).bind fun next located => located

omit [Scalar α] [Endpoint β α] in
theorem closeConstraints_on {open? : Option OpenConstraint} {part : Section}
    (read : ∀ row ∈ rows, LineOf seen row.line)
    (opened : ∀ constraint ∈ open?, constraint.Located seen) :
    Ends (Located seen) (ParseError.Blames seen)
      (closeConstraints (β := β) stated rows open? part line).result := by
  cases open? with
  | none => exact enter_located read
  | some constraint => exact .incompleteConstraint (opened constraint rfl).1

omit [Endpoint β α] in
theorem addConstraintLine_on {open? : Option OpenConstraint}
    (read : ∀ row ∈ rows, LineOf seen row.line)
    (opened : ∀ constraint ∈ open?, constraint.Located seen)
    (located : Lp.Located seen line.tokens) :
    Ends (Located seen) (ParseError.Blames seen)
      (addConstraintLine (β := β) stated rows open? line).result := by
  unfold addConstraintLine
  split
  · exact closeConstraints_on read opened
  · exact closeConstraints_on read opened
  · exact .unexpectedToken (located _ List.mem_cons_self) _
  · simp only [Logged.result_bind, Logged.result_ofExcept]
    refine (extendConstraint_on opened located).bind fun constraint extended => ?_
    split
    · simp only [Logged.result_bind, Logged.result_ofExcept, Logged.result_pure]
      refine (OpenConstraint.close_on extended).bind fun statement closed => ?_
      refine ⟨?_, by simp⟩
      exact List.forall_mem_append.mpr ⟨read, List.forall_mem_singleton.mpr closed⟩
    · exact ⟨read, by simpa using extended⟩

theorem addBoundLine_on {limits : List (BoundStatement β)}
    (read : ∀ row ∈ rows, LineOf seen row.line)
    (limited : ∀ limit ∈ limits, LineOf seen limit.line) (located : Lp.Located seen line.tokens) :
    Ends (Located seen) (ParseError.Blames seen) (addBoundLine stated rows limits line).result := by
  unfold addBoundLine
  split
  · exact ⟨read, limited⟩
  · exact .unexpectedToken (located _ List.mem_cons_self) _
  · simp only [Logged.result_bind, Logged.result_ofExcept, Logged.result_pure]
    refine (readBound_on located).bind fun limit stated => ⟨read, ?_⟩
    exact List.forall_mem_append.mpr ⟨limited, List.forall_mem_singleton.mpr stated⟩

end Sections

/-- If the tokens of a line have been seen, so has been all that is read once it is added. -/
theorem step_on {progress : Progress α β} {line : Line}
    (read : progress = .start ∨ progress.Located seen) (located : Lp.Located seen line.tokens) :
    Ends (Located seen) (ParseError.Blames seen) (progress.step line) := by
  cases progress with
  | start => exact addFirstLine_on located
  | objective opened => exact addObjectiveLine_on (read.resolve_left nofun) located
  | constraints stated rows open? =>
    obtain ⟨rows, opened⟩ := read.resolve_left nofun
    exact addConstraintLine_on rows opened located
  | bounds stated rows limits =>
    obtain ⟨rows, limits⟩ := read.resolve_left nofun
    exact addBoundLine_on rows limits located
  | finished file => exact .unexpectedToken (located _ List.mem_cons_self) _

theorem run_on {first : Line} {lines : List Line}
    (located : ∀ line ∈ first :: lines, Lp.Located seen line.tokens) :
    Ends (Located seen) (ParseError.Blames seen)
      ((Progress.start : Progress α β).run (first :: lines)) := by
  rw [List.forall_mem_cons] at located
  rw [run, List.foldlM_cons]
  refine (step_on (.inl rfl) located.1).bind fun progress read => ?_
  exact Ends.foldlM (fun progress read line member => step_on (.inr read) (located.2 line member))
    read

omit [Scalar α] [Endpoint β α] in
theorem finish_on {progress : Progress α β} (read : progress.Located seen) {lastLine : Nat}
    (last : LineOf seen lastLine) :
    Ends (File.Located (LineOf seen)) (ParseError.Blames seen) (progress.finish lastLine) := by
  unfold finish
  split
  · exact read.elim
  · exact .incompleteConstraint (read.2 _ rfl).1
  · exact .missingEnd last
  · exact .missingEnd last
  · exact .missingEnd last
  · exact read

end Progress

/-- Lines consist of the tokens that a reader looks at. -/
theorem splitLines_on {current tokens : List Token} (read : Located seen current)
    (located : ∀ token ∈ tokens, token.Visible → seen token) :
    Ends (fun lines => ∀ line ∈ lines, Located seen line.tokens) (ParseError.Blames seen)
      (splitLines current tokens) := by
  fun_induction splitLines current tokens
  case case1 => exact List.forall_mem_nil _
  case case2 current token rest _ ih | case3 current token rest _ ih =>
    rw [List.forall_mem_cons] at located
    refine (ih (List.forall_mem_nil _) located.2).bind fun lines more => ?_
    refine List.forall_mem_append.mpr ⟨?_, more⟩
    cases current with
    | nil => exact List.forall_mem_nil _
    | cons first current => exact List.forall_mem_singleton.mpr read
  case case4 ih =>
    rw [List.forall_mem_cons] at located
    exact ih read located.2
  case case5 token rest error =>
    rw [List.forall_mem_cons] at located
    exact .invalidCharacter (located.1 (by simp [Token.Visible, error])) error
  case case6 token rest newline eof comment _ ih =>
    rw [List.forall_mem_cons] at located
    have known : seen token := located.1 ⟨newline, comment, eof⟩
    exact ih (read.append (List.forall_mem_singleton.mpr known)) located.2

/-- A file with any lines blames one of them. -/
theorem parse_on {source : String} (some : splitLines [] (Lexer.tokenize source) ≠ .ok [])
    (located : ∀ token ∈ Lexer.tokenize source, token.Visible → seen token) :
    Ends (File.Located (LineOf seen)) (ParseError.Blames seen)
      (parse source : Logged (Event α) ParseError (File α β)).result := by
  simp only [parse, Logged.result_bind, Logged.result_ofExcept, Progress.result_foldlM_addLine]
  have split := splitLines_on (List.forall_mem_nil _) located
  cases result : splitLines [] (Lexer.tokenize source) with
  | error error => exact split.of_error result
  | ok lines =>
    have split := split.of_ok result
    cases lines with
    | nil => exact absurd result some
    | cons first lines =>
      refine (Progress.run_on split).bind fun progress read => Progress.finish_on read ?_
      have last := split _ (List.getLast_mem (List.cons_ne_nil first lines))
      rw [List.getLast?_eq_some_getLast (List.cons_ne_nil first lines)]
      exact .of_seen (last _ List.mem_cons_self)

end Seen

/-! ### Compiling -/

section Known

variable {known : Nat → Prop}

/-- The error has a line, and it is a known one. -/
def CompileError.On (known : Nat → Prop) (error : CompileError) : Prop :=
  ∃ line, error.line? = some line ∧ known line

theorem ParseError.Blames.on {seen : Token → Prop} {error : ParseError}
    (blames : error.Blames seen) : (CompileError.parse error).On (LineOf seen) := by
  cases blames with
  | unexpectedToken known | invalidNumber known | invalidCharacter known =>
    exact ⟨_, rfl, .of_seen known⟩
  | unexpectedEol known | invalidName known | nameInBounds known | incompleteConstraint known
  | missingEnd known => exact ⟨_, rfl, known⟩

omit [Endpoint β α] in
theorem addConstraints_on {numbering : Numbering} {place : Nat} {taken : List String}
    {problem : Problem α β} {rows : List (ConstraintStatement α)}
    (located : ∀ row ∈ rows, known row.line) :
    Ends (fun _ => True) (CompileError.On known)
      (numbering.addConstraints place taken problem rows) := by
  fun_induction Numbering.addConstraints numbering place taken problem rows
  case case1 => trivial
  case case2 => exact ⟨_, rfl, located _ List.mem_cons_self⟩
  case case3 ih => exact ih (List.forall_mem_cons.mp located).2

theorem addBounds_on {numbering : Numbering} {problem : Problem α β}
    {limits : List (BoundStatement β)} (located : ∀ limit ∈ limits, known limit.line) :
    Ends (fun _ => True) (CompileError.On known) (numbering.addBounds problem limits) := by
  fun_induction Numbering.addBounds numbering problem limits
  case case1 => trivial
  case case2 ih => exact ih (List.forall_mem_cons.mp located).2
  case case3 => exact ⟨_, rfl, located _ List.mem_cons_self⟩

theorem File.problem_on {file : File α β} (located : file.Located known) :
    Ends (fun _ => True) (CompileError.On known) file.problem :=
  (addConstraints_on located.constraints).bind fun _ _ => addBounds_on located.bounds

theorem compile_on {file : File α β} (located : file.Located known) :
    Ends (fun _ => True) (CompileError.On known) (compile file).result := by
  simp only [compile, Logged.result_bind, Logged.result_ofExcept]
  exact (File.problem_on located).bind fun problem _ => trivial

end Known

/-! ### Sources -/

/-- No lines are left if no token is there to be read. -/
theorem splitLines_eq_nil_iff {stop : Token} (ended : stop.kind = .eof) {tokens : List Token}
    (current : List Token) :
    splitLines current (tokens ++ [stop]) = .ok [] ↔
      current = [] ∧ ∀ token ∈ tokens, ¬token.Visible := by
  have closed (current : List Token) (lines : List Line) :
      (Line.ofTokens? current).toList ++ lines = [] ↔ current = [] ∧ lines = [] := by
    cases current <;> simp [Line.ofTokens?]
  induction tokens generalizing current with
  | nil =>
    have ends : stop.endsLine = true := by simp [Token.endsLine, ended]
    rw [List.nil_append, splitLines_end ends, bind_eq_ok_iff]
    simp only [splitLines, pure, Except.pure, Except.ok.injEq, closed]
    simp
  | cons token tokens ih =>
    rw [List.cons_append, List.forall_mem_cons]
    -- A token ends the line, is a comment, is an error, or joins the line; only the last two are
    -- to be read.
    by_cases ends : token.endsLine = true
    · have hidden : ¬token.Visible := by
        intro visible
        simp [Token.endsLine, visible.1, visible.2.2] at ends
      rw [splitLines_end ends, and_iff_right hidden, bind_eq_ok_iff]
      simp only [pure, Except.pure, Except.ok.injEq, closed]
      constructor
      · rintro ⟨_, rest, rfl, rfl⟩
        exact ⟨rfl, ((ih []).mp rest).2⟩
      · rintro ⟨rfl, rest⟩
        exact ⟨[], (ih []).mpr ⟨rfl, rest⟩, rfl, rfl⟩
    have inside : token.endsLine = false := by simpa using ends
    by_cases comment : token.kind = .comment
    · have hidden : ¬token.Visible := fun visible => visible.2.1 comment
      rw [splitLines_comment comment, and_iff_right hidden]
      exact ih current
    have visible : token.Visible := by
      simp only [Token.endsLine, Bool.or_eq_false_iff, beq_eq_false_iff_ne] at inside
      exact ⟨inside.1, comment, inside.2⟩
    by_cases error : token.kind = .error
    · simp [splitLines, error, visible]
    · rw [splitLines_token inside comment error]
      refine (ih _).trans ?_
      simp [visible]

theorem splitLines_tokenize_eq_nil_iff {source : String} :
    splitLines [] (Lexer.tokenize source) = .ok [] ↔
      ∀ token ∈ Lexer.tokenize source, ¬token.Visible := by
  obtain ⟨before, stop, all, ended⟩ := Lexer.scan_eof 0 1 source.toList
  have hidden : ∀ token ∈ [stop], ¬token.Visible := by simp [Token.Visible, ended]
  rw [Lexer.tokenize, all, splitLines_eq_nil_iff ended, List.forall_mem_append,
    and_iff_left hidden, eq_self, true_and]

theorem parse_eq_missingObjective {source : String}
    (nothing : ∀ token ∈ Lexer.tokenize source, ¬token.Visible) :
    (parse source : Logged (Event α) ParseError (File α β)).result =
      .error .missingObjective := by
  simp only [parse, Logged.result_bind, Logged.result_ofExcept,
    splitLines_tokenize_eq_nil_iff.mpr nothing]
  rfl

/-- An error is about a token that a reader looks at, or nothing in the source is to be read. -/
theorem parse_blames {source : String} {error : ParseError}
    (failed : (parse source : Logged (Event α) ParseError (File α β)).result = .error error) :
    error.Blames (fun token => token ∈ Lexer.tokenize source ∧ token.Visible) ∨
      error = .missingObjective ∧ ∀ token ∈ Lexer.tokenize source, ¬token.Visible := by
  by_cases nothing : ∀ token ∈ Lexer.tokenize source, ¬token.Visible
  · rw [parse_eq_missingObjective nothing] at failed
    cases failed
    exact .inr ⟨rfl, nothing⟩
  · exact .inl ((parse_on (mt splitLines_tokenize_eq_nil_iff.mp nothing)
      fun token member visible => ⟨member, visible⟩).of_error failed)

/-- Something on the line is to be read. -/
def HasVisible (source : String) (line : Nat) : Prop :=
  ∃ token ∈ Lexer.tokenize source, token.Visible ∧ token.line = line

/-- An error is on a line with something to read, or nothing in the source is to be read. -/
theorem compileSource_error {source : String} {error : CompileError}
    (failed : (compileSource source : Logged (Event α) CompileError (Model α β)).result =
      .error error) :
    error.On (HasVisible source) ∨
      error = .parse .missingObjective ∧ ∀ token ∈ Lexer.tokenize source, ¬token.Visible := by
  by_cases nothing : ∀ token ∈ Lexer.tokenize source, ¬token.Visible
  · simp only [compileSource, Logged.result_bind, Logged.result_mapError,
      parse_eq_missingObjective nothing] at failed
    cases failed
    exact .inr ⟨rfl, nothing⟩
  · left
    simp only [compileSource, Logged.result_bind, Logged.result_mapError] at failed
    have lines : LineOf (fun token => token ∈ Lexer.tokenize source ∧ token.Visible) =
        HasVisible source := by
      funext line
      simp only [LineOf, HasVisible, and_assoc]
    have parsed := parse_on (α := α) (β := β) (mt splitLines_tokenize_eq_nil_iff.mp nothing)
      fun token member visible => And.intro member visible
    have raised := parsed.mapError fun _ blames => blames.on
    rw [lines] at raised
    exact (raised.bind fun file located => compile_on located).of_error failed

end LinOpt.Lp
