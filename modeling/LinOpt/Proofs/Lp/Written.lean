import LinOpt.Proofs.Lp.Numbering
import LinOpt.Proofs.Lp.Spelling
import LinOpt.Proofs.Problem.Feasible
import LinOpt.Proofs.Scalar.Magnitude

/-!
# The text of a problem

The text of a problem spells its statements line by line: the goal, the objective, the rows under
their keyword, the bounds that are not the usual ones under theirs, and the end. For this its names
have to be names to the lexer, and its numbers have to be read back from their texts.
-/

namespace LinOpt.Lp

open Lexer

/-! ### Numbers -/

/-- The text of a number's magnitude is read as this magnitude. -/
def ReadsBack (x : Float) : Prop :=
  (Numeral.read? (Layout.plain.text x.abs).toList).map Numeral.toScalar = some x.abs

def minusIf (negative : Bool) : List Lexeme := if negative then [⟨.minus, "-"⟩] else []

/-- A number as it is written: its sign if it is negative, and its magnitude. -/
def valueLexemes (x : Float) : List Lexeme :=
  match FloatValue.ofFloat x with
  | .nan => []
  | .infinite negative => minusIf negative ++ [⟨.ident, "inf"⟩]
  | .finite negative _ => minusIf negative ++ [⟨.number, Layout.plain.text x.abs⟩]

theorem spells_signText (negative : Bool) {text : List Char} {lexemes : List Lexeme}
    (rest : Spells text lexemes) :
    Spells ((Layout.signText negative).toList ++ text) (minusIf negative ++ lexemes) := by
  cases negative with
  | false => exact rest
  | true => exact rest.symbol rfl fun _ => rfl

theorem ReadsBack.exists_read? {x : Float} (back : ReadsBack x) : ∃ numeral,
    Numeral.read? (Layout.plain.text x.abs).toList = some numeral ∧ numeral.toScalar = x.abs :=
  Option.map_eq_some_iff.mp back

theorem ReadsBack.spells {x : Float} (back : ReadsBack x) {text : List Char}
    (separated : Separated text) {lexemes : List Lexeme} (rest : Spells text lexemes) :
    Spells ((Layout.plain.text x.abs).toList ++ text)
      (⟨.number, Layout.plain.text x.abs⟩ :: lexemes) := by
  obtain ⟨numeral, read, _⟩ := back.exists_read?
  have spelled := Spells.numeral read separated rest
  rwa [String.ofList_toList] at spelled

/-- A number or an infinity that is read back from its text. -/
def Readable (x : Float) : Prop := x.isNaN = false ∧ (x.isFinite = true → ReadsBack x)

theorem spells_value {x : Float} (readable : Readable x) {text : List Char}
    (separated : Separated text) {lexemes : List Lexeme} (rest : Spells text lexemes) :
    Spells ((Layout.plain.text x).toList ++ text) (valueLexemes x ++ lexemes) := by
  unfold valueLexemes
  cases value : FloatValue.ofFloat x with
  | nan => exact absurd (float_isNaN_of_nan value) (by simpa using readable.1)
  | infinite negative =>
    have inf : IsName "inf" := isName_of_letters (List.cons_ne_nil _ _) rfl
    have written : Layout.plain.text x = Layout.signText negative ++ "inf" := by
      simp [Layout.text, value]
    rw [written, String.toList_append, List.append_assoc, List.append_assoc]
    exact spells_signText negative (Spells.name inf separated rest)
  | finite negative magnitude =>
    have finite := float_isFinite_iff.mpr ⟨negative, magnitude, value⟩
    rw [Layout.text_finite Layout.plain value, String.toList_append, List.append_assoc,
      List.append_assoc]
    exact spells_signText negative ((readable.2 finite).spells separated rest)

/-! ### Expressions -/

/-- The coefficients that are written, with their variables. -/
def nonzeroTerms (coefficients : List Float) (names : List String) : List (Float × String) :=
  (coefficients.zip names).filter fun term => !(term.1 == 0)

/-- A term without its sign. -/
def factorText (term : Float × String) : String :=
  (if term.1.abs == 1 then "" else Layout.plain.text term.1.abs ++ " ") ++ term.2

/-- A term after another one. -/
def laterText (term : Float × String) : String :=
  (if term.1 < 0 then " - " else " + ") ++ factorText term

/-- Terms in a row, the first of which has a sign only if it is negative. -/
def expressionChars : List (Float × String) → List Char
  | [] => []
  | first :: rest =>
    ((if first.1 < 0 then "- " else "") ++ factorText first).toList ++
      rest.flatMap fun term => (laterText term).toList

def factorLexemes (term : Float × String) : List Lexeme :=
  (if term.1.abs == 1 then [] else [⟨.number, Layout.plain.text term.1.abs⟩]) ++
    [⟨.ident, term.2⟩]

def laterLexemes (term : Float × String) : List Lexeme :=
  (if term.1 < 0 then ⟨.minus, "-"⟩ else ⟨.plus, "+"⟩) :: factorLexemes term

def expressionLexemes : List (Float × String) → List Lexeme
  | [] => []
  | first :: rest =>
    minusIf (decide (first.1 < 0)) ++ factorLexemes first ++ rest.flatMap laterLexemes

theorem appendTerm_eq {before : String} {term : Float × String} (nonzero : (term.1 == 0) = false) :
    appendTerm before term.1 term.2 = before ++ if before.isEmpty then
      (if term.1 < 0 then "- " else "") ++ factorText term else laterText term := by
  simp only [appendTerm, nonzero, factorText, laterText, decide_eq_true_eq, Bool.false_eq_true,
    if_false, String.append_assoc]
  split <;> rfl

/-- Terms after a text that is not empty. -/
theorem foldl_appendTerm {terms : List (Float × String)}
    (nonzero : ∀ term ∈ terms, (term.1 == 0) = false) {before : String}
    (begun : before.isEmpty = false) :
    (terms.foldl (fun before term => appendTerm before term.1 term.2) before).toList =
      before.toList ++ terms.flatMap fun term => (laterText term).toList := by
  induction terms generalizing before with
  | nil => simp
  | cons term terms ih =>
    rw [List.forall_mem_cons] at nonzero
    rw [List.foldl_cons, appendTerm_eq nonzero.1, begun, if_neg Bool.false_ne_true, ih nonzero.2]
    · simp
    · simp_all

theorem factorText_isEmpty {term : Float × String} (named : IsName term.2) :
    (factorText term).isEmpty = false := by
  obtain ⟨c, rest, all, _⟩ := named
  have some : term.2 ≠ "" := by
    intro none
    simp [none] at all
  simp [factorText, some]

theorem expressionText_eq {coefficients : List Float} {names : List String}
    (filled : nonzeroTerms coefficients names ≠ []) (named : ∀ name ∈ names, IsName name) :
    (expressionText coefficients names).toList =
      expressionChars (nonzeroTerms coefficients names) := by
  have nonzero : ∀ term ∈ nonzeroTerms coefficients names, (term.1 == 0) = false := by
    intro term member
    simpa using (List.mem_filter.mp member).2
  have known : ∀ term ∈ nonzeroTerms coefficients names, IsName term.2 := by
    intro term member
    exact named _ (List.of_mem_zip (List.mem_filter.mp member).1).2
  -- Zeros leave the text as it is, so only the other terms count.
  have skipped : (coefficients.zip names).foldl
      (fun before term => appendTerm before term.1 term.2) "" =
        (nonzeroTerms coefficients names).foldl
          (fun before term => appendTerm before term.1 term.2) "" := by
    rw [nonzeroTerms, List.foldl_filter]
    congr 1
    funext before term
    by_cases zero : (term.1 == 0) = true <;> simp [zero, appendTerm]
  obtain ⟨first, rest, all⟩ := List.exists_cons_of_ne_nil filled
  have unfolded : expressionText coefficients names =
      let text := (coefficients.zip names).foldl
        (fun before term => appendTerm before term.1 term.2) ""
      if text.isEmpty then "0" else text := rfl
  rw [unfolded, skipped, all]
  rw [all, List.forall_mem_cons] at nonzero known
  -- The first term is written onto the empty text, and all others onto a text that is not.
  have begun :
      ("" ++ ((if first.1 < 0 then "- " else "") ++ factorText first)).isEmpty = false := by
    have some := factorText_isEmpty known.1
    simp_all
  have empty : "".isEmpty = true := rfl
  have text := foldl_appendTerm nonzero.2 begun
  rw [List.foldl_cons, appendTerm_eq nonzero.1, if_pos empty]
  generalize rest.foldl _ _ = sum at text ⊢
  have filled : sum.isEmpty = false := by
    rw [String.isEmpty_eq_false_iff]
    rintro rfl
    simp_all
  simp [filled, text, expressionChars]

/-- What the terms of an expression have to be, so that its text spells it. -/
def Written (term : Float × String) : Prop := IsName term.2 ∧ ReadsBack term.1

theorem spells_factorText {term : Float × String} (written : Written term) {text : List Char}
    (separated : Separated text) {lexemes : List Lexeme} (rest : Spells text lexemes) :
    Spells ((factorText term).toList ++ text) (factorLexemes term ++ lexemes) := by
  have named := Spells.name written.1 separated rest
  unfold factorText factorLexemes
  split
  · simpa using named
  · have spelled := written.2.spells (separated_blank _) named.blank
    simpa using spelled

theorem toList_laterText (term : Float × String) : (laterText term).toList =
    ' ' :: (if term.1 < 0 then '-' else '+') :: ' ' :: (factorText term).toList := by
  unfold laterText
  split <;> simp

theorem separated_laterText (terms : List (Float × String)) {text : List Char}
    (separated : Separated text) :
    Separated ((terms.flatMap fun term => (laterText term).toList) ++ text) := by
  cases terms with
  | nil => exact separated
  | cons term terms =>
    rw [List.flatMap_cons, toList_laterText]
    exact separated_blank _

theorem spells_laterText {terms : List (Float × String)} (written : ∀ term ∈ terms, Written term)
    {text : List Char} (separated : Separated text) {lexemes : List Lexeme}
    (rest : Spells text lexemes) :
    Spells ((terms.flatMap fun term => (laterText term).toList) ++ text)
      (terms.flatMap laterLexemes ++ lexemes) := by
  induction terms with
  | nil => exact rest
  | cons term terms ih =>
    rw [List.forall_mem_cons] at written
    have spelled := spells_factorText written.1 (separated_laterText terms separated)
      (ih written.2)
    rw [List.flatMap_cons, List.flatMap_cons, List.append_assoc, List.append_assoc,
      toList_laterText, laterLexemes]
    by_cases negative : term.1 < 0
    · rw [if_pos negative, if_pos negative]
      exact (spelled.blank.symbol rfl fun _ => rfl).blank
    · rw [if_neg negative, if_neg negative]
      exact (spelled.blank.symbol rfl fun _ => rfl).blank

theorem spells_expression {terms : List (Float × String)}
    (written : ∀ term ∈ terms, Written term) {text : List Char} (separated : Separated text)
    {lexemes : List Lexeme} (rest : Spells text lexemes) :
    Spells (expressionChars terms ++ text) (expressionLexemes terms ++ lexemes) := by
  cases terms with
  | nil => exact rest
  | cons term terms =>
    rw [List.forall_mem_cons] at written
    have spelled := spells_factorText written.1 (separated_laterText terms separated)
      (spells_laterText written.2 separated rest)
    rw [expressionChars, expressionLexemes, String.toList_append]
    simp only [List.append_assoc]
    by_cases negative : term.1 < 0
    · rw [if_pos negative, minusIf, if_pos (decide_eq_true negative)]
      exact spelled.blank.symbol rfl fun _ => rfl
    · rw [if_neg negative, minusIf, if_neg (by simpa using negative)]
      exact spelled

/-! ### Lines -/

def constraintLexemes (names : List String) (row : Constraint Float) : List Lexeme :=
  ⟨.ident, row.name⟩ :: ⟨.colon, ":"⟩ ::
    (expressionLexemes (nonzeroTerms row.coefficients names) ++
      ⟨.ofSense row.sense, row.sense.text⟩ :: valueLexemes row.rhs)

def boundLexemes (bounded : String × Bounds Float) : List Lexeme :=
  if bounded.2.isFree then [⟨.ident, bounded.1⟩, ⟨.ident, "free"⟩]
  else valueLexemes bounded.2.lower ++
    ⟨.le, "<="⟩ :: ⟨.ident, bounded.1⟩ :: ⟨.le, "<="⟩ :: valueLexemes bounded.2.upper

theorem spells_constraintText {names : List String} {row : Constraint Float}
    (named : ∀ name ∈ names, IsName name) (rowNamed : IsName row.name)
    (filled : nonzeroTerms row.coefficients names ≠ [])
    (written : ∀ term ∈ nonzeroTerms row.coefficients names, Written term)
    (readable : Readable row.rhs) :
    Spells ("  " ++ row.text names).toList (constraintLexemes names row) := by
  have value := spells_value readable separated_nil Spells.nil
  have relation := Spells.relation row.sense (separated_blank _) value.blank
  have expression := spells_expression written (separated_blank _) relation.blank
  have colon := expression.blank.symbol (c := ':') rfl fun _ => rfl
  have spelled := (Spells.name rowNamed (separated_colon _) colon).blank.blank
  simpa [Constraint.text, constraintLexemes, expressionText_eq filled named] using spelled

theorem spells_boundText {bounded : String × Bounds Float} (named : IsName bounded.1)
    (lower : Readable bounded.2.lower) (upper : Readable bounded.2.upper) :
    Spells ("  " ++ bounded.2.text bounded.1).toList (boundLexemes bounded) := by
  unfold Bounds.text boundLexemes
  split
  · have free : IsName "free" := isName_of_letters (List.cons_ne_nil _ _) rfl
    have spelled := Spells.name free separated_nil Spells.nil
    simpa using (Spells.name named (separated_blank _) spelled.blank).blank.blank
  · have last := spells_value upper separated_nil Spells.nil
    have second := Spells.relation .le (separated_blank _) last.blank
    have variable_ := Spells.name named (separated_blank _) second.blank
    have first := Spells.relation .le (separated_blank _) variable_.blank
    have spelled := (spells_value lower (separated_blank _) first.blank).blank.blank
    simpa [Sense.text, TokenKind.ofSense] using spelled

/-! ### No line ends inside -/

theorem inside_minusIf (negative : Bool) : ∀ lexeme ∈ minusIf negative, lexeme.isInside = true := by
  cases negative <;> simp [minusIf, Lexeme.isInside]

theorem kind_valueLexemes (x : Float) : ∀ lexeme ∈ valueLexemes x,
    lexeme.kind = .minus ∨ lexeme.kind = .ident ∨ lexeme.kind = .number := by
  have sign (negative : Bool) : ∀ lexeme ∈ minusIf negative, lexeme.kind = .minus := by
    cases negative <;> simp [minusIf]
  unfold valueLexemes
  split
  · simp
  · exact List.forall_mem_append.mpr ⟨fun lexeme member => .inl (sign _ lexeme member), by simp⟩
  · exact List.forall_mem_append.mpr ⟨fun lexeme member => .inl (sign _ lexeme member), by simp⟩

theorem inside_valueLexemes (x : Float) : ∀ lexeme ∈ valueLexemes x, lexeme.isInside = true := by
  intro lexeme member
  obtain kind | kind | kind := kind_valueLexemes x lexeme member <;> simp [Lexeme.isInside, kind]

theorem inside_factorLexemes (term : Float × String) :
    ∀ lexeme ∈ factorLexemes term, lexeme.isInside = true := by
  unfold factorLexemes
  split <;> simp [Lexeme.isInside]

theorem inside_expressionLexemes (terms : List (Float × String)) :
    ∀ lexeme ∈ expressionLexemes terms, lexeme.isInside = true := by
  have later (term) : ∀ lexeme ∈ laterLexemes term, lexeme.isInside = true := by
    have sign : Lexeme.isInside (if term.1 < 0 then ⟨.minus, "-"⟩ else ⟨.plus, "+"⟩) = true := by
      split <;> rfl
    exact List.forall_mem_cons.mpr ⟨sign, inside_factorLexemes term⟩
  cases terms with
  | nil => simp [expressionLexemes]
  | cons first rest =>
    have following : ∀ lexeme ∈ rest.flatMap laterLexemes, lexeme.isInside = true := by
      intro lexeme member
      obtain ⟨term, _, inside⟩ := List.mem_flatMap.mp member
      exact later term lexeme inside
    rw [expressionLexemes, List.forall_mem_append, List.forall_mem_append]
    exact ⟨⟨inside_minusIf _, inside_factorLexemes first⟩, following⟩

theorem expressionLexemes_ne_nil {terms : List (Float × String)} (some : terms ≠ []) :
    expressionLexemes terms ≠ [] := by
  obtain ⟨first, rest, rfl⟩ := List.exists_cons_of_ne_nil some
  simp [expressionLexemes, factorLexemes]

theorem inside_constraintLexemes (names : List String) (row : Constraint Float) :
    constraintLexemes names row ≠ [] ∧
      ∀ lexeme ∈ constraintLexemes names row, lexeme.isInside = true := by
  constructor
  · exact List.cons_ne_nil _ _
  · have relation : Lexeme.isInside ⟨.ofSense row.sense, row.sense.text⟩ = true := by
      cases row.sense <;> rfl
    simp only [constraintLexemes, List.forall_mem_cons, List.forall_mem_append]
    exact ⟨rfl, rfl, inside_expressionLexemes _, relation, inside_valueLexemes _⟩

theorem inside_boundLexemes (bounded : String × Bounds Float) :
    boundLexemes bounded ≠ [] ∧ ∀ lexeme ∈ boundLexemes bounded, lexeme.isInside = true := by
  unfold boundLexemes
  split
  · simp [Lexeme.isInside]
  · simp only [List.forall_mem_cons, List.forall_mem_append]
    exact ⟨by simp, inside_valueLexemes _, rfl, rfl, rfl, inside_valueLexemes _⟩

/-- A word that means something at the start of a line or among bounds, in capitals or not. -/
def IsReserved (word : String) : Prop :=
  (Keyword.ofWord? (word.map Char.toLower)).isSome = true ∨
    word.map Char.toLower = "inf" ∨ word.map Char.toLower = "infinity"

end LinOpt.Lp

/-! ### Problems -/

namespace LinOpt.Problem

open Lp Lp.Lexer

/-- The coefficients of the objective and of the rows. -/
def expressions (problem : Problem Float Float) : List (List Float) :=
  problem.objective.coefficients :: problem.constraints.map (·.coefficients)

/-- The variables that are written in expressions, one after the other. -/
def occurrences (problem : Problem Float Float) : List String :=
  problem.expressions.flatMap fun row => (nonzeroTerms row problem.names).map (·.2)

/-- The numbers of a problem. -/
def numbers (problem : Problem Float Float) : List Float :=
  problem.expressions.flatten ++ problem.constraints.map (·.rhs) ++
    problem.bounds.flatMap fun bounds => [bounds.lower, bounds.upper]

/-- A problem that its text states: the reader takes its names for names and meets its variables in
their order, and its numbers can be written. -/
structure Printable (problem : Problem Float Float) : Prop where
  valid : problem.validate = .ok ()
  names : ∀ name ∈ problem.names, IsName name ∧ ¬ IsReserved name
  rowNames : ∀ row ∈ problem.constraints, IsName row.name
  distinct : (problem.constraints.map (·.name)).Nodup
  finite : ∀ x ∈ problem.expressions.flatten ++ problem.constraints.map (·.rhs),
    x.isFinite = true
  bounds : ∀ bounds ∈ problem.bounds, bounds.lower.isNaN = false ∧ bounds.upper.isNaN = false
  filled : ∀ row ∈ problem.expressions, ∃ c ∈ row, (c == 0) = false
  ordered : FirstOccurrences problem.names problem.occurrences

/-- The variables whose bounds are written. -/
def bounded (problem : Problem Float Float) : List (String × Bounds Float) :=
  (problem.names.zip problem.bounds).filter fun (_, bounds) => !bounds.isNonNegative

/-- The lines of a problem, as the lexer finds them. -/
def lineLexemes (problem : Problem Float Float) : List (List Lexeme) :=
  [[⟨.ident, problem.objective.goal.text⟩],
    expressionLexemes (nonzeroTerms problem.objective.coefficients problem.names),
    [⟨.ident, "subject"⟩, ⟨.ident, "to"⟩]]
    ++ problem.constraints.map (constraintLexemes problem.names)
    ++ (if problem.bounded.isEmpty then [] else [[⟨.ident, "bounds"⟩]])
    ++ problem.bounded.map boundLexemes
    ++ [[⟨.ident, "end"⟩]]

namespace Printable

variable {problem : Problem Float Float}

theorem length_expression (printable : problem.Printable) {row : List Float}
    (member : row ∈ problem.expressions) : row.length = problem.names.length := by
  have rectangular := validate_eq_ok_iff.mp printable.valid
  obtain rfl | inside := List.mem_cons.mp member
  · exact rectangular.costs
  · obtain ⟨constraint, among, rfl⟩ := List.mem_map.mp inside
    exact rectangular.rows constraint among

theorem number (printable : problem.Printable) {row : List Float}
    (member : row ∈ problem.expressions) : ∀ c ∈ row, c.isNaN = false := by
  intro c inside
  have among := List.mem_flatten.mpr ⟨row, member, inside⟩
  exact float_isNaN_of_isFinite (printable.finite c (List.mem_append_left _ among))

theorem finite_rhs (printable : problem.Printable) {row : Constraint Float}
    (member : row ∈ problem.constraints) : row.rhs.isFinite = true :=
  printable.finite _ (List.mem_append_right _ (List.mem_map_of_mem member))

/-- Every expression has a term that is written. -/
theorem nonzeroTerms_ne_nil (printable : problem.Printable) {row : List Float}
    (member : row ∈ problem.expressions) : nonzeroTerms row problem.names ≠ [] := by
  obtain ⟨c, inside, nonzero⟩ := printable.filled row member
  have zipped := List.map_fst_zip (printable.length_expression member).le
  rw [← zipped] at inside
  obtain ⟨term, among, rfl⟩ := List.mem_map.mp inside
  exact List.ne_nil_of_mem (List.mem_filter.mpr ⟨among, by simp [nonzero]⟩)

theorem readsBack_of_mem (printable : problem.Printable)
    (back : ∀ x ∈ problem.numbers, x.isFinite = true → ReadsBack x) {row : List Float}
    (member : row ∈ problem.expressions) {c : Float} (inside : c ∈ row) : ReadsBack c := by
  have among := List.mem_flatten.mpr ⟨row, member, inside⟩
  have finite := printable.finite c (List.mem_append_left _ among)
  exact back c (List.mem_append_left _ (List.mem_append_left _ among)) finite

theorem written (printable : problem.Printable)
    (back : ∀ x ∈ problem.numbers, x.isFinite = true → ReadsBack x) {row : List Float}
    (member : row ∈ problem.expressions) : ∀ term ∈ nonzeroTerms row problem.names,
      Written term := by
  intro term inside
  have zipped := List.of_mem_zip (List.mem_filter.mp inside).1
  exact ⟨(printable.names _ zipped.2).1, printable.readsBack_of_mem back member zipped.1⟩

theorem spells_objective (printable : problem.Printable)
    (back : ∀ x ∈ problem.numbers, x.isFinite = true → ReadsBack x) :
    Spells ("  " ++ expressionText problem.objective.coefficients problem.names).toList
      (expressionLexemes (nonzeroTerms problem.objective.coefficients problem.names)) := by
  have among : problem.objective.coefficients ∈ problem.expressions := List.mem_cons_self
  have named (name) (member : name ∈ problem.names) := (printable.names name member).1
  have spelled := spells_expression (printable.written back among) separated_nil Spells.nil
  simpa [expressionText_eq (printable.nonzeroTerms_ne_nil among) named] using spelled.blank.blank

theorem readable_rhs (printable : problem.Printable)
    (back : ∀ x ∈ problem.numbers, x.isFinite = true → ReadsBack x) {row : Constraint Float}
    (member : row ∈ problem.constraints) : Readable row.rhs := by
  have among := List.mem_append_right problem.expressions.flatten
    (List.mem_map_of_mem (f := (·.rhs)) member)
  exact ⟨float_isNaN_of_isFinite (printable.finite_rhs member),
    back _ (List.mem_append_left _ among)⟩

theorem readable_bounds (printable : problem.Printable)
    (back : ∀ x ∈ problem.numbers, x.isFinite = true → ReadsBack x) :
    ∀ bounded ∈ problem.bounded, Readable bounded.2.lower ∧ Readable bounded.2.upper := by
  intro bounded member
  have zipped := List.of_mem_zip (List.mem_filter.mp member).1
  have among (x) (side : x ∈ [bounded.2.lower, bounded.2.upper]) : x ∈ problem.numbers :=
    List.mem_append_right _ (List.mem_flatMap.mpr ⟨bounded.2, zipped.2, side⟩)
  have number := printable.bounds _ zipped.2
  exact ⟨⟨number.1, back _ (among _ (by simp))⟩, ⟨number.2, back _ (among _ (by simp))⟩⟩

theorem spells_row (printable : problem.Printable)
    (back : ∀ x ∈ problem.numbers, x.isFinite = true → ReadsBack x) {row : Constraint Float}
    (member : row ∈ problem.constraints) :
    Spells ("  " ++ row.text problem.names).toList (constraintLexemes problem.names row) := by
  have among : row.coefficients ∈ problem.expressions :=
    List.mem_cons_of_mem _ (List.mem_map_of_mem member)
  exact spells_constraintText (fun name member => (printable.names name member).1)
    (printable.rowNames row member) (printable.nonzeroTerms_ne_nil among)
    (printable.written back among) (printable.readable_rhs back member)

theorem spells_bound (printable : problem.Printable)
    (back : ∀ x ∈ problem.numbers, x.isFinite = true → ReadsBack x)
    {bounded : String × Bounds Float} (member : bounded ∈ problem.bounded) :
    Spells ("  " ++ bounded.2.text bounded.1).toList (boundLexemes bounded) := by
  have zipped := List.of_mem_zip (List.mem_filter.mp member).1
  have readable := printable.readable_bounds back bounded member
  exact spells_boundText (printable.names _ zipped.1).1 readable.1 readable.2

theorem spells_lines (printable : problem.Printable)
    (back : ∀ x ∈ problem.numbers, x.isFinite = true → ReadsBack x) :
    List.Forall₂ Spells (problem.textLines.map String.toList) problem.lineLexemes := by
  have word {text : String} (some : text.toList ≠ [])
      (letters : text.toList.all Char.isAlpha = true) : Spells text.toList [⟨.ident, text⟩] := by
    simpa using Spells.name (isName_of_letters some letters) separated_nil Spells.nil
  have goal : Spells problem.objective.goal.text.toList
      [⟨.ident, problem.objective.goal.text⟩] := by
    cases problem.objective.goal <;> exact word (List.cons_ne_nil _ _) rfl
  have subjectTo : Spells "subject to".toList [⟨.ident, "subject"⟩, ⟨.ident, "to"⟩] := by
    have second : Spells "to".toList [⟨.ident, "to"⟩] := word (List.cons_ne_nil _ _) rfl
    have first : IsName "subject" := isName_of_letters (List.cons_ne_nil _ _) rfl
    exact Spells.name first (separated_blank _) second.blank
  have rows : List.Forall₂ Spells
      ((problem.constraints.map fun c => "  " ++ c.text problem.names).map String.toList)
      (problem.constraints.map (constraintLexemes problem.names)) := by
    rw [List.forall₂_map_left_iff, List.forall₂_map_left_iff, List.forall₂_map_right_iff]
    exact List.forall₂_same.mpr fun row member => printable.spells_row back member
  have header : List.Forall₂ Spells
      ((if problem.bounded.isEmpty then [] else ["bounds"]).map String.toList)
      (if problem.bounded.isEmpty then [] else [[⟨.ident, "bounds"⟩]]) := by
    split
    · exact .nil
    · exact .cons (word (List.cons_ne_nil _ _) rfl) .nil
  have bounds : List.Forall₂ Spells
      ((problem.bounded.map fun (name, bounds) => "  " ++ bounds.text name).map String.toList)
      (problem.bounded.map boundLexemes) := by
    rw [List.forall₂_map_left_iff, List.forall₂_map_left_iff, List.forall₂_map_right_iff]
    exact List.forall₂_same.mpr fun bounded member => printable.spells_bound back member
  have last : Spells "end".toList [⟨.ident, "end"⟩] := word (List.cons_ne_nil _ _) rfl
  have start : List.Forall₂ Spells _ _ :=
    .cons goal (.cons (printable.spells_objective back) (.cons subjectTo .nil))
  simp only [textLines, List.map_append]
  exact List.rel_append (List.rel_append (List.rel_append (List.rel_append start rows) header)
    bounds) (.cons last .nil)

theorem inside (printable : problem.Printable) :
    ∀ words ∈ problem.lineLexemes, words ≠ [] ∧ ∀ lexeme ∈ words, lexeme.isInside = true := by
  have objective : nonzeroTerms problem.objective.coefficients problem.names ≠ [] :=
    printable.nonzeroTerms_ne_nil List.mem_cons_self
  have word (text : String) : [(⟨.ident, text⟩ : Lexeme)] ≠ [] ∧
      ∀ lexeme ∈ [(⟨.ident, text⟩ : Lexeme)], lexeme.isInside = true := by
    simp [Lexeme.isInside]
  intro words member
  simp only [lineLexemes, List.mem_append, List.mem_cons, List.mem_map, List.not_mem_nil,
    or_false] at member
  obtain ((((rfl | rfl | rfl) | ⟨row, _, rfl⟩) | header) | ⟨bounded, _, rfl⟩) | rfl := member
  · exact word _
  · exact ⟨expressionLexemes_ne_nil objective, inside_expressionLexemes _⟩
  · simp [Lexeme.isInside]
  · exact inside_constraintLexemes problem.names row
  · split at header
    · cases header
    · obtain rfl := List.mem_singleton.mp header
      exact word _
  · exact inside_boundLexemes bounded
  · exact word _

/-- The text of a problem reads as its lines. -/
theorem readAs_text (printable : problem.Printable)
    (back : ∀ x ∈ problem.numbers, x.isFinite = true → ReadsBack x) :
    ReadAs (tokenize problem.text) problem.lineLexemes := by
  rw [tokenize, Problem.text, String.toList_intercalate]
  apply readAs_scan _ (printable.spells_lines back) printable.inside
  simp [Problem.textLines]

end Printable

end LinOpt.Problem
