import Mathlib.Data.List.Forall2
import Mathlib.Data.List.Induction
import Mathlib.Data.List.TakeWhile
import LinOpt.Lp.Reader
import LinOpt.Proofs.Results

/-!
# Statements over several lines

The pieces of a statement are what its lines give to it. One name with a colon may stand before
everything else, on one line. A constraint takes lines up to the first one with a number after its
first relation. The readers that add line after line gather exactly these statements.
-/

namespace LinOpt.Lp

variable {α β : Type} [Scalar α] [Endpoint β α]

def ColonFree (tokens : List Token) : Prop := ∀ token ∈ tokens, token.kind ≠ .colon

/-- The pieces are a body with its name, if it has one: the name and a colon are the first tokens of
the first piece. -/
inductive Labelled : List (List Token) → Option String → List Token → Prop where
  | unnamed (pieces : List (List Token)) : Labelled pieces none pieces.flatten
  | named {name colon : Token} (first : List Token) (rest : List (List Token))
      (word : name.kind = .ident) (mark : colon.kind = .colon) :
      Labelled ((name :: colon :: first) :: rest) (some name.text) (first ++ rest.flatten)

/-- The pieces after a goal's keyword are an objective. -/
inductive ObjectiveReads (keyword : Token) (goal : Goal) (pieces : List (List Token)) :
    ObjectiveStatement α → Prop where
  | intro {name? : Option String} {body : List Token} {terms : List (Term α)}
      (labelled : Labelled pieces name? body) (plain : ColonFree body)
      (read : readTerms body = .ok terms) :
      ObjectiveReads keyword goal pieces
        ⟨name?, goal, terms, keyword.line, keyword.span.merge (Token.spanOf body)⟩

/-- A number follows the first relation. -/
def Complete (tokens : List Token) : Prop :=
  ∃ left relation right, tokens = left ++ relation :: right ∧
    (∀ token ∈ left, token.isRelation = false) ∧ relation.isRelation = true ∧
    ∃ token ∈ right, token.kind = .number

/-- The last line is the first one with a number after the first relation of the lines. -/
def Closes (lines : List Line) : Prop :=
  ∀ before, before <+: lines → (Complete (before.flatMap Line.tokens) ↔ before = lines)

/-- The lines are a constraint. -/
inductive ConstraintReads : List Line → ConstraintStatement α → Prop where
  | intro {first : Line} {rest : List Line} {name? : Option String} {left right : List Token}
      {relation : Token} {sense : Sense} {terms : List (Term α)} {rhs : α}
      (closes : Closes (first :: rest))
      (labelled : Labelled ((first :: rest).map Line.tokens) name? (left ++ relation :: right))
      (plain : ColonFree (left ++ relation :: right))
      (compares : relation.kind.sense? = some sense)
      (firstRelation : ∀ token ∈ left, token.isRelation = false)
      (readLeft : readTerms left = .ok terms)
      (readRight : readRhs relation.line false right = .ok rhs) :
      ConstraintReads (first :: rest) ⟨name?, terms, sense, rhs, first.first.line,
        Token.spanOf (left ++ relation :: right)⟩

/-! ### Colons -/

theorem colonFree_nil : ColonFree [] := fun _ member => absurd member List.not_mem_nil

theorem colonFree_cons {token : Token} {tokens : List Token} :
    ColonFree (token :: tokens) ↔ token.kind ≠ .colon ∧ ColonFree tokens := List.forall_mem_cons

theorem colonFree_append {left right : List Token} :
    ColonFree (left ++ right) ↔ ColonFree left ∧ ColonFree right := List.forall_mem_append

theorem colonFree_flatten {pieces : List (List Token)} :
    ColonFree pieces.flatten ↔ ∀ piece ∈ pieces, ColonFree piece := List.forall_mem_flatten

/-- An expression that can be read has neither colons nor relations. -/
theorem plain_of_readTermsFrom {line : Nat} {state : TermState α} {tokens : List Token}
    {terms : List (Term α)} (read : readTermsFrom line state tokens = .ok terms) :
    ∀ token ∈ tokens, token.kind ≠ .colon ∧ token.isRelation = false := by
  fun_induction readTermsFrom line state tokens generalizing terms
  all_goals simp_all [bind_eq_ok_iff, map_eq_ok_iff, Token.isRelation, TokenKind.isRelation]
  case case7 ih =>
    obtain ⟨coefficient, _, later⟩ := read
    exact ih coefficient later
  case case8 ih | case10 ih =>
    obtain ⟨_, later, _⟩ := read
    exact ih later

theorem colonFree_of_readTerms {tokens : List Token} {terms : List (Term α)}
    (read : readTerms tokens = .ok terms) : ColonFree tokens :=
  fun token member => (plain_of_readTermsFrom read token member).1

theorem colonFree_of_readRhs {line : Nat} {negative : Bool} {tokens : List Token} {rhs : α}
    (read : readRhs line negative tokens = .ok rhs) : ColonFree tokens := by
  fun_induction readRhs (α := α) line negative tokens generalizing rhs
  all_goals simp_all [colonFree_cons, bind_eq_ok_iff]
  case case4 rest _ =>
    obtain ⟨_, _, ended⟩ := read
    cases rest with
    | nil => exact colonFree_nil
    | cons extra _ => cases ended

/-- Right sides end with a number. -/
theorem exists_number_of_readRhs {line : Nat} {negative : Bool} {tokens : List Token} {rhs : α}
    (read : readRhs line negative tokens = .ok rhs) : ∃ token ∈ tokens, token.kind = .number := by
  fun_induction readRhs (α := α) line negative tokens generalizing rhs
  all_goals simp_all [bind_eq_ok_iff]

/-- A right side consists of signs and a number. -/
theorem exists_signs_of_readRhs {line : Nat} {negative : Bool} {tokens : List Token} {rhs : α}
    (read : readRhs line negative tokens = .ok rhs) :
    ∃ signs number value turned, tokens = signs ++ [number] ∧
      (∀ sign ∈ signs, sign.kind = .plus ∨ sign.kind = .minus) ∧ number.kind = .number ∧
      readNumber number = .ok value ∧ rhs = Scalar.signed turned value := by
  fun_induction readRhs (α := α) line negative tokens generalizing rhs
  case case1 => cases read
  case case2 line negative token rest plus ih =>
    obtain ⟨signs, number, value, turned, rfl, signed, number_⟩ := ih read
    exact ⟨token :: signs, number, value, turned, rfl,
      List.forall_mem_cons.mpr ⟨.inl plus, signed⟩, number_⟩
  case case3 line negative token rest minus ih =>
    obtain ⟨signs, number, value, turned, rfl, signed, number_⟩ := ih read
    exact ⟨token :: signs, number, value, turned, rfl,
      List.forall_mem_cons.mpr ⟨.inr minus, signed⟩, number_⟩
  case case4 line negative token rest number =>
    obtain ⟨value, known, ended⟩ := bind_eq_ok_iff.mp read
    cases rest with
    | nil =>
      cases ended
      exact ⟨[], token, value, negative, rfl, by simp, number, known, rfl⟩
    | cons extra rest => cases ended
  case case5 => cases read

/-! ### Labels -/

/-- A list up to its first entry without a property, that entry, and what follows. -/
theorem takeWhile_dropWhile_iff {γ : Type} {p : γ → Bool} {xs before after : List γ} {x : γ} :
    xs.takeWhile p = before ∧ xs.dropWhile p = x :: after ↔
      xs = before ++ x :: after ∧ (∀ y ∈ before, p y = true) ∧ p x = false := by
  constructor
  · rintro ⟨rfl, rest⟩
    have all : xs = xs.takeWhile p ++ x :: after := by
      rw [← rest, List.takeWhile_append_dropWhile]
    have stopped := List.head?_dropWhile_not p xs
    exact ⟨all, fun y => List.mem_takeWhile_imp, by simpa [rest] using stopped⟩
  · rintro ⟨rfl, passed, stopped⟩
    rw [List.takeWhile_append_of_pos passed, List.dropWhile_append_of_pos passed]
    simp [stopped]

theorem splitLabel_eq_none_iff {tokens rest : List Token} :
    splitLabel tokens = .ok (none, rest) ↔ ColonFree tokens ∧ rest = tokens := by
  have found : ColonFree tokens ↔ tokens.dropWhile (·.kind != .colon) = [] := by
    simp [ColonFree, List.dropWhile_eq_nil_iff]
  rw [found]
  simp only [splitLabel]
  split
  next none => simp [none, eq_comm]
  next some _ => split <;> simp [some]
  next some _ => simp [some]

theorem splitLabel_eq_some_iff {tokens rest : List Token} {label : Label} :
    splitLabel tokens = .ok (some label, rest) ↔ ∃ name, tokens = name :: label.colon :: rest ∧
      name.kind = .ident ∧ label.colon.kind = .colon ∧ label.name = name.text := by
  constructor
  · intro labelled
    simp only [splitLabel] at labelled
    split at labelled
    next => simp at labelled
    next colon after name split before =>
      obtain ⟨rfl, _, mark⟩ := takeWhile_dropWhile_iff.mp ⟨before, split⟩
      split at labelled
      next word =>
        cases labelled
        exact ⟨name, rfl, word, by simpa using mark, rfl⟩
      next => cases labelled
    next => cases labelled
  · rintro ⟨name, rfl, word, mark, text⟩
    simp [splitLabel, word, mark, ← text]

/-- The pieces as far as they have been read: a colon is noticed when its piece is read, unless it
stands behind a label. -/
structure Gathered (pieces : List (List Token)) (name? : Option String) (tokens : List Token) :
    Prop where
  labelled : Labelled pieces name? tokens
  unnamed : name? = none → ColonFree tokens
  later : ∀ piece ∈ pieces.tail, ColonFree piece

theorem gathered_nil {name? : Option String} {tokens : List Token} :
    Gathered [] name? tokens ↔ name? = none ∧ tokens = [] := by
  constructor
  · rintro ⟨labelled, _, _⟩
    cases labelled
    exact ⟨rfl, rfl⟩
  · rintro ⟨rfl, rfl⟩
    exact ⟨.unnamed [], fun _ => colonFree_nil, by simp⟩

theorem gathered_singleton {piece : List Token} {name? : Option String} {tokens : List Token} :
    Gathered [piece] name? tokens ↔
      ∃ label?, splitLabel piece = .ok (label?, tokens) ∧ name? = label?.map (·.name) := by
  constructor
  · rintro ⟨labelled, unnamed, _⟩
    cases labelled with
    | unnamed =>
      have plain : ColonFree piece := by simpa using unnamed rfl
      exact ⟨none, splitLabel_eq_none_iff.mpr ⟨plain, by simp⟩, rfl⟩
    | @named name colon first _ word mark =>
      refine ⟨some ⟨name.text, colon⟩, splitLabel_eq_some_iff.mpr ?_, rfl⟩
      exact ⟨name, by simp, word, mark, rfl⟩
  · rintro ⟨label?, split, rfl⟩
    cases label? with
    | none =>
      obtain ⟨plain, rfl⟩ := splitLabel_eq_none_iff.mp split
      constructor
      case labelled => simpa using Labelled.unnamed [tokens]
      case unnamed => exact fun _ => plain
      case later => simp
    | some label =>
      obtain ⟨name, rfl, word, mark, text⟩ := splitLabel_eq_some_iff.mp split
      constructor
      case labelled => simpa [text] using Labelled.named tokens [] word mark
      case unnamed => simp
      case later => simp

/-- A later piece adds its tokens, which are all part of the body. -/
theorem gathered_concat {pieces : List (List Token)} (begun : pieces ≠ []) {piece : List Token}
    {name? : Option String} {tokens : List Token} :
    Gathered (pieces ++ [piece]) name? tokens ↔
      ∃ before, Gathered pieces name? before ∧ ColonFree piece ∧ tokens = before ++ piece := by
  obtain ⟨first, rest, rfl⟩ := List.exists_cons_of_ne_nil begun
  constructor
  · rintro ⟨labelled, unnamed, later⟩
    simp only [List.cons_append, List.tail_cons, List.forall_mem_append, List.forall_mem_singleton]
      at later
    cases labelled with
    | unnamed =>
      have plain := colonFree_flatten.mp (unnamed rfl)
      rw [List.forall_mem_append] at plain
      have body : ColonFree (first :: rest).flatten := colonFree_flatten.mpr plain.1
      exact ⟨_, ⟨.unnamed _, fun _ => body, later.1⟩, later.2, by simp⟩
    | named first _ word mark =>
      exact ⟨_, ⟨.named first rest word mark, by simp, later.1⟩, later.2, by simp⟩
  · rintro ⟨before, ⟨labelled, unnamed, later⟩, plain, rfl⟩
    constructor
    case labelled =>
      cases labelled with
      | unnamed => simpa using Labelled.unnamed (first :: rest ++ [piece])
      | named first _ word mark => simpa using Labelled.named first (rest ++ [piece]) word mark
    case unnamed => exact fun named => colonFree_append.mpr ⟨unnamed named, plain⟩
    case later =>
      rw [List.cons_append, List.tail_cons, List.forall_mem_append, List.forall_mem_singleton]
      exact ⟨later, plain⟩

theorem Labelled.gathered {pieces : List (List Token)} {name? : Option String}
    {tokens : List Token} (labelled : Labelled pieces name? tokens) (plain : ColonFree tokens) :
    Gathered pieces name? tokens := by
  constructor
  case labelled => exact labelled
  case unnamed => exact fun _ => plain
  case later =>
    intro piece member
    cases labelled with
    | unnamed => exact colonFree_flatten.mp plain piece (List.mem_of_mem_tail member)
    | named => exact colonFree_flatten.mp (colonFree_append.mp plain).2 piece member

/-- Pieces with tokens leave a name or tokens, so that a second label is noticed. -/
theorem Gathered.begun {pieces : List (List Token)} {name? : Option String} {tokens : List Token}
    (gathered : Gathered pieces name? tokens) (some : pieces ≠ [])
    (filled : ∀ piece ∈ pieces, piece ≠ []) : (name?.isSome || !tokens.isEmpty) = true := by
  cases gathered.labelled with
  | named => rfl
  | unnamed =>
    obtain ⟨first, rest, rfl⟩ := List.exists_cons_of_ne_nil some
    have := filled first List.mem_cons_self
    simp [this]

/-! ### Objectives -/

namespace OpenObjective

theorem addLine_fresh_iff {goal : Goal} {keyword : Token} {piece : List Token}
    {objective : OpenObjective} :
    addLine ⟨goal, none, keyword, []⟩ piece = .ok objective ↔
      ∃ label? rest, splitLabel piece = .ok (label?, rest) ∧
        objective = ⟨goal, label?.map (·.name), keyword, rest⟩ := by
  simp only [addLine, bind_eq_ok_iff, Prod.exists]
  apply exists_congr
  intro label?
  apply exists_congr
  intro rest
  cases label? <;> simp [pure, Except.pure, eq_comm]

/-- After the first piece, no other may have a label. -/
theorem addLine_begun_iff {objective after : OpenObjective} {piece : List Token}
    (begun : (objective.name?.isSome || !objective.tokens.isEmpty) = true) :
    objective.addLine piece = .ok after ↔
      ColonFree piece ∧ after = { objective with tokens := objective.tokens ++ piece } := by
  simp only [addLine, bind_eq_ok_iff, Prod.exists]
  constructor
  · rintro ⟨label?, rest, split, returned⟩
    cases label? with
    | none =>
      obtain ⟨plain, rfl⟩ := splitLabel_eq_none_iff.mp split
      cases returned
      exact ⟨plain, rfl⟩
    | some label => simp [begun] at returned
  · rintro ⟨plain, rfl⟩
    exact ⟨none, piece, splitLabel_eq_none_iff.mpr ⟨plain, rfl⟩, rfl⟩

/-- Reading pieces gathers them. -/
theorem foldlM_addLine_iff {goal : Goal} {keyword : Token} {pieces : List (List Token)}
    (filled : ∀ piece ∈ pieces, piece ≠ []) {objective : OpenObjective} :
    pieces.foldlM addLine ⟨goal, none, keyword, []⟩ = .ok objective ↔
      ∃ name? tokens, Gathered pieces name? tokens ∧
        objective = ⟨goal, name?, keyword, tokens⟩ := by
  -- Only the first piece may have a label, so the pieces are taken from the end.
  induction pieces using List.reverseRecOn generalizing objective with
  | nil => simp [gathered_nil, pure, Except.pure, eq_comm]
  | append_singleton pieces piece ih =>
    rw [List.forall_mem_append] at filled
    simp only [List.foldlM_append, bind_eq_ok_iff, ih filled.1, List.foldlM_cons, List.foldlM_nil,
      bind_pure]
    by_cases start : pieces = []
    · subst start
      simp only [gathered_nil, List.nil_append, gathered_singleton]
      constructor
      · rintro ⟨_, ⟨_, _, ⟨rfl, rfl⟩, rfl⟩, added⟩
        obtain ⟨label?, rest, split, rfl⟩ := addLine_fresh_iff.mp added
        exact ⟨_, _, ⟨label?, split, rfl⟩, rfl⟩
      · rintro ⟨_, tokens, ⟨label?, split, rfl⟩, rfl⟩
        refine ⟨_, ⟨none, [], ⟨rfl, rfl⟩, rfl⟩, ?_⟩
        exact addLine_fresh_iff.mpr ⟨label?, tokens, split, rfl⟩
    · simp only [gathered_concat start]
      constructor
      · rintro ⟨_, ⟨name?, tokens, gathered, rfl⟩, added⟩
        obtain ⟨plain, rfl⟩ := (addLine_begun_iff (gathered.begun start filled.1)).mp added
        exact ⟨_, _, ⟨_, gathered, plain, rfl⟩, rfl⟩
      · rintro ⟨name?, _, ⟨tokens, gathered, plain, rfl⟩, rfl⟩
        refine ⟨_, ⟨_, _, gathered, rfl⟩, ?_⟩
        exact (addLine_begun_iff (gathered.begun start filled.1)).mpr ⟨plain, rfl⟩

theorem close_eq_ok_iff {objective : OpenObjective} {statement : ObjectiveStatement α} :
    objective.close = .ok statement ↔ ∃ terms, readTerms objective.tokens = .ok terms ∧
      statement = ⟨objective.name?, objective.goal, terms, objective.keyword.line,
        objective.keyword.span.merge (Token.spanOf objective.tokens)⟩ := by
  simp only [close, bind_eq_ok_iff, pure, Except.pure, Except.ok.injEq,
    eq_comm (a := statement)]

end OpenObjective

/-- Reading pieces and closing the objective reads the objective that they are. -/
theorem objectiveReads_iff {keyword : Token} {goal : Goal} {pieces : List (List Token)}
    (filled : ∀ piece ∈ pieces, piece ≠ []) {statement : ObjectiveStatement α} :
    ObjectiveReads keyword goal pieces statement ↔
      ∃ objective, pieces.foldlM OpenObjective.addLine ⟨goal, none, keyword, []⟩ = .ok objective ∧
        objective.close = .ok statement := by
  simp only [OpenObjective.foldlM_addLine_iff filled, OpenObjective.close_eq_ok_iff]
  constructor
  · rintro ⟨labelled, plain, read⟩
    exact ⟨_, ⟨_, _, labelled.gathered plain, rfl⟩, _, read, rfl⟩
  · rintro ⟨_, ⟨name?, tokens, gathered, rfl⟩, terms, read, rfl⟩
    exact ⟨gathered.labelled, colonFree_of_readTerms read, read⟩

/-! ### Constraints -/

theorem complete_append {tokens : List Token} (complete : Complete tokens) (more : List Token) :
    Complete (tokens ++ more) := by
  obtain ⟨left, relation, right, rfl, first, compares, token, member, number⟩ := complete
  have among := List.mem_append_left more member
  exact ⟨left, relation, right ++ more, by simp, first, compares, token, among, number⟩

theorem not_complete_nil : ¬ Complete [] := by
  rintro ⟨left, relation, right, empty, _⟩
  simp at empty

theorem complete_cons_iff {token : Token} (other : token.isRelation = false)
    {tokens : List Token} : Complete (token :: tokens) ↔ Complete tokens := by
  constructor
  · rintro ⟨left, relation, right, all, earlier, compares, number⟩
    cases left with
    | nil =>
      cases all
      simp [other] at compares
    | cons first left =>
      cases all
      exact ⟨left, relation, right, rfl, (List.forall_mem_cons.mp earlier).2, compares, number⟩
  · rintro ⟨left, relation, right, rfl, earlier, compares, number⟩
    have earlier : ∀ first ∈ token :: left, first.isRelation = false :=
      List.forall_mem_cons.mpr ⟨other, earlier⟩
    exact ⟨token :: left, relation, right, rfl, earlier, compares, number⟩

/-- Tokens without a relation complete nothing. -/
theorem complete_append_iff {before : List Token}
    (plain : ∀ token ∈ before, token.isRelation = false) {tokens : List Token} :
    Complete (before ++ tokens) ↔ Complete tokens := by
  induction before with
  | nil => rfl
  | cons token before ih =>
    rw [List.forall_mem_cons] at plain
    rw [List.cons_append, complete_cons_iff plain.1, ih plain.2]

/-- The label comes before everything else, and has no relation. -/
theorem Labelled.exists_label {pieces : List (List Token)} {name? : Option String}
    {body : List Token} (labelled : Labelled pieces name? body) :
    ∃ label, pieces.flatten = label ++ body ∧ ∀ token ∈ label, token.isRelation = false := by
  cases labelled with
  | unnamed => exact ⟨[], rfl, by simp⟩
  | @named name colon first rest word mark =>
    refine ⟨[name, colon], by simp, ?_⟩
    simp [Token.isRelation, word, mark, TokenKind.isRelation]

/-- A label has no relation. -/
theorem Labelled.complete_iff {pieces : List (List Token)} {name? : Option String}
    {tokens : List Token} (labelled : Labelled pieces name? tokens) :
    Complete pieces.flatten ↔ Complete tokens := by
  obtain ⟨label, all, plain⟩ := labelled.exists_label
  rw [all, complete_append_iff plain]

theorem TokenKind.isRelation_iff {kind : TokenKind} :
    kind.isRelation = true ↔ ∃ sense, kind.sense? = some sense := by
  cases kind <;> simp [TokenKind.isRelation, TokenKind.sense?]

namespace OpenConstraint

theorem split?_eq_some_iff {constraint : OpenConstraint} {left right : List Token}
    {relation : Token} :
    constraint.split? = some (left, relation, right) ↔
      constraint.tokens = left ++ relation :: right ∧
        (∀ token ∈ left, token.isRelation = false) ∧ relation.isRelation = true := by
  have first := @takeWhile_dropWhile_iff _ (!·.isRelation) constraint.tokens left right relation
  simp only [Bool.not_eq_true', Bool.not_eq_false'] at first
  rw [← first]
  unfold split?
  split
  next none => simp [none]
  next some => simp [some]

theorem isComplete_iff {constraint : OpenConstraint} :
    constraint.isComplete = true ↔ Complete constraint.tokens := by
  simp only [isComplete, Option.any_eq_true, Prod.exists, split?_eq_some_iff, List.any_eq_true,
    beq_iff_eq, Complete, and_assoc]

theorem close_eq_ok_iff {constraint : OpenConstraint} {statement : ConstraintStatement α} :
    constraint.close = .ok statement ↔ ∃ left relation right sense terms rhs,
      constraint.tokens = left ++ relation :: right ∧ relation.kind.sense? = some sense ∧
        (∀ token ∈ left, token.isRelation = false) ∧ readTerms left = .ok terms ∧
        readRhs relation.line false right = .ok rhs ∧
        statement = ⟨constraint.name?, terms, sense, rhs, constraint.line,
          Token.spanOf constraint.tokens⟩ := by
  constructor
  · intro closed
    unfold close at closed
    split at closed
    next => cases closed
    next left relation right found =>
      obtain ⟨all, earlier, compares⟩ := split?_eq_some_iff.mp found
      obtain ⟨sense, points⟩ := TokenKind.isRelation_iff.mp compares
      simp only [bind_eq_ok_iff, points] at closed
      obtain ⟨terms, readLeft, rhs, readRight, returned⟩ := closed
      cases returned
      exact ⟨left, relation, right, sense, terms, rhs, all, points, earlier, readLeft, readRight,
        rfl⟩
  · rintro ⟨left, relation, right, sense, terms, rhs, all, points, earlier, readLeft, readRight,
      rfl⟩
    have compares := TokenKind.isRelation_iff.mpr ⟨sense, points⟩
    have found := split?_eq_some_iff.mpr ⟨all, earlier, compares⟩
    simp [close, found, readLeft, readRight, points, ok_bind, pure, Except.pure]

end OpenConstraint

theorem extendConstraint_none_iff {line : Line} {constraint : OpenConstraint} :
    Progress.extendConstraint none line = .ok constraint ↔
      ∃ label? rest, splitLabel line.tokens = .ok (label?, rest) ∧
        constraint = ⟨label?.map (·.name), line.first.line, rest⟩ := by
  simp only [Progress.extendConstraint, bind_eq_ok_iff, Prod.exists]
  apply exists_congr
  intro label?
  apply exists_congr
  intro rest
  cases label? <;> simp [pure, Except.pure, eq_comm]

theorem extendConstraint_some_iff {opened constraint : OpenConstraint} {line : Line} :
    Progress.extendConstraint (some opened) line = .ok constraint ↔
      ColonFree line.tokens ∧
        constraint = { opened with tokens := opened.tokens ++ line.tokens } := by
  simp only [Progress.extendConstraint, bind_eq_ok_iff, Prod.exists]
  constructor
  · rintro ⟨label?, rest, split, returned⟩
    cases label? with
    | none =>
      obtain ⟨plain, rfl⟩ := splitLabel_eq_none_iff.mp split
      cases returned
      exact ⟨plain, rfl⟩
    | some label => cases returned
  · rintro ⟨plain, rfl⟩
    exact ⟨none, line.tokens, splitLabel_eq_none_iff.mpr ⟨plain, rfl⟩, rfl⟩

/-- The lines that an open constraint has taken. -/
structure Taken (lines : List Line) (constraint : OpenConstraint) : Prop where
  gathered : Gathered (lines.map Line.tokens) constraint.name? constraint.tokens
  start : lines.head?.map (·.first.line) = some constraint.line

/-- The lines that have been taken since the last constraint was complete. -/
def Awaits (lines : List Line) : Option OpenConstraint → Prop
  | none => lines = []
  | some constraint => Taken lines constraint ∧ ¬ Complete (lines.flatMap Line.tokens)

theorem Awaits.not_complete {lines : List Line} {open? : Option OpenConstraint}
    (awaits : Awaits lines open?) : ¬ Complete (lines.flatMap Line.tokens) := by
  cases open? with
  | none =>
    obtain rfl : lines = [] := awaits
    exact not_complete_nil
  | some constraint => exact awaits.2

theorem Awaits.eq_none {open? : Option OpenConstraint} (awaits : Awaits [] open?) :
    open? = none := by
  cases open? with
  | none => rfl
  | some constraint => cases awaits.1.start

theorem Awaits.exists_some {lines : List Line} {open? : Option OpenConstraint}
    (awaits : Awaits lines open?) (begun : lines ≠ []) : ∃ constraint, open? = some constraint ∧
      Taken lines constraint ∧ ¬ Complete (lines.flatMap Line.tokens) := by
  cases open? with
  | none => exact absurd awaits begun
  | some constraint => exact ⟨constraint, rfl, awaits⟩

theorem Taken.isComplete_iff {lines : List Line} {constraint : OpenConstraint}
    (taken : Taken lines constraint) :
    constraint.isComplete = true ↔ Complete (lines.flatMap Line.tokens) := by
  rw [OpenConstraint.isComplete_iff]
  exact taken.gathered.labelled.complete_iff.symm

/-- One more line is taken by the constraint that is open, or begins one. -/
theorem taken_concat_iff {lines : List Line} {line : Line} {constraint : OpenConstraint} :
    (Taken (lines ++ [line]) constraint ∧ ¬ Complete (lines.flatMap Line.tokens)) ↔
      ∃ open?, Awaits lines open? ∧ Progress.extendConstraint open? line = .ok constraint := by
  constructor
  · rintro ⟨⟨gathered, start⟩, waits⟩
    cases lines with
    | nil =>
      -- The first line begins the constraint, and its label comes off.
      obtain ⟨label?, split, named⟩ := gathered_singleton.mp gathered
      have same : line.first.line = constraint.line := by simpa using start
      have begun : constraint = ⟨label?.map (·.name), line.first.line, constraint.tokens⟩ := by
        rw [← named, same]
      exact ⟨none, rfl, extendConstraint_none_iff.mpr ⟨label?, _, split, begun⟩⟩
    | cons first rest =>
      rw [List.map_append] at gathered
      obtain ⟨before, gathered, plain, all⟩ := (gathered_concat (by simp)).mp gathered
      refine ⟨some { constraint with tokens := before }, ⟨⟨gathered, start⟩, waits⟩, ?_⟩
      exact extendConstraint_some_iff.mpr ⟨plain, by rw [← all]⟩
  · rintro ⟨open?, awaits, extended⟩
    constructor
    case right => exact awaits.not_complete
    cases open? with
    | none =>
      obtain rfl : lines = [] := awaits
      obtain ⟨label?, rest, split, rfl⟩ := extendConstraint_none_iff.mp extended
      exact ⟨gathered_singleton.mpr ⟨label?, split, rfl⟩, rfl⟩
    | some opened =>
      obtain ⟨⟨gathered, start⟩, _⟩ := awaits
      obtain ⟨plain, rfl⟩ := extendConstraint_some_iff.mp extended
      obtain ⟨first, rest, rfl⟩ : ∃ first rest, lines = first :: rest := by
        cases lines with
        | nil => simp at start
        | cons first rest => exact ⟨first, rest, rfl⟩
      refine ⟨?_, start⟩
      rw [List.map_append]
      exact (gathered_concat (by simp)).mpr ⟨_, gathered, plain, rfl⟩

/-- Only the last line completes the lines. -/
theorem closes_concat_iff {lines : List Line} {line : Line} :
    Closes (lines ++ [line]) ↔ ¬ Complete (lines.flatMap Line.tokens) ∧
      Complete ((lines ++ [line]).flatMap Line.tokens) := by
  constructor
  · intro closes
    constructor
    · intro complete
      have same := (closes lines (List.prefix_append _ _)).mp complete
      simp at same
    · exact (closes _ (List.prefix_refl _)).mpr rfl
  · rintro ⟨waits, complete⟩ before part
    constructor
    · intro early
      rcases List.prefix_concat_iff.mp part with all | part
      · exact all
      · obtain ⟨after, rfl⟩ := part
        rw [List.flatMap_append] at waits
        exact absurd (complete_append early _) waits
    · rintro rfl
      exact complete

theorem ConstraintReads.exists_concat {lines : List Line} {statement : ConstraintStatement α}
    (reads : ConstraintReads lines statement) : ∃ before line, lines = before ++ [line] := by
  cases reads
  exact (List.eq_nil_or_concat' _).resolve_left (List.cons_ne_nil _ _)

theorem ConstraintReads.closes {lines : List Line} {statement : ConstraintStatement α}
    (reads : ConstraintReads lines statement) : Closes lines := by
  cases reads
  assumption

/-- Lines are a constraint if the last one completes the constraint that takes them. -/
theorem constraintReads_concat_iff {lines : List Line} {line : Line}
    {statement : ConstraintStatement α} :
    ConstraintReads (lines ++ [line]) statement ↔
      ∃ constraint, Taken (lines ++ [line]) constraint ∧
        ¬ Complete (lines.flatMap Line.tokens) ∧ constraint.isComplete = true ∧
        constraint.close = .ok statement := by
  obtain ⟨first, rest, all⟩ : ∃ first rest, lines ++ [line] = first :: rest :=
    List.exists_cons_of_ne_nil (by simp)
  constructor
  · intro reads
    obtain ⟨waits, complete⟩ := closes_concat_iff.mp reads.closes
    rw [all] at reads complete ⊢
    obtain ⟨_, labelled, plain, compares, earlier, readLeft, readRight⟩ := reads
    have taken : Taken (first :: rest) ⟨_, first.first.line, _⟩ :=
      ⟨labelled.gathered plain, rfl⟩
    refine ⟨_, taken, waits, taken.isComplete_iff.mpr complete, ?_⟩
    exact OpenConstraint.close_eq_ok_iff.mpr
      ⟨_, _, _, _, _, _, rfl, compares, earlier, readLeft, readRight, rfl⟩
  · rintro ⟨constraint, taken, waits, complete, closed⟩
    have closes := closes_concat_iff.mpr ⟨waits, taken.isComplete_iff.mp complete⟩
    obtain ⟨gathered, start⟩ := taken
    obtain ⟨left, relation, right, sense, terms, rhs, body, compares, earlier, readLeft, readRight,
      rfl⟩ := OpenConstraint.close_eq_ok_iff.mp closed
    rw [all] at start gathered closes ⊢
    have same : first.first.line = constraint.line := by simpa using start
    rw [body] at gathered
    rw [body, ← same]
    have separate : relation.kind ≠ .colon := by
      intro colon
      simp [colon, TokenKind.sense?] at compares
    have plain : ColonFree (left ++ relation :: right) := colonFree_append.mpr
      ⟨colonFree_of_readTerms readLeft,
        colonFree_cons.mpr ⟨separate, colonFree_of_readRhs readRight⟩⟩
    exact ⟨closes, gathered.labelled, plain, compares, earlier, readLeft, readRight⟩

end LinOpt.Lp
