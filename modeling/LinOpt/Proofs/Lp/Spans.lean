import Mathlib.Data.List.Flatten
import LinOpt.Lp.Model
import LinOpt.Proofs.Lp.Sections
import LinOpt.Proofs.Lp.TokenOrder
import LinOpt.Scalar.Rational

/-!
# Spans of statements

Terms, constraints and bounds stand in the tokens of a source one after the other, each of them in a
part of its own, and their spans go from the start of the first token of this part to the end of the
last one.
-/

namespace LinOpt.Lp

variable {α β γ δ : Type}

/-! ### Items in tokens -/

/-- The items stand in the tokens one after the other, and each is related to a part of them. -/
inductive StandIn (R : List Token → γ → Prop) : List Token → List γ → Prop
  | nil (tokens : List Token) : StandIn R tokens []
  | cons (before : List Token) {part after : List Token} {item : γ} {items : List γ}
    (stands : R part item) (rest : StandIn R after items) :
    StandIn R (before ++ (part ++ after)) (item :: items)

/-- The span ends before the other one starts. -/
def Span.Before (earlier later : Span) : Prop := earlier.stop ≤ later.start

namespace StandIn

variable {R : List Token → γ → Prop} {tokens more : List Token} {items others : List γ}

theorem prepend (stand : StandIn R tokens items) (before : List Token) :
    StandIn R (before ++ tokens) items := by
  cases stand with
  | nil => exact .nil _
  | cons earlier stands rest =>
    rw [← List.append_assoc]
    exact .cons (before ++ earlier) stands rest

theorem append (first : StandIn R tokens items) (second : StandIn R more others) :
    StandIn R (tokens ++ more) (items ++ others) := by
  induction first with
  | nil tokens => exact second.prepend tokens
  | cons before stands _ ih =>
    rw [List.append_assoc, List.append_assoc]
    exact .cons before stands ih

theorem extend (stand : StandIn R tokens items) (after : List Token) :
    StandIn R (tokens ++ after) items := by
  have all := stand.append (.nil after)
  rwa [List.append_nil] at all

/-- Items that stand in consecutive pieces, each after what comes first in its piece, stand in all
of them. -/
theorem of_forall₂ {pieces : List (List Token)}
    (related : List.Forall₂ (fun piece item => ∃ label body, piece = label ++ body ∧ R body item)
      pieces items) : StandIn R pieces.flatten items := by
  induction related with
  | nil => exact .nil []
  | cons first _ ih =>
    obtain ⟨label, body, rfl, stands⟩ := first
    rw [List.flatten_cons, List.append_assoc]
    exact .cons label stands ih

/-- What stands in the parts of items stands in all tokens. -/
theorem flatMap {f : γ → List δ} {T : List Token → δ → Prop} (stand : StandIn R tokens items)
    (inner : ∀ part item, R part item → StandIn T part (f item)) :
    StandIn T tokens (items.flatMap f) := by
  induction stand with
  | nil tokens => exact .nil tokens
  | cons before stands _ ih =>
    rw [List.flatMap_cons]
    exact ((inner _ _ stands).append ih).prepend before

theorem exists_part (stand : StandIn R tokens items) {item : γ} (member : item ∈ items) :
    ∃ part, part <:+: tokens ∧ R part item := by
  induction stand with
  | nil => cases member
  | @cons before part after head items stands _ ih =>
    obtain rfl | later := List.mem_cons.mp member
    · exact ⟨part, ⟨before, after, by rw [List.append_assoc]⟩, stands⟩
    · obtain ⟨part', within, also⟩ := ih later
      have inside : after <:+: before ++ (part ++ after) :=
        ⟨before ++ part, [], by rw [List.append_nil, List.append_assoc]⟩
      exact ⟨part', within.trans inside, also⟩

/-- Items with the hulls of their parts as spans come one after the other. -/
theorem apart (stand : StandIn R tokens items) {span : γ → Span}
    (hull : ∀ part item, Ordered part → R part item → (span item).IsHull part)
    (ordered : Ordered tokens) : (items.map span).Pairwise Span.Before := by
  induction stand with
  | nil => exact .nil
  | @cons before part after item items stands rest ih =>
    obtain ⟨_, ordered, _⟩ := Ordered.append_iff.mp ordered
    obtain ⟨own, later, between⟩ := Ordered.append_iff.mp ordered
    rw [List.map_cons, List.pairwise_cons]
    refine ⟨?_, ih later⟩
    intro other member
    obtain ⟨item', member', rfl⟩ := List.mem_map.mp member
    -- The last token of the item comes before the first one of every later item.
    obtain ⟨part', within, stands'⟩ := rest.exists_part member'
    obtain ⟨_, last, _, ends, same⟩ := hull part item own stands
    obtain ⟨first, _, starts, _, same'⟩ :=
      hull part' item' (later.sublist within.sublist) stands'
    have passed := between last (List.mem_of_getLast? ends) first
      (within.subset (List.mem_of_mem_head? starts))
    rw [Span.Before, same, same']
    exact passed

end StandIn

variable [Scalar α] [Endpoint β α]

/-! ### Terms -/

/-- The tokens of a term after its signs: a name, or a number and a name. -/
inductive TermTokens : List Token → Term α → Prop
  | name {name : Token} (negative : Bool) (isName : name.kind = .ident) :
    TermTokens [name] ⟨Scalar.signed negative 1, name.text, name.span⟩
  | product {number name : Token} {value : α} (negative : Bool) (isNumber : number.kind = .number)
    (read : readNumber number = .ok value) (isName : name.kind = .ident) :
    TermTokens [number, name]
      ⟨Scalar.signed negative value, name.text, number.span.merge name.span⟩

omit [Endpoint β α] in
theorem TermTokens.isHull {part : List Token} {term : Term α} (tokens : TermTokens part term)
    (ordered : Ordered part) : term.span.IsHull part := by
  have hull := ordered.isHull_spanOf (by cases tokens <;> simp)
  cases tokens with
  | name => exact ⟨_, _, rfl, rfl, rfl⟩
  | product => exact hull

/-- Where the terms of the rest of an expression stand in a state of the reader. -/
def TermState.Stand : TermState α → List Token → List (Term α) → Prop
  | .factor negative coefficient span, tokens, terms =>
    ∃ name rest others, tokens = name :: rest ∧ name.kind = .ident ∧
      StandIn TermTokens rest others ∧
      terms = ⟨Scalar.signed negative coefficient, name.text, span.merge name.span⟩ :: others
  | _, tokens, terms => StandIn TermTokens tokens terms

omit [Endpoint β α] in
theorem readTermsFrom_stand {line : Nat} {state : TermState α} {tokens : List Token}
    {terms : List (Term α)} (read : readTermsFrom line state tokens = .ok terms) :
    state.Stand tokens terms := by
  fun_induction readTermsFrom line state tokens generalizing terms
  case case1 | case2 =>
    cases read
    exact .nil []
  -- A sign changes the state and belongs to no term.
  case case5 ih | case6 ih | case13 ih | case14 ih => exact StandIn.prepend (ih read) [_]
  -- After a number the reader waits for the name of the term.
  case case7 negative _ number rest isNumber ih =>
    obtain ⟨coefficient, known, later⟩ := bind_eq_ok_iff.mp read
    obtain ⟨name, rest, others, rfl, isName, stand, rfl⟩ := ih coefficient later
    exact .cons [] (.product negative isNumber known isName) stand
  case case8 negative _ name rest isName ih =>
    obtain ⟨others, later, returned⟩ := bind_eq_ok_iff.mp read
    cases returned
    exact .cons [] (.name negative isName) (ih later)
  case case10 name rest isName ih =>
    obtain ⟨others, later, returned⟩ := bind_eq_ok_iff.mp read
    cases returned
    exact ⟨name, rest, others, rfl, isName, ih later, rfl⟩
  all_goals cases read

omit [Endpoint β α] in
/-- The terms of an expression stand in its tokens. -/
theorem readTerms_stand {tokens : List Token} {terms : List (Term α)}
    (read : readTerms tokens = .ok terms) : StandIn TermTokens tokens terms :=
  readTermsFrom_stand read

/-- A term in a source has a part of the tokens of its own: its span goes around this part and
meets no other token, apart from comments and line ends. -/
structure TermStands (source : String) (part : List Token) (term : Term α) : Prop where
  tokens : TermTokens part term
  known : part.Sublist (Lexer.tokenize source)
  hull : term.span.IsHull part
  start : IsBoundary source term.span.start
  stop : IsBoundary source term.span.stop
  inside : term.span.stop ≤ source.utf8ByteSize
  own : ∀ token ∈ Lexer.tokenize source, token.span.start < term.span.stop →
    term.span.start < token.span.stop →
      token ∈ part ∨ token.kind = .comment ∨ token.kind = .newline

omit [Endpoint β α] in
theorem StandIn.termStands {source : String} {terms : List (Term α)}
    (stand : StandIn TermTokens ((Lexer.tokenize source).filter Token.isVisible) terms) :
    ∀ term ∈ terms, ∃ part, TermStands source part term := by
  intro term member
  obtain ⟨part, within, tokens⟩ := stand.exists_part member
  have own := (ordered_visible source).sublist within.sublist
  have hull := tokens.isHull own
  have known := within.sublist.trans List.filter_sublist
  -- The span starts with the first token of the part and stops with the last one.
  obtain ⟨first, last, starts, ends, same⟩ := tokens.isHull own
  have opened := tokenize_boundaries (known.subset (List.mem_of_mem_head? starts))
  have closed := tokenize_boundaries (known.subset (List.mem_of_getLast? ends))
  have inside : term.span.stop ≤ source.utf8ByteSize := by
    rw [same]
    exact closed.2.2
  refine ⟨part, tokens, known, hull, ?_, ?_, inside, ?_⟩
  · rw [same]
    exact opened.1
  · rw [same]
    exact closed.2.1
  · intro token member low high
    cases visible : token.isVisible with
    | false => exact .inr (comment_or_newline member visible (low.trans_le inside))
    | true =>
      have among := List.mem_filter.mpr ⟨member, visible⟩
      have ordered := ordered_visible source
      obtain ⟨before, after, parts⟩ := within
      rw [← parts] at among ordered
      exact .inl (ordered.mem_of_meets hull among low high)

/-! ### Constraints and bounds -/

/-- The tokens of a constraint after its name go on to the number on its right side, and its terms
stand in them. -/
structure ConstraintTokens (body : List Token) (statement : ConstraintStatement α) : Prop where
  span : statement.span = Token.spanOf body
  rhs : ∃ number value negative, body.getLast? = some number ∧ number.kind = .number ∧
    readNumber number = .ok value ∧ statement.rhs = Scalar.signed negative value
  terms : StandIn TermTokens body statement.terms

namespace ConstraintTokens

variable {body : List Token} {statement : ConstraintStatement α}

omit [Endpoint β α] in
theorem isHull (tokens : ConstraintTokens body statement) (ordered : Ordered body) :
    statement.span.IsHull body := by
  rw [tokens.span]
  apply ordered.isHull_spanOf
  rintro rfl
  obtain ⟨_, _, _, ends, _⟩ := tokens.rhs
  cases ends

omit [Endpoint β α] in
theorem covers_terms (tokens : ConstraintTokens body statement) (ordered : Ordered body) :
    ∀ term ∈ statement.terms, statement.span.start ≤ term.span.start ∧
      term.span.stop ≤ statement.span.stop := by
  intro term member
  obtain ⟨part, within, own⟩ := tokens.terms.exists_part member
  obtain ⟨first, last, starts, ends, same⟩ := own.isHull (ordered.sublist within.sublist)
  have inside := ordered.within_hull (tokens.isHull ordered)
  rw [same]
  exact ⟨(inside first (within.subset (List.mem_of_mem_head? starts))).1,
    (inside last (within.subset (List.mem_of_getLast? ends))).2⟩

end ConstraintTokens

omit [Endpoint β α] in
theorem ConstraintReads.exists_tokens {lines : List Line} {statement : ConstraintStatement α}
    (reads : ConstraintReads lines statement) : ∃ body,
      Labelled (lines.map Line.tokens) statement.name? body ∧ ConstraintTokens body statement := by
  obtain ⟨_, labelled, _, _, _, readLeft, readRight⟩ := reads
  refine ⟨_, labelled, rfl, ?_, (readTerms_stand readLeft).extend _⟩
  obtain ⟨signs, number, value, negative, rfl, _, isNumber, read, rhs⟩ :=
    exists_signs_of_readRhs readRight
  refine ⟨number, value, negative, ?_, isNumber, read, rhs⟩
  rw [← List.cons_append, ← List.append_assoc, List.getLast?_concat]

omit [Endpoint β α] in
/-- The span of a constraint goes around its tokens after its name, its terms included. -/
theorem ConstraintReads.exists_body {lines : List Line} {statement : ConstraintStatement α}
    (reads : ConstraintReads lines statement) (ordered : Ordered (lines.flatMap Line.tokens)) :
    ∃ body, Labelled (lines.map Line.tokens) statement.name? body ∧
      ConstraintTokens body statement ∧ statement.span.IsHull body ∧
      ∀ term ∈ statement.terms, statement.span.start ≤ term.span.start ∧
        term.span.stop ≤ statement.span.stop := by
  obtain ⟨body, labelled, tokens⟩ := reads.exists_tokens
  obtain ⟨label, all, _⟩ := labelled.exists_label
  rw [List.flatMap_def, all] at ordered
  have own := ordered.sublist (List.sublist_append_right label body)
  exact ⟨body, labelled, tokens, tokens.isHull own, tokens.covers_terms own⟩

/-- The tokens of a bound are those of its line. -/
def BoundTokens (tokens : List Token) (bound : BoundStatement β) : Prop :=
  tokens ≠ [] ∧ bound.span = Token.spanOf tokens

theorem BoundTokens.isHull {tokens : List Token} {bound : BoundStatement β}
    (own : BoundTokens tokens bound) (ordered : Ordered tokens) : bound.span.IsHull tokens := by
  rw [own.2]
  exact ordered.isHull_spanOf own.1

theorem boundTokens_of_readBound {line : Line} {bound : BoundStatement β}
    (read : readBound line = .ok bound) : BoundTokens line.tokens bound := by
  refine ⟨List.cons_ne_nil _ _, ?_⟩
  unfold readBound at read
  split at read
  next => cases read
  next =>
    cases read
    rfl
  next =>
    obtain ⟨⟨name, kind, rest⟩, _, ended⟩ := bind_eq_ok_iff.mp read
    cases rest with
    | nil =>
      cases ended
      rfl
    | cons extra rest => cases ended

/-! ### Files -/

theorem Keyword.ofLine?_eq_goal_iff {first : Token} {rest after : List Token} {goal : Goal} :
    ofLine? (first :: rest) = some (.goal goal, after) ↔
      first.kind = .ident ∧ ofWord? first.folded = some (.goal goal) ∧ after = rest := by
  unfold ofLine?
  dsimp only
  split_ifs with other
  · simp [other]
  cases ofWord? first.folded with
  | some keyword => simp_all [eq_comm]
  | none =>
    cases rest with
    | nil => simp
    | cons second rest =>
      dsimp only
      split <;> simp

/-- What stands in the lines of the bounds stands in those from their marker on. -/
theorem Ending.stand_lines {R : List Token → γ → Prop} {items : List γ} (ending : Ending)
    (stand : StandIn R (ending.limits.flatMap Line.tokens) items) :
    StandIn R (ending.lines.flatMap Line.tokens) items := by
  obtain ⟨bounds?, closing⟩ := ending
  rw [Ending.lines, List.flatMap_append]
  refine StandIn.extend ?_ _
  cases bounds? with
  | none => exact stand
  | some section_ => exact stand.prepend section_.1.tokens

/-- The lines of the bounds are among those of the ending. -/
theorem Ending.limits_sublist (ending : Ending) : ending.limits.Sublist ending.lines := by
  obtain ⟨bounds?, closing⟩ := ending
  refine List.Sublist.trans ?_ (List.sublist_append_left _ _)
  cases bounds? with
  | none => exact List.Sublist.refl _
  | some section_ => exact List.sublist_cons_self _ _

namespace Sections

/-- The tokens of the objective with its keyword and its name. -/
def objectiveTokens (parts : Sections) : List Token :=
  parts.opening.tokens ++ parts.objective.flatMap Line.tokens

/-- The tokens from the marker of the rows to their end. -/
def rowTokens (parts : Sections) : List Token :=
  (parts.rows?.elim [] (fun (marker, groups) => marker :: groups.flatten)).flatMap Line.tokens

theorem flatMap_tokens_flatten (groups : List (List Line)) :
    groups.flatten.flatMap Line.tokens = (groups.map (·.flatMap Line.tokens)).flatten := by
  rw [List.flatMap_def, List.map_flatten, List.flatten_flatten, List.map_map]
  rfl

theorem rowTokens_eq (parts : Sections) : parts.rowTokens =
    parts.rows?.elim [] (fun (marker, _) => marker.tokens) ++
      (parts.constraints.map (·.flatMap Line.tokens)).flatten := by
  obtain ⟨opening, objective, rows?, ending⟩ := parts
  cases rows? with
  | none => rfl
  | some rows => exact congrArg (rows.1.tokens ++ ·) (flatMap_tokens_flatten rows.2)

/-- The tokens of a constraint are part of those of the rows. -/
theorem isInfix_of_mem_constraints {parts : Sections} {lines : List Line}
    (member : lines ∈ parts.constraints) : lines.flatMap Line.tokens <:+: parts.rowTokens := by
  have inside : lines.flatMap Line.tokens <:+:
      (parts.constraints.map (·.flatMap Line.tokens)).flatten :=
    List.infix_of_mem_flatten (List.mem_map_of_mem member)
  rw [rowTokens_eq]
  exact inside.trans (List.suffix_append _ _).isInfix

theorem flatMap_tokens (parts : Sections) : parts.lines.flatMap Line.tokens =
    parts.objectiveTokens ++ parts.rowTokens ++ parts.ending.lines.flatMap Line.tokens := by
  rw [lines, List.flatMap_append, List.flatMap_append, List.flatMap_cons]
  rfl

theorem ordered_lines {parts : Sections} {source : String}
    (lines : parts.lines = logicalLines (Lexer.tokenize source)) :
    Ordered (parts.lines.flatMap Line.tokens) := by
  rw [lines, flatMap_tokens_logicalLines]
  exact ordered_visible source

namespace Reads

variable {parts : Sections} {file : File α β}

/-- The tokens of the objective are its keyword, its name and what its terms stand in. -/
theorem exists_objective (reads : parts.Reads file) : ∃ label body,
    parts.objectiveTokens = parts.opening.first :: (label ++ body) ∧
      Labelled ((parts.opening.rest :: parts.objective.map Line.tokens).filter (!·.isEmpty))
        file.objective.name? body ∧
      StandIn TermTokens body file.objective.terms ∧
      file.objective.span = parts.opening.first.span.merge (Token.spanOf body) := by
  obtain ⟨goal, rest, opened, objective⟩ := reads.objective
  obtain ⟨_, _, rfl⟩ := Keyword.ofLine?_eq_goal_iff.mp opened
  generalize file.objective = statement at objective ⊢
  obtain ⟨labelled, _, read⟩ := objective
  obtain ⟨label, parts_, _⟩ := labelled.exists_label
  refine ⟨label, _, ?_, labelled, readTerms_stand read, rfl⟩
  rw [List.flatten_filter_not_isEmpty, List.flatten_cons, ← List.flatMap_def] at parts_
  rw [objectiveTokens, Line.tokens, List.cons_append, parts_]

theorem constraints_stand (reads : parts.Reads file) :
    StandIn ConstraintTokens parts.rowTokens file.constraints := by
  have stand : StandIn ConstraintTokens (parts.constraints.map (·.flatMap Line.tokens)).flatten
      file.constraints := by
    apply StandIn.of_forall₂
    rw [List.forall₂_map_left_iff]
    refine reads.constraints.imp fun lines statement read => ?_
    obtain ⟨body, labelled, tokens⟩ := read.exists_tokens
    obtain ⟨label, all, _⟩ := labelled.exists_label
    exact ⟨label, body, by rw [List.flatMap_def, all], tokens⟩
  rw [rowTokens_eq]
  exact stand.prepend _

theorem bounds_stand (reads : parts.Reads file) :
    StandIn BoundTokens (parts.ending.lines.flatMap Line.tokens) file.bounds := by
  have stand : StandIn BoundTokens (parts.ending.limits.map Line.tokens).flatten
      file.bounds := by
    apply StandIn.of_forall₂
    rw [List.forall₂_map_left_iff]
    exact reads.ending.bounds.imp fun line bound read =>
      ⟨[], line.tokens, rfl, boundTokens_of_readBound read⟩
  rw [← List.flatMap_def] at stand
  exact parts.ending.stand_lines stand

/-- All terms of a file, those of the objective first, stand in its tokens. -/
theorem terms_stand (reads : parts.Reads file) :
    StandIn TermTokens (parts.lines.flatMap Line.tokens) file.terms := by
  obtain ⟨label, body, all, _, objective, _⟩ := reads.exists_objective
  have rows : StandIn TermTokens parts.rowTokens (file.constraints.flatMap (·.terms)) :=
    reads.constraints_stand.flatMap fun _ _ tokens => tokens.terms
  have first : StandIn TermTokens parts.objectiveTokens file.objective.terms := by
    rw [all]
    exact objective.prepend (parts.opening.first :: label)
  rw [flatMap_tokens]
  exact (first.append rows).extend _

end Reads

end Sections

/-! ### The spans of a file -/

/-- The statements of a file are where their spans say: each has tokens of its own, between which
its span goes, and they come one after the other. -/
structure Locates (source : String) (parts : Sections) (file : File α β) : Prop where
  lines : parts.lines = logicalLines (Lexer.tokenize source)
  reads : parts.Reads file
  terms : ∀ term ∈ file.terms, ∃ part, TermStands source part term
  constraints : List.Forall₂ (fun (lines : List Line) (statement : ConstraintStatement α) =>
    ∃ body, Labelled (lines.map Line.tokens) statement.name? body ∧
      ConstraintTokens body statement ∧ statement.span.IsHull body ∧
      ∀ term ∈ statement.terms, statement.span.start ≤ term.span.start ∧
        term.span.stop ≤ statement.span.stop) parts.constraints file.constraints
  bounds : List.Forall₂ (fun (line : Line) (bound : BoundStatement β) =>
    readBound line = .ok bound ∧ bound.span.IsHull line.tokens) parts.ending.limits file.bounds
  termsApart : (file.terms.map (·.span)).Pairwise Span.Before
  constraintsApart : (file.constraints.map (·.span)).Pairwise Span.Before
  boundsApart : (file.bounds.map (·.span)).Pairwise Span.Before

theorem statement_spans {source : String} {file : File α β}
    (parsed : (parse source).result = .ok file) : ∃ parts, Locates source parts file := by
  obtain ⟨_, parts, lines, reads⟩ := parse_eq_ok_iff.mp parsed
  have ordered := Sections.ordered_lines lines
  -- The tokens of the rows and of the ending are in order because all tokens are.
  have split := ordered
  rw [Sections.flatMap_tokens] at split
  obtain ⟨split, ending, _⟩ := Ordered.append_iff.mp split
  obtain ⟨_, rows, _⟩ := Ordered.append_iff.mp split
  refine ⟨parts, lines, reads, ?_, ?_, ?_, ?_, ?_, ?_⟩
  · apply StandIn.termStands
    rw [← flatMap_tokens_logicalLines, ← lines]
    exact reads.terms_stand
  · have own : ∀ lines ∈ parts.constraints, Ordered (lines.flatMap Line.tokens) :=
      fun lines member => rows.sublist (Sections.isInfix_of_mem_constraints member).sublist
    have both := (List.forall₂_and_left _ _).mpr ⟨own, reads.constraints⟩
    exact both.imp fun _ _ located => located.2.exists_body located.1
  · have own : ∀ line ∈ parts.ending.limits, Ordered line.tokens := by
      intro line member
      have among : line.tokens ∈ parts.ending.lines.map Line.tokens :=
        List.mem_map_of_mem (parts.ending.limits_sublist.subset member)
      exact ending.sublist (List.sublist_flatten_of_mem among)
    have both := (List.forall₂_and_left _ _).mpr ⟨own, reads.ending.bounds⟩
    exact both.imp fun _ _ located =>
      ⟨located.2, (boundTokens_of_readBound located.2).isHull located.1⟩
  · exact reads.terms_stand.apart (fun _ _ own tokens => tokens.isHull own) ordered
  · exact reads.constraints_stand.apart (fun _ _ own tokens => tokens.isHull own) rows
  · exact reads.bounds_stand.apart (fun _ _ own tokens => tokens.isHull own) ending

/-- A term whose variable is on the line after its coefficient. -/
def brokenTerm : String := "max 3\n x\nend\n"

theorem brokenTerm_newline : ∃ file : File Rat ExtendedRat,
    (parse brokenTerm).result = .ok file ∧ ∃ term ∈ file.terms,
      ∃ token ∈ Lexer.tokenize brokenTerm, token.kind = .newline ∧
        term.span.start < token.span.start ∧ token.span.stop < term.span.stop := by
  have parsed : (parse brokenTerm).result = .ok (⟨⟨none, .maximize, [⟨3, "x", ⟨4, 8⟩⟩], 1, ⟨0, 8⟩⟩,
      [], []⟩ : File Rat ExtendedRat) := by with_unfolding_all rfl
  have tokens : (Lexer.tokenize brokenTerm)[2]? = some ⟨.newline, ⟨5, 6⟩, "\n", 1⟩ := by
    with_unfolding_all rfl
  exact ⟨_, parsed, _, List.mem_singleton.mpr rfl, _, List.mem_of_getElem? tokens, rfl, by decide,
    by decide⟩

/-- The objective and the constraint have names, and the constraint goes on after a comment. -/
def scattered : String :=
  "min z: 2 x\n - y\nst\n c: x + \\ more\n 3 y >= 1\nbounds\n y <= 4\nend\n"

theorem statement_spans_scattered : ∃ file : File Rat ExtendedRat,
    (parse scattered).result = .ok file ∧
      file.terms.map (·.span) = [⟨7, 10⟩, ⟨14, 15⟩, ⟨23, 24⟩, ⟨35, 38⟩] ∧
      file.constraints.map (·.span) = [⟨23, 43⟩] ∧ file.bounds.map (·.span) = [⟨52, 58⟩] ∧
      ∃ parts, Locates scattered parts file := by
  have parsed : (parse scattered).result = .ok (⟨⟨some "z", .minimize, [⟨2, "x", ⟨7, 10⟩⟩,
      ⟨-1, "y", ⟨14, 15⟩⟩], 1, ⟨0, 15⟩⟩, [⟨some "c", [⟨1, "x", ⟨23, 24⟩⟩, ⟨3, "y", ⟨35, 38⟩⟩], .ge,
      1, 4, ⟨23, 43⟩⟩], [⟨"y", .upper (.finite 4), 7, ⟨52, 58⟩⟩]⟩ : File Rat ExtendedRat) := by
    with_unfolding_all rfl
  exact ⟨_, parsed, rfl, rfl, rfl, statement_spans parsed⟩

end LinOpt.Lp
