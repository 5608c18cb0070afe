import LinOpt.Proofs.Lp.CutStatements
import LinOpt.Proofs.Lp.Spans
import LinOpt.Scalar.Rational

/-!
# Line breaks

An objective may go over any number of lines, and so may a constraint. If blanks between the tokens
of such a statement become line ends, the source states the same file, unless a piece of a statement
is then a marker.
-/

namespace LinOpt.Lp

variable {α β : Type} [Scalar α] [Endpoint β α]

/-! ### Markers -/

theorem Keyword.ofLine?_unlined (tokens : List Token) :
    ofLine? (tokens.map Token.unlined) =
      (ofLine? tokens).map fun (keyword, rest) => (keyword, rest.map Token.unlined) := by
  cases tokens with
  | nil => rfl
  | cons first rest =>
    rw [List.map_cons]
    unfold ofLine?
    dsimp only
    rw [Token.kind_unlined, Token.folded_unlined]
    split_ifs
    · rfl
    cases ofWord? first.folded with
    | some keyword => rfl
    | none =>
      cases rest with
      | nil => rfl
      | cons second rest =>
        rw [List.map_cons]
        dsimp only
        rw [Token.isKeyword_unlined, Token.isKeyword_unlined]
        split <;> rfl

theorem Line.marker?_unlined (line : Line) : line.unlined.marker? = line.marker? := by
  rw [marker?, marker?, Keyword.ofWholeLine?, Keyword.ofWholeLine?, tokens_unlined,
    Keyword.ofLine?_unlined]
  obtain _ | ⟨keyword, _ | ⟨token, rest⟩⟩ := Keyword.ofLine? line.tokens <;> rfl

theorem Line.marker?_congr {line line' : Line} (same : line'.unlined = line.unlined) :
    line'.marker? = line.marker? := by
  rw [← marker?_unlined, same, marker?_unlined]

/-! ### Cutting lines -/

/-- The second lines are the first ones, cut at the chosen bytes. -/
def LinesCut (chosen : Nat → Bool) (lines lines' : List Line) : Prop :=
  lines'.map (·.unlined.tokens) =
    lines.flatMap fun line => line.unlined.tokens.splitBy (joined chosen)

namespace LinesCut

variable {chosen : Nat → Bool} {lines lines' more : List Line}

theorem pieces (cut : LinesCut chosen lines lines') :
    CutInto chosen (lines.map Line.tokens) (lines'.map Line.tokens) := by
  rw [CutInto, List.map_map, List.flatMap_map]
  exact cut

theorem append_iff : LinesCut chosen (lines ++ more) lines' ↔ ∃ first second,
    lines' = first ++ second ∧ LinesCut chosen lines first ∧ LinesCut chosen more second := by
  rw [LinesCut, List.flatMap_append, List.map_eq_append_iff]
  rfl

/-- Lines without new line ends are not cut. -/
theorem unlined_eq (cut : LinesCut chosen lines lines')
    (whole : ∀ line ∈ lines, line.tokens.IsChain (joined chosen · ·)) :
    lines'.map Line.unlined = lines.map Line.unlined := by
  have uncut : (lines.flatMap fun line => line.unlined.tokens.splitBy (joined chosen)) =
      lines.map (·.unlined.tokens) := by
    rw [List.map_eq_flatMap]
    apply List.flatMap_congr
    intro line member
    rw [Line.tokens_unlined]
    exact List.splitBy_of_isChain (List.cons_ne_nil _ _)
      ((List.isChain_map Token.unlined).mpr (whole line member))
  have injective : Function.Injective Line.tokens := by
    rintro ⟨_, _⟩ ⟨_, _⟩ ⟨⟩
    rfl
  rw [LinesCut, uncut] at cut
  apply List.map_injective_iff.mpr injective
  rw [List.map_map, List.map_map]
  exact cut

/-- The tokens stay the same up to their lines. -/
theorem tokens (cut : LinesCut chosen lines lines') :
    (lines'.flatMap Line.tokens).map Token.unlined =
      (lines.flatMap Line.tokens).map Token.unlined := by
  rw [List.flatMap_def, List.flatMap_def]
  exact cut.pieces.flatten

end LinesCut

/-! ### Sections -/

section Sections

variable {chosen : Nat → Bool} {lines' : List Line}

theorem exists_bounds_unlined {limits : List Line} {bounds : List (BoundStatement β)}
    (reads : List.Forall₂ (fun line bound => readBound line = .ok bound) limits bounds)
    (same : lines'.map Line.unlined = limits.map Line.unlined) :
    ∃ bounds' : List (BoundStatement β),
      List.Forall₂ (fun line bound => readBound line = .ok bound) lines' bounds' ∧
        bounds'.map BoundStatement.unlined = bounds.map BoundStatement.unlined := by
  induction reads generalizing lines' with
  | nil =>
    obtain rfl := List.map_eq_nil_iff.mp same
    exact ⟨[], .nil, rfl⟩
  | cons read _ ih =>
    obtain ⟨line', rest', rfl, first, later⟩ := List.map_eq_cons_iff.mp same
    obtain ⟨bound', read', alike⟩ := readBound_congr first read
    obtain ⟨bounds', reads', sames⟩ := ih later
    exact ⟨bound' :: bounds', .cons read' reads',
      by rw [List.map_cons, List.map_cons, alike, sames]⟩

/-- An ending reads the same on other lines. -/
theorem Ending.Reads.unlined {ending : Ending} {bounds : List (BoundStatement β)}
    (reads : ending.Reads bounds)
    (same : lines'.map Line.unlined = ending.lines.map Line.unlined) :
    ∃ ending' : Ending, ∃ bounds', ending'.lines = lines' ∧ ending'.Reads bounds' ∧
      bounds'.map BoundStatement.unlined = bounds.map BoundStatement.unlined := by
  obtain ⟨bounds?, closing⟩ := ending
  obtain ⟨marked, unmarked, statements, closed⟩ := reads
  cases bounds? with
  | none =>
    obtain ⟨closing', _, rfl, last, nothing⟩ := List.map_eq_cons_iff.mp same
    obtain rfl := List.map_eq_nil_iff.mp nothing
    cases statements
    have closed' := (Line.marker?_congr last).trans closed
    exact ⟨⟨none, closing'⟩, [], rfl, ⟨by simp, by simp [Ending.limits], .nil, closed'⟩, rfl⟩
  | some section_ =>
    obtain ⟨marker, limits⟩ := section_
    obtain ⟨marker', _, rfl, start, same⟩ := List.map_eq_cons_iff.mp same
    have same := same.trans List.map_append
    obtain ⟨limits', _, rfl, sameLimits, same⟩ := List.map_eq_append_iff.mp same
    obtain ⟨closing', _, rfl, last, nothing⟩ := List.map_eq_cons_iff.mp same
    obtain rfl := List.map_eq_nil_iff.mp nothing
    obtain ⟨bounds', read', sames⟩ := exists_bounds_unlined statements sameLimits
    refine ⟨⟨some (marker', limits'), closing'⟩, bounds', rfl, ⟨?_, ?_, read', ?_⟩, sames⟩
    · rintro _ ⟨⟩
      exact (Line.marker?_congr start).trans (marked _ rfl)
    · intro line member
      obtain ⟨other, inside, alike⟩ := List.mem_map.mp (sameLimits ▸ List.mem_map_of_mem member)
      exact (Line.marker?_congr alike.symm).trans (unmarked other inside)
    · exact (Line.marker?_congr last).trans closed

/-- The pieces of the objective are cut with its lines. -/
theorem exists_objective_cut {opening : Line} {objective : List Line}
    (cut : LinesCut chosen (opening :: objective) lines') : ∃ opening' objective',
      lines' = opening' :: objective' ∧ opening'.first.unlined = opening.first.unlined ∧
        CutInto chosen ((opening.rest :: objective.map Line.tokens).filter (!·.isEmpty))
          ((opening'.rest :: objective'.map Line.tokens).filter (!·.isEmpty)) := by
  obtain ⟨first, later, split, parts⟩ := exists_splitBy_tail (R := joined chosen)
    opening.first.unlined (opening.rest.map Token.unlined)
  rw [LinesCut, List.flatMap_cons] at cut
  have split : opening.unlined.tokens.splitBy (joined chosen) =
      (opening.first.unlined :: first) :: later := split
  rw [split, List.cons_append] at cut
  obtain ⟨opening', objective', rfl, same, cut⟩ := List.map_eq_cons_iff.mp cut
  obtain ⟨sameFirst, sameRest⟩ : opening'.first.unlined = opening.first.unlined ∧
    opening'.rest.map Token.unlined = first := List.cons.inj same
  refine ⟨opening', objective', rfl, sameFirst, ?_⟩
  -- The rest of the first line may become empty, and is then no piece of the objective.
  have each : (opening'.rest :: objective'.map Line.tokens).map (·.map Token.unlined) =
      (first :: later) ++ (objective.map Line.tokens).flatMap fun piece =>
        (piece.map Token.unlined).splitBy (joined chosen) := by
    rw [List.map_cons, sameRest, List.map_map, List.cons_append, List.flatMap_map]
    exact congrArg (first :: ·) cut
  have filled : ((objective.map Line.tokens).flatMap fun piece =>
      (piece.map Token.unlined).splitBy (joined chosen)).filter (!·.isEmpty) = _ :=
    List.filter_eq_self.mpr fun part member => by
      obtain ⟨_, _, inside⟩ := List.mem_flatMap.mp member
      simpa using List.ne_nil_of_mem_splitBy inside
  rw [CutInto, flatMap_filled, List.flatMap_cons, ← parts, map_filled, each, List.filter_append,
    filled]

theorem exists_constraints_cut {groups : List (List Line)}
    {statements : List (ConstraintStatement α)}
    (reads : List.Forall₂ ConstraintReads groups statements)
    (colons : ∀ group ∈ groups, ColonsJoined chosen (group.flatMap Line.tokens))
    (cut : LinesCut chosen groups.flatten lines') : ∃ groups' statements',
      lines' = groups'.flatten ∧ List.Forall₂ ConstraintReads groups' statements' ∧
        statements'.map ConstraintStatement.unlined =
          statements.map ConstraintStatement.unlined := by
  induction reads generalizing lines' with
  | nil =>
    obtain rfl := List.map_eq_nil_iff.mp cut
    exact ⟨[], [], rfl, .nil, rfl⟩
  | cons read _ ih =>
    rw [List.forall_mem_cons] at colons
    obtain ⟨group', lines'', rfl, first, later⟩ := LinesCut.append_iff.mp cut
    obtain ⟨statement', read', same⟩ := read.cut first.pieces colons.1
    obtain ⟨groups', statements', rfl, reads', sames⟩ := ih colons.2 later
    exact ⟨group' :: groups', statement' :: statements', rfl, .cons read' reads',
      by rw [List.map_cons, List.map_cons, same, sames]⟩

/-- The rows are cut with their lines, and their marker is not. -/
theorem exists_rows_cut {rows? : Option (Line × List (List Line))}
    {statements : List (ConstraintStatement α)}
    (marked : ∀ rows ∈ rows?, rows.1.marker? = some .subjectTo)
    (reads : List.Forall₂ ConstraintReads (rows?.elim [] (·.2)) statements)
    (whole : ∀ rows ∈ rows?, rows.1.tokens.IsChain (joined chosen · ·))
    (colons : ∀ group ∈ rows?.elim [] (·.2), ColonsJoined chosen (group.flatMap Line.tokens))
    (cut : LinesCut chosen (rows?.elim [] fun (marker, groups) => marker :: groups.flatten)
      lines') :
    ∃ rows?' : Option (Line × List (List Line)), ∃ statements',
      lines' = rows?'.elim [] (fun (marker, groups) => marker :: groups.flatten) ∧
        (∀ rows ∈ rows?', rows.1.marker? = some .subjectTo) ∧
        List.Forall₂ ConstraintReads (rows?'.elim [] (·.2)) statements' ∧
        statements'.map ConstraintStatement.unlined =
          statements.map ConstraintStatement.unlined ∧
        LinesCut chosen (rows?.elim [] (·.2)).flatten (rows?'.elim [] (·.2)).flatten := by
  cases rows? with
  | none =>
    obtain rfl := List.map_eq_nil_iff.mp cut
    cases reads
    exact ⟨none, [], rfl, by simp, .nil, rfl, rfl⟩
  | some rows =>
    obtain ⟨marker, groups⟩ := rows
    have cut : LinesCut chosen ([marker] ++ groups.flatten) lines' := cut
    obtain ⟨first, later, rfl, cutMarker, cutGroups⟩ := LinesCut.append_iff.mp cut
    have same := cutMarker.unlined_eq (List.forall_mem_singleton.mpr (whole _ rfl))
    obtain ⟨marker', _, rfl, alike, nothing⟩ := List.map_eq_cons_iff.mp same
    obtain rfl := List.map_eq_nil_iff.mp nothing
    obtain ⟨groups', statements', rfl, reads', sames⟩ :=
      exists_constraints_cut reads colons cutGroups
    refine ⟨some (marker', groups'), statements', rfl, ?_, reads', sames, cutGroups⟩
    rintro _ ⟨⟩
    exact (Line.marker?_congr alike).trans (marked _ rfl)

end Sections

namespace Sections

/-- The tokens of the statements that may go over several lines: the objective and the
constraints. -/
def statements (parts : Sections) : List (List Token) :=
  parts.objectiveTokens :: parts.constraints.map (·.flatMap Line.tokens)

/-- The lines that are part of no objective and of no constraint. -/
def otherLines (parts : Sections) : List Line :=
  parts.rows?.elim [] (fun (marker, _) => [marker]) ++ parts.ending.lines

variable {parts : Sections}

/-- The tokens of the objective after its keyword. -/
def afterKeyword (parts : Sections) : List Token :=
  parts.opening.rest ++ parts.objective.flatMap Line.tokens

theorem flatten_statements (parts : Sections) :
    parts.statements.flatten = parts.opening.first ::
      (parts.afterKeyword ++ parts.constraints.flatten.flatMap Line.tokens) := by
  rw [flatMap_tokens_flatten]
  rfl

theorem tokens_perm (parts : Sections) :
    (parts.statements.flatten ++ parts.otherLines.flatMap Line.tokens).Perm
      (parts.lines.flatMap Line.tokens) := by
  rw [statements, List.flatten_cons, flatMap_tokens, rowTokens_eq, otherLines, List.flatMap_append]
  simp only [List.append_assoc]
  refine List.Perm.append_left _ ?_
  cases parts.rows? with
  | none => exact .refl _
  | some rows =>
    rw [Option.elim_some, Option.elim_some, List.flatMap_singleton]
    exact List.perm_append_comm_assoc _ _ _

theorem isInfix_of_mem_statements {statement : List Token}
    (member : statement ∈ parts.statements) : statement <:+: parts.lines.flatMap Line.tokens := by
  rw [flatMap_tokens]
  have front : parts.objectiveTokens ++ parts.rowTokens <:+:
      parts.objectiveTokens ++ parts.rowTokens ++ parts.ending.lines.flatMap Line.tokens :=
    (List.prefix_append _ _).isInfix
  obtain rfl | later := List.mem_cons.mp member
  · exact (List.prefix_append _ _).isInfix.trans front
  · obtain ⟨lines, known, rfl⟩ := List.mem_map.mp later
    exact (isInfix_of_mem_constraints known).trans ((List.suffix_append _ _).isInfix.trans front)

theorem mem_lines {line : Line} (member : line ∈ parts.lines) : line = parts.opening ∨
    line ∈ parts.objective ++ parts.constraints.flatten ∨ line ∈ parts.otherLines := by
  obtain ⟨opening, objective, rows?, ending⟩ := parts
  cases rows? with
  | none => simpa [lines, constraints, otherLines, or_assoc] using member
  | some rows =>
    simp only [lines, constraints, otherLines, Option.elim_some, List.cons_append, List.mem_cons,
      List.mem_append, List.nil_append] at member ⊢
    tauto

theorem otherLines_subset {line : Line} (member : line ∈ parts.otherLines) :
    line ∈ parts.lines := by
  obtain ⟨opening, objective, rows?, ending⟩ := parts
  cases rows? with
  | none => exact List.mem_append_right _ member
  | some rows =>
    obtain rfl | closing := List.mem_cons.mp member
    · exact List.mem_append_left _ (List.mem_append_right _ List.mem_cons_self)
    · exact List.mem_append_right _ closing

/-- New lines that are pieces of statements, but not the first ones, are no markers. -/
theorem Reads.unmarked_cut {file : File α β} (reads : parts.Reads file)
    (ordered : Ordered (parts.lines.flatMap Line.tokens)) {line : Line} {token : Token}
    (piece : token ∈ parts.afterKeyword ++ parts.constraints.flatten.flatMap Line.tokens)
    (same : token.unlined = line.first.unlined)
    (old : line.marker? ≠ none → ∃ other ∈ parts.lines, other.unlined = line.unlined) :
    line.marker? = none := by
  by_contra marked
  obtain ⟨other, known, alike⟩ := old marked
  rw [← Line.marker?_congr alike] at marked
  -- The first token of the line stands at one place only, which is in a statement.
  have nodup := parts.tokens_perm.nodup_iff.mpr ordered.nodup
  have stated : token ∈ parts.statements.flatten := by
    rw [flatten_statements]
    exact List.mem_cons_of_mem _ piece
  have inside := parts.tokens_perm.subset (List.mem_append_left _ stated)
  have first : other.first ∈ other.tokens := List.mem_cons_self
  have spans := (Token.eq_of_unlined (same.trans (congrArg Line.first alike).symm)).2.1
  obtain rfl := ordered.eq_of_span inside (List.mem_flatMap.mpr ⟨other, known, first⟩) spans
  obtain rfl | plain | apart := mem_lines known
  · rw [flatten_statements, List.cons_append, List.nodup_cons] at nodup
    exact nodup.1 (List.mem_append_left _ piece)
  · exact marked (reads.unmarked other plain)
  · exact List.disjoint_of_nodup_append nodup stated (List.mem_flatMap.mpr ⟨other, apart, first⟩)

/-- The objective of a file may be cut, but not before the colon after its name. -/
theorem Reads.objective_cut {file : File α β} (reads : parts.Reads file) {chosen : Nat → Bool}
    {lines' : List Line} (cut : LinesCut chosen (parts.opening :: parts.objective) lines')
    (colons : ColonsJoined chosen parts.objectiveTokens) :
    ∃ opening' objective', ∃ statement' : ObjectiveStatement α, lines' = opening' :: objective' ∧
      (∃ goal rest, Keyword.ofLine? opening'.tokens = some (.goal goal, rest) ∧
        ObjectiveReads opening'.first goal
          ((rest :: objective'.map Line.tokens).filter (!·.isEmpty)) statement') ∧
      statement'.unlined = file.objective.unlined ∧
      (opening'.rest ++ objective'.flatMap Line.tokens).map Token.unlined =
        parts.afterKeyword.map Token.unlined := by
  obtain ⟨opening', objective', rfl, sameFirst, pieces⟩ := exists_objective_cut cut
  have flat (opening : Line) (objective : List Line) :
      ((opening.rest :: objective.map Line.tokens).filter (!·.isEmpty)).flatten =
        opening.rest ++ objective.flatMap Line.tokens := by
    rw [List.flatten_filter_not_isEmpty, List.flatten_cons, List.flatMap_def]
  have sameTokens := pieces.flatten
  rw [flat, flat] at sameTokens
  obtain ⟨goal, rest, opened, objective⟩ := reads.objective
  obtain ⟨word, isGoal, rfl⟩ := Keyword.ofLine?_eq_goal_iff.mp opened
  have later : ColonsJoined chosen
      ((parts.opening.rest :: parts.objective.map Line.tokens).filter (!·.isEmpty)).flatten := by
    rw [flat]
    exact fun left right pair => colons left right (List.infix_cons pair)
  obtain ⟨statement', readObjective, same⟩ := objective.cut pieces later sameFirst
  obtain ⟨kind, _, text⟩ := Token.eq_of_unlined sameFirst
  have opened' : Keyword.ofLine? opening'.tokens = some (.goal goal, opening'.rest) := by
    refine Keyword.ofLine?_eq_goal_iff.mpr ⟨kind.trans word, ?_, rfl⟩
    rwa [Token.folded, text]
  exact ⟨opening', objective', statement', rfl, ⟨goal, opening'.rest, opened', readObjective⟩, same,
    sameTokens⟩

/-- The statements of a file may be cut, as long as no colon loses its name and no new line is a
marker. -/
theorem Reads.cut {file : File α β} (reads : parts.Reads file)
    (ordered : Ordered (parts.lines.flatMap Line.tokens)) {chosen : Nat → Bool}
    {lines' : List Line} (cut : LinesCut chosen parts.lines lines')
    (whole : ∀ line ∈ parts.otherLines, line.tokens.IsChain (joined chosen · ·))
    (colons : ∀ statement ∈ parts.statements, ColonsJoined chosen statement)
    (old : ∀ line ∈ lines'.tail, line.marker? ≠ none →
      ∃ other ∈ parts.lines, other.unlined = line.unlined) :
    ∃ parts' : Sections, ∃ file' : File α β, parts'.lines = lines' ∧ parts'.Reads file' ∧
      file'.unlined = file.unlined := by
  obtain ⟨wholeMarker, wholeEnding⟩ := List.forall_mem_append.mp whole
  obtain ⟨colonsObjective, colonsRows⟩ := List.forall_mem_cons.mp colons
  rw [List.forall_mem_map] at colonsRows
  have wholeMarker : ∀ rows ∈ parts.rows?, rows.1.tokens.IsChain (joined chosen · ·) := by
    intro rows found
    rw [Option.mem_def.mp found] at wholeMarker
    exact wholeMarker rows.1 List.mem_cons_self
  -- The new lines are those of the objective, of the rows and of the ending.
  obtain ⟨_, _, rfl, cut, cutEnding⟩ := LinesCut.append_iff.mp cut
  obtain ⟨_, _, rfl, cutObjective, cutRows⟩ := LinesCut.append_iff.mp cut
  obtain ⟨opening', objective', statement', rfl, objective, sameObjective, sameTokens⟩ :=
    reads.objective_cut cutObjective colonsObjective
  obtain ⟨rows?', constraints', rfl, marked, readRows, sameRows, cutGroups⟩ :=
    exists_rows_cut reads.marked reads.constraints wholeMarker colonsRows cutRows
  obtain ⟨ending', bounds', rfl, readEnding, sameBounds⟩ :=
    reads.ending.unlined (cutEnding.unlined_eq wholeEnding)
  -- No new line of a statement is a marker, as its first token is in the statement.
  have sameTokens : (opening'.rest ++
      (objective' ++ (rows?'.elim [] (·.2)).flatten).flatMap Line.tokens).map Token.unlined =
        (parts.afterKeyword ++ parts.constraints.flatten.flatMap Line.tokens).map
          Token.unlined := by
    rw [List.flatMap_append, ← List.append_assoc, List.map_append, sameTokens, cutGroups.tokens,
      List.map_append]
    rfl
  have unmarked : ∀ line ∈ objective' ++ (rows?'.elim [] (·.2)).flatten, line.marker? = none := by
    intro line member
    have first : line.first ∈ line.tokens := List.mem_cons_self
    have among := List.mem_flatMap.mpr ⟨line, member, first⟩
    obtain ⟨token, piece, same⟩ :=
      Token.exists_of_unlined sameTokens (List.mem_append_right _ among)
    refine reads.unmarked_cut ordered piece same (old line (List.mem_append_left _ ?_))
    cases rows?' with
    | none => exact member
    | some rows =>
      exact List.mem_append.mpr ((List.mem_append.mp member).imp_right (List.mem_cons_of_mem _))
  exact ⟨⟨opening', objective', rows?', ending'⟩, ⟨statement', constraints', bounds'⟩, rfl,
    ⟨objective, marked, unmarked, readRows, readEnding⟩,
    by rw [File.unlined, File.unlined, sameObjective, sameRows, sameBounds]⟩

/-- The source consists of the sections, and they state the file. -/
structure Of (parts : Sections) (source : String) (file : File α β) : Prop where
  lines : parts.lines = logicalLines (Lexer.tokenize source)
  reads : parts.Reads file

/-- The byte is outside of all tokens, so a blank of the source, and between two tokens of an
objective or of a constraint that come one after the other, the second of which is not the colon
after the name. -/
structure MayBreak (parts : Sections) (source : String) (byte : Nat) : Prop where
  outside : ∀ token ∈ Lexer.tokenize source, token.span.start ≤ byte → token.span.stop ≤ byte
  between : ∃ statement ∈ parts.statements, ∃ left right, [left, right] <:+: statement ∧
    right.kind ≠ .colon ∧ left.span.stop ≤ byte ∧ byte < right.span.start

theorem MayBreak.exists_blank {source : String} {byte : Nat}
    (lines : parts.lines = logicalLines (Lexer.tokenize source))
    (breaks : parts.MayBreak source byte) : ∃ left c right,
      source.toList = left ++ c :: right ∧ Lexer.byteLength left = byte ∧
        Lexer.isBlank c = true := by
  obtain ⟨statement, member, _, last, pair, _, _, before⟩ := breaks.between
  have known : last ∈ Lexer.tokenize source := by
    have among := (pair.trans (isInfix_of_mem_statements member)).subset
      (List.mem_cons_of_mem _ List.mem_cons_self)
    rw [lines, flatMap_tokens_logicalLines] at among
    exact List.mem_of_mem_filter among
  obtain ⟨passed, after, cut, span, _⟩ := Lexer.tokenize_standsIn source last known
  have high : byte < Lexer.byteLength source.toList := by
    rw [span] at before
    rw [cut, List.append_assoc, Lexer.byteLength_append]
    exact Nat.lt_add_right _ before
  exact (Lexer.tokenize_tiles source).exists_blank (Nat.zero_le _) high breaks.outside

section Breaks

variable {source : String} {chosen : Nat → Bool}
  (breaks : ∀ byte, chosen byte = true → parts.MayBreak source byte)

include breaks

theorem outside_of_breaks : Outside chosen (Lexer.tokenize source) := by
  intro token member byte low high
  by_contra isChosen
  have passed := (breaks byte (by simpa using isChosen)).outside token member low
  omega

variable (ordered : Ordered (parts.lines.flatMap Line.tokens))

include ordered

/-- A new line end comes between two tokens of the lines only if they are in one statement. -/
theorem exists_statement_of_cut {left right : Token}
    (pair : [left, right] <:+: parts.lines.flatMap Line.tokens)
    (cut : joined chosen left right = false) :
    right.kind ≠ .colon ∧ right ∈ parts.statements.flatten := by
  obtain ⟨byte, isChosen, low, high⟩ := joined_eq_false_iff.mp cut
  obtain ⟨statement, member, first, second, inside, plain, low', high'⟩ :=
    (breaks byte isChosen).between
  have known := inside.trans (isInfix_of_mem_statements member)
  obtain rfl : right = second := Option.some.inj
    ((ordered.find?_gap pair low high).symm.trans (ordered.find?_gap known low' high'))
  exact ⟨plain, List.mem_flatten.mpr ⟨statement, member, inside.subset (by simp)⟩⟩

/-- Names stay with their colons. -/
theorem colonsJoined_of_breaks {statement : List Token} (member : statement ∈ parts.statements) :
    ColonsJoined chosen statement := by
  intro left right pair colon
  by_contra apart
  have within := pair.trans (isInfix_of_mem_statements member)
  exact (exists_statement_of_cut breaks ordered within (by simpa using apart)).1 colon

/-- The lines that are part of no statement stay whole. -/
theorem whole_of_breaks {line : Line} (member : line ∈ parts.otherLines) :
    line.tokens.IsChain (joined chosen · ·) := by
  rw [List.isChain_iff_forall_rel_of_append_cons_cons]
  intro left right before after all
  by_contra apart
  have pair : [left, right] <:+: line.tokens := ⟨before, after, by simp [all]⟩
  have part : line.tokens <:+: parts.lines.flatMap Line.tokens :=
    List.infix_of_mem_flatten (List.mem_map_of_mem (otherLines_subset member))
  have stated :=
    (exists_statement_of_cut breaks ordered (pair.trans part) (by simpa using apart)).2
  -- The second token would be both in a statement and in another line.
  have nodup := parts.tokens_perm.nodup_iff.mpr ordered.nodup
  exact List.disjoint_of_nodup_append nodup stated
    (List.mem_flatMap.mpr ⟨line, member, pair.subset (by simp)⟩)

end Breaks

end Sections

/-- Of the lines of the broken source after the first one, only old ones are markers. -/
def NoNewMarker (chosen : Nat → Bool) (source : String) : Prop :=
  ∀ line ∈ (logicalLines (Lexer.tokenize (broken chosen source))).tail, line.marker? ≠ none →
    ∃ old ∈ logicalLines (Lexer.tokenize source), old.unlined = line.unlined

/-- Breaking lines in the statements of a file changes nothing but the lines that the statements are
on, if no piece of a statement becomes a marker. The goal may be alone on the first line. -/
theorem parse_broken {source : String} {file : File α β}
    (parsed : (parse source).result = .ok file) :
    (∃ parts : Sections, parts.Of source file) ∧
      ∀ (parts : Sections) (chosen : Nat → Bool), parts.Of source file →
        (∀ byte, chosen byte = true → parts.MayBreak source byte) → NoNewMarker chosen source →
          ∃ file' : File α β, (parse (broken chosen source)).result = .ok file' ∧
            file'.unlined = file.unlined := by
  obtain ⟨sound, parts, lines, reads⟩ := parse_eq_ok_iff.mp parsed
  refine ⟨⟨parts, lines, reads⟩, fun parts chosen of breaks old => ?_⟩
  obtain ⟨lines, reads⟩ := of
  have outside := Sections.outside_of_breaks breaks
  have ordered := Sections.ordered_lines lines
  have cut : LinesCut chosen parts.lines
      (logicalLines (Lexer.tokenize (broken chosen source))) := by
    rw [lines]
    exact logicalLines_broken outside
  rw [NoNewMarker, ← lines] at old
  -- Every new line end is in a statement, so the sections are cut where statements are.
  obtain ⟨parts', file', lines', reads', same⟩ := reads.cut ordered cut
    (fun _ => Sections.whole_of_breaks breaks ordered)
    (fun _ => Sections.colonsJoined_of_breaks breaks ordered) old
  exact ⟨file', parse_eq_ok_iff.mpr ⟨readable_broken outside sound, parts', lines', reads'⟩, same⟩

/-- Line breaks may come at the bytes 3, 5, 16 and 21, and elsewhere. -/
def twoStatements : String := "max x + y\nst\n c: x <= 4\nend\n"

def twoStatementsFile : File Rat ExtendedRat :=
  ⟨⟨none, .maximize, [⟨1, "x", ⟨4, 5⟩⟩, ⟨1, "y", ⟨8, 9⟩⟩], 1, ⟨0, 9⟩⟩,
    [⟨some "c", [⟨1, "x", ⟨17, 18⟩⟩], .le, 4, 3, ⟨17, 23⟩⟩], []⟩

def twoStatementsParts : Sections where
  opening := ⟨⟨.ident, ⟨0, 3⟩, "max", 1⟩, [⟨.ident, ⟨4, 5⟩, "x", 1⟩, ⟨.plus, ⟨6, 7⟩, "+", 1⟩,
    ⟨.ident, ⟨8, 9⟩, "y", 1⟩]⟩
  objective := []
  rows? := some (⟨⟨.ident, ⟨10, 12⟩, "st", 2⟩, []⟩, [[⟨⟨.ident, ⟨14, 15⟩, "c", 3⟩,
    [⟨.colon, ⟨15, 16⟩, ":", 3⟩, ⟨.ident, ⟨17, 18⟩, "x", 3⟩, ⟨.le, ⟨19, 21⟩, "<=", 3⟩,
      ⟨.number, ⟨22, 23⟩, "4", 3⟩]⟩]])
  ending := ⟨none, ⟨⟨.ident, ⟨24, 27⟩, "end", 4⟩, []⟩⟩

def fourBytes (byte : Nat) : Bool := byte == 3 || byte == 5 || byte == 16 || byte == 21

example : broken fourBytes twoStatements = "max\nx\n+ y\nst\n c:\nx <=\n4\nend\n" := by decide

theorem constraintReads_twoStatements :
    List.Forall₂ ConstraintReads twoStatementsParts.constraints twoStatementsFile.constraints := by
  let left : List Token := [⟨.ident, ⟨17, 18⟩, "x", 3⟩]
  let relation : Token := ⟨.le, ⟨19, 21⟩, "<=", 3⟩
  let right : List Token := [⟨.number, ⟨22, 23⟩, "4", 3⟩]
  have labelled : Labelled [⟨.ident, ⟨14, 15⟩, "c", 3⟩ :: ⟨.colon, ⟨15, 16⟩, ":", 3⟩ ::
      (left ++ relation :: right)] (some "c") (left ++ relation :: right) :=
    .named (left ++ relation :: right) [] rfl rfl
  have plain : ColonFree (left ++ relation :: right) := by
    simp [ColonFree, left, relation, right]
  have readLeft : readTerms left = .ok [(⟨1, "x", ⟨17, 18⟩⟩ : Term Rat)] := by
    with_unfolding_all rfl
  have readRight : readRhs 3 false right = .ok (4 : Rat) := by with_unfolding_all rfl
  have closes : Closes ([] ++ [⟨⟨.ident, ⟨14, 15⟩, "c", 3⟩,
      ⟨.colon, ⟨15, 16⟩, ":", 3⟩ :: (left ++ relation :: right)⟩]) := by
    refine closes_concat_iff.mpr ⟨?_, ?_⟩
    · rintro ⟨_, _, _, nothing, _⟩
      simp at nothing
    · exact ⟨⟨.ident, ⟨14, 15⟩, "c", 3⟩ :: ⟨.colon, ⟨15, 16⟩, ":", 3⟩ :: left, relation, right, rfl,
        by decide, rfl, _, List.mem_singleton.mpr rfl, rfl⟩
  exact .cons (.intro closes labelled plain rfl (by decide) readLeft readRight) .nil

theorem twoStatementsParts_of : twoStatementsParts.Of twoStatements twoStatementsFile where
  lines := by with_unfolding_all rfl
  reads :=
    { objective := by
        have opened : Keyword.ofLine? twoStatementsParts.opening.tokens =
            some (.goal .maximize, twoStatementsParts.opening.rest) := by with_unfolding_all rfl
        have read : readTerms twoStatementsParts.opening.rest =
            .ok twoStatementsFile.objective.terms := by with_unfolding_all rfl
        exact ⟨.maximize, _, opened, .intro (.unnamed _) (colonFree_of_readTerms read) read⟩
      marked := by
        rintro _ ⟨⟩
        with_unfolding_all rfl
      unmarked := by
        have unmarked : Line.marker? ⟨⟨.ident, ⟨14, 15⟩, "c", 3⟩, [⟨.colon, ⟨15, 16⟩, ":", 3⟩,
          ⟨.ident, ⟨17, 18⟩, "x", 3⟩, ⟨.le, ⟨19, 21⟩, "<=", 3⟩,
            ⟨.number, ⟨22, 23⟩, "4", 3⟩]⟩ = none := by with_unfolding_all rfl
        exact List.forall_mem_singleton.mpr unmarked
      constraints := constraintReads_twoStatements
      ending := ⟨by rintro _ ⟨⟩, by simp [Ending.limits, twoStatementsParts], .nil,
        by with_unfolding_all rfl⟩ }

theorem noNewMarker_twoStatements : NoNewMarker fourBytes twoStatements := by
  have new : logicalLines (Lexer.tokenize (broken fourBytes twoStatements)) = [
    ⟨⟨.ident, ⟨0, 3⟩, "max", 1⟩, []⟩,
    ⟨⟨.ident, ⟨4, 5⟩, "x", 2⟩, []⟩,
    ⟨⟨.plus, ⟨6, 7⟩, "+", 3⟩, [⟨.ident, ⟨8, 9⟩, "y", 3⟩]⟩,
    ⟨⟨.ident, ⟨10, 12⟩, "st", 4⟩, []⟩,
    ⟨⟨.ident, ⟨14, 15⟩, "c", 5⟩, [⟨.colon, ⟨15, 16⟩, ":", 5⟩]⟩,
    ⟨⟨.ident, ⟨17, 18⟩, "x", 6⟩, [⟨.le, ⟨19, 21⟩, "<=", 6⟩]⟩,
    ⟨⟨.number, ⟨22, 23⟩, "4", 7⟩, []⟩,
    ⟨⟨.ident, ⟨24, 27⟩, "end", 8⟩, []⟩] := by with_unfolding_all rfl
  have plain (line : Line) (unmarked : line.marker? = none) : line.marker? ≠ none →
      ∃ old ∈ twoStatementsParts.lines, old.unlined = line.unlined := (absurd unmarked ·)
  rw [NoNewMarker, new, ← twoStatementsParts_of.lines, List.tail_cons]
  simp only [List.forall_mem_cons]
  exact ⟨plain _ (by decide +kernel), plain _ (by decide +kernel),
    fun _ => ⟨_, .tail _ (.head _), rfl⟩, plain _ (by decide +kernel), plain _ (by decide +kernel),
    plain _ (by decide +kernel), fun _ => ⟨_, .tail _ (.tail _ (.tail _ (.head _))), rfl⟩, by simp⟩

theorem mayBreak_twoStatements {byte : Nat} (isChosen : fourBytes byte = true) :
    twoStatementsParts.MayBreak twoStatements byte := by
  have tokens : (Lexer.tokenize twoStatements).map (·.span) = [⟨0, 3⟩, ⟨4, 5⟩, ⟨6, 7⟩, ⟨8, 9⟩,
    ⟨9, 10⟩, ⟨10, 12⟩, ⟨12, 13⟩, ⟨14, 15⟩, ⟨15, 16⟩, ⟨17, 18⟩, ⟨19, 21⟩, ⟨22, 23⟩, ⟨23, 24⟩,
    ⟨24, 27⟩, ⟨27, 28⟩, ⟨28, 28⟩] := by with_unfolding_all rfl
  have outside (byte : Nat) (apart : ∀ span ∈ (Lexer.tokenize twoStatements).map (·.span),
      span.start ≤ byte → span.stop ≤ byte) := List.forall_mem_map.mp apart
  rw [tokens] at outside
  simp only [fourBytes, Bool.or_eq_true, beq_iff_eq] at isChosen
  obtain ((rfl | rfl) | rfl) | rfl := isChosen
  · exact ⟨outside 3 (by decide), _, .head _, ⟨.ident, ⟨0, 3⟩, "max", 1⟩,
      ⟨.ident, ⟨4, 5⟩, "x", 1⟩, ⟨[], _, rfl⟩, by decide⟩
  · exact ⟨outside 5 (by decide), _, .head _, ⟨.ident, ⟨4, 5⟩, "x", 1⟩, ⟨.plus, ⟨6, 7⟩, "+", 1⟩,
      ⟨[⟨.ident, ⟨0, 3⟩, "max", 1⟩], _, rfl⟩, by decide⟩
  · exact ⟨outside 16 (by decide), _, .tail _ (.head _), ⟨.colon, ⟨15, 16⟩, ":", 3⟩,
      ⟨.ident, ⟨17, 18⟩, "x", 3⟩, ⟨[⟨.ident, ⟨14, 15⟩, "c", 3⟩], _, rfl⟩, by decide⟩
  · exact ⟨outside 21 (by decide), _, .tail _ (.head _), ⟨.le, ⟨19, 21⟩, "<=", 3⟩,
      ⟨.number, ⟨22, 23⟩, "4", 3⟩, ⟨[⟨.ident, ⟨14, 15⟩, "c", 3⟩, ⟨.colon, ⟨15, 16⟩, ":", 3⟩,
        ⟨.ident, ⟨17, 18⟩, "x", 3⟩], [], rfl⟩, by decide⟩

theorem parse_broken_twoStatements : (parse twoStatements).result = .ok twoStatementsFile ∧
    twoStatementsParts.Of twoStatements twoStatementsFile ∧
    (∀ byte, fourBytes byte = true → twoStatementsParts.MayBreak twoStatements byte) ∧
    NoNewMarker fourBytes twoStatements ∧
    ∃ file' : File Rat ExtendedRat, (parse (broken fourBytes twoStatements)).result = .ok file' ∧
      file'.unlined = twoStatementsFile.unlined := by
  have parsed : (parse twoStatements).result = .ok twoStatementsFile := by with_unfolding_all rfl
  have breaks : ∀ byte, fourBytes byte = true → twoStatementsParts.MayBreak twoStatements byte :=
    fun _ => mayBreak_twoStatements
  exact ⟨parsed, twoStatementsParts_of, breaks, noNewMarker_twoStatements,
    (parse_broken parsed).2 _ _ twoStatementsParts_of breaks noNewMarker_twoStatements⟩

end LinOpt.Lp
