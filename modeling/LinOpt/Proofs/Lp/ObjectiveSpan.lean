import LinOpt.Proofs.Lp.Spans

/-!
# The span of the objective

An objective with tokens after its name reaches from its keyword to the last one of them. Without
any it stops with its keyword, but starts with the source.
-/

namespace LinOpt.Lp

variable {α β : Type} [Scalar α] [Endpoint β α]

/-- The span of an objective stops with the last token after its name, or with its keyword if there
is none. It starts with the keyword unless there is no token after the name: no tokens are at the
beginning of the source, whatever comes before the keyword. -/
structure ObjectiveSpan (source : String) (parts : Sections) (file : File α β)
    (label body : List Token) : Prop where
  lines : parts.lines = logicalLines (Lexer.tokenize source)
  reads : parts.Reads file
  tokens : parts.objectiveTokens = parts.opening.first :: (label ++ body)
  labelled : Labelled ((parts.opening.rest :: parts.objective.map Line.tokens).filter (!·.isEmpty))
    file.objective.name? body
  terms : StandIn TermTokens body file.objective.terms
  stop : ∃ last, (parts.opening.first :: body).getLast? = some last ∧
    file.objective.span.stop = last.span.stop
  start : file.objective.span.start = if body = [] then 0 else parts.opening.first.span.start
  fits : file.objective.span.start = parts.opening.first.span.start ↔
    body ≠ [] ∨ parts.opening.first.span.start = 0
  earlier : body ≠ [] → ∀ token ∈ Lexer.tokenize source,
    token.span.start < parts.opening.first.span.start →
      token.span.stop ≤ file.objective.span.start

/-- The span around a first token and some of those after it. -/
theorem Ordered.merge_spanOf {first : Token} {rest : List Token} (ordered : Ordered (first :: rest))
    (filled : rest ≠ []) :
    (first.span.merge (Token.spanOf rest)).IsHull (first :: rest) := by
  obtain ⟨next, last, starts, ends, same⟩ :=
    (ordered.sublist (List.sublist_cons_self _ _)).isHull_spanOf filled
  have passed := (List.pairwise_cons.mp ordered.apart).1
  have low := passed next (List.mem_of_mem_head? starts)
  have high := passed last (List.mem_of_getLast? ends)
  have own := ordered.filled first List.mem_cons_self
  have after := ordered.filled last (List.mem_cons_of_mem _ (List.mem_of_getLast? ends))
  have left : first.span.start ≤ next.span.start := by omega
  have right : first.span.stop ≤ last.span.stop := by omega
  refine ⟨first, last, rfl, by rw [List.getLast?_cons, ends]; rfl, ?_⟩
  rw [same, Span.merge, Nat.min_eq_left left, Nat.max_eq_right right]

/-- A token that starts before another one of the source stops before it. -/
theorem tokenize_earlier {source : String} {earlier later : Token}
    (member : earlier ∈ Lexer.tokenize source) (known : later ∈ Lexer.tokenize source)
    (before : earlier.span.start < later.span.start) : earlier.span.stop ≤ later.span.start := by
  have ordered := (Lexer.tokenize_tiles source).ordered
  obtain ⟨_, _, _, span, _⟩ := Lexer.tokenize_standsIn source later known
  have forward : later.span.start ≤ later.span.stop := by
    rw [span, Lexer.byteLength_append]
    exact Nat.le_add_right _ _
  obtain ⟨passed, ahead, parts⟩ := List.append_of_mem known
  rw [parts] at member ordered
  obtain ⟨_, after, between⟩ := List.pairwise_append.mp ordered
  obtain first | rfl | second := by simpa using member
  · exact between earlier first later List.mem_cons_self
  · exact absurd before (Nat.lt_irrefl _)
  · have passed := (List.pairwise_cons.mp after).1 earlier second
    omega

theorem objective_span {source : String} {file : File α β}
    (parsed : (parse source).result = .ok file) :
    ∃ parts label body, ObjectiveSpan source parts file label body := by
  obtain ⟨_, parts, lines, reads⟩ := parse_eq_ok_iff.mp parsed
  obtain ⟨label, body, tokens, labelled, terms, span⟩ := reads.exists_objective
  have among : parts.objectiveTokens.Sublist ((Lexer.tokenize source).filter Token.isVisible) := by
    rw [← flatMap_tokens_logicalLines, ← lines, Sections.flatMap_tokens, List.append_assoc]
    exact List.sublist_append_left _ _
  have ordered := (ordered_visible source).sublist among
  rw [tokens] at among ordered
  have own : Ordered (parts.opening.first :: body) :=
    ordered.sublist ((List.sublist_append_right _ _).cons_cons _)
  have known : parts.opening.first ∈ Lexer.tokenize source :=
    (among.trans List.filter_sublist).subset List.mem_cons_self
  refine ⟨parts, label, body, ?_⟩
  by_cases empty : body = []
  · -- The span around no tokens is the one from 0 to 0, so the start of the keyword is lost.
    subst empty
    rw [Token.spanOf, List.head?_nil, Span.merge, Nat.min_zero, Nat.max_zero] at span
    refine ⟨lines, reads, tokens, labelled, terms, ?_, ?_, ?_, ?_⟩
    · exact ⟨_, List.getLast?_singleton, by rw [span]⟩
    · rw [span, if_pos rfl]
    · rw [span]
      simp [eq_comm]
    · exact fun filled => absurd rfl filled
  · obtain ⟨first, last, starts, ends, same⟩ := own.merge_spanOf empty
    cases starts
    rw [same] at span
    refine ⟨lines, reads, tokens, labelled, terms, ?_, ?_, ?_, ?_⟩
    · exact ⟨last, ends, by rw [span]⟩
    · rw [span, if_neg empty]
    · rw [span]
      exact iff_of_true rfl (.inl empty)
    · intro _ token member before
      rw [span]
      exact tokenize_earlier member known before

/-- The goal stands alone on the second line. -/
def bareGoal : String := "\nmin\nst\n x >= 1\nend\n"

theorem bareGoal_start : ∃ file : File Rat ExtendedRat, (parse bareGoal).result = .ok file ∧
    file.objective.span = ⟨0, 4⟩ ∧ ∃ keyword ∈ Lexer.tokenize bareGoal, keyword.text = "min" ∧
      keyword.span = ⟨1, 4⟩ ∧ ∃ token ∈ Lexer.tokenize bareGoal, token.kind = .newline ∧
        token.span = ⟨0, 1⟩ := by
  have parsed : (parse bareGoal).result = .ok (⟨⟨none, .minimize, [], 2, ⟨0, 4⟩⟩,
      [⟨none, [⟨1, "x", ⟨9, 10⟩⟩], .ge, 1, 4, ⟨9, 15⟩⟩], []⟩ : File Rat ExtendedRat) := by
    with_unfolding_all rfl
  have keyword : (Lexer.tokenize bareGoal)[1]? = some ⟨.ident, ⟨1, 4⟩, "min", 2⟩ := by
    with_unfolding_all rfl
  have token : (Lexer.tokenize bareGoal)[0]? = some ⟨.newline, ⟨0, 1⟩, "\n", 1⟩ := by
    with_unfolding_all rfl
  exact ⟨_, parsed, rfl, _, List.mem_of_getElem? keyword, rfl, rfl, _,
    List.mem_of_getElem? token, rfl, rfl⟩

/-- The objective goes on on the third line, and its name does not. -/
def sparseGoal : String := "\\ costs\nmin z:\n + 2 x\nend\n"

theorem objective_span_sparseGoal : ∃ file : File Rat ExtendedRat,
    (parse sparseGoal).result = .ok file ∧ file.objective.name? = some "z" ∧
      file.objective.span = ⟨8, 21⟩ ∧
      ∃ parts label body, ObjectiveSpan sparseGoal parts file label body := by
  have parsed : (parse sparseGoal).result = .ok (⟨⟨some "z", .minimize, [⟨2, "x", ⟨18, 21⟩⟩], 2,
      ⟨8, 21⟩⟩, [], []⟩ : File Rat ExtendedRat) := by with_unfolding_all rfl
  exact ⟨_, parsed, rfl, rfl, objective_span parsed⟩

end LinOpt.Lp
