import LinOpt.Proofs.Lp.Lines
import LinOpt.Proofs.Lp.Positions

/-!
# Tokens in order

The tokens of the logical lines are those of the source without comments and line ends. They come
one after the other, so none of them stands at two places, and the span of some of them goes from
the start of the first one to the end of the last one.
-/

namespace LinOpt.Lp

namespace Token

/-- The token is part of a logical line. -/
def isVisible (token : Token) : Bool := token.kind != .comment && !token.endsLine

end Token

/-! ### The tokens of the lines -/

theorem flatMap_tokens_ofTokens? (tokens : List Token) :
    (Line.ofTokens? tokens).toList.flatMap Line.tokens = tokens := by
  cases tokens with
  | nil => rfl
  | cons first rest => exact List.flatMap_singleton _ _

theorem flatMap_tokens_logicalLinesFrom (current tokens : List Token) :
    (logicalLinesFrom current tokens).flatMap Line.tokens =
      current ++ tokens.filter Token.isVisible := by
  induction tokens generalizing current with
  | nil =>
    rw [logicalLinesFrom_finished, flatMap_tokens_ofTokens?, List.filter_nil, List.append_nil]
  | cons token tokens ih =>
    by_cases ends : token.endsLine = true
    · have passed : token.isVisible = false := by simp [Token.isVisible, ends]
      rw [logicalLinesFrom_end ends, List.flatMap_append, flatMap_tokens_ofTokens?,
        ← logicalLinesFrom_nil, ih, List.nil_append, List.filter_cons_of_neg (by simp [passed])]
    have inside : token.endsLine = false := by simpa using ends
    by_cases comment : token.kind = .comment
    · have passed : token.isVisible = false := by simp [Token.isVisible, comment]
      rw [logicalLinesFrom_comment comment, ih, List.filter_cons_of_neg (by simp [passed])]
    · have seen : token.isVisible = true := by simp [Token.isVisible, comment, inside]
      rw [logicalLinesFrom_token inside comment, ih, List.filter_cons_of_pos seen,
        List.append_assoc, List.singleton_append]

/-- The lines have the tokens of the source that are neither comments nor line ends. -/
theorem flatMap_tokens_logicalLines (tokens : List Token) :
    (logicalLines tokens).flatMap Line.tokens = tokens.filter Token.isVisible := by
  rw [← logicalLinesFrom_nil, flatMap_tokens_logicalLinesFrom, List.nil_append]

/-! ### Order -/

/-- The tokens come one after the other, and none of them is empty. -/
structure Ordered (tokens : List Token) : Prop where
  filled : ∀ token ∈ tokens, token.span.start < token.span.stop
  apart : tokens.Pairwise fun earlier later => earlier.span.stop ≤ later.span.start

/-- The span goes from the start of the first token to the end of the last one. -/
def Span.IsHull (span : Span) (tokens : List Token) : Prop :=
  ∃ first last, tokens.head? = some first ∧ tokens.getLast? = some last ∧
    span = ⟨first.span.start, last.span.stop⟩

namespace Ordered

variable {tokens part left right : List Token}

theorem sublist (ordered : Ordered tokens) (within : part.Sublist tokens) : Ordered part where
  filled := fun token member => ordered.filled token (within.subset member)
  apart := ordered.apart.sublist within

theorem append_iff : Ordered (left ++ right) ↔ Ordered left ∧ Ordered right ∧
    ∀ earlier ∈ left, ∀ later ∈ right, earlier.span.stop ≤ later.span.start := by
  constructor
  · intro ordered
    have apart := List.pairwise_append.mp ordered.apart
    exact ⟨ordered.sublist (List.sublist_append_left _ _),
      ordered.sublist (List.sublist_append_right _ _), apart.2.2⟩
  · rintro ⟨first, second, between⟩
    exact ⟨List.forall_mem_append.mpr ⟨first.filled, second.filled⟩,
      List.pairwise_append.mpr ⟨first.apart, second.apart, between⟩⟩

/-- No token stands at two places. -/
theorem disjoint (ordered : Ordered (left ++ right)) {token : Token} (member : token ∈ left) :
    token ∉ right := by
  intro again
  obtain ⟨first, _, between⟩ := append_iff.mp ordered
  have filled := first.filled token member
  have passed := between token member token again
  omega

theorem nodup (ordered : Ordered tokens) : tokens.Nodup := by
  refine ordered.apart.imp_of_mem fun {earlier later} first _ passed same => ?_
  have filled := ordered.filled earlier first
  rw [same] at filled passed
  omega

/-- Tokens with the same span are the same. -/
theorem eq_of_span (ordered : Ordered tokens) {first second : Token} (member : first ∈ tokens)
    (also : second ∈ tokens) (same : first.span = second.span) : first = second := by
  obtain ⟨before, after, rfl⟩ := List.append_of_mem member
  obtain ⟨_, own, between⟩ := append_iff.mp ordered
  have filled := own.filled first List.mem_cons_self
  obtain earlier | rfl | later := by simpa using also
  · have passed := between second earlier first List.mem_cons_self
    rw [← same] at passed
    omega
  · rfl
  · have passed := (List.pairwise_cons.mp own.apart).1 second later
    rw [← same] at passed
    omega

/-- The first token that starts after a byte between two tokens is the second one of them. -/
theorem find?_gap (ordered : Ordered tokens) {first second : Token}
    (pair : [first, second] <:+: tokens) {byte : Nat} (low : first.span.stop ≤ byte)
    (high : byte < second.span.start) :
    tokens.find? (fun token => byte < token.span.start) = some second := by
  obtain ⟨before, after, rfl⟩ := pair
  obtain ⟨front, _, _⟩ := append_iff.mp ordered
  obtain ⟨_, own, between⟩ := append_iff.mp front
  have filled := own.filled first List.mem_cons_self
  have none : before.find? (fun token => byte < token.span.start) = none := by
    rw [List.find?_eq_none]
    intro token member
    have passed := between token member first List.mem_cons_self
    have earlier := front.filled token (List.mem_append_left _ member)
    simp only [decide_eq_true_eq]
    omega
  have passed : ¬ byte < first.span.start := by omega
  rw [List.append_assoc, List.find?_append, none, Option.none_or, List.cons_append,
    List.find?_cons_of_neg (by simpa using passed), List.cons_append,
    List.find?_cons_of_pos (by simpa using high)]

/-- What is in order stays between the start of its first token and the end of its last one. -/
theorem within_hull (ordered : Ordered tokens) {span : Span} (hull : span.IsHull tokens) :
    ∀ token ∈ tokens, span.start ≤ token.span.start ∧ token.span.stop ≤ span.stop := by
  obtain ⟨first, last, starts, ends, rfl⟩ := hull
  intro token member
  constructor
  · obtain ⟨rest, rfl⟩ := List.head?_eq_some_iff.mp starts
    obtain rfl | later := List.mem_cons.mp member
    · exact Nat.le_refl _
    · have filled := ordered.filled first List.mem_cons_self
      have passed := (List.pairwise_cons.mp ordered.apart).1 token later
      show first.span.start ≤ token.span.start
      omega
  · obtain ⟨before, rfl⟩ := List.getLast?_eq_some_iff.mp ends
    obtain earlier | only := List.mem_append.mp member
    · have filled := ordered.filled last (by simp)
      have passed := (append_iff.mp ordered).2.2 token earlier last (List.mem_singleton.mpr rfl)
      show token.span.stop ≤ last.span.stop
      omega
    · rw [List.mem_singleton.mp only]

/-- Only the tokens of a part meet the span around it. -/
theorem mem_of_meets (ordered : Ordered (left ++ part ++ right)) {span : Span}
    (hull : span.IsHull part) {token : Token} (member : token ∈ left ++ part ++ right)
    (low : token.span.start < span.stop) (high : span.start < token.span.stop) :
    token ∈ part := by
  obtain ⟨first, last, starts, ends, rfl⟩ := hull
  obtain ⟨front, _, later⟩ := append_iff.mp ordered
  obtain ⟨_, _, earlier⟩ := append_iff.mp front
  rw [List.mem_append, List.mem_append] at member
  obtain (passed | inside) | ahead := member
  · have gap := earlier token passed first (List.mem_of_mem_head? starts)
    exact absurd high (Nat.not_lt.mpr gap)
  · exact inside
  · have gap := later last (List.mem_append_right _ (List.mem_of_getLast? ends)) token ahead
    exact absurd low (Nat.not_lt.mpr gap)

theorem isHull_spanOf (ordered : Ordered tokens) (some : tokens ≠ []) :
    (Token.spanOf tokens).IsHull tokens := by
  have starts := List.head?_eq_some_head some
  have ends := List.getLast?_eq_some_getLast some
  have inside := ordered.within_hull ⟨_, _, starts, ends, rfl⟩
  have low := (inside _ (List.getLast_mem some)).1
  have high := (inside _ (List.head_mem some)).2
  refine ⟨_, _, starts, ends, ?_⟩
  rw [Token.spanOf, starts, ends]
  dsimp only at low high ⊢
  rw [Span.merge, Nat.min_eq_left low, Nat.max_eq_right high]

end Ordered

/-- Tokens start and stop at characters of the source. -/
theorem tokenize_boundaries {source : String} {token : Token}
    (member : token ∈ Lexer.tokenize source) : IsBoundary source token.span.start ∧
      IsBoundary source token.span.stop ∧ token.span.stop ≤ source.utf8ByteSize := by
  obtain ⟨before, after, parts, span, _⟩ := Lexer.tokenize_standsIn source token member
  have cut : source.toList = before ++ (token.text.toList ++ after) := by
    rw [parts, List.append_assoc]
  rw [span]
  refine ⟨isBoundary_part cut, isBoundary_part parts, ?_⟩
  rw [← Lexer.byteLength_toList, parts, Lexer.byteLength_append _ after]
  exact Nat.le_add_right _ _

/-- Of the tokens that are not visible, only comments and line ends have bytes. -/
theorem comment_or_newline {source : String} {token : Token}
    (member : token ∈ Lexer.tokenize source) (hidden : token.isVisible = false)
    (before : token.span.start < source.utf8ByteSize) :
    token.kind = .comment ∨ token.kind = .newline := by
  obtain ⟨inside, stop, all, _, span, within⟩ := (Lexer.tokenize_tiles source).ended
  rw [List.nil_append, Lexer.byteLength_toList] at span
  rw [all] at member
  obtain among | last := List.mem_append.mp member
  · have other := (within token among).1
    simp only [Token.isVisible, Token.endsLine, Bool.and_eq_false_iff, bne_eq_false_iff_eq,
      Bool.not_eq_false', Bool.or_eq_true, beq_iff_eq] at hidden
    tauto
  · rw [List.mem_singleton.mp last, span] at before
    exact absurd before (Nat.lt_irrefl _)

/-- The visible tokens of a source come one after the other. -/
theorem ordered_visible (source : String) :
    Ordered ((Lexer.tokenize source).filter Token.isVisible) where
  filled := by
    intro token member
    obtain ⟨known, visible⟩ := List.mem_filter.mp member
    obtain ⟨inside, stop, all, ended, _, filled⟩ := (Lexer.tokenize_tiles source).ended
    rw [all] at known
    obtain among | last := List.mem_append.mp known
    · exact (filled token among).2
    · rw [List.mem_singleton.mp last] at visible
      simp [Token.isVisible, Token.endsLine, ended] at visible
  apart := (Lexer.tokenize_tiles source).ordered.sublist List.filter_sublist

end LinOpt.Lp
