import LinOpt.Proofs.Lp.BrokenLines

/-!
# Cut statements

An objective or a constraint says the same, however its tokens are cut into lines, as long as a name
and its colon stay together: an objective goes on until the next marker, and a constraint until the
number after its first relation.
-/

namespace LinOpt.Lp

variable {α : Type} [Scalar α]

/-! ### Cutting lists -/

section Cutting

variable {γ : Type} {R : γ → γ → Bool}

theorem exists_splitBy (x : γ) (xs : List γ) : ∃ first later,
    (x :: xs).splitBy R = (x :: first) :: later ∧ xs = first ++ later.flatten := by
  obtain ⟨part, later, split⟩ := List.exists_cons_of_ne_nil
    (List.splitBy_ne_nil (r := R).mpr (List.cons_ne_nil x xs))
  obtain ⟨all, filled, _⟩ := List.splitBy_eq_iff.mp split
  rw [List.mem_cons, not_or] at filled
  obtain ⟨y, first, rfl⟩ := List.exists_cons_of_ne_nil (Ne.symm filled.1)
  obtain ⟨rfl, rest⟩ : x = y ∧ xs = first ++ later.flatten := by simpa using all
  exact ⟨first, later, split, rest⟩

/-- No cut comes between the first entries if they are joined. -/
theorem splitBy_cons_cons {x y : γ} (joined : R x y = true) {ys first : List γ}
    {later : List (List γ)} (split : (y :: ys).splitBy R = (y :: first) :: later) :
    (x :: y :: ys).splitBy R = (x :: y :: first) :: later := by
  obtain ⟨all, filled, chains, apart⟩ := List.splitBy_eq_iff.mp split
  obtain ⟨chain, chains⟩ := List.forall_mem_cons.mp chains
  obtain ⟨between, apart⟩ := List.isChain_cons.mp apart
  rw [List.splitBy_eq_iff]
  refine ⟨by rw [all]; rfl, by simpa using filled, ?_, List.isChain_cons.mpr ⟨?_, apart⟩⟩
  · exact List.forall_mem_cons.mpr ⟨.cons_cons joined chain, chains⟩
  · -- The last entry of the first part is the same with `x` before it.
    intro part found
    obtain ⟨_, some, separate⟩ := between part found
    exact ⟨List.cons_ne_nil _ _, some, by rwa [List.getLast_cons (List.cons_ne_nil _ _)]⟩

/-- Without the first entry, the parts are those of the other entries, as far as anything is left
of them. -/
theorem exists_splitBy_tail (x : γ) (xs : List γ) : ∃ first later,
    (x :: xs).splitBy R = (x :: first) :: later ∧
      (first :: later).filter (!·.isEmpty) = xs.splitBy R := by
  cases xs with
  | nil => exact ⟨[], [], List.splitBy_of_isChain (List.cons_ne_nil _ _) (.singleton x), rfl⟩
  | cons y ys =>
    have kept : ((y :: ys).splitBy R).filter (!·.isEmpty) = (y :: ys).splitBy R := by
      rw [List.filter_eq_self]
      intro part member
      simpa using List.ne_nil_of_mem_splitBy member
    by_cases joined : R x y = true
    · obtain ⟨first, later, split, _⟩ := exists_splitBy (R := R) y ys
      exact ⟨y :: first, later, splitBy_cons_cons joined split, split ▸ kept⟩
    · have apart : ∀ z ∈ [x].getLast?, R z y = false := by simpa using joined
      have split := List.splitBy_append_cons ys apart
      rw [List.splitBy_of_isChain (List.cons_ne_nil _ _) (.singleton x)] at split
      exact ⟨[], (y :: ys).splitBy R, split, kept⟩

end Cutting

/-! ### Cutting pieces -/

/-- The second pieces are those of the first ones, cut at the chosen bytes, on other lines. -/
def CutInto (chosen : Nat → Bool) (pieces pieces' : List (List Token)) : Prop :=
  pieces'.map (·.map Token.unlined) =
    pieces.flatMap fun piece => (piece.map Token.unlined).splitBy (joined chosen)

/-- No chosen byte comes before a colon. -/
def ColonsJoined (chosen : Nat → Bool) (tokens : List Token) : Prop :=
  ∀ left right, [left, right] <:+: tokens → right.kind = .colon → joined chosen left right = true

section Pieces

variable {chosen : Nat → Bool} {pieces pieces' : List (List Token)} {tokens tokens' : List Token}

/-- Nothing is left of empty pieces. -/
theorem flatMap_filled (pieces : List (List Token)) :
    ((pieces.filter (!·.isEmpty)).flatMap fun piece =>
        (piece.map Token.unlined).splitBy (joined chosen)) =
      pieces.flatMap fun piece => (piece.map Token.unlined).splitBy (joined chosen) := by
  induction pieces with
  | nil => rfl
  | cons piece pieces ih =>
    cases piece with
    | nil => exact ih
    | cons token piece => rw [List.filter_cons_of_pos rfl, List.flatMap_cons, List.flatMap_cons, ih]

theorem map_filled (pieces : List (List Token)) :
    (pieces.filter (!·.isEmpty)).map (·.map Token.unlined) =
      (pieces.map (·.map Token.unlined)).filter (!·.isEmpty) := by
  rw [List.filter_map]
  simp [Function.comp_def]

theorem CutInto.flatten (cut : CutInto chosen pieces pieces') :
    pieces'.flatten.map Token.unlined = pieces.flatten.map Token.unlined := by
  rw [List.map_flatten, cut, List.flatMap_def, List.flatten_flatten, List.map_map, List.map_flatten]
  simp [Function.comp_def]

/-- The body of a statement is cut, and its name is not. -/
theorem Labelled.cut {name? : Option String} {body : List Token}
    (labelled : Labelled pieces name? body) (cut : CutInto chosen pieces pieces')
    (colons : ColonsJoined chosen pieces.flatten) :
    ∃ body', Labelled pieces' name? body' ∧ body'.map Token.unlined = body.map Token.unlined := by
  have same := cut.flatten
  cases labelled with
  | unnamed => exact ⟨_, .unnamed pieces', same⟩
  | @named name colon first rest word mark =>
    -- The name and the colon are still the first tokens of the first piece.
    have together : joined chosen name colon = true :=
      colons name colon ⟨[], first ++ rest.flatten, by simp⟩ mark
    obtain ⟨part, later, split, _⟩ :=
      exists_splitBy (R := joined chosen) colon.unlined (first.map Token.unlined)
    have split := splitBy_cons_cons (x := name.unlined) together split
    rw [CutInto, List.flatMap_cons, List.map_cons, List.map_cons, split, List.cons_append,
      List.map_eq_cons_iff] at cut
    obtain ⟨piece, rest', rfl, start, _⟩ := cut
    obtain ⟨name', _, rfl, sameName, start⟩ := List.map_eq_cons_iff.mp start
    obtain ⟨colon', first', rfl, sameColon, _⟩ := List.map_eq_cons_iff.mp start
    obtain ⟨kind, _, text⟩ := Token.eq_of_unlined sameName
    have labelled' := Labelled.named first' rest' (kind.trans word)
      ((Token.eq_of_unlined sameColon).1.trans mark)
    rw [text] at labelled'
    exact ⟨_, labelled', by simpa [sameName, sameColon] using same⟩

theorem colonFree_congr (same : tokens'.map Token.unlined = tokens.map Token.unlined)
    (plain : ColonFree tokens) : ColonFree tokens' := by
  intro token member
  obtain ⟨other, inside, alike⟩ := Token.exists_of_unlined same member
  rw [← (Token.eq_of_unlined alike).1]
  exact plain other inside

/-! ### Statements -/

theorem ObjectiveReads.cut {keyword keyword' : Token} {goal : Goal}
    {statement : ObjectiveStatement α} (reads : ObjectiveReads keyword goal pieces statement)
    (cut : CutInto chosen pieces pieces') (colons : ColonsJoined chosen pieces.flatten)
    (opened : keyword'.unlined = keyword.unlined) :
    ∃ statement', ObjectiveReads keyword' goal pieces' statement' ∧
      statement'.unlined = statement.unlined := by
  obtain ⟨labelled, plain, read⟩ := reads
  obtain ⟨body', labelled', same⟩ := labelled.cut cut colons
  refine ⟨_, .intro labelled' (colonFree_congr same plain) (readTerms_congr same read), ?_⟩
  rw [ObjectiveStatement.unlined, ObjectiveStatement.unlined, Token.spanOf_congr same,
    (Token.eq_of_unlined opened).2.1]

/-- The only number after the first relation is the last token, so the tokens before it are not
complete. -/
theorem not_complete_of_last {before after left signs : List Token} {relation number : Token}
    (all : before ++ after = left ++ relation :: (signs ++ [number])) (some : after ≠ [])
    (firstRelation : ∀ token ∈ left, token.isRelation = false)
    (compares : relation.isRelation = true)
    (signed : ∀ sign ∈ signs, sign.kind = .plus ∨ sign.kind = .minus) : ¬ Complete before := by
  rintro ⟨left', relation', right, rfl, first, compares', token, member, isNumber⟩
  rw [List.append_assoc, List.cons_append] at all
  -- The tokens from the first relation on are the same in both splits.
  have found (left : List Token) (relation : Token) (right : List Token)
      (first : ∀ token ∈ left, token.isRelation = false) (compares : relation.isRelation = true) :
      (left ++ relation :: right).dropWhile (!·.isRelation) = relation :: right :=
    (takeWhile_dropWhile_iff.mpr ⟨rfl, by simpa using first, by simpa using compares⟩).2
  have rest := found left' relation' (right ++ after) first compares'
  have rest' := found left relation (signs ++ [number]) firstRelation compares
  rw [all, rest'] at rest
  obtain ⟨after, last, rfl⟩ := (List.eq_nil_or_concat' after).resolve_left some
  -- So the number that completes the first tokens would be one of the signs.
  have inside : signs = right ++ after := by
    simp only [List.cons.injEq, ← List.append_assoc] at rest
    exact List.append_inj_left' rest.2 rfl
  rw [inside] at signed
  simpa [isNumber] using signed token (List.mem_append_left _ member)

/-- Lines with a statement and no more are a constraint, however many they are. -/
theorem constraintReads_of_labelled {lines : List Line} {name? : Option String}
    {left right : List Token} {relation : Token} {sense : Sense} {terms : List (Term α)} {rhs : α}
    {line : Nat} (labelled : Labelled (lines.map Line.tokens) name? (left ++ relation :: right))
    (compares : relation.kind.sense? = some sense)
    (firstRelation : ∀ token ∈ left, token.isRelation = false)
    (readLeft : readTerms left = .ok terms) (readRight : readRhs line false right = .ok rhs) :
    ∃ first, ConstraintReads lines
      ⟨name?, terms, sense, rhs, first, Token.spanOf (left ++ relation :: right)⟩ := by
  obtain ⟨label, all, plainLabel⟩ := labelled.exists_label
  rw [← List.flatMap_def, ← List.append_assoc] at all
  have first : ∀ token ∈ label ++ left, token.isRelation = false :=
    List.forall_mem_append.mpr ⟨plainLabel, firstRelation⟩
  have related := TokenKind.isRelation_iff.mpr ⟨sense, compares⟩
  obtain ⟨signs, number, _, _, rfl, signed, isNumber, _⟩ := exists_signs_of_readRhs readRight
  have plain : ColonFree (left ++ relation :: (signs ++ [number])) := by
    refine colonFree_append.mpr ⟨colonFree_of_readTerms readLeft,
      colonFree_cons.mpr ⟨fun colon => ?_, colonFree_of_readRhs readRight⟩⟩
    rw [colon] at compares
    cases compares
  -- The last line has the number, so no lines before it are complete.
  obtain rfl | ⟨before, last, rfl⟩ := List.eq_nil_or_concat' lines
  · simp at all
  have closes : Closes (before ++ [last]) := by
    refine closes_concat_iff.mpr ⟨?_, ?_⟩
    · rw [List.flatMap_append, List.flatMap_singleton] at all
      exact not_complete_of_last all (List.cons_ne_nil _ _) first related signed
    · exact ⟨_, _, _, all, first, related, number, by simp, isNumber⟩
  obtain ⟨start, rest, lines⟩ : ∃ start rest, before ++ [last] = start :: rest :=
    List.exists_cons_of_ne_nil (by simp)
  rw [lines] at closes labelled ⊢
  exact ⟨_, .intro closes labelled plain compares firstRelation readLeft
    (readRhs_congr rfl readRight relation.line)⟩

theorem ConstraintReads.cut {lines lines' : List Line} {statement : ConstraintStatement α}
    (reads : ConstraintReads lines statement)
    (cut : CutInto chosen (lines.map Line.tokens) (lines'.map Line.tokens))
    (colons : ColonsJoined chosen (lines.flatMap Line.tokens)) :
    ∃ statement', ConstraintReads lines' statement' ∧
      statement'.unlined = statement.unlined := by
  obtain ⟨_, labelled, _, compares, firstRelation, readLeft, readRight⟩ := reads
  obtain ⟨body', labelled', same⟩ := labelled.cut cut colons
  have spans := Token.spanOf_congr same
  -- The parts of the new body are those of the old one on other lines.
  rw [List.map_append, List.map_cons] at same
  obtain ⟨left', _, rfl, sameLeft, same⟩ := List.map_eq_append_iff.mp same
  obtain ⟨relation', right', rfl, sameRelation, sameRight⟩ := List.map_eq_cons_iff.mp same
  have compares' := (Token.eq_of_unlined sameRelation).1 ▸ compares
  have firstRelation' : ∀ token ∈ left', token.isRelation = false := by
    intro token member
    obtain ⟨other, inside, alike⟩ := Token.exists_of_unlined sameLeft member
    have plain := firstRelation other inside
    rwa [← Token.isRelation_unlined, alike, Token.isRelation_unlined] at plain
  obtain ⟨first, reads'⟩ := constraintReads_of_labelled labelled' compares' firstRelation'
    (readTerms_congr sameLeft readLeft) (readRhs_congr sameRight readRight 0)
  refine ⟨_, reads', ?_⟩
  rw [ConstraintStatement.unlined, ConstraintStatement.unlined, spans]

end Pieces

end LinOpt.Lp
