import LinOpt.Proofs.Simplex.Auxiliary

/-!
# The loop that removes artificial columns

While an artificial column is basic, the loop inverts the basis and either puts a program column in
the place of the first artificial one or drops it together with its row. Each round leaves fewer
artificial columns, and the rows that remain always include those of the artificial columns that are
still basic. None of this depends on what the numbers are.
-/

namespace LinOpt.Simplex

variable {α : Type} [Scalar α]

/-- The rows and the basic columns that remain. -/
structure Remaining where
  rows : List Nat
  basis : List Nat

/-- One round of the loop. The columns before the first artificial one are program columns. -/
inductive Round (tolerance : α) (auxiliary : Program α) (m : Nat) : Remaining → Remaining → Prop
  | replace {rows kept pending : List Nat} {column j : Nat} {inverse : List (List α)}
      (done : ∀ k ∈ kept, m ≤ k) (artificial : column < m)
      (inverted : Dense.invert ((auxiliary.restrict rows).basisMatrix (kept ++ column :: pending)) =
        some inverse)
      (found : replacement? tolerance (auxiliary.restrict rows) m (kept ++ column :: pending)
        (inverse.getD kept.length []) = some j) :
      Round tolerance auxiliary m ⟨rows, kept ++ column :: pending⟩ ⟨rows, kept ++ j :: pending⟩
  | drop {rows kept pending : List Nat} {column : Nat} {inverse : List (List α)}
      (done : ∀ k ∈ kept, m ≤ k) (artificial : column < m)
      (inverted : Dense.invert ((auxiliary.restrict rows).basisMatrix (kept ++ column :: pending)) =
        some inverse)
      (nothing : replacement? tolerance (auxiliary.restrict rows) m (kept ++ column :: pending)
        (inverse.getD kept.length []) = none)
      (row : column ∈ rows) :
      Round tolerance auxiliary m ⟨rows, kept ++ column :: pending⟩
        ⟨rows.erase column, kept ++ pending⟩

/-- Any number of rounds. -/
abbrev Rounds (tolerance : α) (auxiliary : Program α) (m : Nat) : Remaining → Remaining → Prop :=
  Relation.ReflTransGen (Round tolerance auxiliary m)

/-- The states in which `removeArtificials` inverts the basis, in their order. -/
def removalsFrom (tolerance : α) (auxiliary : Program α) (m : Nat) :
    (rows kept pending : List Nat) → List Remaining
  | _, _, [] => []
  | rows, kept, column :: pending =>
    if m ≤ column then removalsFrom tolerance auxiliary m rows (kept ++ [column]) pending
    else
      let basis := kept ++ column :: pending
      let remaining := auxiliary.restrict rows
      match Dense.invert (remaining.basisMatrix basis) with
      | none => [⟨rows, basis⟩]
      | some inverse =>
        match replacement? tolerance remaining m basis (inverse.getD kept.length []) with
        | some j =>
          ⟨rows, basis⟩ :: removalsFrom tolerance auxiliary m rows (kept ++ [j]) pending
        | none =>
          if rows.contains column then
            ⟨rows, basis⟩ :: removalsFrom tolerance auxiliary m (rows.erase column) kept pending
          else [⟨rows, basis⟩]

theorem replacement?_some {tolerance : α} {program : Program α} {m j : Nat} {basis : List Nat}
    {inverseRow : List α} (found : replacement? tolerance program m basis inverseRow = some j) :
    m ≤ j ∧ j < program.numColumns ∧ j ∉ basis ∧
      tolerance < Scalar.abs (program.columnDot inverseRow j) := by
  have accepted := List.find?_some found
  obtain ⟨k, small, rfl⟩ := List.mem_drop_iff_getElem.mp (List.mem_of_find?_eq_some found)
  rw [List.length_range] at small
  simp only [List.getElem_range, Bool.and_eq_true, Bool.not_eq_true', decide_eq_true_eq,
    List.contains_eq_mem, decide_eq_false_iff_not] at accepted ⊢
  exact ⟨by omega, by omega, accepted⟩

/-- A program column that is appended leaves program columns only. -/
theorem forall_mem_concat {m column : Nat} {kept : List Nat} (done : ∀ j ∈ kept, m ≤ j)
    (large : m ≤ column) : ∀ j ∈ kept ++ [column], m ≤ j :=
  List.forall_mem_append.mpr ⟨done, List.forall_mem_singleton.mpr large⟩

/-! ### The function makes rounds -/

section Function

variable {tolerance : α} {auxiliary : Program α} {m iterations : Nat} {rows kept pending : List Nat}

/-- A loop that ends has made rounds until no artificial column was left, by induction along the
basis. -/
theorem removeArtificials_rounds {basis rest : List Nat} (done : ∀ j ∈ kept, m ≤ j)
    (returned : (removeArtificials tolerance auxiliary m iterations rows kept pending).result =
      .ok (basis, rest)) :
    Rounds tolerance auxiliary m ⟨rows, kept ++ pending⟩ ⟨rest, basis⟩ ∧ ∀ j ∈ basis, m ≤ j := by
  fun_induction removeArtificials tolerance auxiliary m iterations rows kept pending with
  | case1 rows kept =>
    obtain ⟨rfl, rfl⟩ : kept = basis ∧ rows = rest := by simpa using returned
    rw [List.append_nil]
    exact ⟨.refl, done⟩
  | case2 rows kept column pending large ih =>
    -- Passing over a program column changes neither the rows nor the basis.
    rw [List.append_cons]
    exact ih (forall_mem_concat done large) returned
  | case3 => simp [Except.bind] at returned
  | case4 rows kept column pending small basis' remaining' inverse inverted j found ih =>
    have after := forall_mem_concat done (replacement?_some found).1
    have rounds := ih after (by simpa [Except.bind] using returned)
    rw [← List.append_cons] at rounds
    exact ⟨.head (.replace done (Nat.lt_of_not_le small) inverted found) rounds.1, rounds.2⟩
  | case5 rows kept column pending small basis' remaining' inverse inverted nothing row ih =>
    have rounds := ih done (by simpa [Except.bind] using returned)
    exact ⟨.head (.drop done (Nat.lt_of_not_le small) inverted nothing (by simpa using row))
      rounds.1, rounds.2⟩
  | case6 => simp at returned

/-- Wherever the loop inverts a basis, it has come by rounds, and an artificial column is basic. -/
theorem rounds_of_mem {state : Remaining} (done : ∀ j ∈ kept, m ≤ j)
    (member : state ∈ removalsFrom tolerance auxiliary m rows kept pending) :
    Rounds tolerance auxiliary m ⟨rows, kept ++ pending⟩ state ∧ ∃ j ∈ state.basis, j < m := by
  fun_induction removalsFrom tolerance auxiliary m rows kept pending with
  | case1 => cases member
  | case2 rows kept column pending large ih =>
    rw [List.append_cons]
    exact ih (forall_mem_concat done large) member
  | case3 rows kept column pending small basis' remaining' singular =>
    rw [List.mem_singleton.mp member]
    exact ⟨.refl, column, by simp [basis'], Nat.lt_of_not_le small⟩
  | case4 rows kept column pending small basis' remaining' inverse inverted j found ih =>
    have after := forall_mem_concat done (replacement?_some found).1
    rcases List.mem_cons.mp member with rfl | member
    · exact ⟨.refl, column, by simp [basis'], Nat.lt_of_not_le small⟩
    · -- What is inverted later comes after the round that puts `j` in the place of `column`.
      have rounds := ih after member
      rw [← List.append_cons] at rounds
      exact ⟨.head (.replace done (Nat.lt_of_not_le small) inverted found) rounds.1, rounds.2⟩
  | case5 rows kept column pending small basis' remaining' inverse inverted nothing row ih =>
    rcases List.mem_cons.mp member with rfl | member
    · exact ⟨.refl, column, by simp [basis'], Nat.lt_of_not_le small⟩
    · have rounds := ih done member
      exact ⟨.head (.drop done (Nat.lt_of_not_le small) inverted nothing (by simpa using row))
        rounds.1, rounds.2⟩
  | case6 rows kept column pending small basis' remaining' inverse inverted nothing gone =>
    rw [List.mem_singleton.mp member]
    exact ⟨.refl, column, by simp [basis'], Nat.lt_of_not_le small⟩

section Branches

variable {column j : Nat} {inverse : List (List α)} (artificial : ¬ m ≤ column)
  (inverted : Dense.invert ((auxiliary.restrict rows).basisMatrix (kept ++ column :: pending)) =
    some inverse)

include artificial inverted

theorem removalsFrom_replace (found : replacement? tolerance (auxiliary.restrict rows) m
    (kept ++ column :: pending) (inverse.getD kept.length []) = some j) :
    removalsFrom tolerance auxiliary m rows kept (column :: pending) =
      ⟨rows, kept ++ column :: pending⟩ ::
        removalsFrom tolerance auxiliary m rows (kept ++ [j]) pending := by
  simp only [removalsFrom, if_neg artificial, inverted, found]

theorem removalsFrom_drop (nothing : replacement? tolerance (auxiliary.restrict rows) m
    (kept ++ column :: pending) (inverse.getD kept.length []) = none)
    (row : rows.contains column = true) :
    removalsFrom tolerance auxiliary m rows kept (column :: pending) =
      ⟨rows, kept ++ column :: pending⟩ ::
        removalsFrom tolerance auxiliary m (rows.erase column) kept pending := by
  simp only [removalsFrom, if_neg artificial, inverted, nothing, if_pos row]

end Branches

/-- A loop that fails has come to an artificial column whose basis has no inverse, or whose row is
gone. -/
theorem removeArtificials_error {reason : Failure}
    (returned : (removeArtificials tolerance auxiliary m iterations rows kept pending).result =
      .error reason) :
    ∃ state ∈ removalsFrom tolerance auxiliary m rows kept pending,
      (reason = .singularBasis .one iterations ∧
        Dense.invert ((auxiliary.restrict state.rows).basisMatrix state.basis) = none) ∨
      ∃ column ∈ state.basis, column < m ∧ reason = .artificialWithoutRow column ∧
        column ∉ state.rows := by
  fun_induction removeArtificials tolerance auxiliary m iterations rows kept pending with
  | case1 => simp at returned
  | case2 rows kept column pending large ih =>
    rw [removalsFrom, if_pos large]
    exact ih returned
  | case3 rows kept column pending small basis' remaining' singular =>
    have same : reason = .singularBasis .one iterations := by
      simpa [Except.bind] using returned.symm
    refine ⟨⟨rows, basis'⟩, ?_, Or.inl ⟨same, singular⟩⟩
    simp only [basis', remaining'] at singular ⊢
    simp only [removalsFrom, if_neg small, singular, List.mem_singleton]
  | case4 rows kept column pending small basis' remaining' inverse inverted j found ih =>
    obtain ⟨state, member, ends⟩ := ih (by simpa [Except.bind] using returned)
    rw [removalsFrom_replace small inverted found]
    exact ⟨state, List.mem_cons_of_mem _ member, ends⟩
  | case5 rows kept column pending small basis' remaining' inverse inverted nothing row ih =>
    obtain ⟨state, member, ends⟩ := ih (by simpa [Except.bind] using returned)
    rw [removalsFrom_drop small inverted nothing row]
    exact ⟨state, List.mem_cons_of_mem _ member, ends⟩
  | case6 rows kept column pending small basis' remaining' inverse inverted nothing gone =>
    have same : reason = .artificialWithoutRow column := by simpa using returned.symm
    refine ⟨⟨rows, basis'⟩, ?_, Or.inr ⟨column, by simp [basis'], Nat.lt_of_not_le small, same,
      by simpa using gone⟩⟩
    simp only [basis', remaining'] at inverted nothing ⊢
    simp only [removalsFrom, if_neg small, inverted, nothing, if_neg gone, List.mem_singleton]

/-- A loop that ends reports one event for each basis that it inverts. -/
theorem length_removalsFrom {ended : List Nat × List Nat}
    (returned : (removeArtificials tolerance auxiliary m iterations rows kept pending).result =
      .ok ended) :
    (removalsFrom tolerance auxiliary m rows kept pending).length =
      (removeArtificials tolerance auxiliary m iterations rows kept pending).events.length := by
  fun_induction removeArtificials tolerance auxiliary m iterations rows kept pending with
  | case1 => rfl
  | case2 rows kept column pending large ih =>
    rw [removalsFrom, if_pos large]
    exact ih returned
  | case3 => simp [Except.bind] at returned
  | case4 rows kept column pending small basis' remaining' inverse inverted j found ih =>
    rw [removalsFrom_replace small inverted found]
    exact congrArg Nat.succ (ih (by simpa [Except.bind] using returned))
  | case5 rows kept column pending small basis' remaining' inverse inverted nothing row ih =>
    rw [removalsFrom_drop small inverted nothing row]
    exact congrArg Nat.succ (ih (by simpa [Except.bind] using returned))
  | case6 => simp at returned

end Function

/-! ### What a round keeps -/

/-- The rows that remain are rows of the program in their order, each has one basic column, and the
row of each basic artificial column is among them. -/
structure Remaining.Sound (program : Program α) (state : Remaining) : Prop where
  rows : state.rows.Sublist (List.range program.rows.length)
  length : state.basis.length = state.rows.length
  columns : ∀ j ∈ state.basis, j < program.rows.length + program.numColumns
  distinct : state.basis.Nodup
  rowOf : ∀ j ∈ state.basis, j < program.rows.length → j ∈ state.rows

variable {tolerance : α} {program : Program α} {state next : Remaining}

/-- The loop starts from all rows and any basis of the auxiliary program. -/
theorem Remaining.Sound.start {last : List Nat} (valid : program.auxiliary.IsBasis last)
    (distinct : last.Nodup) :
    Remaining.Sound program ⟨List.range program.rows.length, last⟩ where
  rows := .refl _
  length := by rw [valid.length, Program.length_auxiliary, List.length_range]
  columns j member := (valid.columns j member).trans_eq (Program.numColumns_auxiliary program)
  distinct := distinct
  rowOf _ _ artificial := List.mem_range.mpr artificial

theorem Remaining.Sound.isBasis (sound : state.Sound program) :
    (program.auxiliary.restrict state.rows).IsBasis state.basis where
  length := by rw [Program.length_restrict, sound.length]
  columns j member := (sound.columns j member).trans_eq (Program.numColumns_auxiliary program).symm

omit [Scalar α] in
theorem Remaining.Sound.row_lt (sound : state.Sound program) {r : Nat} (member : r ∈ state.rows) :
    r < program.rows.length :=
  List.mem_range.mp (sound.rows.mem member)

/-- Once no artificial column is left, the basis is one of the program. -/
theorem Remaining.Sound.given (sound : state.Sound program)
    (done : ∀ j ∈ state.basis, program.rows.length ≤ j) :
    (program.restrict state.rows).IsBasis (state.basis.map (· - program.rows.length)) ∧
      (state.basis.map (· - program.rows.length)).Nodup := by
  refine ⟨⟨?_, fun j member => ?_⟩, ?_⟩
  · rw [List.length_map, Program.length_restrict, sound.length]
  · obtain ⟨k, listed, rfl⟩ := List.mem_map.mp member
    have small := sound.columns k listed
    have large := done k listed
    show k - program.rows.length < program.numColumns
    omega
  · -- Above the artificial columns, no two columns of the auxiliary program become the same.
    rw [List.Nodup, List.pairwise_map]
    refine sound.distinct.imp_of_mem fun first second different same => ?_
    have large := done _ first
    have large' := done _ second
    omega

theorem Round.sound (round : Round tolerance program.auxiliary program.rows.length state next)
    (sound : state.Sound program) : next.Sound program := by
  obtain ⟨ordered, length, columns, distinct, rowOf⟩ := sound
  cases round with
  | @replace rows kept pending column j inverse done artificial inverted found =>
    obtain ⟨high, wide, fresh, _⟩ := replacement?_some found
    have wide : j < program.rows.length + program.numColumns :=
      wide.trans_eq (Program.numColumns_auxiliary program)
    have set : kept ++ j :: pending = (kept ++ column :: pending).set kept.length j := by simp
    refine ⟨ordered, by simpa using length, ?_, ?_, ?_⟩
    · intro k member
      rw [set] at member
      rcases List.mem_or_eq_of_mem_set member with member | rfl
      · exact columns k member
      · exact wide
    · show (kept ++ j :: pending).Nodup
      rw [set]
      exact distinct.set fresh
    · intro k member small
      rw [set] at member
      rcases List.mem_or_eq_of_mem_set member with member | rfl
      · exact rowOf k member small
      · exact absurd small (Nat.not_lt.mpr high)
  | @drop rows kept pending column inverse done artificial inverted nothing row =>
    have fewer : (kept ++ pending).Sublist (kept ++ column :: pending) :=
      (List.sublist_cons_self column pending).append_left kept
    refine ⟨(List.erase_sublist).trans ordered, ?_, fun k member => columns k (fewer.mem member),
      distinct.sublist fewer, fun k member small => ?_⟩
    · have counted : kept.length + (pending.length + 1) = rows.length := by simpa using length
      show (kept ++ pending).length = (rows.erase column).length
      rw [List.length_append, List.length_erase_of_mem row]
      omega
    · -- The dropped column was basic only once, so another artificial column keeps its row.
      have other : k ≠ column := by
        rintro rfl
        exact (List.nodup_middle.mp distinct).notMem member
      exact (List.mem_erase_of_ne other).mpr (rowOf k (fewer.mem member) small)

theorem Rounds.sound (rounds : Rounds tolerance program.auxiliary program.rows.length state next)
    (sound : state.Sound program) : next.Sound program := by
  induction rounds with
  | refl => exact sound
  | tail _ round ih => exact round.sound ih

/-- A round leaves fewer artificial columns. -/
theorem Round.artificials_lt {auxiliary : Program α} {m : Nat}
    (round : Round tolerance auxiliary m state next) :
    next.basis.countP (· < m) < state.basis.countP (· < m) := by
  cases round with
  | replace done artificial inverted found =>
    have program := Nat.not_lt.mpr (replacement?_some found).1
    simp [artificial, program]
  | drop done artificial inverted nothing row => simp [artificial]

end LinOpt.Simplex
