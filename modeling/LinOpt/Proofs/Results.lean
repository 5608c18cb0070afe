import Mathlib.Data.List.Forall2
import LinOpt.Logged

/-!
# Results of sequences

A sequence of steps returns what its last step returns, if all steps before it return. A traversal
fails with the first error that one of its steps has. What holds of either end of each step holds
of the ends of a sequence.
-/

namespace LinOpt

variable {γ δ error other : Type}

theorem ok_bind (x : γ) (rest : γ → Except error δ) : (Except.ok x >>= rest) = rest x := rfl

theorem bind_eq_ok_iff {first : Except error γ} {rest : γ → Except error δ} {y : δ} :
    first >>= rest = .ok y ↔ ∃ x, first = .ok x ∧ rest x = .ok y := by
  cases first with
  | error reason => simp [bind, Except.bind]
  | ok x => simp [bind, Except.bind]

theorem bind_eq_error_iff {first : Except error γ} {rest : γ → Except error δ} {reason : error} :
    first >>= rest = .error reason ↔
      first = .error reason ∨ ∃ x, first = .ok x ∧ rest x = .error reason := by
  cases first with
  | error other => simp [bind, Except.bind]
  | ok x => simp [bind, Except.bind]

theorem map_eq_ok_iff {first : Except error γ} {f : γ → δ} {y : δ} :
    f <$> first = .ok y ↔ ∃ x, first = .ok x ∧ f x = y := by
  cases first with
  | error reason => simp [Functor.map, Except.map]
  | ok x => simp [Functor.map, Except.map]

theorem exists_mapM_eq_ok_iff {f : γ → Except error δ} {xs : List γ} :
    (∃ ys, xs.mapM f = .ok ys) ↔ ∀ x ∈ xs, ∃ y, f x = .ok y := by
  induction xs with
  | nil => exact ⟨fun _ _ member => absurd member List.not_mem_nil, fun _ => ⟨[], rfl⟩⟩
  | cons x xs ih =>
    rw [List.mapM_cons, List.forall_mem_cons, ← ih]
    cases first : f x with
    | error reason => simp [bind, Except.bind]
    | ok y =>
      cases xs.mapM f with
      | error reason => simp [bind, Except.bind]
      | ok ys => simp [bind, Except.bind, pure, Except.pure]

/-- A traversal returns one value for each entry. -/
theorem mapM_eq_ok_iff {f : γ → Except error δ} {xs : List γ} {ys : List δ} :
    xs.mapM f = .ok ys ↔ List.Forall₂ (fun x y => f x = .ok y) xs ys := by
  induction xs generalizing ys with
  | nil => simp [pure, Except.pure, eq_comm]
  | cons x xs ih =>
    rw [List.mapM_cons, bind_eq_ok_iff, List.forall₂_cons_left_iff]
    simp only [bind_eq_ok_iff, ih, pure, Except.pure, Except.ok.injEq]
    constructor
    · rintro ⟨y, first, rest, others, rfl⟩
      exact ⟨y, rest, first, others, rfl⟩
    · rintro ⟨y, rest, first, others, rfl⟩
      exact ⟨y, first, rest, others, rfl⟩

/-- A traversal fails with the error of the first entry that fails. -/
theorem mapM_eq_error_iff {f : γ → Except error δ} {xs : List γ} {reason : error} :
    xs.mapM f = .error reason ↔ ∃ before x after, xs = before ++ x :: after ∧
      (∀ y ∈ before, ∃ value, f y = .ok value) ∧ f x = .error reason := by
  constructor
  · intro failed
    induction xs with
    | nil => cases failed
    | cons x xs ih =>
      rw [List.mapM_cons] at failed
      cases first : f x with
      | error other =>
        obtain rfl : other = reason := by simpa [first, bind, Except.bind] using failed
        exact ⟨[], x, xs, rfl, by simp, first⟩
      | ok value =>
        have rest : xs.mapM f = .error reason := by
          cases tail : xs.mapM f <;>
            simp_all [bind, Except.bind, pure, Except.pure]
        obtain ⟨before, y, after, rfl, passed, last⟩ := ih rest
        exact ⟨x :: before, y, after, rfl, List.forall_mem_cons.mpr ⟨⟨value, first⟩, passed⟩, last⟩
  · rintro ⟨before, x, after, rfl, passed, failed⟩
    rw [List.mapM_append, List.mapM_cons, failed]
    obtain ⟨values, returned⟩ := exists_mapM_eq_ok_iff.mpr passed
    rw [returned]
    rfl

/-! ### Either end -/

/-- What is returned has the one property, or the error has the other. -/
def Ends (value : γ → Prop) (reason : error → Prop) : Except error γ → Prop
  | .ok x => value x
  | .error e => reason e

namespace Ends

variable {P : γ → Prop} {R : δ → Prop} {E : error → Prop} {result : Except error γ}

theorem of_ok (ends : Ends P E result) {x : γ} (returned : result = .ok x) : P x := by
  rw [returned] at ends
  exact ends

theorem of_error (ends : Ends P E result) {reason : error} (failed : result = .error reason) :
    E reason := by
  rw [failed] at ends
  exact ends

theorem bind {rest : γ → Except error δ} (first : Ends P E result)
    (next : ∀ x, P x → Ends R E (rest x)) : Ends R E (result >>= rest) := by
  cases result with
  | error reason => exact first
  | ok x => exact next x first

theorem of_forall_ok (holds : ∀ x, result = .ok x → P x) : Ends P (fun _ => True) result := by
  cases result with
  | error => trivial
  | ok x => exact holds x rfl

theorem imp {Q : γ → Prop} (ends : Ends P E result) (weaker : ∀ x, P x → Q x) :
    Ends Q E result := by
  cases result with
  | error reason => exact ends
  | ok x => exact weaker x ends

theorem mapError {f : error → other} {E' : other → Prop} (ends : Ends P E result)
    (weaker : ∀ reason, E reason → E' (f reason)) : Ends P E' (result.mapError f) := by
  cases result with
  | error reason => exact weaker reason ends
  | ok x => exact ends

/-- What every step keeps holds at the end of a run. -/
theorem foldlM {f : γ → δ → Except error γ} {xs : List δ}
    (step : ∀ state, P state → ∀ x ∈ xs, Ends P E (f state x)) {start : γ} (holds : P start) :
    Ends P E (xs.foldlM f start) := by
  induction xs generalizing start with
  | nil => exact holds
  | cons x xs ih =>
    rw [List.foldlM_cons]
    refine (step start holds x List.mem_cons_self).bind fun next kept => ih ?_ kept
    exact fun state holds y member => step state holds y (List.mem_cons_of_mem x member)

end Ends

end LinOpt
