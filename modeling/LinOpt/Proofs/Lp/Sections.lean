import LinOpt.Proofs.Lp.Lines
import LinOpt.Proofs.Lp.Statements

/-!
# Files in sections

A text is an LP file if every character starts a token and its logical lines split into sections:
a line that begins with a goal, lines of the objective, rows and bounds under their keywords, and
the end. A keyword counts only where it is all of its line, and between its markers a section has
no such line.
-/

namespace LinOpt.Lp

variable {α β : Type} [Scalar α] [Endpoint β α]

/-- The keyword that is all of the line. -/
def Line.marker? (line : Line) : Option Keyword := Keyword.ofWholeLine? line.tokens

/-- The section that a keyword opens. -/
def Keyword.part? : Keyword → Option Section
  | .goal _ => none
  | .subjectTo => some .constraints
  | .bounds => some .bounds
  | .finish => some .finish

/-- The lines of a file from its bounds on, which may be left out with their marker. -/
structure Ending where
  bounds? : Option (Line × List Line)
  closing : Line

namespace Ending

/-- The lines of the bounds. -/
def limits (ending : Ending) : List Line := ending.bounds?.elim [] (·.2)

def lines (ending : Ending) : List Line :=
  ending.bounds?.elim [] (fun (marker, limits) => marker :: limits) ++ [ending.closing]

structure Reads (ending : Ending) (bounds : List (BoundStatement β)) : Prop where
  marked : ∀ section_ ∈ ending.bounds?, section_.1.marker? = some .bounds
  unmarked : ∀ line ∈ ending.limits, line.marker? = none
  bounds : List.Forall₂ (fun line statement => readBound line = .ok statement)
    ending.limits bounds
  closed : ending.closing.marker? = some .finish

/-- A file ends with a marker that opens no rows. -/
theorem Reads.exists_marker {ending : Ending} {bounds : List (BoundStatement β)}
    (reads : ending.Reads bounds) : ∃ marker keyword part rest,
      ending.lines = marker :: rest ∧ marker.marker? = some keyword ∧
        keyword.part? = some part ∧ part ≠ .constraints := by
  obtain ⟨bounds?, closing⟩ := ending
  cases bounds? with
  | none => exact ⟨closing, .finish, .finish, [], rfl, reads.closed, rfl, by simp⟩
  | some part => exact ⟨part.1, .bounds, .bounds, _, rfl, reads.marked part rfl, rfl, by simp⟩

end Ending

/-- The lines of a file. The rows may be left out with their marker; their lines are grouped by
constraint. -/
structure Sections where
  opening : Line
  objective : List Line
  rows? : Option (Line × List (List Line))
  ending : Ending

namespace Sections

/-- The lines of each constraint. -/
def constraints (parts : Sections) : List (List Line) := parts.rows?.elim [] (·.2)

def lines (parts : Sections) : List Line :=
  parts.opening :: parts.objective
    ++ parts.rows?.elim [] (fun (marker, groups) => marker :: groups.flatten)
    ++ parts.ending.lines

/-- The sections state what the file has. The objective may begin behind its goal. -/
structure Reads (parts : Sections) (file : File α β) : Prop where
  objective : ∃ goal rest, Keyword.ofLine? parts.opening.tokens = some (.goal goal, rest) ∧
    ObjectiveReads parts.opening.first goal
      ((rest :: parts.objective.map Line.tokens).filter (!·.isEmpty)) file.objective
  marked : ∀ rows ∈ parts.rows?, rows.1.marker? = some .subjectTo
  unmarked : ∀ line ∈ parts.objective ++ parts.constraints.flatten, line.marker? = none
  constraints : List.Forall₂ ConstraintReads parts.constraints file.constraints
  ending : parts.ending.Reads file.bounds

end Sections

namespace Progress

/-- What a line makes of the progress so far. -/
def step (progress : Progress α β) (line : Line) : Except ParseError (Progress α β) :=
  (progress.addLine line).result

def run (progress : Progress α β) (lines : List Line) : Except ParseError (Progress α β) :=
  lines.foldlM step progress

theorem result_foldlM_addLine (progress : Progress α β) (lines : List Line) :
    (lines.foldlM addLine progress).result = progress.run lines := by
  induction lines generalizing progress with
  | nil => rfl
  | cons line lines ih =>
    rw [List.foldlM_cons, Logged.result_bind, run, List.foldlM_cons]
    apply congrArg (Except.bind _)
    funext progress
    exact ih progress

theorem run_cons_eq_ok_iff {progress after : Progress α β} {line : Line} {lines : List Line} :
    progress.run (line :: lines) = .ok after ↔
      ∃ next, progress.step line = .ok next ∧ next.run lines = .ok after := by
  rw [run, List.foldlM_cons, bind_eq_ok_iff]
  rfl

theorem run_singleton (progress : Progress α β) (line : Line) :
    progress.run [line] = progress.step line := by
  simp [run]

theorem run_append_eq_ok_iff {progress after : Progress α β} {before lines : List Line} :
    progress.run (before ++ lines) = .ok after ↔
      ∃ next, progress.run before = .ok next ∧ next.run lines = .ok after := by
  rw [run, List.foldlM_append, bind_eq_ok_iff]
  rfl

omit [Scalar α] [Endpoint β α] in
theorem finish_eq_ok_iff {progress : Progress α β} {lastLine : Nat} {file : File α β} :
    progress.finish lastLine = .ok file ↔ progress = .finished file := by
  unfold finish
  split <;> simp

/-- A section that its own lines do not finish ends with a marker. -/
theorem run_finished_iff {progress : Progress α β} {lines : List Line} {file : File α β}
    (unfinished : ∀ before, (∀ line ∈ before, line.marker? = none) →
      progress.run before ≠ .ok (.finished file)) :
    progress.run lines = .ok (.finished file) ↔
      ∃ before marker keyword rest last next, lines = before ++ marker :: rest ∧
        (∀ line ∈ before, line.marker? = none) ∧ marker.marker? = some keyword ∧
        progress.run before = .ok last ∧ last.step marker = .ok next ∧
        next.run rest = .ok (.finished file) := by
  constructor
  · intro finished
    -- The lines before the first marker do not finish the file, so there is a marker.
    cases split : lines.dropWhile (·.marker?.isNone) with
    | nil =>
      have unmarked : ∀ line ∈ lines, line.marker? = none := by
        simpa [List.dropWhile_eq_nil_iff] using split
      exact absurd finished (unfinished lines unmarked)
    | cons marker rest =>
      obtain ⟨all, unmarked, stopped⟩ := takeWhile_dropWhile_iff.mp ⟨rfl, split⟩
      obtain ⟨keyword, marked⟩ : ∃ keyword, marker.marker? = some keyword := by
        simpa [Option.isSome_iff_exists] using stopped
      rw [all, run_append_eq_ok_iff] at finished
      obtain ⟨last, first, finished⟩ := finished
      obtain ⟨next, entered, finished⟩ := run_cons_eq_ok_iff.mp finished
      exact ⟨_, marker, keyword, rest, last, next, all, by simpa using unmarked, marked, first,
        entered, finished⟩
  · rintro ⟨before, marker, _, rest, last, next, rfl, _, _, first, entered, finished⟩
    apply run_append_eq_ok_iff.mpr
    exact ⟨last, first, run_cons_eq_ok_iff.mpr ⟨next, entered, finished⟩⟩

/-! ### The end -/

theorem run_finished {file : File α β} {lines : List Line} {after : Progress α β} :
    (finished file).run lines = .ok after ↔ lines = [] ∧ after = .finished file := by
  cases lines with
  | nil => simp [run, pure, Except.pure, eq_comm]
  | cons line lines => simp [run_cons_eq_ok_iff, step, addLine]

/-! ### Bounds -/

section Bounds

variable {objective : ObjectiveStatement α} {constraints : List (ConstraintStatement α)}
  {before : List (BoundStatement β)} {after : Progress α β} {file : File α β}

theorem step_bounds_iff {line : Line} :
    step (.bounds objective constraints before) line = .ok after ↔
      (line.marker? = none ∧ ∃ bound, readBound line = .ok bound ∧
        after = .bounds objective constraints (before ++ [bound])) ∨
      (line.marker? = some .finish ∧ after = .finished ⟨objective, constraints, before⟩) := by
  unfold step addLine addBoundLine
  rw [← Line.marker?]
  cases line.marker? with
  | none =>
    simp only [Logged.result_bind, Logged.result_ofExcept, Logged.result_pure]
    cases readBound (β := β) line <;> simp [Except.bind, eq_comm]
  | some keyword => cases keyword <;> simp [Except.bind, eq_comm]

theorem run_bounds_unmarked_iff {lines : List Line}
    (unmarked : ∀ line ∈ lines, line.marker? = none) :
    run (.bounds objective constraints before) lines = .ok after ↔
      ∃ bounds, List.Forall₂ (fun line statement => readBound line = .ok statement) lines bounds ∧
        after = .bounds objective constraints (before ++ bounds) := by
  induction lines generalizing before with
  | nil => simp [run, pure, Except.pure, eq_comm]
  | cons line lines ih =>
    rw [List.forall_mem_cons] at unmarked
    simp only [run_cons_eq_ok_iff, step_bounds_iff, unmarked.1, List.forall₂_cons_left_iff]
    constructor
    · rintro ⟨_, ⟨_, bound, read, rfl⟩ | ⟨marked, _⟩, ran⟩
      · obtain ⟨bounds, rest, rfl⟩ := (ih unmarked.2).mp ran
        exact ⟨_, ⟨bound, bounds, read, rest, rfl⟩, by simp⟩
      · cases marked
    · rintro ⟨_, ⟨bound, bounds, read, rest, rfl⟩, rfl⟩
      exact ⟨_, .inl ⟨trivial, bound, read, rfl⟩, (ih unmarked.2).mpr ⟨bounds, rest, by simp⟩⟩

/-- The bounds and the end of a file. -/
theorem run_bounds_iff {lines : List Line} :
    run (.bounds objective constraints []) lines = .ok (.finished file) ↔
      ∃ limits closing bounds, lines = limits ++ [closing] ∧
        (∀ line ∈ limits, line.marker? = none) ∧
        List.Forall₂ (fun line statement => readBound line = .ok statement) limits bounds ∧
        closing.marker? = some .finish ∧ file = ⟨objective, constraints, bounds⟩ := by
  rw [run_finished_iff]
  · constructor
    · rintro ⟨limits, closing, _, rest, last, next, rfl, unmarked, marked, ran, entered, finished⟩
      obtain ⟨bounds, read, rfl⟩ := (run_bounds_unmarked_iff unmarked).mp ran
      obtain ⟨plain, _⟩ | ⟨closed, rfl⟩ := step_bounds_iff.mp entered
      · simp [marked] at plain
      obtain ⟨rfl, same⟩ := run_finished.mp finished
      cases same
      exact ⟨limits, closing, bounds, rfl, unmarked, read, closed, rfl⟩
    · rintro ⟨limits, closing, bounds, rfl, unmarked, read, closed, rfl⟩
      refine ⟨limits, closing, .finish, [], _, _, rfl, unmarked, closed, ?_,
        step_bounds_iff.mpr (.inr ⟨closed, rfl⟩), run_finished.mpr ⟨rfl, rfl⟩⟩
      exact (run_bounds_unmarked_iff unmarked).mpr ⟨bounds, read, rfl⟩
  · -- Without a marker the reader stays in the section.
    intro limits unmarked finished
    obtain ⟨_, _, same⟩ := (run_bounds_unmarked_iff unmarked).mp finished
    cases same

end Bounds

/-! ### Rows -/

section Constraints

variable {objective : ObjectiveStatement α} {before : List (ConstraintStatement α)}
  {open? : Option OpenConstraint} {after : Progress α β} {file : File α β}

/-- The end of a file, or its bounds and the end. -/
theorem run_enter_iff {marker : Line} {keyword : Keyword} {part : Section} {lines : List Line}
    (marked : marker.marker? = some keyword) (opens : keyword.part? = some part)
    (late : part ≠ .constraints) :
    (enter part objective before).run lines = .ok (.finished file) ↔
      ∃ ending : Ending, ending.lines = marker :: lines ∧ ∃ bounds, ending.Reads bounds ∧
        file = ⟨objective, before, bounds⟩ := by
  cases keyword with
  | goal => cases opens
  | subjectTo =>
    cases opens
    exact absurd rfl late
  | bounds =>
    cases opens
    rw [enter, run_bounds_iff]
    constructor
    · rintro ⟨limits, closing, bounds, rfl, unmarked, read, closed, rfl⟩
      refine ⟨⟨some (marker, limits), closing⟩, rfl, bounds, ⟨?_, unmarked, read, closed⟩, rfl⟩
      rintro _ ⟨⟩
      exact marked
    · rintro ⟨⟨bounds?, closing⟩, all, bounds, ⟨_, unmarked, read, closed⟩, rfl⟩
      cases bounds? with
      | none =>
        cases all
        simp [marked] at closed
      | some part =>
        cases all
        exact ⟨part.2, closing, bounds, rfl, unmarked, read, closed, rfl⟩
  | finish =>
    cases opens
    rw [enter, run_finished]
    constructor
    · rintro ⟨rfl, same⟩
      cases same
      exact ⟨⟨none, marker⟩, rfl, [], ⟨by simp, by simp [Ending.limits], .nil, marked⟩, rfl⟩
    · rintro ⟨⟨bounds?, closing⟩, all, bounds, ⟨opened, _, read, _⟩, rfl⟩
      cases bounds? with
      | none =>
        cases all
        cases read
        exact ⟨rfl, rfl⟩
      | some part =>
        cases all
        simp [marked] at opened

theorem step_constraints_iff {line : Line} :
    step (.constraints objective before open?) line = .ok after ↔
      (line.marker? = none ∧ ∃ opened, extendConstraint open? line = .ok opened ∧
        (opened.isComplete = false ∧ after = .constraints objective before (some opened) ∨
          opened.isComplete = true ∧ ∃ statement, opened.close = .ok statement ∧
            after = .constraints objective (before ++ [statement]) none)) ∨
      (open? = none ∧ ∃ keyword part, line.marker? = some keyword ∧ keyword.part? = some part ∧
        part ≠ .constraints ∧ after = enter part objective before) := by
  unfold step addLine addConstraintLine
  rw [← Line.marker?]
  -- A marker ends the rows if none is open, and any other line extends the open one.
  cases line.marker? with
  | none =>
    simp only [Logged.result_bind, Logged.result_ofExcept]
    cases extendConstraint open? line with
    | error reason => simp [Except.bind]
    | ok opened =>
      cases complete : opened.isComplete with
      | false => simp [Except.bind, complete, eq_comm (a := after)]
      | true =>
        cases closed : opened.close (α := α) <;>
          simp [Except.bind, complete, closed, eq_comm (a := after)]
  | some keyword =>
    cases keyword <;> cases open? <;>
      simp [closeConstraints, Keyword.part?, Except.bind, eq_comm (a := after)]

theorem forall₂_concat_left_iff {γ δ : Type} {R : γ → δ → Prop} {xs : List γ} {x : γ}
    {zs : List δ} : List.Forall₂ R (xs ++ [x]) zs ↔
      ∃ ys y, List.Forall₂ R xs ys ∧ R x y ∧ zs = ys ++ [y] := by
  constructor
  · intro related
    obtain ⟨last, rest, first, before, reversed⟩ : ∃ y ys, R x y ∧ List.Forall₂ R xs.reverse ys ∧
        zs.reverse = y :: ys := by
      simpa [List.forall₂_cons_left_iff] using List.rel_reverse related
    have early : List.Forall₂ R xs rest.reverse := by simpa using List.rel_reverse before
    have all : zs = rest.reverse ++ [last] := by
      rw [← List.reverse_reverse zs, reversed, List.reverse_cons]
    exact ⟨rest.reverse, last, early, first, all⟩
  · rintro ⟨ys, y, before, last, rfl⟩
    exact List.rel_append before (.cons last .nil)

/-- The lines of the rows are groups of whole constraints and what the open one has taken. -/
theorem run_constraints_unmarked_iff {lines : List Line}
    (unmarked : ∀ line ∈ lines, line.marker? = none) :
    run (.constraints objective before none) lines = .ok after ↔
      ∃ groups taken constraints open?, lines = groups.flatten ++ taken ∧
        List.Forall₂ ConstraintReads groups constraints ∧ Awaits taken open? ∧
        after = .constraints objective (before ++ constraints) open? := by
  -- The last line decides whether a constraint is open, so the lines are taken from the end.
  induction lines using List.reverseRecOn generalizing after with
  | nil =>
    constructor
    · rintro ⟨⟩
      exact ⟨[], [], [], none, rfl, .nil, rfl, by simp⟩
    · rintro ⟨groups, taken, constraints, open?, all, reads, awaits, rfl⟩
      obtain ⟨nothing, rfl⟩ := List.append_eq_nil_iff.mp all.symm
      cases reads with
      | cons first _ =>
        obtain ⟨_, _, rfl⟩ := first.exists_concat
        simp at nothing
      | nil =>
        obtain rfl := awaits.eq_none
        simp [run, pure, Except.pure]
  | append_singleton lines line ih =>
    rw [List.forall_mem_append, List.forall_mem_singleton] at unmarked
    simp only [run_append_eq_ok_iff, run_singleton, ih unmarked.1]
    constructor
    · rintro ⟨_, ⟨groups, taken, constraints, open?, rfl, reads, awaits, rfl⟩, stepped⟩
      obtain ⟨_, opened, extended, added⟩ | ⟨_, _, _, marked, _⟩ := step_constraints_iff.mp stepped
      · obtain ⟨takes, waits⟩ := taken_concat_iff.mpr ⟨open?, awaits, extended⟩
        obtain ⟨incomplete, rfl⟩ | ⟨complete, statement, closed, rfl⟩ := added
        · have awaits : Awaits (taken ++ [line]) (some opened) := by
            refine ⟨takes, ?_⟩
            rw [← takes.isComplete_iff]
            simp [incomplete]
          exact ⟨groups, _, constraints, _, by simp, reads, awaits, rfl⟩
        · have last := constraintReads_concat_iff.mpr ⟨opened, takes, waits, complete, closed⟩
          have reads := forall₂_concat_left_iff.mpr ⟨_, _, reads, last, rfl⟩
          exact ⟨_, [], _, none, by simp, reads, rfl, by simp⟩
      · simp [unmarked.2] at marked
    · rintro ⟨groups, taken, constraints, open?, all, reads, awaits, rfl⟩
      rcases List.eq_nil_or_concat' taken with rfl | ⟨taken, last, rfl⟩
      · -- The line has closed the last group.
        obtain rfl := awaits.eq_none
        rcases List.eq_nil_or_concat' groups with rfl | ⟨groups, group, rfl⟩
        · simp at all
        obtain ⟨constraints, statement, earlier, last, rfl⟩ := forall₂_concat_left_iff.mp reads
        obtain ⟨taken, end_, rfl⟩ := last.exists_concat
        obtain ⟨opened, takes, waits, complete, closed⟩ := constraintReads_concat_iff.mp last
        obtain ⟨open?, awaits, extended⟩ := taken_concat_iff.mp ⟨takes, waits⟩
        obtain ⟨rfl, rfl⟩ : lines = groups.flatten ++ taken ∧ line = end_ := by
          simpa [← List.append_assoc] using all
        refine ⟨_, ⟨groups, taken, constraints, open?, rfl, earlier, awaits, rfl⟩, ?_⟩
        apply step_constraints_iff.mpr
        exact .inl ⟨unmarked.2, opened, extended, .inr ⟨complete, statement, closed, by simp⟩⟩
      · -- The line has been taken by the constraint that is open.
        obtain ⟨opened, rfl, takes, waits⟩ := awaits.exists_some (by simp)
        have incomplete : opened.isComplete = false := by
          simpa using mt takes.isComplete_iff.mp waits
        have waits : ¬ Complete (taken.flatMap Line.tokens) := by
          intro complete
          rw [List.flatMap_append] at waits
          exact waits (complete_append complete _)
        obtain ⟨open?, before, extended⟩ := taken_concat_iff.mp ⟨takes, waits⟩
        obtain ⟨rfl, rfl⟩ : lines = groups.flatten ++ taken ∧ line = last := by
          simpa [← List.append_assoc] using all
        refine ⟨_, ⟨groups, taken, constraints, open?, rfl, reads, before, rfl⟩, ?_⟩
        apply step_constraints_iff.mpr
        exact .inl ⟨unmarked.2, opened, extended, .inl ⟨incomplete, rfl⟩⟩

/-- The rows of a file and what follows. -/
theorem run_constraints_iff {lines : List Line} :
    run (.constraints objective [] none) lines = .ok (.finished file) ↔
      ∃ groups, ∃ ending : Ending, lines = groups.flatten ++ ending.lines ∧
        (∀ line ∈ groups.flatten, line.marker? = none) ∧
        ∃ constraints bounds, List.Forall₂ ConstraintReads groups constraints ∧
          ending.Reads bounds ∧ file = ⟨objective, constraints, bounds⟩ := by
  rw [run_finished_iff]
  · constructor
    · rintro ⟨_, marker, _, rest, last, next, rfl, unmarked, marked, ran, stepped, finished⟩
      obtain ⟨groups, taken, constraints, open?, rfl, reads, awaits, rfl⟩ :=
        (run_constraints_unmarked_iff unmarked).mp ran
      obtain ⟨plain, _⟩ | ⟨rfl, keyword, part, marked, opens, late, rfl⟩ :=
        step_constraints_iff.mp stepped
      · simp [marked] at plain
      obtain rfl : taken = [] := awaits
      obtain ⟨ending, all, bounds, ended, rfl⟩ := (run_enter_iff marked opens late).mp finished
      rw [List.append_nil] at unmarked
      exact ⟨groups, ending, by simp [all], unmarked, constraints, bounds, reads, ended, rfl⟩
    · rintro ⟨groups, ending, rfl, unmarked, constraints, bounds, reads, ended, rfl⟩
      obtain ⟨marker, keyword, part, rest, all, marked, opens, late⟩ := ended.exists_marker
      have ran : run (.constraints objective [] none : Progress α β) groups.flatten =
          .ok (.constraints objective constraints none) := by
        apply (run_constraints_unmarked_iff unmarked).mpr
        exact ⟨groups, [], constraints, none, by simp, reads, rfl, rfl⟩
      refine ⟨_, marker, keyword, rest, _, enter part objective constraints, by rw [all], unmarked,
        marked, ran, ?_, ?_⟩
      · exact step_constraints_iff.mpr (.inr ⟨rfl, keyword, part, marked, opens, late, rfl⟩)
      · exact (run_enter_iff marked opens late).mpr ⟨ending, all, bounds, ended, rfl⟩
  · intro lines unmarked finished
    obtain ⟨_, _, _, _, _, _, _, same⟩ := (run_constraints_unmarked_iff unmarked).mp finished
    cases same

end Constraints

/-! ### The objective -/

section Objective

variable {opened : OpenObjective} {after : Progress α β} {file : File α β}

theorem step_objective_iff {line : Line} :
    step (.objective opened) line = .ok after ↔
      (line.marker? = none ∧ ∃ next, opened.addLine line.tokens = .ok next ∧
        after = .objective next) ∨
      ∃ keyword part, line.marker? = some keyword ∧ keyword.part? = some part ∧
        ∃ statement, opened.close = .ok statement ∧ after = enter part statement [] := by
  unfold step addLine addObjectiveLine
  rw [← Line.marker?]
  cases line.marker? with
  | none =>
    simp only [Logged.result_bind, Logged.result_ofExcept, Logged.result_pure]
    cases opened.addLine line.tokens <;> simp [Except.bind, eq_comm (a := after)]
  | some keyword =>
    cases closed : opened.close (α := α) <;> cases keyword <;>
      simp [closeObjective, Keyword.part?, Except.bind, closed, eq_comm (a := after)]

theorem run_objective_unmarked_iff {lines : List Line}
    (unmarked : ∀ line ∈ lines, line.marker? = none) :
    run (.objective opened) lines = .ok after ↔
      ∃ next, (lines.map Line.tokens).foldlM OpenObjective.addLine opened = .ok next ∧
        after = .objective next := by
  induction lines generalizing opened with
  | nil => simp [run, pure, Except.pure, eq_comm]
  | cons line lines ih =>
    rw [List.forall_mem_cons] at unmarked
    simp only [run_cons_eq_ok_iff, step_objective_iff, unmarked.1, List.map_cons, List.foldlM_cons,
      bind_eq_ok_iff]
    constructor
    · rintro ⟨_, ⟨_, next, added, rfl⟩ | ⟨_, _, marked, _⟩, ran⟩
      · obtain ⟨last, rest, rfl⟩ := (ih unmarked.2).mp ran
        exact ⟨last, ⟨next, added, rest⟩, rfl⟩
      · cases marked
    · rintro ⟨last, ⟨next, added, rest⟩, rfl⟩
      exact ⟨_, .inl ⟨trivial, next, added, rfl⟩, (ih unmarked.2).mpr ⟨last, rest, rfl⟩⟩

/-- The objective of a file and what follows. -/
theorem run_objective_iff {lines : List Line} :
    run (.objective opened) lines = .ok (.finished file) ↔
      ∃ before, ∃ rows? : Option (Line × List (List Line)), ∃ ending : Ending,
        lines = before ++ rows?.elim [] (fun (marker, groups) => marker :: groups.flatten) ++
          ending.lines ∧
        (∀ line ∈ before ++ (rows?.elim [] (·.2)).flatten, line.marker? = none) ∧
        (∀ rows ∈ rows?, rows.1.marker? = some .subjectTo) ∧
        (∃ next, (before.map Line.tokens).foldlM OpenObjective.addLine opened = .ok next ∧
          next.close = .ok file.objective) ∧
        List.Forall₂ ConstraintReads (rows?.elim [] (·.2)) file.constraints ∧
        ending.Reads file.bounds := by
  rw [run_finished_iff]
  · constructor
    · rintro ⟨before, marker, _, rest, last, next, rfl, unmarked, marked, ran, stepped, finished⟩
      obtain ⟨objective, more, rfl⟩ := (run_objective_unmarked_iff unmarked).mp ran
      obtain ⟨plain, _⟩ | ⟨keyword, part, marked, opens, statement, closed, rfl⟩ :=
        step_objective_iff.mp stepped
      · simp [marked] at plain
      by_cases rows : part = .constraints
      · subst rows
        obtain rfl : keyword = .subjectTo := by cases keyword <;> cases opens; rfl
        obtain ⟨groups, ending, rfl, grouped, constraints, bounds, reads, ended, rfl⟩ :=
          run_constraints_iff.mp finished
        refine ⟨before, some (marker, groups), ending, by simp, ?_, ?_, ⟨_, more, closed⟩, reads,
          ended⟩
        · exact List.forall_mem_append.mpr ⟨unmarked, grouped⟩
        · rintro _ ⟨⟩
          exact marked
      · obtain ⟨ending, all, bounds, ended, rfl⟩ := (run_enter_iff marked opens rows).mp finished
        exact ⟨before, none, ending, by simp [all], by simpa using unmarked, by simp,
          ⟨_, more, closed⟩, .nil, ended⟩
    · rintro ⟨before, rows?, ending, rfl, unmarked, marked, ⟨next, more, closed⟩, reads, ended⟩
      obtain ⟨plain, grouped⟩ := List.forall_mem_append.mp unmarked
      have ran := (run_objective_unmarked_iff (α := α) (β := β) plain).mpr ⟨next, more, rfl⟩
      obtain ⟨objective, constraints, bounds⟩ := file
      cases rows? with
      | none =>
        obtain ⟨marker, keyword, part, rest, all, marked, opens, late⟩ := ended.exists_marker
        cases reads
        refine ⟨before, marker, keyword, rest, _, enter part objective [], by simp [all], plain,
          marked, ran, ?_, ?_⟩
        · exact step_objective_iff.mpr (.inr ⟨keyword, part, marked, opens, _, closed, rfl⟩)
        · exact (run_enter_iff marked opens late).mpr ⟨ending, all, bounds, ended, rfl⟩
      | some rows =>
        refine ⟨before, rows.1, .subjectTo, rows.2.flatten ++ ending.lines, _,
          enter .constraints objective [], by simp, plain, marked rows rfl, ran, ?_, ?_⟩
        · exact step_objective_iff.mpr
            (.inr ⟨.subjectTo, .constraints, marked rows rfl, rfl, _, closed, rfl⟩)
        · exact run_constraints_iff.mpr
            ⟨rows.2, ending, rfl, grouped, constraints, bounds, reads, ended, rfl⟩
  · intro before unmarked finished
    obtain ⟨_, _, same⟩ := (run_objective_unmarked_iff unmarked).mp finished
    cases same

end Objective

theorem step_start_iff {line : Line} {after : Progress α β} :
    step .start line = .ok after ↔ ∃ goal rest objective,
      Keyword.ofLine? line.tokens = some (.goal goal, rest) ∧
        ([rest].filter (!·.isEmpty)).foldlM OpenObjective.addLine ⟨goal, none, line.first, []⟩ =
          .ok objective ∧ after = .objective objective := by
  have first : step .start line = (addFirstLine (α := α) (β := β) line).result := rfl
  rw [first, addFirstLine]
  split
  next goal rest opening =>
    cases rest with
    | nil => simp [opening, Except.bind, pure, Except.pure, eq_comm (a := after)]
    | cons token rest =>
      cases added : OpenObjective.addLine ⟨goal, none, line.first, []⟩ (token :: rest) <;>
        simp [opening, Except.bind, added, eq_comm (a := after)]
  next other =>
    constructor
    · intro failed
      cases failed
    · rintro ⟨goal, rest, _, opening, _⟩
      exact absurd opening (other goal rest)

/-- Reading its lines finishes a file if they split into sections that state it. -/
theorem run_start_iff {lines : List Line} {file : File α β} :
    run .start lines = .ok (.finished file) ↔
      ∃ parts : Sections, parts.lines = lines ∧ parts.Reads file := by
  have filled (rest : List Token) (objective : List Line) :
      (rest :: objective.map Line.tokens).filter (!·.isEmpty) =
        [rest].filter (!·.isEmpty) ++ objective.map Line.tokens := by
    have kept : (objective.map Line.tokens).filter (!·.isEmpty) = objective.map Line.tokens := by
      simp [List.filter_eq_self, Line.tokens]
    rw [← List.singleton_append, List.filter_append, kept]
  constructor
  · intro finished
    cases lines with
    | nil => cases finished
    | cons opening lines =>
      obtain ⟨_, opened, finished⟩ := run_cons_eq_ok_iff.mp finished
      obtain ⟨goal, rest, objective, keyword, first, rfl⟩ := step_start_iff.mp opened
      obtain ⟨before, rows?, ending, rfl, unmarked, marked, ⟨last, more, closed⟩, constraints,
        ended⟩ := run_objective_iff.mp finished
      refine ⟨⟨opening, before, rows?, ending⟩, rfl, ⟨goal, rest, keyword, ?_⟩, marked, unmarked,
        constraints, ended⟩
      rw [objectiveReads_iff (by simp), filled, List.foldlM_append]
      exact ⟨last, bind_eq_ok_iff.mpr ⟨objective, first, more⟩, closed⟩
  · rintro ⟨⟨opening, before, rows?, ending⟩, rfl, ⟨goal, rest, keyword, reads⟩, marked, unmarked,
      constraints, ended⟩
    rw [objectiveReads_iff (by simp), filled, List.foldlM_append] at reads
    obtain ⟨last, all, closed⟩ := reads
    obtain ⟨objective, first, more⟩ := bind_eq_ok_iff.mp all
    apply run_cons_eq_ok_iff.mpr
    refine ⟨_, step_start_iff.mpr ⟨goal, rest, objective, keyword, first, rfl⟩, ?_⟩
    apply run_objective_iff.mpr
    exact ⟨before, rows?, ending, rfl, unmarked, marked, ⟨last, more, closed⟩, constraints, ended⟩

end Progress

/-- A source states a file if its characters start tokens and its lines are sections of the file. -/
theorem parse_eq_ok_iff {source : String} {file : File α β} :
    (parse source).result = .ok file ↔
      (∀ token ∈ Lexer.tokenize source, token.kind ≠ .error) ∧
        ∃ parts : Sections, parts.lines = logicalLines (Lexer.tokenize source) ∧
          parts.Reads file := by
  rw [parse]
  simp only [Logged.result_bind, Logged.result_ofExcept, Progress.result_foldlM_addLine]
  constructor
  · intro returned
    obtain ⟨lines, split, returned⟩ := bind_eq_ok_iff.mp returned
    obtain ⟨progress, ran, finished⟩ := bind_eq_ok_iff.mp returned
    obtain ⟨sound, rfl⟩ := splitLines_tokenize.mp split
    obtain rfl := Progress.finish_eq_ok_iff.mp finished
    exact ⟨sound, Progress.run_start_iff.mp ran⟩
  · rintro ⟨sound, parts⟩
    apply bind_eq_ok_iff.mpr
    refine ⟨_, splitLines_tokenize.mpr ⟨sound, rfl⟩, bind_eq_ok_iff.mpr ?_⟩
    exact ⟨_, Progress.run_start_iff.mpr parts, Progress.finish_eq_ok_iff.mpr rfl⟩

/-- The reader accepts the sources that split into sections, and no others. -/
theorem exists_parse_iff (source : String) :
    (∃ file : File α β, (parse source).result = .ok file) ↔
      (∀ token ∈ Lexer.tokenize source, token.kind ≠ .error) ∧
        ∃ parts : Sections, parts.lines = logicalLines (Lexer.tokenize source) ∧
          ∃ file : File α β, parts.Reads file := by
  simp only [parse_eq_ok_iff]
  constructor
  · rintro ⟨file, sound, parts, all, reads⟩
    exact ⟨sound, parts, all, file, reads⟩
  · rintro ⟨sound, parts, all, file, reads⟩
    exact ⟨file, sound, parts, all, reads⟩

end LinOpt.Lp
