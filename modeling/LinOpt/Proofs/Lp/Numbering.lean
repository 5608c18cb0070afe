import Mathlib.Data.List.Nodup
import Mathlib.Data.List.Induction
import Mathlib.Data.List.Perm.Basic
import LinOpt.Lp.Model

/-!
# Numbered variables

The variables of a file are the names in its terms, each at the place of its first occurrence. A
row that adds up terms by number has, for each variable, the sum of the coefficients that its name
has, and a bound by number changes the bounds of its name.
-/

namespace LinOpt.Lp

/-- The different names among some occurrences, in the order in which they first occur. -/
structure FirstOccurrences (names occurrences : List String) : Prop where
  distinct : names.Nodup
  mem : ∀ name, name ∈ names ↔ name ∈ occurrences
  ordered : names.Pairwise fun first second =>
    occurrences.idxOf first < occurrences.idxOf second

/-- First occurrences determine the names and their order. -/
theorem FirstOccurrences.unique {names others occurrences : List String}
    (left : FirstOccurrences names occurrences) (right : FirstOccurrences others occurrences) :
    names = others := by
  have same : names.Perm others :=
    (List.perm_ext_iff_of_nodup left.distinct right.distinct).mpr fun name =>
      (left.mem name).trans (right.mem name).symm
  apply same.eq_of_pairwise _ left.ordered right.ordered
  intro first second _ _ before after
  exact absurd after (Nat.lt_asymm before)

namespace Numbering

theorem names_add (numbering : Numbering) (name : String) :
    (numbering.add name).names =
      if name ∈ numbering.names then numbering.names else numbering.names ++ [name] := by
  unfold add
  split <;> rfl

/-- A new name comes after all others, and an old one has occurred before. -/
theorem firstOccurrences_foldl_add (occurrences : List String) :
    FirstOccurrences (occurrences.foldl add empty).names occurrences := by
  induction occurrences using List.reverseRecOn with
  | nil => exact ⟨List.nodup_nil, fun _ => Iff.rfl, .nil⟩
  | append_singleton occurrences name ih =>
    rw [List.foldl_append, List.foldl_cons, List.foldl_nil]
    -- Names that have occurred keep the place of their first occurrence.
    have keeps (x : String) (old : x ∈ occurrences) :
        (occurrences ++ [name]).idxOf x = occurrences.idxOf x := List.idxOf_append_of_mem old
    have ordered : (occurrences.foldl add empty).names.Pairwise fun first second =>
        (occurrences ++ [name]).idxOf first < (occurrences ++ [name]).idxOf second := by
      apply ih.ordered.imp_of_mem
      intro first second firstOld secondOld below
      rwa [keeps first ((ih.mem first).mp firstOld), keeps second ((ih.mem second).mp secondOld)]
    constructor
    case distinct => exact ((occurrences.foldl add empty).add name).distinct
    case mem =>
      intro x
      rw [names_add]
      split
      next old =>
        rw [ih.mem, List.mem_append, List.mem_singleton]
        constructor
        · exact Or.inl
        · rintro (earlier | rfl)
          · exact earlier
          · exact (ih.mem x).mp old
      next new => rw [List.mem_append, List.mem_append, ih.mem]
    case ordered =>
      rw [names_add]
      split
      next old => exact ordered
      next new =>
        have last : (occurrences ++ [name]).idxOf name = occurrences.length := by
          rw [List.idxOf_append_of_notMem (fun old => new ((ih.mem name).mpr old))]
          simp
        rw [List.pairwise_append]
        refine ⟨ordered, List.pairwise_singleton _ _, fun first member second only => ?_⟩
        have old := (ih.mem first).mp member
        rw [List.mem_singleton.mp only, last, keeps first old]
        exact List.idxOf_lt_length_iff.mpr old

theorem number?_eq_some_iff {numbering : Numbering} {name : String} {j : Nat} :
    numbering.number? name = some j ↔ numbering.names[j]? = some name := by
  rw [number?, List.idxOf?_eq_some_iff]
  constructor
  · rintro ⟨small, same, _⟩
    rw [List.getElem?_eq_getElem small, same]
  · intro place
    obtain ⟨small, rfl⟩ := List.getElem?_eq_some_iff.mp place
    refine ⟨small, rfl, fun i below same => ?_⟩
    have distinct := List.pairwise_iff_getElem.mp numbering.distinct i j (by omega) small below
    exact distinct same

theorem number?_eq_none_iff {numbering : Numbering} {name : String} :
    numbering.number? name = none ↔ name ∉ numbering.names :=
  List.idxOf?_eq_none_iff

variable {γ : Type}

/-- A change at the number of a name is a change at the name. -/
theorem modify_number {numbering : Numbering} {name : String} {j : Nat}
    (numbered : numbering.number? name = some j) (f : String → γ) (change : γ → γ) :
    (numbering.names.map f).modify j change =
      numbering.names.map fun other => if name = other then change (f other) else f other := by
  have place := number?_eq_some_iff.mp numbered
  apply List.ext_getElem?
  intro i
  rw [List.getElem?_modify, List.getElem?_map, List.getElem?_map]
  cases here : numbering.names[i]? with
  | none => simp
  | some other =>
    have same : j = i ↔ name = other := by
      constructor
      · rintro rfl
        exact Option.some_inj.mp (place.symm.trans here)
      · rintro rfl
        have found := number?_eq_some_iff.mpr here
        exact Option.some_inj.mp (numbered.symm.trans found)
    by_cases equal : name = other <;> simp [same, equal]

end Numbering

/-! ### Rows -/

variable {α β : Type} [Scalar α] [Endpoint β α]

/-- The sum of the coefficients that a variable has in a list of terms. -/
def coefficientOf (terms : List (Term α)) (name : String) : α :=
  terms.foldl (fun sum term => if term.name = name then sum + term.coefficient else sum) 0

namespace Numbering

theorem addTerm_map {numbering : Numbering} {term : Term α}
    (known : term.name ∈ numbering.names) (f : String → α) :
    numbering.addTerm (numbering.names.map f) term =
      numbering.names.map fun name =>
        if term.name = name then f name + term.coefficient else f name := by
  unfold addTerm
  split
  next j numbered => exact modify_number numbered f (· + term.coefficient)
  next unknown => exact absurd known (number?_eq_none_iff.mp unknown)

/-- Adding terms by number gives each variable the coefficients of its name. -/
theorem row_eq {numbering : Numbering} {terms : List (Term α)}
    (known : ∀ term ∈ terms, term.name ∈ numbering.names) :
    numbering.row terms = numbering.names.map (coefficientOf terms) := by
  -- The row so far depends on the names alone, whatever the terms before have made of it.
  have fold (f : String → α) : terms.foldl numbering.addTerm (numbering.names.map f) =
      numbering.names.map fun name => terms.foldl
        (fun sum term => if term.name = name then sum + term.coefficient else sum) (f name) := by
    induction terms generalizing f with
    | nil => rfl
    | cons term terms ih =>
      rw [List.forall_mem_cons] at known
      rw [List.foldl_cons, addTerm_map known.1, ih known.2]
      rfl
  exact fold fun _ => 0

end Numbering

end LinOpt.Lp
