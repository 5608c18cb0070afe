import Mathlib.Data.List.TakeWhile
import Mathlib.Tactic.SplitIfs
import LinOpt.Decimal.Numeral
import LinOpt.Lp.Lexer

/-!
# Numbers in the source

The lexer decides how long a number is, and the reader of numerals takes or refuses the text that
comes of it. They cut a text in the same places: before the point, after the digits of the fraction
and before the sign of the exponent. What the lexer takes for one number can therefore be read.
-/

namespace LinOpt.Lp.Lexer

/-- A text that the lexer takes for one number. -/
def IsNumber (text : String) : Prop :=
  ∃ first rest, text.toList = first :: rest ∧ lexeme first rest = (.number, rest.length + 1)

theorem drop_runLength (p : Char → Bool) (text : List Char) :
    text.drop (runLength p text) = text.dropWhile p := by
  calc text.drop (text.takeWhile p).length
      = (text.takeWhile p ++ text.dropWhile p).drop (text.takeWhile p).length := by
        rw [List.takeWhile_append_dropWhile]
    _ = text.dropWhile p := List.drop_left

theorem all_of_runLength {p : Char → Bool} {text : List Char}
    (all : runLength p text = text.length) : ∀ c ∈ text, p c = true :=
  List.takeWhile_eq_self_iff.mp ((List.takeWhile_prefix p).eq_of_length all)

theorem relation_ne_number (first : Char) (second? : Option Char) :
    (relation first second?).1 ≠ .number := by
  rw [relation.eq_def]
  split <;> simp

/-- Only a digit, or a point with a digit after it, starts a number. -/
theorem lexeme_eq_number {first : Char} {rest : List Char} {length : Nat}
    (taken : lexeme first rest = (.number, length)) :
    (first.isDigit = true ∨ first = '.' ∧ rest.head?.any Char.isDigit = true) ∧
      numberLength (first :: rest) = length := by
  unfold lexeme at taken
  split_ifs at taken
  any_goals cases taken
  case pos => exact absurd (congrArg Prod.fst taken) (relation_ne_number _ _)
  case pos numeric =>
    refine ⟨?_, rfl⟩
    simpa using numeric

/-- What the lexer takes for an exponent can be read. -/
theorem exists_readExponent? {text : List Char} (all : exponentLength text = text.length) :
    ∃ exponent, Numeral.readExponent? text = some exponent := by
  cases text with
  | nil => exact ⟨0, rfl⟩
  | cons mark text =>
    cases text with
    | nil => simp [exponentLength, runLength] at all
    | cons first digits =>
      -- A sign is not one of the digits, of which there has to be one.
      by_cases signed : first = '+' ∨ first = '-'
      · have taken : (mark = 'e' ∨ mark = 'E') ∧ runLength Char.isDigit digits = digits.length ∧
            digits ≠ [] := by
          simp only [exponentLength, List.head?_cons, List.length_cons] at all
          simp [signed] at all
          grind
        have digit := List.all_eq_true.mpr (all_of_runLength taken.2.1)
        obtain rfl | rfl := signed <;> simp [Numeral.readExponent?, taken, digit]
      · have taken : (mark = 'e' ∨ mark = 'E') ∧
            runLength Char.isDigit (first :: digits) = (first :: digits).length := by
          simp only [exponentLength, List.head?_cons, List.length_cons] at all
          simp [signed] at all
          grind
        have digit := List.all_eq_true.mpr (all_of_runLength taken.2)
        rw [not_or] at signed
        simp only [List.all_cons, Bool.and_eq_true] at digit
        simp [Numeral.readExponent?, taken, signed, digit]

/-- A run of characters and what follows it are the whole text. -/
theorem length_runLength (p : Char → Bool) (text : List Char) :
    runLength p text + (text.dropWhile p).length = text.length := by
  rw [runLength, ← List.length_append, List.takeWhile_append_dropWhile]

/-- A number to the lexer has a digit before its point, or it has one after it. -/
theorem takeWhile_ne_nil {first : Char} {rest : List Char}
    (starts : first.isDigit = true ∨ first = '.' ∧ rest.head?.any Char.isDigit = true) :
    (first :: rest).takeWhile Char.isDigit ≠ [] ∨
      (first :: rest).dropWhile Char.isDigit = '.' :: rest ∧ rest.takeWhile Char.isDigit ≠ [] := by
  obtain digit | ⟨rfl, digit⟩ := starts
  · left
    simp [digit]
  · right
    cases rest with
    | nil => cases digit
    | cons next rest =>
      have digit : next.isDigit = true := by simpa using digit
      exact ⟨rfl, by simp [digit]⟩

/-- Every text that the lexer takes for a number can be read. -/
theorem exists_numeral {text : String} (isNumber : IsNumber text) :
    ∃ numeral, Numeral.read? text.toList = some numeral := by
  obtain ⟨first, rest, same, taken⟩ := isNumber
  obtain ⟨starts, length⟩ := lexeme_eq_number taken
  rw [same]
  have filled := takeWhile_ne_nil starts
  have parts := length_runLength Char.isDigit (first :: rest)
  rw [List.length_cons] at parts
  simp only [numberLength, drop_runLength] at length
  simp only [Numeral.read?]
  -- The lexer and the reader cut the text in the same places.
  generalize (first :: rest).dropWhile Char.isDigit = after at *
  by_cases pointed : after.head? = some '.'
  · obtain ⟨fraction, rfl⟩ : ∃ fraction, after = '.' :: fraction := by
      cases after <;> simp_all
    have tail : ('.' :: fraction).drop (1 + runLength Char.isDigit fraction) =
        fraction.dropWhile Char.isDigit := by
      rw [Nat.add_comm, List.drop_succ_cons, drop_runLength]
    have fractionParts := length_runLength Char.isDigit fraction
    simp only [List.head?_cons, beq_self_eq_true, if_true, List.drop_succ_cons, List.drop_zero,
      tail] at length
    rw [List.length_cons] at parts
    obtain ⟨exponent, read⟩ : ∃ exponent,
        Numeral.readExponent? (fraction.dropWhile Char.isDigit) = some exponent :=
      exists_readExponent? (by omega)
    have some : (((first :: rest).takeWhile Char.isDigit).isEmpty &&
        (fraction.takeWhile Char.isDigit).isEmpty) = false := by
      rw [Bool.and_eq_false_iff, List.isEmpty_eq_false_iff, List.isEmpty_eq_false_iff]
      obtain whole | ⟨cut, digit⟩ := filled
      · exact .inl whole
      · cases cut
        exact .inr digit
    simp only [List.head?_cons, beq_self_eq_true, if_true, List.tail_cons, some, read,
      Bool.false_eq_true, if_false]
    exact ⟨_, rfl⟩
  · obtain ⟨exponent, read⟩ : ∃ exponent, Numeral.readExponent? after = some exponent := by
      apply exists_readExponent?
      simp [pointed] at length
      omega
    have some : ((first :: rest).takeWhile Char.isDigit).isEmpty = false := by
      rw [List.isEmpty_eq_false_iff]
      obtain whole | ⟨rfl, _⟩ := filled
      · exact whole
      · exact absurd rfl pointed
    simp only [beq_iff_eq, pointed, some, read, Bool.false_and, Bool.false_eq_true, if_false]
    exact ⟨_, rfl⟩

end LinOpt.Lp.Lexer
