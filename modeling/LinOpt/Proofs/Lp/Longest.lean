import LinOpt.Proofs.Lp.Letters
import LinOpt.Proofs.Lp.Numbers
import LinOpt.Proofs.Lp.Positions
import LinOpt.Proofs.Lp.Spelling

/-!
# The longest token

The texts of each kind of token are a regular language. The lexer looks ahead by one character or
two and then takes a run of characters; what it takes is the longest text that any kind of token
has at this place, and a character is an error if no kind has a text there. Two kinds have no text
in common, so the text of a token says what its kind is.
-/

namespace LinOpt.Lp

open Computability

/-! ### The texts of tokens -/

namespace Lexer

def digits : Language Char := letter Char.isDigit * (letter Char.isDigit)∗

/-- `e` or `E`, a sign or none, and digits. -/
def exponent : Language Char := {['e'], ['E']} * (1 + {['+'], ['-']}) * digits

/-- Digits that a point and more digits may follow, or a point and digits. -/
def mantissa : Language Char :=
  digits * (1 + {['.']} * (letter Char.isDigit)∗) + {['.']} * digits

def number : Language Char := mantissa * (1 + exponent)

end Lexer

open Lexer

namespace TokenKind

/-- The texts of the tokens of each kind. The end of the source and an error have none. -/
def form : TokenKind → Language Char
  | .ident => letter isNameStart * (letter isNamePart)∗
  | .number => Lexer.number
  | .plus => {['+']}
  | .minus => {['-']}
  | .le => {['<', '='], ['=', '<'], ['<']}
  | .ge => {['>', '='], ['=', '>'], ['>']}
  | .eq => {['=']}
  | .colon => {[':']}
  | .newline => {['\n']}
  | .comment => {['\\']} * (letter (· != '\n'))∗
  | .eof | .error => 0

end TokenKind

namespace Lexer

theorem mem_digits {word : List Char} :
    word ∈ digits ↔ word ≠ [] ∧ ∀ c ∈ word, c.isDigit = true := by
  cases word with
  | nil =>
    have never : [] ∉ digits := by
      rintro ⟨_, ⟨c, _, rfl⟩, rest, _, same⟩
      cases same
    simpa using never
  | cons c word =>
    rw [digits, cons_mem_letter_mul, mem_kstar_letter, List.forall_mem_cons]
    simp

theorem singleton_mul {c : Char} {language : Language Char} {word : List Char} :
    word ∈ ({[c]} : Language Char) * language ↔ ∃ rest ∈ language, word = c :: rest := by
  rw [Language.mem_mul]
  constructor
  · rintro ⟨_, rfl, rest, member, rfl⟩
    exact ⟨rest, member, rfl⟩
  · rintro ⟨rest, member, rfl⟩
    exact ⟨[c], rfl, rest, member, rfl⟩

theorem mem_exponent {word : List Char} :
    word ∈ exponent ↔ ∃ mark sign more, word = mark :: (sign ++ more) ∧
      (mark = 'e' ∨ mark = 'E') ∧ (sign = [] ∨ sign = ['+'] ∨ sign = ['-']) ∧
      more ≠ [] ∧ ∀ c ∈ more, c.isDigit = true := by
  simp only [exponent, Language.mem_mul, mem_digits, Language.mem_add, Language.mem_one]
  constructor
  · rintro ⟨_, ⟨_, marked, sign, signed, rfl⟩, more, digital, rfl⟩
    obtain rfl | rfl := marked
    · exact ⟨'e', sign, more, rfl, .inl rfl, signed, digital⟩
    · exact ⟨'E', sign, more, rfl, .inr rfl, signed, digital⟩
  · rintro ⟨mark, sign, more, rfl, marked, signed, digital⟩
    refine ⟨mark :: sign, ⟨[mark], ?_, sign, signed, rfl⟩, more, digital, rfl⟩
    obtain rfl | rfl := marked
    · exact .inl rfl
    · exact .inr rfl

theorem mem_mantissa {word : List Char} :
    word ∈ mantissa ↔ ∃ whole fraction, (∀ c ∈ whole, c.isDigit = true) ∧
      (∀ c ∈ fraction, c.isDigit = true) ∧ (whole ≠ [] ∧ word = whole ∨
        (whole ≠ [] ∨ fraction ≠ []) ∧ word = whole ++ '.' :: fraction) := by
  simp only [mantissa, Language.mem_add, Language.mem_mul (l := digits), singleton_mul,
    Language.mem_one, mem_digits, mem_kstar_letter]
  constructor
  · rintro (⟨whole, ⟨some, digital⟩, _, rfl | ⟨fraction, more, rfl⟩, rfl⟩ |
      ⟨fraction, ⟨some, digital⟩, rfl⟩)
    · exact ⟨whole, [], digital, by simp, .inl ⟨some, List.append_nil _⟩⟩
    · exact ⟨whole, fraction, digital, more, .inr ⟨.inl some, rfl⟩⟩
    · exact ⟨[], fraction, by simp, digital, .inr ⟨.inr some, rfl⟩⟩
  · rintro ⟨whole, fraction, digital, more, ⟨some, rfl⟩ | ⟨some, rfl⟩⟩
    · exact .inl ⟨word, ⟨some, digital⟩, [], .inl rfl, List.append_nil _⟩
    · by_cases whole_nil : whole = []
      · subst whole_nil
        exact .inr ⟨fraction, ⟨some.resolve_left (· rfl), more⟩, rfl⟩
      · exact .inl ⟨whole, ⟨whole_nil, digital⟩, _, .inr ⟨fraction, more, rfl⟩, rfl⟩

/-! ### Runs -/

theorem runLength_nil_of_stop {p : Char → Bool} {rest : List Char}
    (stop : ∀ c ∈ rest.head?, p c = false) : runLength p rest = 0 :=
  @runLength_append p [] rest (by simp) stop

/-! ### Exponents -/

/-- What may follow the digits of a number, if it belongs to it, starts with neither a digit nor a
point. -/
theorem head_of_exponent {tail : List Char} (member : tail ∈ 1 + exponent) :
    tail = [] ∨ ∀ rest, ∀ c ∈ (tail ++ rest).head?, c.isDigit = false ∧ c ≠ '.' := by
  obtain empty | member := member
  · exact .inl empty
  · right
    obtain ⟨mark, sign, more, rfl, marked, _⟩ := mem_exponent.mp member
    rintro rest c ⟨⟩
    obtain rfl | rfl := marked <;> decide

theorem le_exponentLength {tail : List Char} (member : tail ∈ 1 + exponent) (rest : List Char) :
    tail.length ≤ exponentLength (tail ++ rest) := by
  obtain empty | member := member
  · obtain rfl : tail = [] := empty
    exact Nat.zero_le _
  · obtain ⟨mark, sign, more, rfl, marked, signed, some, digital⟩ := mem_exponent.mp member
    obtain ⟨first, more, rfl⟩ := List.exists_cons_of_ne_nil some
    have length := runLength_append_of_pos digital rest
    have unsigned : first ≠ '+' ∧ first ≠ '-' := by
      rw [List.forall_mem_cons] at digital
      constructor <;> rintro rfl <;> cases digital.1
    rw [List.length_cons, List.cons_append] at length
    obtain rfl | rfl | rfl := signed
    · simp [exponentLength, marked, unsigned, length]
      omega
    · simp [exponentLength, marked, length]
      omega
    · simp [exponentLength, marked, length]
      omega

/-- The lexer takes one of the exponents that a text starts with, or nothing. -/
theorem exists_exponent (text : List Char) : ∃ tail after, text = tail ++ after ∧
    exponentLength text = tail.length ∧ tail ∈ 1 + exponent := by
  cases text with
  | nil => exact ⟨[], [], rfl, rfl, .inl rfl⟩
  | cons mark text =>
    obtain ⟨sign, rest, rfl, signed, length⟩ : ∃ sign rest, text = sign ++ rest ∧
        (sign = [] ∨ sign = ['+'] ∨ sign = ['-']) ∧
        (if text.head? == some '+' || text.head? == some '-' then 1 else 0) = sign.length := by
      cases text with
      | nil => exact ⟨[], [], rfl, .inl rfl, rfl⟩
      | cons c rest =>
        by_cases plus : c = '+'
        · exact ⟨['+'], rest, by rw [plus]; rfl, .inr (.inl rfl), by simp [plus]⟩
        by_cases minus : c = '-'
        · exact ⟨['-'], rest, by rw [minus]; rfl, .inr (.inr rfl), by simp [minus]⟩
        exact ⟨[], c :: rest, rfl, .inl rfl, by simp [plus, minus]⟩
    simp only [exponentLength, length, List.drop_left]
    split_ifs with taken
    · have taken : (mark = 'e' ∨ mark = 'E') ∧ rest.takeWhile Char.isDigit ≠ [] := by
        simpa [runLength] using taken
      refine ⟨mark :: (sign ++ rest.takeWhile Char.isDigit), rest.dropWhile Char.isDigit, ?_, ?_,
        .inr (mem_exponent.mpr ⟨mark, sign, _, rfl, taken.1, signed, taken.2, ?_⟩)⟩
      · simp
      · simp [runLength]
        omega
      · exact fun c => List.mem_takeWhile_imp
    · exact ⟨[], _, rfl, rfl, .inl rfl⟩

/-! ### Numbers -/

theorem numberLength_point {whole : List Char} (digital : ∀ c ∈ whole, c.isDigit = true)
    (after : List Char) : numberLength (whole ++ '.' :: after) =
      whole.length + (1 + runLength Char.isDigit after) +
        exponentLength (after.dropWhile Char.isDigit) := by
  have length : runLength Char.isDigit (whole ++ '.' :: after) = whole.length :=
    runLength_append digital (by simp)
  have rest : ('.' :: after).drop (1 + runLength Char.isDigit after) =
      after.dropWhile Char.isDigit := by
    rw [Nat.add_comm, List.drop_succ_cons, drop_runLength]
  simp only [numberLength, length, List.drop_left, List.head?_cons, beq_self_eq_true, if_true,
    List.drop_succ_cons, List.drop_zero, rest]

theorem numberLength_whole {whole rest : List Char} (digital : ∀ c ∈ whole, c.isDigit = true)
    (stop : ∀ c ∈ rest.head?, c.isDigit = false ∧ c ≠ '.') :
    numberLength (whole ++ rest) = whole.length + exponentLength rest := by
  have length : runLength Char.isDigit (whole ++ rest) = whole.length :=
    runLength_append digital fun c first => (stop c first).1
  have unpointed : (rest.head? == some '.') = false := by
    rw [beq_eq_false_iff_ne]
    exact fun point => (stop '.' point).2 rfl
  simp only [numberLength, length, List.drop_left, unpointed, Bool.false_eq_true, if_false,
    List.drop_zero, Nat.add_zero]

theorem runLength_le_numberLength (text : List Char) :
    runLength Char.isDigit text ≤ numberLength text := by
  rw [numberLength, Nat.add_assoc]
  exact Nat.le_add_right _ _

/-- No number that a text starts with is longer than what the lexer takes. -/
theorem le_numberLength {word : List Char} (member : word ∈ Lexer.number) (rest : List Char) :
    word.length ≤ numberLength (word ++ rest) := by
  obtain ⟨front, inside, tail, last, rfl⟩ := Language.mem_mul.mp member
  obtain ⟨whole, fraction, wholeDigital, fractionDigital, ⟨_, rfl⟩ | ⟨_, rfl⟩⟩ :=
    mem_mantissa.mp inside
  · obtain rfl | stop := head_of_exponent last
    · rw [List.append_nil]
      calc front.length
          ≤ runLength Char.isDigit (front ++ rest) := by
            rw [runLength_append_of_pos wholeDigital]
            exact Nat.le_add_right _ _
        _ ≤ numberLength (front ++ rest) := runLength_le_numberLength _
    · rw [List.append_assoc, numberLength_whole wholeDigital (stop rest), List.length_append]
      exact Nat.add_le_add_left (le_exponentLength last rest) _
  · have digital := runLength_append_of_pos fractionDigital (tail ++ rest)
    have text : whole ++ '.' :: fraction ++ tail ++ rest =
        whole ++ '.' :: (fraction ++ (tail ++ rest)) := by simp
    rw [text, numberLength_point wholeDigital, digital]
    obtain rfl | stop := head_of_exponent last
    · simp
      omega
    · have none := runLength_nil_of_stop fun c first => (stop rest c first).1
      have cut : (fraction ++ (tail ++ rest)).dropWhile Char.isDigit = tail ++ rest := by
        rw [← drop_runLength, digital, none, Nat.add_zero, List.drop_left]
      have length := le_exponentLength last rest
      rw [cut, none]
      simp
      omega

theorem nil_not_mem_number : [] ∉ Lexer.number := by
  intro member
  obtain ⟨front, inside, tail, _, same⟩ := Language.mem_mul.mp member
  obtain ⟨rfl, _⟩ := List.append_eq_nil_iff.mp same
  obtain ⟨whole, fraction, _, _, ⟨some, same⟩ | ⟨_, same⟩⟩ := mem_mantissa.mp inside
  · exact some same.symm
  · simp at same

theorem numeric_of_number {first : Char} {more : List Char} (member : first :: more ∈ Lexer.number)
    (rest : List Char) : first.isDigit = true ∨
      first = '.' ∧ (more ++ rest).head?.any Char.isDigit = true := by
  obtain ⟨front, inside, tail, _, same⟩ := Language.mem_mul.mp member
  obtain ⟨whole, fraction, wholeDigital, fractionDigital, parts⟩ := mem_mantissa.mp inside
  cases whole with
  | cons c whole =>
    have digit : c.isDigit = true := wholeDigital c List.mem_cons_self
    obtain ⟨_, rfl⟩ | ⟨_, rfl⟩ := parts <;> cases same <;> exact .inl digit
  | nil =>
    obtain ⟨none, _⟩ | ⟨some, rfl⟩ := parts
    · exact absurd rfl none
    obtain ⟨c, fraction, rfl⟩ := List.exists_cons_of_ne_nil (some.resolve_left (· rfl))
    cases same
    exact .inr ⟨rfl, fractionDigital c List.mem_cons_self⟩

/-- The lexer takes a number from a text that starts with a digit, or with a point and a digit. -/
theorem exists_number {first : Char} {more : List Char}
    (numeric : first.isDigit = true ∨ first = '.' ∧ more.head?.any Char.isDigit = true) :
    ∃ word after, first :: more = word ++ after ∧ numberLength (first :: more) = word.length ∧
      word ∈ Lexer.number := by
  have filled := takeWhile_ne_nil numeric
  have digital {text : List Char} : ∀ c ∈ text.takeWhile Char.isDigit, c.isDigit = true :=
    fun c => List.mem_takeWhile_imp
  have whole := @digital (first :: more)
  have stop := List.head?_dropWhile_not Char.isDigit (first :: more)
  rw [← List.takeWhile_append_dropWhile (p := Char.isDigit) (l := first :: more)]
  generalize (first :: more).takeWhile Char.isDigit = front at *
  generalize (first :: more).dropWhile Char.isDigit = after at *
  by_cases pointed : ∃ rest, after = '.' :: rest
  · obtain ⟨rest, rfl⟩ := pointed
    obtain ⟨tail, last, parts, length, member⟩ := exists_exponent (rest.dropWhile Char.isDigit)
    have some : front ≠ [] ∨ rest.takeWhile Char.isDigit ≠ [] := by
      obtain some | ⟨same, some⟩ := filled
      · exact .inl some
      · obtain rfl : rest = more := by simpa using same
        exact .inr some
    refine ⟨front ++ '.' :: rest.takeWhile Char.isDigit ++ tail, last, ?_, ?_,
      Language.mem_mul.mpr ⟨_, mem_mantissa.mpr ⟨front, _, whole, digital, .inr ⟨some, rfl⟩⟩, tail,
        member, rfl⟩⟩
    · simp [← parts]
    · rw [numberLength_point whole, length]
      simp [runLength]
      omega
  · have some : front ≠ [] := by
      obtain some | ⟨same, _⟩ := filled
      · exact some
      · exact absurd ⟨more, same⟩ pointed
    have stop : ∀ c ∈ after.head?, c.isDigit = false ∧ c ≠ '.' := by
      cases after with
      | nil => simp
      | cons c rest =>
        rintro _ ⟨⟩
        exact ⟨stop, fun point => pointed ⟨rest, by rw [point]⟩⟩
    obtain ⟨tail, last, rfl, length, member⟩ := exists_exponent after
    refine ⟨front ++ tail, last, (List.append_assoc ..).symm, ?_,
      Language.mem_mul.mpr ⟨front, mem_mantissa.mpr ⟨front, [], whole, by simp,
        .inl ⟨some, rfl⟩⟩, tail, member, rfl⟩⟩
    rw [numberLength_whole whole stop, length, List.length_append]

/-! ### Relations -/

theorem relation_less (second? : Option Char) :
    relation '<' second? = if second? = some '=' then (.le, 2) else (.le, 1) := by
  rw [relation.eq_def]
  split <;> simp_all

theorem relation_greater (second? : Option Char) :
    relation '>' second? = if second? = some '=' then (.ge, 2) else (.ge, 1) := by
  rw [relation.eq_def]
  split <;> simp_all

theorem relation_equal (second? : Option Char) : relation '=' second? =
    if second? = some '<' then (.le, 2) else if second? = some '>' then (.ge, 2)
    else (.eq, 1) := by
  rw [relation.eq_def]
  split <;> simp_all

theorem exists_relation {first : Char} (relates : first = '<' ∨ first = '>' ∨ first = '=')
    (rest : List Char) : ∃ more after, rest = more ++ after ∧
      (relation first rest.head?).2 = more.length + 1 ∧
      first :: more ∈ (relation first rest.head?).1.form := by
  -- A relation of two signs has its second one from the text.
  have two {second : Char} {kind : TokenKind} (next : rest.head? = some second)
      (member : [first, second] ∈ kind.form) : ∃ more after, rest = more ++ after ∧
        2 = more.length + 1 ∧ first :: more ∈ kind.form := by
    obtain ⟨after, rfl⟩ := List.head?_eq_some_iff.mp next
    exact ⟨[second], after, rfl, rfl, member⟩
  have one {kind : TokenKind} (member : [first] ∈ kind.form) : ∃ more after, rest = more ++ after ∧
      1 = more.length + 1 ∧ first :: more ∈ kind.form := ⟨[], rest, rfl, rfl, member⟩
  obtain rfl | rfl | rfl := relates
  · rw [relation_less]
    split_ifs with next
    · exact two next (.inl rfl)
    · exact one (.inr (.inr rfl))
  · rw [relation_greater]
    split_ifs with next
    · exact two next (.inl rfl)
    · exact one (.inr (.inr rfl))
  · rw [relation_equal]
    split_ifs with less greater
    · exact two less (.inr (.inl rfl))
    · exact two greater (.inr (.inl rfl))
    · exact one rfl

/-! ### Tokens -/

theorem lexeme_backslash (rest : List Char) :
    lexeme '\\' rest = (.comment, 1 + runLength (· != '\n') rest) := rfl

/-- The lexer takes at least what any kind of token has at the start of a text. If it takes no more,
then it finds this kind. -/
theorem lexeme_of_form {kind : TokenKind} {first : Char} {more : List Char}
    (member : first :: more ∈ kind.form) (rest : List Char) :
    more.length + 1 ≤ (lexeme first (more ++ rest)).2 ∧
      (lexeme first (more ++ rest)).1 ≠ .error ∧
      ((lexeme first (more ++ rest)).2 = more.length + 1 →
        (lexeme first (more ++ rest)).1 = kind) := by
  cases kind with
  | ident =>
    obtain ⟨start, parts⟩ := cons_mem_letter_mul.mp member
    rw [lexeme_name start, runLength_append_of_pos (mem_kstar_letter.mp parts)]
    exact ⟨by dsimp only; omega, by simp, fun _ => rfl⟩
  | number =>
    have longest := le_numberLength member rest
    rw [(lexeme_number (numeric_of_number member rest)).2]
    exact ⟨longest, by simp, fun _ => rfl⟩
  | comment =>
    obtain ⟨_, inside, same⟩ := singleton_mul.mp member
    cases same
    have length := runLength_append_of_pos (mem_kstar_letter.mp inside) rest
    rw [lexeme_backslash, length]
    exact ⟨by dsimp only; omega, by simp, fun _ => rfl⟩
  | plus | minus | colon | newline =>
    cases member
    exact ⟨Nat.le_refl _, by simp [lexeme], fun _ => rfl⟩
  | le =>
    obtain same | same | same := member <;> cases same
    · exact ⟨Nat.le_refl _, by simp [lexeme, relation], fun _ => rfl⟩
    · exact ⟨Nat.le_refl _, by simp [lexeme, relation], fun _ => rfl⟩
    · have found : lexeme '<' rest = relation '<' rest.head? := rfl
      rw [List.nil_append, found, relation_less]
      split_ifs <;> simp
  | ge =>
    obtain same | same | same := member <;> cases same
    · exact ⟨Nat.le_refl _, by simp [lexeme, relation], fun _ => rfl⟩
    · exact ⟨Nat.le_refl _, by simp [lexeme, relation], fun _ => rfl⟩
    · have found : lexeme '>' rest = relation '>' rest.head? := rfl
      rw [List.nil_append, found, relation_greater]
      split_ifs <;> simp
  | eq =>
    -- Another sign may follow, and then the lexer takes both.
    cases member
    have found : lexeme '=' rest = relation '=' rest.head? := rfl
    rw [List.nil_append, found, relation_equal]
    split_ifs <;> simp
  | eof | error => cases member

/-- The lexer takes a text that its kind of token has, or a single character that is an error. -/
theorem exists_lexeme (first : Char) (rest : List Char) : ∃ more after, rest = more ++ after ∧
    (lexeme first rest).2 = more.length + 1 ∧
    (first :: more ∈ (lexeme first rest).1.form ∨
      (lexeme first rest).1 = .error ∧ more = []) := by
  rw [lexeme]
  simp only [beq_iff_eq, Bool.or_eq_true, Bool.and_eq_true]
  split_ifs with newline comment plus minus colon relates numeric start
  · exact ⟨[], rest, rfl, rfl, .inl (by rw [newline]; rfl)⟩
  · refine ⟨rest.takeWhile (· != '\n'), rest.dropWhile (· != '\n'),
      List.takeWhile_append_dropWhile.symm, Nat.add_comm _ _,
      .inl (singleton_mul.mpr ⟨_, mem_kstar_letter.mpr ?_, by rw [comment]⟩)⟩
    exact fun c => List.mem_takeWhile_imp
  · exact ⟨[], rest, rfl, rfl, .inl (by rw [plus]; rfl)⟩
  · exact ⟨[], rest, rfl, rfl, .inl (by rw [minus]; rfl)⟩
  · exact ⟨[], rest, rfl, rfl, .inl (by rw [colon]; rfl)⟩
  · obtain ⟨more, after, parts, length, member⟩ := exists_relation (or_assoc.mp relates) rest
    exact ⟨more, after, parts, length, .inl member⟩
  · obtain ⟨word, after, parts, length, member⟩ := exists_number numeric
    cases word with
    | nil => exact absurd member nil_not_mem_number
    | cons c more =>
      obtain ⟨rfl, rfl⟩ : first = c ∧ rest = more ++ after := by simpa using parts
      exact ⟨more, after, rfl, length, .inl member⟩
  · refine ⟨rest.takeWhile isNamePart, rest.dropWhile isNamePart,
      List.takeWhile_append_dropWhile.symm, Nat.add_comm _ _,
      .inl (cons_mem_letter_mul.mpr ⟨start, mem_kstar_letter.mpr ?_⟩)⟩
    exact fun c => List.mem_takeWhile_imp
  · exact ⟨[], rest, rfl, rfl, .inr ⟨rfl, rfl⟩⟩

end Lexer

/-! ### The longest text -/

/-- The longest text of any kind of token that a text starts with, or its first character if there
is none. -/
inductive Longest (text : List Char) : TokenKind → List Char → Prop
  | token {kind : TokenKind} {word : List Char} (starts : word <+: text) (member : word ∈ kind.form)
    (longest : ∀ (other : List Char) (kind' : TokenKind), other <+: text → other ∈ kind'.form →
      other.length ≤ word.length) : Longest text kind word
  | error {c : Char} (starts : [c] <+: text)
    (none : ∀ (other : List Char) (kind : TokenKind), other <+: text → other ∉ kind.form) :
    Longest text .error [c]

namespace Lexer

theorem nil_not_mem_form (kind : TokenKind) : [] ∉ kind.form := by
  intro member
  cases kind with
  | ident =>
    obtain ⟨_, ⟨c, _, rfl⟩, rest, _, same⟩ := member
    cases same
  | number => exact nil_not_mem_number member
  | comment =>
    obtain ⟨_, _, same⟩ := singleton_mul.mp member
    cases same
  | le | ge => obtain same | same | same := member <;> cases same
  | plus | minus | eq | colon | newline | eof | error => cases member

/-- A text of a token is one token if nothing follows it. -/
theorem lexeme_alone {kind : TokenKind} {first : Char} {more : List Char}
    (member : first :: more ∈ kind.form) : lexeme first more = (kind, more.length + 1) := by
  obtain ⟨least, _, exactly⟩ := lexeme_of_form member []
  rw [List.append_nil] at least exactly
  obtain ⟨inside, after, rfl, length, _⟩ := exists_lexeme first more
  rw [List.length_append] at least exactly ⊢
  have whole : inside.length = inside.length + after.length := by omega
  rw [length, ← whole] at exactly
  exact Prod.ext (exactly rfl) (length.trans (congrArg (· + 1) whole))

/-- Two kinds of tokens have no text in common. -/
theorem kind_unique {kind other : TokenKind} {word : List Char} (member : word ∈ kind.form)
    (same : word ∈ other.form) : kind = other := by
  cases word with
  | nil => exact absurd member (nil_not_mem_form kind)
  | cons first more =>
    exact congrArg Prod.fst ((lexeme_alone member).symm.trans (lexeme_alone same))

/-- The lexer takes the longest text. -/
theorem exists_longest (first : Char) (rest : List Char) : ∃ more after, rest = more ++ after ∧
    (lexeme first rest).2 = more.length + 1 ∧
    Longest (first :: rest) (lexeme first rest).1 (first :: more) := by
  obtain ⟨more, after, parts, length, taken⟩ := exists_lexeme first rest
  have starts : first :: more <+: first :: rest := ⟨after, by rw [parts, List.cons_append]⟩
  have longest (other : List Char) (kind : TokenKind) (begins : other <+: first :: rest)
      (member : other ∈ kind.form) :
      other.length ≤ more.length + 1 ∧ (lexeme first rest).1 ≠ .error := by
    cases other with
    | nil => exact absurd member (nil_not_mem_form kind)
    | cons c other =>
      obtain ⟨rfl, last, rfl⟩ := List.cons_prefix_cons.mp begins
      obtain ⟨least, sound, _⟩ := lexeme_of_form member last
      exact ⟨least.trans_eq length, sound⟩
  refine ⟨more, after, parts, length, ?_⟩
  obtain member | ⟨error, rfl⟩ := taken
  · exact .token starts member fun other kind begins member => (longest other kind begins member).1
  · rw [error]
    exact .error starts fun other kind begins member =>
      (longest other kind begins member).2 error

end Lexer

namespace Longest

variable {text word other : List Char} {kind kind' : TokenKind}

theorem unique (first : Longest text kind word) (second : Longest text kind' other) :
    kind = kind' ∧ word = other := by
  cases first with
  | token starts member longest =>
    cases second with
    | token starts' member' longest' =>
      have length := Nat.le_antisymm (longest' _ _ starts member) (longest _ _ starts' member')
      obtain rfl := (List.prefix_of_prefix_length_le starts starts' length.le).eq_of_length length
      exact ⟨Lexer.kind_unique member member', rfl⟩
    | error starts' none => exact absurd member (none _ _ starts)
  | error starts none =>
    cases second with
    | token starts' member' longest' => exact absurd member' (none _ _ starts')
    | error starts' none' =>
      exact ⟨rfl, (List.prefix_of_prefix_length_le starts starts' (Nat.le_refl _)).eq_of_length rfl⟩

end Longest

namespace Lexer

theorem lexeme_eq_iff {first : Char} {more after : List Char} {kind : TokenKind} :
    lexeme first (more ++ after) = (kind, more.length + 1) ↔
      Longest (first :: (more ++ after)) kind (first :: more) := by
  obtain ⟨inside, last, parts, length, longest⟩ := exists_longest first (more ++ after)
  constructor
  · intro taken
    rw [taken, Nat.add_right_cancel_iff] at length
    obtain ⟨rfl, _⟩ := List.append_inj parts length
    rwa [taken] at longest
  · intro other
    obtain ⟨kind_eq, same⟩ := longest.unique other
    cases same
    exact Prod.ext kind_eq length

/-! ### What a token is read from -/

/-- A character that a token other than a comment may go on with. -/
def isSolid (c : Char) : Bool := !isBlank c && c != '\\' && c != '\n'

/-- The characters of names and numbers are solid. -/
theorem isSolid_of_part {part : Char → Bool}
    (never : [' ', '\t', '\r', '\\', '\n'].all (!part ·) = true) {c : Char}
    (holds : part c = true) : isSolid c = true := by
  have other : ∀ d ∈ [' ', '\t', '\r', '\\', '\n'], c ≠ d := by
    rintro d member rfl
    simpa [holds] using List.all_eq_true.mp never c member
  simp only [List.forall_mem_cons] at other
  simp [isSolid, isBlank, other]

theorem solid_of_form {kind : TokenKind} {first : Char} {more : List Char}
    (member : first :: more ∈ kind.form) (visible : first ≠ '\\') :
    ∀ c ∈ more, isSolid c = true := by
  cases kind with
  | ident =>
    obtain ⟨_, parts⟩ := cons_mem_letter_mul.mp member
    exact fun c inside => isSolid_of_part rfl (mem_kstar_letter.mp parts c inside)
  | number =>
    have longest := le_numberLength member []
    rw [List.append_nil] at longest
    have parts := number_isNumberPart (first :: more)
    rw [List.take_of_length_le longest, List.forall_mem_cons] at parts
    exact fun c inside => isSolid_of_part rfl (parts.2 c inside)
  | comment =>
    obtain ⟨_, _, same⟩ := singleton_mul.mp member
    cases same
    exact absurd rfl visible
  | le | ge => obtain same | same | same := member <;> cases same <;> simp [isSolid, isBlank]
  | plus | minus | eq | colon | newline =>
    cases member
    simp
  | eof | error => cases member

/-- Only a backslash starts a comment. -/
theorem lexeme_comment_iff {first : Char} {rest : List Char} :
    (lexeme first rest).1 = .comment ↔ first = '\\' := by
  constructor
  · intro comment
    obtain ⟨more, after, rfl, _, member | ⟨error, _⟩⟩ := exists_lexeme first rest
    · rw [comment] at member
      obtain ⟨_, _, same⟩ := singleton_mul.mp member
      cases same
      rfl
    · cases comment.symm.trans error
  · rintro rfl
    rfl

theorem solid_of_lexeme {first : Char} {more after : List Char} {kind : TokenKind}
    (visible : first ≠ '\\') (taken : lexeme first (more ++ after) = (kind, more.length + 1)) :
    ∀ c ∈ more, isSolid c = true := by
  rw [lexeme_eq_iff] at taken
  cases taken with
  | token _ member _ => exact solid_of_form member visible
  | error _ _ => exact List.forall_mem_nil _

/-- A token stays what it is if the text goes on in another way, as long as the solid characters
after its first one were there before. -/
theorem lexeme_congr {first : Char} {more after after' : List Char} {kind : TokenKind}
    (visible : first ≠ '\\') (solid : (more ++ after').takeWhile isSolid <+: more ++ after)
    (taken : lexeme first (more ++ after) = (kind, more.length + 1)) :
    lexeme first (more ++ after') = (kind, more.length + 1) := by
  have before (other : List Char) (kind' : TokenKind) (starts : other <+: first :: (more ++ after'))
      (member : other ∈ kind'.form) : other <+: first :: (more ++ after) := by
    cases other with
    | nil => exact List.nil_prefix
    | cons c other =>
      obtain ⟨rfl, last, parts⟩ := List.cons_prefix_cons.mp starts
      rw [← parts, List.takeWhile_append_of_pos (solid_of_form member visible)] at solid
      exact List.cons_prefix_cons.mpr ⟨rfl, (List.prefix_append _ _).trans solid⟩
  have starts : first :: more <+: first :: (more ++ after') := List.prefix_append (first :: more) _
  rw [lexeme_eq_iff] at taken ⊢
  cases taken with
  | token _ member longest =>
    exact .token starts member fun other kind' begins member =>
      longest other kind' (before other kind' begins member) member
  | error _ none =>
    exact .error starts fun other kind' begins member =>
      none other kind' (before other kind' begins member) member

/-! ### Scanning -/

/-- A text consists of blanks, or a token comes after its first blanks. -/
@[elab_as_elim]
theorem text_induction {motive : List Char → Prop}
    (blanks : ∀ blanks, (∀ c ∈ blanks, isBlank c = true) → motive blanks)
    (token : ∀ blanks first more after kind, (∀ c ∈ blanks, isBlank c = true) →
      isBlank first = false → lexeme first (more ++ after) = (kind, more.length + 1) →
      motive after → motive (blanks ++ (first :: more ++ after)))
    (text : List Char) : motive text := by
  induction size : text.length using Nat.strong_induction_on generalizing text with
  | h n ih =>
    have parts := List.takeWhile_append_dropWhile (p := isBlank) (l := text)
    have stop := List.head?_dropWhile_not isBlank text
    cases split : text.dropWhile isBlank with
    | nil => exact blanks text (List.dropWhile_eq_nil_iff.mp split)
    | cons first rest =>
      obtain ⟨more, after, rfl, length, _⟩ := exists_lexeme first rest
      rw [split] at parts stop
      have shorter : after.length < n := by
        rw [← size, ← parts]
        simp
        omega
      rw [← parts]
      exact token _ first more after _ (fun c => List.mem_takeWhile_imp) stop
        (Prod.ext rfl length) (ih _ shorter after rfl)

/-- Every token is the longest text where it starts. -/
theorem scan_longest (offset line : Nat) (text : List Char) :
    ∀ token ∈ scan offset line text, token.kind ≠ .eof → ∃ before after,
      text = before ++ token.text.toList ++ after ∧
        token.span.start = offset + byteLength before ∧
        Longest (token.text.toList ++ after) token.kind token.text.toList := by
  induction text using text_induction generalizing offset line with
  | blanks blanks blank =>
    rw [scan_ended blank, List.forall_mem_singleton]
    exact fun inside => absurd rfl inside
  | token blanks first more after kind blank visible taken ih =>
    rw [scan_blanks blank, scan_lexeme visible taken, List.forall_mem_cons]
    constructor
    · intro _
      refine ⟨blanks, after, ?_, ?_, ?_⟩
      · simp
      · rw [byteLength_blanks blank]
      · rw [String.toList_ofList]
        exact lexeme_eq_iff.mp taken
    · intro token member inside
      obtain ⟨before, last, rfl, start, longest⟩ := ih _ _ token member inside
      refine ⟨blanks ++ (first :: more) ++ before, last, by simp, ?_, longest⟩
      rw [start, byteLength_append, byteLength_append, byteLength_blanks blank]
      omega

end Lexer

end LinOpt.Lp
