import Mathlib.Data.List.Forall2
import Mathlib.Data.List.TakeWhile
import LinOpt.Decimal.Numeral
import LinOpt.Problem.Text
import LinOpt.Proofs.Lp.Lines
import LinOpt.Proofs.Lp.Scanning

/-!
# How tokens are spelled

A text spells some tokens if the lexer finds them wherever the text stands, as long as a blank, a
colon or a line end follows. Names and numbers spell themselves, signs and relations too, and what
is spelled line by line comes out as logical lines.
-/

namespace LinOpt.Lp

/-- A token without its place. -/
structure Lexeme where
  kind : TokenKind
  text : String
  deriving DecidableEq

/-- The token of a relation. -/
def TokenKind.ofSense : Sense → TokenKind
  | .le => .le
  | .eq => .eq
  | .ge => .ge

def Token.lexeme (token : Token) : Lexeme := ⟨token.kind, token.text⟩

def Line.lexemes (line : Line) : List Lexeme := line.tokens.map Token.lexeme

namespace Lexer

/-- No name and no number goes on in the text. -/
def Separated (text : List Char) : Prop := ∀ c ∈ text.head?, c = ' ' ∨ c = ':' ∨ c = '\n'

/-- Wherever the text stands before a separator, the lexer finds the lexemes in it. -/
def Spells (text : List Char) (lexemes : List Lexeme) : Prop :=
  ∀ offset line following, Separated following → ∃ tokens offset' line',
    scan offset line (text ++ following) = tokens ++ scan offset' line' following ∧
      tokens.map Token.lexeme = lexemes

theorem separated_nil : Separated [] := by simp [Separated]

theorem separated_blank (text : List Char) : Separated (' ' :: text) := by simp [Separated]

theorem separated_colon (text : List Char) : Separated (':' :: text) := by simp [Separated]

theorem separated_newline (text : List Char) : Separated ('\n' :: text) := by simp [Separated]

theorem Separated.append {text following : List Char} (first : Separated text)
    (second : Separated following) : Separated (text ++ following) := by
  cases text with
  | nil => exact second
  | cons c text => exact first

namespace Spells

theorem nil : Spells [] [] := fun offset line _ _ => ⟨[], offset, line, rfl, rfl⟩

theorem blank {text : List Char} {lexemes : List Lexeme} (rest : Spells text lexemes) :
    Spells (' ' :: text) lexemes := by
  intro offset line following separated
  rw [List.cons_append, scan_blank]
  exact rest (offset + 1) line following separated

/-- A token that the lexer takes whatever follows, as long as it is what follows here. -/
theorem token {first : Char} {more text : List Char} {kind : TokenKind} {lexemes : List Lexeme}
    (visible : isBlank first = false)
    (found : ∀ following, Separated following →
      lexeme first (more ++ (text ++ following)) = (kind, more.length + 1))
    (rest : Spells text lexemes) :
    Spells (first :: more ++ text) (⟨kind, String.ofList (first :: more)⟩ :: lexemes) := by
  intro offset line following separated
  obtain ⟨tokens, offset', line', others, spelled⟩ :=
    rest (offset + byteLength (first :: more)) (if kind = .newline then line + 1 else line)
      following separated
  have scanned := scan_lexeme visible (found following separated) offset line
  rw [others, ← List.cons_append, ← List.append_assoc] at scanned
  exact ⟨_, offset', line', scanned, by rw [List.map_cons, spelled]; rfl⟩

/-- A character that is a token by itself, whatever follows. -/
theorem symbol {c : Char} {kind : TokenKind} (visible : isBlank c = false)
    (found : ∀ rest, lexeme c rest = (kind, 1)) {text : List Char} {lexemes : List Lexeme}
    (rest : Spells text lexemes) : Spells (c :: text) (⟨kind, String.singleton c⟩ :: lexemes) :=
  @token c [] text kind lexemes visible (fun following _ => found (text ++ following)) rest

end Spells

/-! ### Names -/

/-- A text that the lexer takes for one name. -/
def IsName (text : String) : Prop :=
  ∃ first rest, text.toList = first :: rest ∧ isNameStart first = true ∧
    ∀ c ∈ rest, isNamePart c = true

/-- A run of characters ends where the text goes on with another one. -/
theorem takeWhile_append_of_stop {p : Char → Bool} {rest : List Char}
    (stop : ∀ c ∈ rest.head?, p c = false) (text : List Char) :
    (text ++ rest).takeWhile p = text.takeWhile p := by
  induction text with
  | nil =>
    cases rest with
    | nil => rfl
    | cons c rest => simp [stop c rfl]
  | cons c text ih => simp only [List.cons_append, List.takeWhile_cons, ih]

theorem runLength_append {p : Char → Bool} {text rest : List Char}
    (all : ∀ c ∈ text, p c = true) (stop : ∀ c ∈ rest.head?, p c = false) :
    runLength p (text ++ rest) = text.length := by
  rw [runLength, takeWhile_append_of_stop stop, List.takeWhile_eq_self_iff.mpr all]

theorem Separated.stops {text : List Char} (separated : Separated text) {p : Char → Bool}
    (blank : p ' ' = false) (colon : p ':' = false) (newline : p '\n' = false) :
    ∀ c ∈ text.head?, p c = false := by
  intro c first
  obtain rfl | rfl | rfl := separated c first
  · exact blank
  · exact colon
  · exact newline

theorem isDigit_of_isNameStart {c : Char} (start : isNameStart c = true) :
    c.isDigit = false := by
  have symbols : nameSymbols.all (!·.isDigit) = true := rfl
  rw [isNameStart, Bool.or_eq_true, List.contains_iff_mem] at start
  obtain letter | symbol := start
  · delta Char.isAlpha Char.isUpper Char.isLower at letter
    delta Char.isDigit
    simp only [Bool.or_eq_true, Bool.and_eq_true, decide_eq_true_eq, Bool.and_eq_false_iff,
      decide_eq_false_iff_not, UInt32.le_iff_toNat_le, ge_iff_le, Char.reduceVal,
      UInt32.reduceToNat] at letter ⊢
    omega
  · simpa using List.all_eq_true.mp symbols c symbol

/-- A name starts with none of the characters that decide about other tokens. -/
theorem ne_of_isNameStart {first : Char} (start : isNameStart first = true) :
    ∀ c ∈ [' ', '\t', '\r', '\n', '\\', '+', '-', ':', '<', '>', '=', '.'], first ≠ c := by
  have never : [' ', '\t', '\r', '\n', '\\', '+', '-', ':', '<', '>', '=', '.'].all
      (!isNameStart ·) = true := rfl
  rintro c member rfl
  simpa [start] using List.all_eq_true.mp never first member

theorem lexeme_name {first : Char} (start : isNameStart first = true) (rest : List Char) :
    lexeme first rest = (.ident, 1 + runLength isNamePart rest) := by
  have other := ne_of_isNameStart start
  simp only [List.forall_mem_cons] at other
  simp [lexeme, other, isDigit_of_isNameStart start, start]

theorem Spells.name {name : String} (isName : IsName name) {text : List Char}
    (separated : Separated text) {lexemes : List Lexeme} (rest : Spells text lexemes) :
    Spells (name.toList ++ text) (⟨.ident, name⟩ :: lexemes) := by
  obtain ⟨first, more, all, start, parts⟩ := isName
  obtain rfl : name = String.ofList (first :: more) := by rw [← all, String.ofList_toList]
  rw [String.toList_ofList]
  apply Spells.token _ _ rest
  · have other := ne_of_isNameStart start
    simp only [List.forall_mem_cons] at other
    simp [isBlank, other]
  · intro following ended
    have stop := (separated.append ended).stops (p := isNamePart) rfl rfl rfl
    rw [lexeme_name start, runLength_append parts stop, Nat.add_comm]

theorem isName_of_letters {word : String} (some : word.toList ≠ [])
    (letters : word.toList.all Char.isAlpha = true) : IsName word := by
  obtain ⟨first, rest, all⟩ := List.exists_cons_of_ne_nil some
  rw [all, List.all_eq_true, List.forall_mem_cons] at letters
  have start : isNameStart first = true := by simp [isNameStart, letters.1]
  have parts : ∀ c ∈ rest, isNamePart c = true := by
    intro c member
    simp [isNamePart, isNameStart, letters.2 c member]
  exact ⟨first, rest, all, start, parts⟩

/-! ### Numbers -/

theorem exponentLength_nil {rest : List Char} (separated : Separated rest) :
    exponentLength rest = 0 := by
  cases rest with
  | nil => rfl
  | cons c rest =>
    obtain rfl | rfl | rfl := separated c rfl <;> simp [exponentLength]

/-- The lexer takes the whole exponent of a numeral. -/
theorem exponentLength_append {text rest : List Char} {exponent : Int}
    (read : Numeral.readExponent? text = some exponent) (separated : Separated rest) :
    exponentLength (text ++ rest) = text.length := by
  cases text with
  | nil => exact exponentLength_nil separated
  | cons mark text =>
    have stop := separated.stops (p := Char.isDigit) rfl rfl rfl
    cases text with
    | nil => simp [Numeral.readExponent?] at read
    | cons first digits =>
      by_cases signed : first = '+' ∨ first = '-'
      · have whole : (mark = 'e' ∨ mark = 'E') ∧ digits ≠ [] ∧ ∀ c ∈ digits, c.isDigit = true := by
          obtain rfl | rfl := signed <;> simp_all [Numeral.readExponent?]
        have length := runLength_append whole.2.2 stop
        simp only [exponentLength, List.cons_append, List.head?_cons]
        simp [signed, length, whole]
        omega
      · have whole : (mark = 'e' ∨ mark = 'E') ∧ ∀ c ∈ first :: digits, c.isDigit = true := by
          simp_all [Numeral.readExponent?]
        have length : runLength Char.isDigit (first :: (digits ++ rest)) = digits.length + 1 :=
          runLength_append whole.2 stop
        rw [not_or] at signed
        simp only [exponentLength, List.cons_append, List.head?_cons]
        simp [signed, length, whole]
        omega

/-- The parts of a numeral that can be read: digits, a point with digits after it, and an
exponent. -/
theorem exists_of_read? {text : List Char} {numeral : Numeral}
    (read : Numeral.read? text = some numeral) : ∃ whole point fraction tail exponent,
      text = whole ++ (point ++ fraction) ++ tail ∧ (∀ c ∈ whole, c.isDigit = true) ∧
      (∀ c ∈ fraction, c.isDigit = true) ∧ (whole ≠ [] ∨ fraction ≠ []) ∧
      (point = ['.'] ∨ point = [] ∧ fraction = []) ∧
      Numeral.readExponent? tail = some exponent := by
  have all := List.takeWhile_append_dropWhile (p := Char.isDigit) (l := text)
  have digits {text : List Char} : ∀ c ∈ text.takeWhile Char.isDigit, c.isDigit = true :=
    fun c => List.mem_takeWhile_imp
  simp only [Numeral.read?] at read
  split_ifs at read with pointed nothing unpointed
  · obtain ⟨exponent, tailRead, _⟩ := Option.map_eq_some_iff.mp read
    obtain ⟨after, point⟩ : ∃ after, text.dropWhile Char.isDigit = '.' :: after := by
      cases rest : text.dropWhile Char.isDigit with
      | nil => simp [rest] at pointed
      | cons c after => exact ⟨after, by simp_all⟩
    rw [point, List.tail_cons] at tailRead nothing
    have parts : text = text.takeWhile Char.isDigit ++ (['.'] ++ after.takeWhile Char.isDigit) ++
        after.dropWhile Char.isDigit := by
      rw [List.append_assoc, List.append_assoc, List.takeWhile_append_dropWhile,
        List.singleton_append, ← point, all]
    have filled : text.takeWhile Char.isDigit ≠ [] ∨ after.takeWhile Char.isDigit ≠ [] := by
      simpa [Classical.or_iff_not_imp_left] using nothing
    exact ⟨_, _, _, _, exponent, parts, digits, digits, filled, .inl rfl, tailRead⟩
  · obtain ⟨exponent, tailRead, _⟩ := Option.map_eq_some_iff.mp read
    have parts : text = text.takeWhile Char.isDigit ++ ([] ++ []) ++
        text.dropWhile Char.isDigit := by
      rw [List.append_nil, List.append_nil, all]
    have filled : text.takeWhile Char.isDigit ≠ [] := by simpa using unpointed
    exact ⟨_, _, _, _, exponent, parts, digits, by simp, .inl filled, .inr ⟨rfl, rfl⟩, tailRead⟩

/-- A numeral that can be read is a number to the lexer. -/
theorem numberLength_append {text rest : List Char} {numeral : Numeral}
    (read : Numeral.read? text = some numeral) (separated : Separated rest) :
    numberLength (text ++ rest) = text.length := by
  obtain ⟨whole, point, fraction, tail, exponent, rfl, wholeDigits, fractionDigits, _, pointed,
    tailRead⟩ := exists_of_read? read
  have tailLength := exponentLength_append tailRead separated
  have stop : ∀ c ∈ (tail ++ rest).head?, c.isDigit = false ∧ c ≠ '.' := by
    cases tail with
    | nil =>
      intro c first
      obtain rfl | rfl | rfl := separated c first <;> decide
    | cons mark tail =>
      have marked : mark = 'e' ∨ mark = 'E' := by simp_all [Numeral.readExponent?]
      rintro c ⟨⟩
      obtain rfl | rfl := marked <;> decide
  -- Each run of digits stops at the part after it: the point, the exponent or the separator.
  obtain rfl | ⟨rfl, rfl⟩ := pointed
  · have wholeLength : runLength Char.isDigit (whole ++ '.' :: (fraction ++ (tail ++ rest))) =
        whole.length := runLength_append wholeDigits (by simp)
    have fractionLength := runLength_append fractionDigits fun c first => (stop c first).1
    simp only [numberLength, List.append_assoc, List.cons_append, List.nil_append, wholeLength,
      List.drop_left, List.head?_cons, beq_self_eq_true, if_true, List.drop_succ_cons,
      List.drop_zero, fractionLength, Nat.add_comm 1, tailLength, List.length_append,
      List.length_cons]
    omega
  · have wholeLength := runLength_append wholeDigits fun c first => (stop c first).1
    have unpointed : ((tail ++ rest).head? == some '.') = false := by
      rw [beq_eq_false_iff_ne]
      intro point
      exact (stop '.' point).2 rfl
    simp only [numberLength, List.append_nil, List.append_assoc, wholeLength, List.drop_left,
      unpointed, Bool.false_eq_true, if_false, List.drop_zero, tailLength, List.length_append]
    omega

theorem lexeme_number {first : Char} {rest : List Char}
    (numeric : first.isDigit = true ∨ first = '.' ∧ rest.head?.any Char.isDigit = true) :
    isBlank first = false ∧ lexeme first rest = (.number, numberLength (first :: rest)) := by
  have other : ∀ c ∈ [' ', '\t', '\r', '\n', '\\', '+', '-', ':', '<', '>', '='], first ≠ c := by
    have never : [' ', '\t', '\r', '\n', '\\', '+', '-', ':', '<', '>', '='].all
        (fun c => !c.isDigit && c != '.') = true := rfl
    rintro c member rfl
    have neither := List.all_eq_true.mp never first member
    obtain digit | ⟨rfl, _⟩ := numeric
    · simp [digit] at neither
    · cases neither
  simp only [List.forall_mem_cons] at other
  constructor
  · simp [isBlank, other]
  · obtain digit | ⟨rfl, digit⟩ := numeric
    · simp [lexeme, other, digit]
    · simp [lexeme, digit]

/-- The first character of a numeral that can be read makes it a number. -/
theorem numeric_of_read? {text : List Char} {numeral : Numeral}
    (read : Numeral.read? text = some numeral) : ∃ first more, text = first :: more ∧
      (first.isDigit = true ∨ first = '.' ∧ more.head?.any Char.isDigit = true) := by
  obtain ⟨whole, point, fraction, tail, _, rfl, wholeDigits, fractionDigits, filled, pointed, _⟩ :=
    exists_of_read? read
  cases whole with
  | cons c whole => exact ⟨c, _, rfl, .inl (wholeDigits c List.mem_cons_self)⟩
  | nil =>
    obtain ⟨c, digits, rfl⟩ := List.exists_cons_of_ne_nil (filled.resolve_left (· rfl))
    obtain rfl | ⟨_, empty⟩ := pointed
    · have digit : c.isDigit = true := fractionDigits c List.mem_cons_self
      exact ⟨'.', _, rfl, .inr ⟨rfl, by simpa using digit⟩⟩
    · cases empty

theorem Spells.numeral {text : List Char} {numeral : Numeral}
    (read : Numeral.read? text = some numeral) {following : List Char}
    (separated : Separated following) {lexemes : List Lexeme} (rest : Spells following lexemes) :
    Spells (text ++ following) (⟨.number, String.ofList text⟩ :: lexemes) := by
  obtain ⟨first, more, rfl, numeric⟩ := numeric_of_read? read
  obtain ⟨visible, _⟩ := lexeme_number numeric
  apply Spells.token visible _ rest
  intro after ended
  -- The digit behind a leading point is part of the numeral, not of what follows.
  have numeric : first.isDigit = true ∨
      first = '.' ∧ (more ++ (following ++ after)).head?.any Char.isDigit = true := by
    obtain digit | ⟨point, digit⟩ := numeric
    · exact .inl digit
    · cases more with
      | nil => cases digit
      | cons c more => exact .inr ⟨point, digit⟩
  rw [(lexeme_number numeric).2, ← List.cons_append,
    numberLength_append read (separated.append ended), List.length_cons]

/-! ### Relations -/

theorem Spells.relation (sense : Sense) {text : List Char} (separated : Separated text)
    {lexemes : List Lexeme} (rest : Spells text lexemes) :
    Spells (sense.text.toList ++ text) (⟨.ofSense sense, sense.text⟩ :: lexemes) := by
  cases sense with
  | le => exact @Spells.token '<' ['='] text .le lexemes rfl (fun _ _ => rfl) rest
  | ge => exact @Spells.token '>' ['='] text .ge lexemes rfl (fun _ _ => rfl) rest
  | eq =>
    apply @Spells.token '=' [] text .eq lexemes rfl _ rest
    -- A separator makes no other relation of the sign.
    intro following ended
    have next := separated.append ended
    cases after : text ++ following with
    | nil => rfl
    | cons c rest =>
      rw [after] at next
      obtain rfl | rfl | rfl := next c rfl <;> rfl

end Lexer

/-! ### Lines -/

/-- Tokens of the inside of a line come before the rest of it. -/
theorem logicalLines_append {tokens : List Token} {stop : Token} {rest : List Token}
    (inside : ∀ token ∈ tokens, token.endsLine = false ∧ token.kind ≠ .comment)
    (ends : stop.endsLine = true) : logicalLines (tokens ++ stop :: rest) =
      (Line.ofTokens? tokens).toList ++ logicalLines rest := by
  have gather (current : List Token) : logicalLinesFrom current (tokens ++ stop :: rest) =
      (Line.ofTokens? (current ++ tokens)).toList ++ logicalLines rest := by
    induction tokens generalizing current with
    | nil => rw [List.nil_append, logicalLinesFrom_end ends, List.append_nil]
    | cons token tokens ih =>
      rw [List.forall_mem_cons] at inside
      rw [List.cons_append, logicalLinesFrom_token inside.1.1 inside.1.2, ih inside.2]
      simp
  rw [← logicalLinesFrom_nil, gather, List.nil_append]

namespace Lexeme

/-- The lexeme stays in its line. -/
def isInside (lexeme : Lexeme) : Bool :=
  match lexeme.kind with
  | .newline | .eof | .comment | .error => false
  | _ => true

theorem inside {token : Token} (inside : token.lexeme.isInside = true) :
    token.endsLine = false ∧ token.kind ≠ .comment ∧ token.kind ≠ .error := by
  have kind : token.lexeme.kind = token.kind := rfl
  rw [isInside, kind] at inside
  cases same : token.kind <;> simp_all [Token.endsLine]

end Lexeme

theorem lexemes_ofTokens? {tokens : List Token} (some : tokens ≠ []) :
    (Line.ofTokens? tokens).toList.map Line.lexemes = [tokens.map Token.lexeme] := by
  obtain ⟨first, rest, rfl⟩ := List.exists_cons_of_ne_nil some
  rfl

/-- Tokens that split into lines with the given lexemes, and have no error. -/
def ReadAs (tokens : List Token) (lexemes : List (List Lexeme)) : Prop :=
  (∀ token ∈ tokens, token.kind ≠ .error) ∧ (logicalLines tokens).map Line.lexemes = lexemes

/-- One line more is read before its end. -/
theorem ReadAs.append {tokens : List Token} {stop : Token} {rest : List Token}
    {words : List Lexeme} {lexemes : List (List Lexeme)} (read : ReadAs rest lexemes)
    (ends : stop.endsLine = true) (same : tokens.map Token.lexeme = words)
    (inside : words ≠ [] ∧ ∀ lexeme ∈ words, lexeme.isInside = true) :
    ReadAs (tokens ++ stop :: rest) (words :: lexemes) := by
  subst same
  have kept (token) (member : token ∈ tokens) :=
    Lexeme.inside (inside.2 _ (List.mem_map_of_mem member))
  constructor
  · have sound : stop.kind ≠ .error := by
      intro error
      simp [Token.endsLine, error] at ends
    rw [List.forall_mem_append, List.forall_mem_cons]
    exact ⟨fun token member => (kept token member).2.2, sound, read.1⟩
  · rw [logicalLines_append (fun token member => ⟨(kept token member).1, (kept token member).2.1⟩)
      ends, List.map_append, lexemes_ofTokens? (by simpa using inside.1), read.2]
    rfl

/-- Lines that spell lexemes are read as these lexemes. -/
theorem readAs_scan {lines : List (List Char)} {lexemes : List (List Lexeme)}
    (some : lines ≠ []) (spelled : List.Forall₂ Lexer.Spells lines lexemes)
    (inside : ∀ words ∈ lexemes, words ≠ [] ∧ ∀ lexeme ∈ words, lexeme.isInside = true)
    (offset line : Nat) :
    ReadAs (Lexer.scan offset line (['\n'].intercalate lines)) lexemes := by
  induction spelled generalizing offset line with
  | nil => exact absurd rfl some
  | @cons text words lines lexemes first spelled ih =>
    rw [List.forall_mem_cons] at inside
    -- The last line ends with the text, every other one with a line end.
    cases lines with
    | nil =>
      cases spelled
      obtain ⟨tokens, offset', line', scanned, same⟩ :=
        first offset line [] Lexer.separated_nil
      have nothing : ReadAs [] [] := ⟨by simp, rfl⟩
      rw [List.append_nil, Lexer.scan_nil] at scanned
      rw [List.intercalate_singleton, scanned]
      exact nothing.append rfl same inside.1
    | cons second lines =>
      obtain ⟨tokens, offset', line', scanned, same⟩ := first offset line
        ('\n' :: ['\n'].intercalate (second :: lines)) (Lexer.separated_newline _)
      have ended := @Lexer.scan_lexeme '\n' [] (['\n'].intercalate (second :: lines)) .newline
        rfl rfl offset' line'
      have all : ['\n'].intercalate (text :: second :: lines) =
          text ++ '\n' :: ['\n'].intercalate (second :: lines) := by
        simp [List.intercalate_cons_cons]
      rw [List.singleton_append] at ended
      rw [all, scanned, ended]
      exact (ih (by simp) inside.2 _ _).append rfl same inside.1

end LinOpt.Lp
