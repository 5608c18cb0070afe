import LinOpt.Lp.Token

/-!
# From text to tokens

Each token is the longest one that starts where the one before has ended, after blanks. The
tokens cover the source up to its blanks, and the last one stands for its end.
-/

namespace LinOpt.Lp.Lexer

def isBlank (c : Char) : Bool := c == ' ' || c == '\t' || c == '\r'

/-- The characters other than letters that a name may start with. -/
def nameSymbols : List Char := "!\"#$%&()/,;?`'\x7b\x7d|~_".toList

def isNameStart (c : Char) : Bool := c.isAlpha || nameSymbols.contains c

def isNamePart (c : Char) : Bool := isNameStart c || c.isDigit || c == '.'

/-- The number of characters at the start that satisfy `p`. -/
def runLength (p : Char → Bool) (text : List Char) : Nat := (text.takeWhile p).length

/-- The length of an exponent, which needs a digit: in `3e1x` the number ends before `x`, and in
`3ex` it ends before `e`. -/
def exponentLength : List Char → Nat
  | mark :: text =>
    let sign := if text.head? == some '+' || text.head? == some '-' then 1 else 0
    let digits := runLength Char.isDigit (text.drop sign)
    if (mark == 'e' || mark == 'E') && digits ≠ 0 then 1 + sign + digits else 0
  | [] => 0

/-- The length of a number: digits, a point with digits after it, and an exponent. -/
def numberLength (text : List Char) : Nat :=
  let whole := runLength Char.isDigit text
  let afterWhole := text.drop whole
  let fraction :=
    if afterWhole.head? == some '.' then 1 + runLength Char.isDigit (afterWhole.drop 1) else 0
  whole + fraction + exponentLength (afterWhole.drop fraction)

/-- A relation of one character or two; `=` may stand on either side of `<` and `>`. -/
def relation (first : Char) (second? : Option Char) : TokenKind × Nat :=
  match first, second? with
  | '<', some '=' => (.le, 2)
  | '<', _ => (.le, 1)
  | '>', some '=' => (.ge, 2)
  | '>', _ => (.ge, 1)
  | _, some '<' => (.le, 2)
  | _, some '>' => (.ge, 2)
  | _, _ => (.eq, 1)

/-- Kind and number of characters of the token that starts with `first` and goes on in `rest`. -/
def lexeme (first : Char) (rest : List Char) : TokenKind × Nat :=
  if first == '\n' then (.newline, 1)
  else if first == '\\' then (.comment, 1 + runLength (· != '\n') rest)
  else if first == '+' then (.plus, 1)
  else if first == '-' then (.minus, 1)
  else if first == ':' then (.colon, 1)
  else if first == '<' || first == '>' || first == '=' then relation first rest.head?
  else if first.isDigit || (first == '.' && rest.head?.any Char.isDigit) then
    (.number, numberLength (first :: rest))
  else if isNameStart first then (.ident, 1 + runLength isNamePart rest)
  else (.error, 1)

def byteLength : List Char → Nat
  | [] => 0
  | c :: rest => c.utf8Size + byteLength rest

/-- The tokens of a text that starts at byte `offset` on line `line`. -/
def scan (offset line : Nat) (text : List Char) : List Token :=
  let start := offset + runLength isBlank text
  match _split : text.dropWhile isBlank with
  | [] => [⟨.eof, ⟨start, start⟩, "", line⟩]
  | first :: rest =>
    let (kind, length) := lexeme first rest
    let characters := first :: rest.take (length - 1)
    let stop := start + byteLength characters
    ⟨kind, ⟨start, stop⟩, String.ofList characters, line⟩
      :: scan stop (if kind = .newline then line + 1 else line) (rest.drop (length - 1))
termination_by text.length
decreasing_by
  have kept := (List.dropWhile_suffix (l := text) isBlank).length_le
  rw [_split] at kept
  simp only [List.length_cons, List.length_drop] at *
  omega

/-- All tokens of a source: comments and line ends too, and one for the end of the file. -/
def tokenize (source : String) : List Token := scan 0 1 source.toList

end LinOpt.Lp.Lexer
