/-!
# Tokens of an LP file

A token is a piece of the source with its kind, its place in bytes and its line.
-/

namespace LinOpt.Lp

/-- The bytes of a source from `start` up to, but not including, `stop`. -/
structure Span where
  start : Nat
  stop : Nat
  deriving Repr, DecidableEq

namespace Span

/-- The smallest span around two others. -/
def merge (left right : Span) : Span :=
  ⟨min left.start right.start, max left.stop right.stop⟩

end Span

inductive TokenKind where
  | ident
  | number
  | plus
  | minus
  /-- `<=`, `=<` or `<` -/
  | le
  /-- `>=`, `=>` or `>` -/
  | ge
  /-- `=` -/
  | eq
  | colon
  | newline
  | comment
  | eof
  /-- A character that starts no token. -/
  | error
  deriving Repr, DecidableEq

namespace TokenKind

def name : TokenKind → String
  | .ident => "Ident"
  | .number => "Number"
  | .plus => "Plus"
  | .minus => "Minus"
  | .le => "Le"
  | .ge => "Ge"
  | .eq => "Eq"
  | .colon => "Colon"
  | .newline => "Newline"
  | .comment => "Comment"
  | .eof => "Eof"
  | .error => "Error"

def isRelation : TokenKind → Bool
  | .le | .ge | .eq => true
  | _ => false

end TokenKind

structure Token where
  kind : TokenKind
  span : Span
  text : String
  /-- The line on which the token starts; the first line is 1. -/
  line : Nat
  deriving Repr, DecidableEq

namespace Token

def isRelation (token : Token) : Bool := token.kind.isRelation

/-- The text with ASCII capitals made small. -/
def folded (token : Token) : String := token.text.map Char.toLower

/-- The token is the given word, in capitals or not. -/
def isKeyword (token : Token) (word : String) : Bool :=
  token.kind == .ident && token.folded == word.map Char.toLower

def isInfinity (token : Token) : Bool :=
  token.isKeyword "inf" || token.isKeyword "infinity"

/-- The span from the first token to the last; no tokens are at the beginning of the file. -/
def spanOf (tokens : List Token) : Span :=
  match tokens.head?, tokens.getLast? with
  | some first, some last => first.span.merge last.span
  | _, _ => ⟨0, 0⟩

end Token

end LinOpt.Lp
