import LinOpt.Decimal.Layout

/-!
# JSON documents

Documents are printed over several lines, each level two blanks further in. Numbers that are not
finite have no place in JSON and are printed as `null`.
-/

namespace LinOpt

inductive Json where
  | null
  | natural (value : Nat)
  | number (value : Float)
  | text (value : String)
  | list (items : List Json)
  | object (members : List (String × Json))

namespace Json

def ofOption {α : Type} (encode : α → Json) : Option α → Json
  | some value => encode value
  | none => .null

/-- A character inside a string: quotes, backslashes and control characters are escaped. -/
def escaped (c : Char) : List Char :=
  if c == '"' then ['\\', '"']
  else if c == '\\' then ['\\', '\\']
  else if c == '\n' then ['\\', 'n']
  else if c == '\r' then ['\\', 'r']
  else if c == '\t' then ['\\', 't']
  else if c == '\x08' then ['\\', 'b']
  else if c == '\x0c' then ['\\', 'f']
  else if c.toNat < 32 then
    ['\\', 'u', '0', '0', Nat.digitChar (c.toNat / 16), Nat.digitChar (c.toNat % 16)]
  else [c]

def quoted (value : String) : String :=
  String.ofList ('"' :: value.toList.flatMap escaped ++ ['"'])

/-- A line end and the indentation of the next line. -/
def newLine (depth : Nat) : String := "\n" ++ "".pushn ' ' (2 * depth)

mutual

def pretty (depth : Nat) : Json → String
  | .null => "null"
  | .natural value => toString value
  | .number value => if value.isFinite then Layout.json.text value else "null"
  | .text value => quoted value
  | .list [] => "[]"
  | .list (item :: items) =>
    "[" ++ ",".intercalate (prettyItems (depth + 1) (item :: items)) ++ newLine depth ++ "]"
  | .object [] => "\x7b\x7d"
  | .object (member :: members) =>
    "\x7b" ++ ",".intercalate (prettyMembers (depth + 1) (member :: members)) ++ newLine depth
      ++ "\x7d"

def prettyItems (depth : Nat) : List Json → List String
  | [] => []
  | item :: items => (newLine depth ++ pretty depth item) :: prettyItems depth items

def prettyMembers (depth : Nat) : List (String × Json) → List String
  | [] => []
  | (key, value) :: members =>
    (newLine depth ++ quoted key ++ ": " ++ pretty depth value) :: prettyMembers depth members

end

end Json

end LinOpt
