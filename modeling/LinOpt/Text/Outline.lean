import LinOpt.Decimal.Layout

/-!
# Outlines of values

An outline shows how a value is built: records with their fields, alternatives with what they
carry, and lists. Every part stands on a line of its own and ends with a comma, each level four
blanks further in.
-/

namespace LinOpt

inductive Outline where
  | atom (text : String)
  | record (name : String) (fields : List (String × Outline))
  | variant (name : String) (part : Outline)
  | list (items : List Outline)

namespace Outline

def natural (value : Nat) : Outline := .atom (toString value)

def number (value : Float) : Outline := .atom (Layout.structural.text value)

/-- A text in quotes, for texts of printable ASCII characters. -/
def quoted (value : String) : Outline :=
  .atom (String.ofList ('"' :: value.toList.flatMap (fun c =>
    if c == '"' || c == '\\' then ['\\', c] else [c]) ++ ['"']))

def ofOption {α : Type} (outline : α → Outline) : Option α → Outline
  | some value => .variant "Some" (outline value)
  | none => .atom "None"

/-- A line end and the indentation of the next line. -/
def newLine (depth : Nat) : String := "\n" ++ "".pushn ' ' (4 * depth)

mutual

def pretty (depth : Nat) : Outline → String
  | .atom text => text
  | .record name fields =>
    name ++ " \x7b" ++ prettyFields (depth + 1) fields ++ newLine depth ++ "\x7d"
  | .variant name part =>
    name ++ "(" ++ newLine (depth + 1) ++ pretty (depth + 1) part ++ "," ++ newLine depth ++ ")"
  | .list [] => "[]"
  | .list (item :: items) =>
    "[" ++ prettyItems (depth + 1) (item :: items) ++ newLine depth ++ "]"

def prettyFields (depth : Nat) : List (String × Outline) → String
  | [] => ""
  | (name, value) :: fields =>
    newLine depth ++ name ++ ": " ++ pretty depth value ++ "," ++ prettyFields depth fields

def prettyItems (depth : Nat) : List Outline → String
  | [] => ""
  | item :: items => newLine depth ++ pretty depth item ++ "," ++ prettyItems depth items

end

end Outline

end LinOpt
