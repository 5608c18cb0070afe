import LinOpt.Command

/-!
# Command lines

A command line names a command and a file; options may stand before the file or after it, with
their values in the next word or behind `=`.
-/

namespace LinOpt

/-- A command and the path of the file it works on. -/
structure Invocation where
  command : Command
  path : String
  deriving Repr

/-- A number in an option: a numeral with an optional sign, or the name of a special value. -/
def floatOption? (text : String) : Option Float :=
  let characters := text.toList
  let negative := characters.head? == some '-'
  let magnitude := if negative || characters.head? == some '+' then characters.tail else characters
  let word := String.ofList (magnitude.map Char.toLower)
  let value? : Option Float :=
    if word == "inf" || word == "infinity" then some (1 / 0)
    else if word == "nan" then some (0 / 0)
    else (Numeral.read? magnitude).map (·.toScalar)
  value?.map (Scalar.signed negative)

/-- A count in an option: digits, whose number has to fit into 64 bits. -/
def countOption? (text : String) : Option Nat :=
  let characters := text.toList
  let digits := if characters.head? == some '+' then characters.tail else characters
  let value := Numeral.digitsValue digits
  if digits.isEmpty || !digits.all Char.isDigit || decide (Nat.pow 2 64 ≤ value) then none
  else some value

def pricingOption? (text : String) : Option PricingRule :=
  if text == "dantzig" then some .dantzig
  else if text == "bland" then some .bland
  else none

def formatOption? (text : String) : Option OutputFormat :=
  if text == "pretty" then some .pretty
  else if text == "json" then some .json
  else none

/-- What the words of a command line have said so far. -/
structure Settings where
  path? : Option String
  solver : Solver Float
  format : OutputFormat
  all : Bool

namespace Settings

def initial : Settings := ⟨none, .standard, .pretty, false⟩

/-- Words with `=` in an option become two. -/
def splitWord (word : String) : List String :=
  let characters := word.toList
  let name := characters.takeWhile (· != '=')
  if characters.take 2 == ['-', '-'] && name.length < characters.length then
    [String.ofList name, String.ofList (characters.drop (name.length + 1))]
  else [word]

/-- Sets an option that has a value, unless there is no such option or the value makes no sense. -/
def set? (settings : Settings) (name value : String) : Option Settings :=
  if name == "--format" || name == "-f" then
    (formatOption? value).map fun format => { settings with format := format }
  else if name == "--pricing" then
    (pricingOption? value).map fun rule =>
      { settings with solver := { settings.solver with pricing := rule } }
  else if name == "--max-iterations" then
    (countOption? value).map fun count =>
      { settings with solver := { settings.solver with maxIterations := count } }
  else if name == "--tolerance" then
    (floatOption? value).map fun number =>
      { settings with solver := { settings.solver with tolerance := number } }
  else none

/-- Takes the words of a command line one after the other. -/
def addWords? (settings : Settings) : List String → Option Settings
  | [] => some settings
  | word :: words =>
    if word == "--all" || word == "-a" then { settings with all := true }.addWords? words
    else if word.startsWith "-" then
      match words with
      | [] => none
      | value :: rest => (settings.set? word value).bind (·.addWords? rest)
    else if settings.path?.isSome then none
    else { settings with path? := some word }.addWords? words

def command? (settings : Settings) (name : String) : Option Command :=
  if name == "solve" then some (.solve settings.solver settings.format settings.all)
  else if name == "parse" then some (.parse settings.format)
  else if name == "check" then some .check
  else if name == "normalize" then some .normalize
  else none

end Settings

/-- Reads a command line. -/
def Invocation.ofArguments? : List String → Option Invocation
  | [] => none
  | name :: words => do
    let settings ← Settings.initial.addWords? (words.flatMap Settings.splitWord)
    let command ← settings.command? name
    let path ← settings.path?
    return ⟨command, path⟩

end LinOpt
