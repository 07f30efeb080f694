import Spmd.CommandLine.Number

/-!
# Arguments

An argument that starts with a dash states an option, unless it writes a negative number or names nothing;
every other argument is a word. The value of an option stands in the same argument or in the next one, and
whether the next one is taken for a value depends on how the option is written.
-/

namespace Spmd.CommandLine

/-! ## Options and their values -/

inductive Key where
  | width | addressing | cost | strict | files
  deriving DecidableEq

def Key.ofName? : String → Option Key
  | "width" | "w" => some .width
  | "addressing" => some .addressing
  | "cost" => some .cost
  | "strict" => some .strict
  | "files" => some .files
  | _ => none

/-- A flag is on or off; every other option has a value. -/
def Key.isFlag : Key → Bool
  | .cost | .strict => true
  | _ => false

/-- What is stated of an option: its value, or no more than its name, or that it does not hold. -/
inductive Stated where
  | value (text : String)
  | named
  | negated

abbrev Setting := Key × Stated

/-- How an option is written that may find its value in the next argument. -/
inductive Form where
  | letter | name
  deriving DecidableEq

/-- What an argument is: a word, the mark after which arguments count for nothing, or some settings. The last
of these may be an option whose value is still open. -/
inductive Argument where
  | word (text : String)
  | ending
  | settings (given : List Setting)
  | opening (given : List Setting) (key : Key) (form : Form)

def Argument.after (setting : Setting) : Argument → Argument
  | .settings given => .settings (setting :: given)
  | .opening given key form => .opening (setting :: given) key form
  | argument => argument

/-! ## Reading one argument -/

/-- A text without the quotes of one kind around it. -/
def unquote (cs : List Char) : List Char :=
  match cs, cs.getLast? with
  | c :: d :: rest, some last =>
    if (c = '\'' ∨ c = '"') ∧ last = c then (d :: rest).dropLast else cs
  | _, _ => cs

/-- What two dashes start: a name, a name and its value, or a negated name. -/
def readNamed? (cs : List Char) : Option Argument :=
  match cs.span (· ≠ '='), cs with
  | (name, _ :: value), _ => do
    let key ← Key.ofName? (String.ofList name)
    some (.settings [(key, .value (String.ofList (unquote value)))])
  | _, 'n' :: 'o' :: '-' :: name => do
    let key ← Key.ofName? (String.ofList name)
    some (.settings [(key, .negated)])
  | (name, []), _ => do
    let key ← Key.ofName? (String.ofList name)
    some (.opening [] key .name)

def isNameChar (c : Char) : Bool := c.isAlphanum || c == '_'

/-- The value that directly follows a letter: a lone dash, a text after an equals sign, a number, or a text of
more than one unit that no name starts with. -/
def attached? : List Char → Option (List Char)
  | ['-'] => some ['-']
  | '=' :: c :: cs => some (c :: cs)
  | [] => none
  | c :: cs =>
    let long := (Text.units (String.ofList (c :: cs))).length > 1
    if isUnsigned (c :: cs) || (!isNameChar c && long) then some (c :: cs) else none

/-- What one dash starts: letters that each stand for an option, the last perhaps with its value. -/
def readLetters? : List Char → Option Argument
  | [] => none
  | letter :: rest => do
    let key ← Key.ofName? (String.ofList [letter])
    match attached? rest, rest with
    | some value, _ => some (.settings [(key, .value (String.ofList value))])
    | none, [] => some (.opening [] key .letter)
    | none, _ => (·.after (key, .named)) <$> readLetters? rest

/-- Dashes name nothing when there is one, or when there are more than two and at most an equals sign follows
with a value. -/
def isNameless (cs : List Char) : Bool :=
  let (dashes, rest) := cs.span (· = '-')
  match dashes, rest with
  | [_], [] => true
  | _ :: _ :: _ :: _, [] => true
  | _ :: _ :: _ :: _, '=' :: _ => true
  | _, _ => false

/-- What an argument is, unless it states an unknown option. A point after the first letter would name a part
of an option, and options have no parts. -/
def Argument.of? (text : String) : Option Argument :=
  let cs := text.toList
  if isNegative cs || isNameless cs then some (.word text)
  else match cs with
    | ['-', '-'] => some .ending
    | '-' :: '-' :: name => readNamed? name
    | '-' :: _ :: '.' :: _ :: _ => none
    | '-' :: letters => readLetters? letters
    | _ => some (.word text)

/-- Whether an argument starts with a dash and writes no negative number. -/
def isDashed (text : String) : Bool :=
  text.toList.head? == some '-' && !isNegative text.toList

/-- Whether one dash or two are followed by another character, and no negative number is written. -/
def isDashedName (text : String) : Bool :=
  !isNegative text.toList && match text.toList with
    | '-' :: '-' :: c :: _ => c ≠ '-'
    | '-' :: c :: _ => c ≠ '-'
    | _ => false

/-- Whether an option takes the argument after it for its value. A flag takes no other words than those for on
and off; a letter takes more than a name does. -/
def Key.takes (key : Key) (form : Form) (next : String) : Bool :=
  if key.isFlag then next = "true" || next = "false"
  else match form with
    | .name => !isDashed next
    | .letter => !isDashedName next

/-! ## Reading a line -/

/-- The words and the settings of a line, each in the order in which they stand. -/
structure Line where
  words : List String := []
  settings : List Setting := []
  deriving Inhabited

def Line.addWord (word : String) (line : Line) : Line := { line with words := word :: line.words }

def Line.addSettings (given : List Setting) (line : Line) : Line :=
  { line with settings := given ++ line.settings }

/-- Reads arguments up to the end or the mark for it, unless one states an unknown option. -/
def Line.ofArguments? : List String → Option Line
  | [] => some {}
  | text :: rest => do
    match ← Argument.of? text with
    | .ending => some {}
    | .word word => Line.addWord word <$> Line.ofArguments? rest
    | .settings given => Line.addSettings given <$> Line.ofArguments? rest
    | .opening given key form =>
      match rest with
      | [] => some (Line.addSettings (given ++ [(key, .named)]) {})
      | next :: others =>
        if key.takes form next then
          Line.addSettings (given ++ [(key, .value next)]) <$> Line.ofArguments? others
        else Line.addSettings (given ++ [(key, .named)]) <$> Line.ofArguments? (next :: others)

end Spmd.CommandLine
