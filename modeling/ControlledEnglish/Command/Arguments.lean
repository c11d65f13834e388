import ControlledEnglish.Text.Digit

/-! Arguments of a command: options, by name or by the start of a long name, and at most one operand.

A value stands behind its option, or in the same argument after "=" or after a short name. Behind
"--" stands the operand, whatever it looks like. Negative numbers and arguments with a space are
operands as well, unless they name an option. -/

namespace ControlledEnglish

structure CommandOption where
  names : List String
  takesValue : Bool := true
  deriving DecidableEq, Repr

namespace CommandOption

def help : CommandOption := ⟨["-h", "--help"], false⟩

def name (option : CommandOption) : String := option.names.getLastD ""

end CommandOption

inductive Argument where
  | operand (text : String)
  | option (option : CommandOption) (value : Option String)
  | refused
  deriving DecidableEq, Repr

namespace Argument

def splitEquals (text : List Char) : List Char × Option (List Char) :=
  match text.span (· != '=') with
  | (before, _ :: after) => (before, some after)
  | (before, []) => (before, none)

def named? (options : List CommandOption) (name : List Char) : Option CommandOption :=
  options.find? fun option => option.names.contains (String.ofList name)

/-- The options that an argument may abbreviate, with the values that it would give them. -/
def abbreviated (options : List CommandOption) (text : List Char) :
    List (CommandOption × Option String) :=
  match text with
  | '-' :: '-' :: _ =>
      let (start, value) := splitEquals text
      options.flatMap fun option =>
        (option.names.filter fun name => decide (start <+: name.toList)).map fun _ =>
          (option, value.map String.ofList)
  | dash :: letter :: value =>
      options.flatMap fun option =>
        (option.names.filter fun name => name.toList == [dash, letter]).map fun _ =>
          (option, some (String.ofList value))
  | _ => []

/-- Written with a minus sign, and with digits behind the point if there is a point. -/
def isNegativeNumber : List Char → Bool
  | '-' :: rest =>
      match rest.span Text.isDigit with
      | (whole, []) => whole != []
      | (_, '.' :: decimals) => decimals != [] && decimals.all Text.isDigit
      | _ => false
  | _ => false

def classify (options : List CommandOption) (argument : String) : Argument :=
  let text := argument.toList
  if text.head? ≠ some '-' then operand argument
  else if argument = "--" then refused
  else
    match named? options text with
    | some found => option found none
    | none =>
        if text = ['-'] then operand argument
        else
          let (name, value) := splitEquals text
          match value, named? options name with
          | some value, some found => option found (some (String.ofList value))
          | _, _ =>
              match abbreviated options text with
              | [(found, value)] => option found value
              | [] =>
                  if isNegativeNumber text || text.contains ' ' then operand argument else refused
              | _ => refused

def operand? (options : List CommandOption) (argument : String) : Option String :=
  match classify options argument with
  | operand text => some text
  | _ => none

end Argument

/-- At most one operand, and the options by name with their values, the last one first. -/
structure Arguments where
  operand : Option String := none
  given : List (String × String) := []
  deriving DecidableEq, Repr

namespace Arguments

def values (arguments : Arguments) (name : String) : List String :=
  (arguments.given.filter fun option => option.1 == name).map (·.2)

def has (arguments : Arguments) (name : String) : Bool := arguments.values name != []

def last? (found : Arguments) : List String → Option Arguments
  | [] => some found
  | [text] => some { found with operand := some text }
  | _ => none

/-- Reads on. While `vacant`, an operand is looked for, and "--" may stand before it; "--" may also
follow an operand as the last argument. -/
def gather (options : List CommandOption) (vacant : Bool) (found : Arguments) :
    List String → Option Arguments
  | [] => some found
  | "--" :: rest => if vacant then last? found rest else none
  | argument :: rest =>
      let give (option : CommandOption) (value : String) : Arguments :=
        { found with given := (option.name, value) :: found.given }
      match Argument.classify options argument with
      | .operand text =>
          if vacant then
            let found := { found with operand := some text }
            if rest = ["--"] then some found else gather options false found rest
          else none
      | .option option (some value) =>
          if option.takesValue then gather options vacant (give option value) rest else none
      | .option option none =>
          if option.takesValue then
            match rest with
            | next :: rest =>
                match Argument.operand? options next with
                | some value => gather options vacant (give option value) rest
                | none => none
            | [] => none
          else gather options vacant (give option "") rest
      | .refused => none

def ofList? (options : List CommandOption) (takesOperand : Bool) (arguments : List String) :
    Option Arguments :=
  gather (.help :: options) takesOperand {} arguments

end Arguments

end ControlledEnglish
