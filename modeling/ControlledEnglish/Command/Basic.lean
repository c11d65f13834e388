import ControlledEnglish.Command.Arguments
import ControlledEnglish.Text.Integer
import ControlledEnglish.Word

namespace ControlledEnglish

inductive Command where
  | help
  | parse (text file : Option String) (showAll asJson : Bool) (db : Option Int)
  | gloss (file : Option String) (showExample : Bool)
  | addWords (text : String) (db : Option Int)
  | listWords (category : Option Category) (db : Option Int)
  | seedWords (db : Int)
  deriving DecidableEq, Repr

namespace Command

def verbose : CommandOption := ⟨["-v", "--verbose"], false⟩

def fileOption : CommandOption := ⟨["-f", "--file"], true⟩

def allOption : CommandOption := ⟨["--all"], false⟩

def jsonOption : CommandOption := ⟨["--json"], false⟩

def dbOption : CommandOption := ⟨["--db"], true⟩

def exampleOption : CommandOption := ⟨["--example"], false⟩

def categoryOption : CommandOption := ⟨["-c", "--category"], true⟩

/-- The last value of an option, if it is given. Every value has to be one that can be read. -/
def value? {α : Type} (read : String → Option α) (option : CommandOption)
    (arguments : Arguments) : Option (Option α) :=
  ((arguments.values option.name).mapM read).map List.head?

def db? : Arguments → Option (Option Int) := value? (Text.integer? Text.digit?) dbOption

def category? : Arguments → Option (Option Category) := value? Category.ofTag? categoryOption

def withArguments (options : List CommandOption) (takesOperand : Bool) (arguments : List String)
    (command : Arguments → Option Command) : Option Command := do
  let arguments ← Arguments.ofList? options takesOperand arguments
  if arguments.has CommandOption.help.name then some help else command arguments

def vocabulary? : List String → Option Command
  | "add" :: rest => withArguments [dbOption] true rest fun arguments => do
      return addWords (← arguments.operand) (← db? arguments)
  | "list" :: rest => withArguments [categoryOption, dbOption] false rest fun arguments => do
      return listWords (← category? arguments) (← db? arguments)
  | "seed" :: rest => withArguments [dbOption] false rest fun arguments => do
      return seedWords (← ← db? arguments)
  | first :: _ =>
      match Argument.classify [.help] first with
      | .option _ none => some help
      | _ => none
  | [] => none

def ofArguments? : List String → Option Command
  | [] => some help
  | "parse" :: rest =>
      withArguments [fileOption, allOption, jsonOption, dbOption] true rest fun arguments => do
        let file ← value? some fileOption arguments
        return parse arguments.operand file (arguments.has allOption.name)
          (arguments.has jsonOption.name) (← db? arguments)
  | "gloss" :: rest => withArguments [exampleOption] true rest fun arguments =>
      some (gloss arguments.operand (arguments.has exampleOption.name))
  | "vocab" :: rest => vocabulary? rest
  | first :: rest =>
      match Argument.classify [.help, verbose] first with
      | .option found none => if found = verbose then ofArguments? rest else some help
      | _ => none

/-- The file that a command reads. An empty name stands for none. -/
def file? : Command → Option String
  | parse _ (some file) _ _ _ => if file = "" then none else some file
  | gloss (some file) false => if file = "" then none else some file
  | _ => none

end Command

end ControlledEnglish
