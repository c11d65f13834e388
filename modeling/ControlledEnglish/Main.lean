import ControlledEnglish.Command.Run
import ControlledEnglish.Console.Terminal

open ControlledEnglish

def readContents (file : String) : IO (Option String) := do
  try return some (← IO.FS.readFile file)
  catch _ => return none

def main (arguments : List String) : IO UInt32 := do
  match Command.ofArguments? arguments with
  | none =>
      IO.eprintln (Command.usage.headD "")
      return 2
  | some command =>
      let contents ← match command.file? with
        | some file => readContents file
        | none => pure none
      let (report, _) := command.run .terminal {} contents
      report.lines.forM IO.println
      match report.ending with
      | .exit code => return code.toUInt32
      | .misshapen _ =>
          IO.eprintln "The file holds a value of the wrong shape"
          return 1
      | .unshowable =>
          IO.eprintln "A number is too long to be shown"
          return 1
      | .refused =>
          IO.eprintln "A tag in the line ends no style"
          return 1
