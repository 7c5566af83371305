import HexMachine.CommandLine.Input
import HexMachine.Settings

/-!
# Command line requests

Arguments are taken from left to right. A call for help or an unknown option ends the reading; every
other argument sets an option or names the file to run, and the last file named counts.
-/

namespace HexMachine.CommandLine

structure Options where
  quiet : Bool := false
  trueDecrement : Bool := false
  file : Option String := none
deriving DecidableEq, Repr

/-- The machine settings that options select. -/
def Options.settings (options : Options) : Settings where
  decrement := if options.trueDecrement then .subtract else .legacy
  recordDumps := !options.quiet

inductive Request where
  | help
  | unknownOption (option : String)
  | run (options : Options)
deriving DecidableEq, Repr

/-- Whether an argument has the form of an option. -/
def isOption (argument : String) : Bool := ['-', '-'].isPrefixOf argument.toList

namespace Request

/-- Reads arguments on top of options already read. -/
def ofArguments (options : Options) : List String → Request
  | [] => .run options
  | argument :: rest =>
    if argument = "--quiet" then ofArguments { options with quiet := true } rest
    else if argument = "--true-dec" then ofArguments { options with trueDecrement := true } rest
    else if argument = "--help" ∨ argument = "-h" then .help
    else if isOption argument then .unknownOption argument
    else ofArguments { options with file := some argument } rest

/-- What has to be read to answer a request. -/
def source : Request → Source
  | .run options => .ofFile options.file
  | .help | .unknownOption _ => .nothing

end Request

end HexMachine.CommandLine
