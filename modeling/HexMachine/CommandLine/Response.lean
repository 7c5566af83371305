import HexMachine.CommandLine.Request
import HexMachine.Machine.Stream
import HexMachine.Program

/-!
# Command line responses

The whole program as a function: from the name it is called by, the arguments, the bytes of standard
input and what the paths name to an exit code and what is written to the two channels, in the order
of writing.
-/

namespace HexMachine.CommandLine

/-- An exit code and a log of writes. -/
structure Response where
  code : UInt32
  log : Array Write
deriving DecidableEq, Repr

namespace Response

def stdout (response : Response) : String := textOn .out response.log

def stderr (response : Response) : String := textOn .err response.log

/-- A response that writes to standard error only. -/
def ofErrors (code : UInt32) (lines : List String) : Response :=
  ⟨code, (lines.flatMap fun line => OutputLine.writes ⟨.err, [line]⟩).toArray⟩

end Response

/-- The usage message of a program with the given name. -/
def usage (name : String) : List String :=
  ["Usage: " ++ name ++ " [OPTIONS] [FILE]",
    "",
    "Reads an instruction count followed by that many lines from FILE,",
    "or from stdin when no file is given.",
    "",
    "Options:",
    "  --quiet      Do not print memory dumps",
    "  --true-dec   Make DEC subtract one instead of the legacy +2",
    "  --help       Show this message"]

/-- Streams a loaded program on a fresh machine. Faults of single lines do not change the exit
code. -/
def runProgram (settings : Settings) (lines : List String) : Response :=
  ⟨0, ((Machine.fresh settings).stream Console.unlimited () lines).progress.log⟩

def runLoaded (settings : Settings) : Except Program.LoadError (List String) → Response
  | .ok lines => runProgram settings lines
  | .error failure => .ofErrors 1 ["Error: " ++ failure.message]

/-- Runs what a path names. Only a path that names nothing is reported by its own name. -/
def runFile (settings : Settings) (path : String) : Lookup → Response
  | .missing => .ofErrors 1 ["Error: File '" ++ path ++ "' not found"]
  | .unopenable failure => .ofErrors 1 ["Error: " ++ failure.text]
  | .directory => runLoaded settings (.error (.unreadable .isDirectory))
  | .file bytes => runLoaded settings (Program.load bytes)

/-- Answers a request. Standard input is looked at only if no file is named. -/
def Request.respond (name : String) (stdin : List UInt8) (lookup : String → Lookup) :
    Request → Response
  | .help => .ofErrors 0 (usage name)
  | .unknownOption option =>
    .ofErrors 2 (("Error: Unknown option '" ++ option ++ "'") :: usage name)
  | .run options =>
    match options.file with
    | some path => runFile options.settings path (lookup path)
    | none => runLoaded options.settings (Program.load stdin)

def respond (name : String) (arguments : List String) (stdin : List UInt8)
    (lookup : String → Lookup) : Response :=
  (Request.ofArguments {} arguments).respond name stdin lookup

end HexMachine.CommandLine
