import HexMachine.CommandLine.Response

/-!
# The executable

Reads what a request asks for, and nothing else, and writes the response out.
-/

namespace HexMachine.CommandLine

/-- The name in the usage message. The executable is not told by what name it was called. -/
def defaultName : String := "hexasm"

/-- The error number of reading a directory as a file. -/
def isDirectoryCode : UInt32 := 21

def lookupPath (path : String) : IO Lookup := do
  try
    return .file (← IO.FS.readBinFile path).data.toList
  catch
    | .noFileOrDirectory .. => return .missing
    | .inappropriateType _ code _ =>
      return if code = isDirectoryCode then .directory else .missing
    | .permissionDenied _ code message =>
      return .unopenable ⟨code.toNat, "PermissionDenied", message⟩
    | failure => throw failure

/-- The bytes of standard input and what the named file is, as far as they are to be read. -/
def collect : Source → IO (List UInt8 × Lookup)
  | .nothing => return ([], .missing)
  | .stdin => return ((← (← IO.getStdin).readBinToEnd).data.toList, .missing)
  | .file path => return ([], ← lookupPath path)

def writeOut (write : Write) : IO Unit := do
  match write.channel with
  | .out => (← IO.getStdout).putStr write.text
  | .err => (← IO.getStderr).putStr write.text

end HexMachine.CommandLine

open HexMachine.CommandLine in
def main (arguments : List String) : IO UInt32 := do
  let request := Request.ofArguments {} arguments
  let (stdin, found) ← collect request.source
  let response := request.respond defaultName stdin fun _ => found
  response.log.forM writeOut
  return response.code
