/-!
# Input

Where a run takes its program from, and what is found at a path. A path may name nothing, or a file
that is there but cannot be opened, which is told with the words of the operating system.
-/

namespace HexMachine.CommandLine

/-- What is to be read. -/
inductive Source where
  | nothing
  | stdin
  | file (path : String)
deriving DecidableEq, Repr

/-- Standard input is read unless a file is named. -/
def Source.ofFile : Option String → Source
  | some path => .file path
  | none => .stdin

/-- The number, the kind and the wording of an error of the operating system. -/
structure OpenFailure where
  code : Nat
  kind : String
  message : String
deriving DecidableEq, Repr

def OpenFailure.text (failure : OpenFailure) : String :=
  "Os \x7b code: " ++ failure.code.repr ++ ", kind: " ++ failure.kind ++ ", message: \"" ++
    failure.message ++ "\" \x7d"

/-- What is found at a path. A directory can be opened, but not read. -/
inductive Lookup where
  | missing
  | unopenable (failure : OpenFailure)
  | directory
  | file (bytes : List UInt8)
deriving DecidableEq, Repr

end HexMachine.CommandLine
