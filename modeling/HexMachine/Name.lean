/-!
# Variable names

A variable name is an ASCII letter followed by ASCII letters, digits and underscores.
-/

namespace HexMachine.Name

/-- Whether a character may stand after the first letter of a name. -/
def isPart (c : Char) : Bool := c.isAlphanum || c == '_'

/-- Whether a text may be declared as a variable. -/
def isValid (name : String) : Bool :=
  match name.toList with
  | [] => false
  | first :: rest => first.isAlpha && rest.all isPart

end HexMachine.Name
