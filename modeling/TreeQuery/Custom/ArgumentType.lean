/-!
# Types of arguments

A custom selector declares what it is called with. The declared types drive how its arguments are
read.
-/

set_option autoImplicit false

namespace TreeQuery

inductive ArgumentType where
  | string
  | integer
  | subSelector
  deriving DecidableEq, Inhabited

namespace ArgumentType

def describe : ArgumentType → String
  | string => "string"
  | integer => "integer"
  | subSelector => "sub-selector"

def label : ArgumentType → String
  | string => "String"
  | integer => "Integer"
  | subSelector => "SubSelector"

def labels (types : List ArgumentType) : String :=
  "[" ++ ", ".intercalate (types.map label) ++ "]"

end ArgumentType

end TreeQuery
