import TreeQuery.Text.Quoted
import TreeQuery.Token.Basic
import TreeQuery.Custom.ArgumentType

/-!
# Errors

Everything that can go wrong while a selector is read, compiled or evaluated, by cause. A cause
has one category and one message.
-/

set_option autoImplicit false

namespace TreeQuery

inductive ErrorKind where
  /-- Malformed text, an invalid pattern, or a limit that is not a direct child. -/
  | format
  /-- Well-formed input that the engine does not implement. -/
  | notSupported
  | argument
  deriving DecidableEq, Inhabited

namespace ErrorKind

def heading : ErrorKind → String
  | format => "invalid selector: "
  | notSupported => "unsupported selector: "
  | argument => "invalid argument: "

end ErrorKind

/-- Why a character cannot be read as part of a token. -/
inductive LexicalFault where
  | nameAfterHash
  | danglingEscape
  | unterminatedString
  | operatorExpected (operator : String)
  | invalidCharacter (c : Char)
  deriving DecidableEq

namespace LexicalFault

def message : LexicalFault → String
  | nameAfterHash => "expected a name after '#'"
  | danglingEscape => "dangling escape at end of input"
  | unterminatedString => "unterminated string"
  | operatorExpected operator => "expected '" ++ operator ++ "'"
  | invalidCharacter c => "invalid character '" ++ String.singleton c ++ "'"

end LexicalFault

inductive SelectorError where
  | lexical (fault : LexicalFault) (position : Nat) (source : String)
  | unexpectedToken (found : Token) (expected : List TokenSpec)
  | integerOutOfRange (text : String)
  | unknownPseudo (name : String)
  | missingArguments (name : String) (count : Nat)
  /-- The pattern engine refused a pattern, perhaps with words of its own. -/
  | invalidPattern (pattern : String) (reason? : Option String)
  | splitterNotChild
  | limitNotChild
  /-- A position formula was written where a constant is required. -/
  | positionFormula (function formula : String)
  | positionStep (function : String)
  | emptySelector
  | notCompiled
  | zeroMemoCapacity
  | duplicateName (name : String)
  | argumentTypes (name : String) (expected actual : List ArgumentType)
  | raised (kind : ErrorKind) (message : String)
  deriving DecidableEq

namespace SelectorError

def kind : SelectorError → ErrorKind
  | lexical .. | unexpectedToken .. | integerOutOfRange _ | unknownPseudo _
  | missingArguments .. | invalidPattern .. | splitterNotChild | limitNotChild => .format
  | positionFormula .. | positionStep _ => .notSupported
  | emptySelector | notCompiled | zeroMemoCapacity | duplicateName _ | argumentTypes .. =>
    .argument
  | raised k _ => k

def message : SelectorError → String
  | lexical fault position source =>
    fault.message ++ " at position " ++ toString position ++ " in " ++ quote source
  | unexpectedToken found [single] =>
    "Unexpected token " ++ found.describe ++ " where " ++ single.describe ++ " was expected."
  | unexpectedToken found expected =>
    "Unexpected token " ++ found.describe ++ " where one of ["
      ++ ", ".intercalate (expected.map TokenSpec.describe) ++ "] was expected."
  | integerOutOfRange text => "Integer '" ++ text ++ "' is out of range."
  | unknownPseudo name => "Unknown pseudo-selector '" ++ name ++ "'."
  | missingArguments name count =>
    "Pseudo-selector '" ++ name ++ "' expects " ++ toString count ++ " argument(s)."
  | invalidPattern pattern reason? =>
    "Invalid regular expression " ++ quote pattern ++ reason?.elim "" (": " ++ ·)
  | splitterNotChild => "The node splitter must be a direct child of the context node."
  | limitNotChild => "The limit node must be a direct child of the context node."
  | positionFormula function formula =>
    "The " ++ function ++ "(" ++ formula
      ++ ") formula is not supported; only a constant position is."
  | positionStep function =>
    "The " ++ function ++ "(an+b) selector where a is not 1 is not supported."
  | emptySelector => "selector text must not be empty"
  | notCompiled => "the selector group has not been compiled yet"
  | zeroMemoCapacity => "stage memo capacity must be positive, got 0"
  | duplicateName name => "A custom selector named '" ++ name ++ "' is already registered."
  | argumentTypes name expected actual =>
    "Custom selector '" ++ name ++ "' expects arguments " ++ ArgumentType.labels expected
      ++ " but got " ++ ArgumentType.labels actual ++ "."
  | raised _ message => message

def describe (e : SelectorError) : String :=
  e.kind.heading ++ e.message

end SelectorError

end TreeQuery
