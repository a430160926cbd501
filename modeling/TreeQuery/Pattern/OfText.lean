import TreeQuery.Pattern.AutomatonSize
import TreeQuery.Pattern.Engine
import TreeQuery.Pattern.Parse

/-!
# Patterns of texts

A text is a pattern when it can be read, is not nested too deep, and has automata that are not too
large.
-/

set_option autoImplicit false

namespace TreeQuery

def nestingLimit : Nat := 250

def automatonLimit : Nat := 10 * 1024 * 1024

def PatternBody.isCompact (p : PatternBody) : Bool :=
  let plan := p.plan
  plan.automatonSize false ≤ automatonLimit && plan.automatonSize true ≤ automatonLimit

def parsePattern? (options : PatternOptions) (source : String) : Option PatternBody :=
  let flags := { multiLine := options.multiLine, dotAll := options.dotMatchesNewLine }
  match readPattern? flags source with
  | some p => if p.nesting ≤ nestingLimit && p.value.isCompact then some p.value else none
  | none => none

/-- An engine for ordinary patterns. It knows no classes by property, and does not say why it
refuses a pattern. -/
instance plainEngine : PatternEngine where
  Regex := PatternBody
  build options source :=
    match parsePattern? options source with
    | some body => .ok body
    | none => .error none
  isMatch := PatternBody.occurs

end TreeQuery
