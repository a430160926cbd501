import TreeQuery.Text.Quoted

/-!
# Namespaces

The namespace part that may stand before a type or attribute name. Only a named namespace changes
the name that is looked up.
-/

set_option autoImplicit false

namespace TreeQuery

/-- The namespace part of a type or attribute name. -/
inductive Namespace where
  | unstated
  /-- `|name` -/
  | empty
  /-- `*|name` -/
  | any
  /-- `ns|name` -/
  | named (name : String)
  deriving DecidableEq, Inhabited

namespace Namespace

def isUnstated : Namespace → Bool
  | unstated => true
  | _ => false

def isNamed : Namespace → Bool
  | named _ => true
  | _ => false

def name? : Namespace → Option String
  | named ns => some ns
  | _ => none

/-- The lowercased name that is looked up for `name`. -/
def qualify (name : String) : Namespace → String
  | named ns => (ns ++ ":" ++ name).toLower
  | _ => name.toLower

def written : Namespace → String
  | unstated => ""
  | empty => "|"
  | any => "*|"
  | named ns => ns ++ "|"

/-- A label that tells all namespace parts apart. -/
def label : Namespace → String
  | unstated => "None"
  | empty => "Empty"
  | any => "Any"
  | named ns => "Specific(" ++ quote ns ++ ")"

end Namespace

end TreeQuery
