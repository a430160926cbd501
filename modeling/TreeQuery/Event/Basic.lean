import TreeQuery.Namespace
import TreeQuery.Token.Basic
import TreeQuery.Custom.ArgumentType

/-!
# Events

Reading a selector group delivers a sequence of events. A nested group is delivered between the
event that opens it and the event that uses it, so that one sequence tells everything.
-/

set_option autoImplicit false

namespace TreeQuery

/-- How an attribute value is compared with the one written in a selector. -/
inductive Comparison where
  | equals
  | notEqual
  | includes
  | dashMatch
  | prefixMatch
  | suffixMatch
  | substringMatch
  | regexMatch
  deriving DecidableEq, Inhabited

namespace Comparison

def kind : Comparison → Token.Kind
  | equals => .equals
  | notEqual => .notEqual
  | includes => .includes
  | dashMatch => .dashMatch
  | prefixMatch => .prefixMatch
  | suffixMatch => .suffixMatch
  | substringMatch => .substringMatch
  | regexMatch => .regexMatch

/-- All comparisons, in the order in which messages list them. -/
def all : List Comparison :=
  [equals, notEqual, includes, regexMatch, dashMatch, prefixMatch, suffixMatch, substringMatch]

def ofKind? (k : Token.Kind) : Option Comparison :=
  all.find? (·.kind == k)

theorem ofKind?_kind (c : Comparison) : ofKind? c.kind = some c := by
  cases c <;> decide

def written (c : Comparison) : String :=
  c.kind.fixedText?.getD ""

end Comparison

/-- How the elements of one compound lead to those of the next. -/
inductive Combinator where
  | descendant
  | child
  | adjacent
  | sibling
  deriving DecidableEq, Inhabited

namespace Combinator

def sign : Combinator → String
  | descendant => "_"
  | child => ">"
  | adjacent => "+"
  | sibling => "~"

end Combinator

inductive PlainPseudo where
  | firstChild
  | lastChild
  | onlyChild
  | empty
  | last
  | selectParent
  deriving DecidableEq, Inhabited

namespace PlainPseudo

def name : PlainPseudo → String
  | firstChild => "first-child"
  | lastChild => "last-child"
  | onlyChild => "only-child"
  | empty => "empty"
  | last => "last"
  | selectParent => "select-parent"

def all : List PlainPseudo := [firstChild, lastChild, onlyChild, empty, last, selectParent]

def ofName? (s : String) : Option PlainPseudo :=
  all.find? (·.name == s)

end PlainPseudo

/-- How a child list is cut at the nodes that a splitter finds. -/
inductive SplitMode where
  /-- Each splitter ends a run. -/
  | after
  /-- Each splitter starts a run. -/
  | before
  /-- Only what lies strictly between two splitters is kept. -/
  | between
  /-- Each splitter ends one run and starts the next. -/
  | all
  deriving DecidableEq, Inhabited

inductive GroupPseudo where
  | has
  | not
  | split (mode : SplitMode)
  | before
  | after
  | between
  deriving DecidableEq, Inhabited

namespace GroupPseudo

def name : GroupPseudo → String
  | has => "has"
  | not => "not"
  | split .after => "split-after"
  | split .before => "split-before"
  | split .between => "split-between"
  | split .all => "split-all"
  | before => "before"
  | after => "after"
  | between => "between"

def all : List GroupPseudo :=
  [has, not, split .after, split .before, split .between, split .all, before, after, between]

def ofName? (s : String) : Option GroupPseudo :=
  all.find? (·.name == s)

/-- Only the argument of a negation is always matched against the working set itself. -/
def anchorsArgument : GroupPseudo → Bool
  | not => true
  | _ => false

def groupNames : GroupPseudo → List String
  | between => ["between-start", "between-end"]
  | pseudo => [pseudo.name]

def arity (pseudo : GroupPseudo) : Nat :=
  pseudo.groupNames.length

end GroupPseudo

/-- An argument of a custom selector as events carry it. A nested group has been delivered before,
so its place is all that is left to tell. -/
inductive EventArgument where
  | string (text : String)
  | integer (value : Int)
  | group
  deriving DecidableEq, Inhabited

/-- What is delivered while a selector group is read. -/
inductive Event where
  | init
  /-- The group is matched against the working set itself and not against what lies below. -/
  | anchor
  | alternative
  | close
  | type (ns : Namespace) (name : String)
  | universal (ns : Namespace)
  | id (value : String)
  | className (name : String)
  | hasAttribute (ns : Namespace) (name : String)
  | compareAttribute (ns : Namespace) (name : String) (comparison : Comparison) (value : String)
  | plain (pseudo : PlainPseudo)
  | nthChild (step offset : Int)
  | nthLastChild (step offset : Int)
  | index (value : Int)
  | combinator (combinator : Combinator)
  | containsText (text : String)
  | matchesText (pattern : String)
  /-- The events of a nested group follow, up to its own end. -/
  | nest
  /-- The nested groups delivered last are the arguments of a pseudo-class. -/
  | grouped (pseudo : GroupPseudo)
  | custom (name : String) (arguments : List EventArgument)
  deriving DecidableEq, Inhabited

namespace Event

/-- The names under which a receiver may refuse an event. An event without one is never refused. -/
def refusalNames : Event → List String
  | close => ["close"]
  | compareAttribute _ _ .regexMatch _ => ["regex"]
  | nthChild .. => ["nth-child"]
  | nthLastChild .. => ["nth-last-child"]
  | matchesText _ => ["matches"]
  | grouped pseudo => pseudo.groupNames
  | _ => []

def groupCount : Event → Nat
  | grouped pseudo => pseudo.arity
  | custom _ arguments => arguments.count .group
  | _ => 0

end Event

end TreeQuery
