import TreeQuery.Event.Basic
import TreeQuery.Pattern.Engine
import TreeQuery.Region.Place
import TreeQuery.Stage.Memo

/-!
# Steps

A step is a part of a selector that is written with literal operands alone: a test of elements, a
choice by position in the working set, or a move along the tree. Steps never fail. Each has a key
from which it can be told again.
-/

set_option autoImplicit false

namespace TreeQuery

variable [PatternEngine]

/-- A comparison of an attribute value with an operand. -/
inductive ValueTest where
  | equals (operand : String)
  | notEqual (operand : String)
  | includes (operand : String)
  | dashMatch (operand : String)
  | prefixMatch (operand : String)
  | suffixMatch (operand : String)
  | substringMatch (operand : String)
  | regexMatch (pattern : Pattern)

namespace ValueTest

/-- The test that a comparison with a text makes. Only a pattern can be malformed. -/
def ofComparison (text : String) : Comparison → Except SelectorError ValueTest
  | .equals => .ok (equals text)
  | .notEqual => .ok (notEqual text)
  | .includes => .ok (includes text)
  | .dashMatch => .ok (dashMatch text)
  | .prefixMatch => .ok (prefixMatch text)
  | .suffixMatch => .ok (suffixMatch text)
  | .substringMatch => .ok (substringMatch text)
  | .regexMatch => (Pattern.ofText text).map regexMatch

/-- Whether an attribute value passes the test. Parts of a value are compared with operands that
are not empty; a word has no white space. -/
def holds (value : String) : ValueTest → Bool
  | equals operand => value == operand
  | notEqual operand => value != operand
  | includes operand =>
    operand != "" && !operand.toList.any isSpace && (words value).contains operand
  | dashMatch operand =>
    operand != "" && (pieces (· == '-') value.toList).contains operand.toList
  | prefixMatch operand => operand != "" && operand.toList.isPrefixOf value.toList
  | suffixMatch operand => operand != "" && operand.toList.isSuffixOf value.toList
  | substringMatch operand => operand != "" && occursIn operand.toList value.toList
  | regexMatch p => p.occurs value

/-- Whether an attribute that may be missing passes the test. A missing one differs from every
value. -/
def holdsOf (value? : Option String) : ValueTest → Bool
  | notEqual operand => value? != some operand
  | test => value?.any test.holds

def label : ValueTest → String × String
  | equals operand => ("AttributeExact", operand)
  | notEqual operand => ("AttributeNotEqual", operand)
  | includes operand => ("AttributeIncludes", operand)
  | dashMatch operand => ("AttributeDashMatch", operand)
  | prefixMatch operand => ("AttributePrefixMatch", operand)
  | suffixMatch operand => ("AttributeSuffixMatch", operand)
  | substringMatch operand => ("AttributeSubstring", operand)
  | regexMatch p => ("AttributeRegexMatch", p.source)

end ValueTest

/-- A part of a selector with literal operands. -/
inductive Step where
  | type (ns : Namespace) (name : String)
  | universal (ns : Namespace)
  | id (value : String)
  | className (name : String)
  | hasAttribute (ns : Namespace) (name : String)
  | compareAttribute (ns : Namespace) (name : String) (test : ValueTest)
  | plain (pseudo : PlainPseudo)
  | nthChild (position : Int)
  | nthLastChild (position : Int)
  | index (value : Int)
  | combinator (combinator : Combinator)
  | containsText (text : String)
  | matchesText (pattern : Pattern)

namespace Step

/-- The step that an event stands for, if it stands for one. Positions are counted in steps of
one. -/
def ofEvent? : Event → Option (Except SelectorError Step)
  | .type ns name => some (.ok (type ns name))
  | .universal ns => some (.ok (universal ns))
  | .id value => some (.ok (id value))
  | .className name => some (.ok (className name))
  | .hasAttribute ns name => some (.ok (hasAttribute ns name))
  | .compareAttribute ns name comparison value =>
    some ((ValueTest.ofComparison value comparison).map (compareAttribute ns name))
  | .plain pseudo => some (.ok (plain pseudo))
  | .nthChild step offset =>
    some (if step = 1 then .ok (nthChild offset) else .error (.positionStep "nth-child"))
  | .nthLastChild step offset =>
    some (if step = 1 then .ok (nthLastChild offset) else .error (.positionStep "nth-last-child"))
  | .index value => some (.ok (index value))
  | .combinator c => some (.ok (combinator c))
  | .containsText text => some (.ok (containsText text))
  | .matchesText text => some ((Pattern.ofText text).map matchesText)
  | .init | .anchor | .alternative | .close | .nest | .grouped _ | .custom .. => none

def plainLabel : PlainPseudo → String
  | .firstChild => "FirstChild"
  | .lastChild => "LastChild"
  | .onlyChild => "OnlyChild"
  | .empty => "Empty"
  | .last => "Last"
  | .selectParent => "SelectParent"

def combinatorLabel : Combinator → String
  | .descendant => "Descendant"
  | .child => "Child"
  | .adjacent => "Adjacent"
  | .sibling => "GeneralSibling"

def key : Step → StageKey
  | type ns name => ⟨"Type", [ns.label, name]⟩
  | universal ns => ⟨"Universal", [ns.label]⟩
  | id value => ⟨"Id", [value]⟩
  | className name => ⟨"Class", [name]⟩
  | hasAttribute ns name => ⟨"AttributeExists", [ns.label, name]⟩
  | compareAttribute ns name test => ⟨test.label.1, [ns.label, name, test.label.2]⟩
  | plain pseudo => ⟨plainLabel pseudo, []⟩
  | nthChild position => ⟨"NthChild", ["1", toString position]⟩
  | nthLastChild position => ⟨"NthLastChild", ["1", toString position]⟩
  | index value => ⟨"Eq", [toString value]⟩
  | combinator c => ⟨combinatorLabel c, []⟩
  | containsText text => ⟨"Contains", [text]⟩
  | matchesText p => ⟨"Matches", [p.source]⟩

variable (d : Document)

/-- Whether an element passes the test of a pseudo-class without arguments. The ones that are no
tests of single elements pass all. -/
def plainHolds (p : Place) : PlainPseudo → Bool
  | .firstChild => (p.parent? d).isSome && (p.preceding d).isEmpty
  | .lastChild => (p.parent? d).isSome && (p.following d).isEmpty
  | .onlyChild => (p.parent? d).isSome && (p.preceding d).isEmpty && (p.following d).isEmpty
  | .empty => (p.childIds d).isEmpty
  | .last | .selectParent => true

def move (p : Place) : Combinator → List Place
  | .descendant => p.descendants d
  | .child => p.elementChildren d
  | .adjacent => (p.following d).take 1
  | .sibling => p.following d

def keep (test : Place → Bool) (xs : List Place) : List Place :=
  xs.filter fun p => p.isElement d && test p

/-- What a step makes of a list of places. -/
def apply (xs : List Place) : Step → List Place
  | type ns name => keep d (fun p => (p.tag? d).any (sameName · (ns.qualify name))) xs
  | universal ns => if ns.isNamed then [] else keep d (fun _ => true) xs
  | id value => (keep d (fun p => p.attribute? d "id" == some value) xs).take 1
  | className name => keep d (·.hasClass d name) xs
  | hasAttribute ns name => keep d (fun p => (p.attribute? d (ns.qualify name)).isSome) xs
  | compareAttribute ns name test =>
    keep d (fun p => test.holdsOf (p.attribute? d (ns.qualify name))) xs
  | plain .last => xs.getLast?.toList
  | plain .selectParent => xs.flatMap fun p => (p.parent? d).toList
  | plain pseudo => keep d (fun p => plainHolds d p pseudo) xs
  | nthChild position =>
    keep d (fun p => (p.parent? d).isSome && (p.preceding d).length + 1 == position) xs
  | nthLastChild position =>
    keep d (fun p => (p.parent? d).isSome && (p.following d).length + 1 == position) xs
  | index value => if 0 ≤ value then (xs[value.toNat]?).toList else []
  | combinator c => xs.flatMap fun p => move d p c
  | containsText text => keep d (fun p => occursIn text.toList (p.innerText d).toList) xs
  | matchesText pattern => keep d (fun p => pattern.occurs (p.innerText d)) xs

def keyed (s : Step) : KeyedStage Place where
  key := s.key
  stage := fun xs => .ok (s.apply d xs)

end Step

end TreeQuery
