import TreeQuery.Proofs.Document.Siblings
import TreeQuery.Proofs.Event.Grammar

/-!
# What selectors mean

The meaning of a selector as a relation between nodes, without lists and without an order of
evaluation. Compounds describe single elements, and an alternative leads from the element of its
first compound to the element of its last one. Constructs that depend on the whole working set have
no meaning of this kind.
-/

set_option autoImplicit false

namespace TreeQuery

/-! ## Tests of single elements -/

def SimpleTest.Declarative : SimpleTest → Prop
  | className _ | hasAttribute .. | nthChild _ | nthLastChild _ | containsText _ => True
  | compareAttribute _ _ comparison _ => comparison ≠ .regexMatch
  | plain pseudo => pseudo ∈ [.firstChild, .lastChild, .onlyChild, .empty]
  | id _ | index _ | matchesText _ => False

/-- Whether an attribute value, if there is one, compares with the operand as it should. -/
def Comparison.Accepts (operand : String) (value? : Option String) : Comparison → Prop
  | equals => value? = some operand
  | notEqual => value? ≠ some operand
  | includes => operand ≠ "" ∧ (∀ c ∈ operand.toList, isSpace c = false) ∧
      ∃ value ∈ value?, operand ∈ words value
  | dashMatch => operand ≠ "" ∧
      ∃ value ∈ value?, operand.toList ∈ pieces (· == '-') value.toList
  | prefixMatch => operand ≠ "" ∧ ∃ value ∈ value?, operand.toList <+: value.toList
  | suffixMatch => operand ≠ "" ∧ ∃ value ∈ value?, operand.toList <:+ value.toList
  | substringMatch => operand ≠ "" ∧ ∃ value ∈ value?, operand.toList <:+: value.toList
  | regexMatch => False

section Meaning

variable (d : Document)

/-- A star with a named namespace describes nothing. -/
def CompoundHead.Describes (n : Nat) : CompoundHead → Prop
  | type ns name => ∃ tag ∈ d.tag? n, sameName tag (ns.qualify name)
  | universal ns => ns.isNamed = false
  | implied => True

def PlainPseudo.Describes (n : Nat) : PlainPseudo → Prop
  | firstChild => ∃ p, (d.elementChildren p).head? = some n
  | lastChild => ∃ p, (d.elementChildren p).getLast? = some n
  | onlyChild => ∃ p, d.elementChildren p = [n]
  | empty => d.children n = []
  | last | selectParent => False

/-- Positions among the element children of a node are counted from one. -/
def SimpleTest.Describes (n : Nat) : SimpleTest → Prop
  | className name => ∃ value ∈ d.attribute? n "class", name ∈ words value
  | hasAttribute ns name => (d.attribute? n (ns.qualify name)).isSome
  | compareAttribute ns name comparison value =>
    comparison.Accepts value (d.attribute? n (ns.qualify name))
  | plain pseudo => pseudo.Describes d n
  | nthChild position =>
    ∃ k : Nat, position = k + 1 ∧ ∃ p, (d.elementChildren p)[k]? = some n
  | nthLastChild position =>
    ∃ k : Nat, position = k + 1 ∧ ∃ p, (d.elementChildren p).reverse[k]? = some n
  | containsText text => text.toList <:+: (d.innerText n).toList
  | id _ | index _ | matchesText _ => False

/-- The relation that a combinator requires between the elements of two neighbouring compounds. -/
def Combinator.Relates (m n : Nat) : Combinator → Prop
  | descendant => d.Below n m
  | child => d.ChildOf n m
  | adjacent => d.Precedes m n ∧
      ∀ e, d.Precedes m e → d.Precedes e n → d.isElement e = false
  | sibling => d.Precedes m n

end Meaning

/-! ## Trees -/

def GroupTree.Uncombined : GroupTree → Prop
  | .mk _ alternatives => ∀ a ∈ alternatives, ∃ c, a = .last c

mutual

def ModifierTree.Declarative : ModifierTree → Prop
  | .test test => test.Declarative
  | .grouped pseudo _ argument =>
    (pseudo = .has ∨ pseudo = .not ∧ argument.Uncombined) ∧ argument.Declarative
  | .between .. | .custom .. => False

def ModifierTree.AllDeclarative : List ModifierTree → Prop
  | [] => True
  | m :: ms => m.Declarative ∧ ModifierTree.AllDeclarative ms

def CompoundTree.Declarative : CompoundTree → Prop
  | .mk _ modifiers => ModifierTree.AllDeclarative modifiers

def AlternativeTree.Declarative : AlternativeTree → Prop
  | .last c => c.Declarative
  | .link c _ rest => c.Declarative ∧ rest.Declarative

def AlternativeTree.AllDeclarative : List AlternativeTree → Prop
  | [] => True
  | a :: as => a.Declarative ∧ AlternativeTree.AllDeclarative as

/-- A group of compounds that describe single elements. A negation takes compounds alone. -/
def GroupTree.Declarative : GroupTree → Prop
  | .mk _ alternatives => AlternativeTree.AllDeclarative alternatives

end

section Meaning

variable (d : Document)

mutual

def ModifierTree.Describes : ModifierTree → Nat → Prop
  | .test test, n => test.Describes d n
  | .grouped .has _ argument, n => ∃ m, argument.Selects false (· = n) m
  | .grouped .not _ argument, n => ¬ argument.Selects true (· = n) n
  | _, _ => False

def ModifierTree.AllDescribe : List ModifierTree → Nat → Prop
  | [], _ => True
  | m :: ms, n => m.Describes n ∧ ModifierTree.AllDescribe ms n

def CompoundTree.Describes : CompoundTree → Nat → Prop
  | .mk head modifiers, n =>
    d.isElement n ∧ head.Describes d n ∧ ModifierTree.AllDescribe modifiers n

/-- There is an element for each compound, from `first` to `n`, and neighbours are related as the
combinators require. -/
def AlternativeTree.Leads : AlternativeTree → Nat → Nat → Prop
  | .last c, first, n => first = n ∧ c.Describes n
  | .link c k rest, first, n =>
    c.Describes first ∧ ∃ next, k.Relates d first next ∧ rest.Leads next n

def AlternativeTree.AnyLeads : List AlternativeTree → Nat → Nat → Prop
  | [], _, _ => False
  | a :: as, first, n => a.Leads first n ∨ AlternativeTree.AnyLeads as first n

/-- Some alternative leads to `n` from below an input node, or, for an anchored group, from an
input node itself. -/
def GroupTree.Selects : GroupTree → Bool → (Nat → Prop) → Nat → Prop
  | .mk slashed alternatives, anchored, input, n =>
    ∃ first, (if anchored || slashed then input first else ∃ i, input i ∧ d.Below first i) ∧
      AlternativeTree.AnyLeads alternatives first n

end

end Meaning

end TreeQuery
