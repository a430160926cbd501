import TreeQuery.Document.Walk

/-!
# Places

Selectors work on places of a document: its nodes, and regions of neighbouring children of one
node. A region counts as an element of its own, whose children are the nodes in its range. It has
neither parent nor siblings.
-/

set_option autoImplicit false

namespace TreeQuery

/-- The side of a region that faces the node which delimited it. -/
inductive Direction where
  | left
  | right
  deriving DecidableEq, Hashable, Inhabited

namespace Direction

def name : Direction → String
  | left => "left"
  | right => "right"

end Direction

/-- The children of `parent` from the position `start` up to, but without, `stop`. -/
structure Region where
  parent : Nat
  start : Nat
  stop : Nat
  direction : Option Direction
  deriving DecidableEq, Hashable, Inhabited

inductive Place where
  | node (id : Nat)
  | region (region : Region)
  deriving DecidableEq, Hashable, Inhabited

namespace Region

def length (r : Region) : Nat := r.stop - r.start

def children (d : Document) (r : Region) : List Nat :=
  ((d.children r.parent).drop r.start).take r.length

def tag : String := "node-group"

def directionAttribute : String := "group-direction"

end Region

namespace Place

variable (d : Document)

/-- Elements, the root and regions are what selectors match. -/
def isElement : Place → Bool
  | node id => d.isElement id
  | region _ => true

def tag? : Place → Option String
  | node id => d.tag? id
  | region _ => some Region.tag

/-- The value of an attribute. A region has no other attribute than its direction. -/
def attribute? (name : String) : Place → Option String
  | node id => d.attribute? id name
  | region r => if name = Region.directionAttribute then r.direction.map Direction.name else none

def hasClass (name : String) : Place → Bool
  | node id => d.hasClass id name
  | region _ => false

def parent? : Place → Option Place
  | node id => (d.parent? id).map node
  | region _ => none

/-- The child nodes, whether elements or not. -/
def childIds : Place → List Nat
  | node id => d.children id
  | region r => r.children d

def children (p : Place) : List Place :=
  (p.childIds d).map node

def elementChildren (p : Place) : List Place :=
  ((p.childIds d).filter d.isElement).map node

/-- The elements strictly below a place, in document order. -/
def descendants (p : Place) : List Place :=
  ((d.preorder (p.childIds d)).filter d.isElement).map node

/-- The element siblings after a node, nearest first. -/
def following : Place → List Place
  | node id => ((d.siblingsAfter id).filter d.isElement).map node
  | region _ => []

def preceding : Place → List Place
  | node id => ((d.siblingsBefore id).filter d.isElement).map node
  | region _ => []

/-- The text of a place and of all below it, put together in document order. -/
def innerText : Place → String
  | node id => d.innerText id
  | region r => String.join ((r.children d).map d.innerText)

end Place

end TreeQuery
