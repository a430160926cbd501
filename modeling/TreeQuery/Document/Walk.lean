import TreeQuery.Document.Basic

/-!
# Document order

Nodes are listed in document order with a stack of pending nodes: the top of the stack is listed
and its children take its place.
-/

set_option autoImplicit false

namespace TreeQuery.Document

/-- List at most `fuel` nodes in document order, starting with the pending ones. -/
def walk (d : Document) : Nat → List Nat → List Nat
  | 0, _ => []
  | _, [] => []
  | fuel + 1, node :: pending => node :: d.walk fuel (d.children node ++ pending)

/-- The pending nodes and all below them in document order. No node comes up twice in a tree, so
the number of nodes is bound enough. -/
def preorder (d : Document) (pending : List Nat) : List Nat :=
  d.walk d.size pending

def elements (d : Document) : List Nat :=
  (d.preorder [root]).filter fun node => (d.tag? node).isSome

def text? (d : Document) (node : Nat) : Option String :=
  match d.kind? node with
  | some (.text text) => some text
  | _ => none

/-- The texts of a node and of all below it, put together in document order. -/
def innerText (d : Document) (node : Nat) : String :=
  String.join ((d.preorder [node]).filterMap d.text?)

end TreeQuery.Document
