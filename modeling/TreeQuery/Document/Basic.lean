import TreeQuery.Document.Attributes
import TreeQuery.Text.Blank

/-!
# Documents

A document is a tree of nodes, numbered in the order of their creation. It only grows: a new node
becomes the last child of an older one, so parents have smaller numbers than their children and
siblings stand in increasing order.
-/

set_option autoImplicit false

namespace TreeQuery

inductive NodeKind where
  | root
  | element (tag : String)
  | text (text : String)
  | comment (text : String)
  deriving DecidableEq, Inhabited

/-- A node of a document and its place in the tree. -/
structure Node where
  kind : NodeKind
  attributes : Attributes := .empty
  parent : Option Nat := none
  children : Array Nat := #[]
  deriving Inhabited

def parentIn (nodes : Array Node) (i : Nat) : Option Nat :=
  nodes[i]?.bind Node.parent

/-- The nodes form one tree below the node zero. -/
structure Linked (nodes : Array Node) : Prop where
  nonempty : 0 < nodes.size
  parent_lt : ∀ {i p : Nat}, parentIn nodes i = some p → p < i
  orphan : ∀ {i : Nat}, i < nodes.size → (parentIn nodes i = none ↔ i = 0)
  rooted : ∀ {i : Nat} (h : i < nodes.size), nodes[i].kind = .root ↔ i = 0
  /-- The children of a node are the nodes with that parent, by increasing number. -/
  children : ∀ {i : Nat} (h : i < nodes.size),
    nodes[i].children.toList = (List.range nodes.size).filter fun j => parentIn nodes j == some i

/-- Make a new node the last child of the node `p`. -/
def appendNode (nodes : Array Node) (p : Nat) (kind : NodeKind) : Array Node :=
  (nodes.modify p fun n => { n with children := n.children.push nodes.size }).push
    { kind, parent := some p }

theorem size_appendNode (nodes : Array Node) (p : Nat) (kind : NodeKind) :
    (appendNode nodes p kind).size = nodes.size + 1 := by
  simp [appendNode]

theorem parentIn_appendNode (nodes : Array Node) (p : Nat) (kind : NodeKind) (i : Nat) :
    parentIn (appendNode nodes p kind) i =
      if i = nodes.size then some p else parentIn nodes i := by
  unfold parentIn appendNode
  rw [Array.getElem?_push]
  simp only [Array.size_modify]
  split
  · rfl
  · rw [Array.getElem?_modify]
    split
    · cases nodes[i]? <;> rfl
    · rfl

theorem getElem_appendNode {nodes : Array Node} {p : Nat} {kind : NodeKind} {i : Nat}
    (h : i < (appendNode nodes p kind).size) :
    (appendNode nodes p kind)[i] =
      if hi : i < nodes.size then
        if p = i then { nodes[i] with children := nodes[i].children.push nodes.size } else nodes[i]
      else { kind, parent := some p } := by
  simp only [appendNode, Array.getElem_push, Array.size_modify, Array.getElem_modify]

theorem Linked.append {nodes : Array Node} (h : Linked nodes) {p : Nat} (hp : p < nodes.size)
    {kind : NodeKind} (hk : kind ≠ .root) : Linked (appendNode nodes p kind) where
  nonempty := by simp [size_appendNode]
  parent_lt := by
    intro i q hq
    rw [parentIn_appendNode] at hq
    split at hq
    · next hi => simp_all
    · exact h.parent_lt hq
  orphan := by
    intro i hi
    rw [parentIn_appendNode]
    rw [size_appendNode] at hi
    have := h.nonempty
    split
    · simp; omega
    · exact h.orphan (by omega)
  rooted := by
    intro i hi
    rw [getElem_appendNode]
    rw [size_appendNode] at hi
    have := h.nonempty
    split
    · next hi' => split <;> exact h.rooted hi'
    · simp only [hk, false_iff]
      omega
  children := by
    intro i hi
    have hsize := hi
    rw [size_appendNode] at hsize
    have old : (List.range nodes.size).filter
          (fun j => parentIn (appendNode nodes p kind) j == some i) =
        (List.range nodes.size).filter fun j => parentIn nodes j == some i := by
      apply List.filter_congr
      intro j hj
      have : j ≠ nodes.size := by simp at hj; omega
      rw [parentIn_appendNode, if_neg this]
    rw [getElem_appendNode, size_appendNode, List.range_succ, List.filter_append, old]
    have new : parentIn (appendNode nodes p kind) nodes.size = some p := by
      rw [parentIn_appendNode, if_pos rfl]
    by_cases hpi : p = i
    · subst hpi
      simp [hp, h.children hp, new]
    · by_cases hi' : i < nodes.size
      · simp [hi', hpi, h.children hi', new]
      · have hi' : i = nodes.size := by omega
        subst hi'
        have : (List.range nodes.size).filter
            (fun j => parentIn nodes j == some nodes.size) = [] := by
          rw [List.filter_eq_nil_iff]
          intro j hj hp'
          have := h.parent_lt (eq_of_beq hp')
          simp at hj
          omega
        simp [this, new, hpi]

def modifyAttributes (nodes : Array Node) (i : Nat) (f : Attributes → Attributes) : Array Node :=
  nodes.modify i fun n => { n with attributes := f n.attributes }

theorem parentIn_modifyAttributes (nodes : Array Node) (i : Nat) (f : Attributes → Attributes)
    (j : Nat) : parentIn (modifyAttributes nodes i f) j = parentIn nodes j := by
  unfold parentIn modifyAttributes
  rw [Array.getElem?_modify]
  split
  · cases nodes[j]? <;> rfl
  · rfl

theorem Linked.modifyAttributes {nodes : Array Node} (h : Linked nodes) (i : Nat)
    (f : Attributes → Attributes) : Linked (modifyAttributes nodes i f) where
  nonempty := by
    have := h.nonempty
    simpa [TreeQuery.modifyAttributes]
  parent_lt := by
    intro j p hp
    exact h.parent_lt (parentIn_modifyAttributes nodes i f j ▸ hp)
  orphan := by
    intro j hj
    rw [parentIn_modifyAttributes]
    exact h.orphan (by simpa [TreeQuery.modifyAttributes] using hj)
  rooted := by
    intro j hj
    have hj' : j < nodes.size := by simpa [TreeQuery.modifyAttributes] using hj
    simp only [TreeQuery.modifyAttributes, Array.getElem_modify]
    split <;> exact h.rooted hj'
  children := by
    intro j hj
    have hj' : j < nodes.size := by simpa [TreeQuery.modifyAttributes] using hj
    simp only [parentIn_modifyAttributes]
    simp only [TreeQuery.modifyAttributes, Array.getElem_modify, Array.size_modify]
    split <;> exact h.children hj'

structure Document where
  nodes : Array Node
  linked : Linked nodes

namespace Document

def empty : Document where
  nodes := #[{ kind := .root }]
  linked := {
    nonempty := by simp
    parent_lt := by
      intro i p h
      cases i <;> simp [parentIn] at h
    orphan := by
      intro i h
      cases i <;> simp [parentIn] at h ⊢
    rooted := by
      intro i h
      cases i <;> simp at h ⊢
    children := by
      intro i h
      cases i <;> simp [parentIn] at h ⊢ }

instance : Inhabited Document := ⟨empty⟩

def size (d : Document) : Nat := d.nodes.size

def root : Nat := 0

/-- Make a new node the last child of `parent`, and answer its number. A parent that does not
exist gets no child. -/
def append (d : Document) (parent : Nat) (kind : NodeKind) (hk : kind ≠ .root) : Nat × Document :=
  if h : parent < d.nodes.size then
    (d.size, { nodes := appendNode d.nodes parent kind, linked := d.linked.append h hk })
  else (d.size, d)

def appendElement (d : Document) (parent : Nat) (tag : String) : Nat × Document :=
  d.append parent (.element tag.toLower) nofun

def appendText (d : Document) (parent : Nat) (text : String) : Nat × Document :=
  d.append parent (.text text) nofun

def appendComment (d : Document) (parent : Nat) (text : String) : Nat × Document :=
  d.append parent (.comment text) nofun

def setAttribute (d : Document) (node : Nat) (name value : String) : Document where
  nodes := modifyAttributes d.nodes node fun a => a.set name value
  linked := d.linked.modifyAttributes node _

def kind? (d : Document) (node : Nat) : Option NodeKind :=
  d.nodes[node]?.map Node.kind

def attributes (d : Document) (node : Nat) : Attributes :=
  (d.nodes[node]?.map Node.attributes).getD .empty

def attribute? (d : Document) (node : Nat) (name : String) : Option String :=
  (d.attributes node).get? name

def tag? (d : Document) (node : Nat) : Option String :=
  match d.kind? node with
  | some (.element tag) => some tag
  | _ => none

/-- Elements and the root are what selectors match. -/
def isElement (d : Document) (node : Nat) : Bool :=
  match d.kind? node with
  | some .root | some (.element _) => true
  | _ => false

def parent? (d : Document) (node : Nat) : Option Nat :=
  parentIn d.nodes node

def children (d : Document) (node : Nat) : List Nat :=
  ((d.nodes[node]?.map Node.children).getD #[]).toList

/-- The children of a node's parent; a root has no siblings. -/
def brood (d : Document) (node : Nat) : List Nat :=
  match d.parent? node with
  | some p => d.children p
  | none => []

def siblingsAfter (d : Document) (node : Nat) : List Nat :=
  ((d.brood node).dropWhile (· ≠ node)).tail

/-- The siblings before a node, nearest first. -/
def siblingsBefore (d : Document) (node : Nat) : List Nat :=
  ((d.brood node).takeWhile (· ≠ node)).reverse

def nextSibling? (d : Document) (node : Nat) : Option Nat :=
  (d.siblingsAfter node).head?

def previousSibling? (d : Document) (node : Nat) : Option Nat :=
  (d.siblingsBefore node).head?

def hasClass (d : Document) (node : Nat) (name : String) : Bool :=
  match d.attribute? node "class" with
  | some value => (words value).contains name
  | none => false

theorem mem_children {d : Document} {i j : Nat} :
    j ∈ d.children i ↔ d.parent? j = some i := by
  unfold children parent?
  by_cases hi : i < d.nodes.size
  · rw [Array.getElem?_eq_getElem hi]
    simp only [Option.map_some, Option.getD_some, d.linked.children hi, List.mem_filter,
      List.mem_range, beq_iff_eq, and_iff_right_iff_imp]
    intro h
    unfold parentIn at h
    rcases Nat.lt_or_ge j d.nodes.size with hj | hj
    · exact hj
    · simp [Array.getElem?_eq_none hj] at h
  · rw [Array.getElem?_eq_none (by omega)]
    simp only [Option.map_none, Option.getD_none, List.not_mem_nil, false_iff]
    intro h
    have hj := d.linked.parent_lt h
    unfold parentIn at h
    rcases Nat.lt_or_ge j d.nodes.size with hj' | hj'
    · omega
    · simp [Array.getElem?_eq_none hj'] at h

theorem lt_of_mem_children {d : Document} {i j : Nat} (h : j ∈ d.children i) : i < j :=
  d.linked.parent_lt (mem_children.1 h)

theorem lt_size_of_mem_children {d : Document} {i j : Nat} (h : j ∈ d.children i) :
    j < d.size := by
  have h := mem_children.1 h
  unfold parent? parentIn at h
  rcases Nat.lt_or_ge j d.nodes.size with hj | hj
  · exact hj
  · simp [Array.getElem?_eq_none hj] at h

end Document

end TreeQuery
