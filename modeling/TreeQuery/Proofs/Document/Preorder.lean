import Mathlib.Data.List.Flatten
import Mathlib.Data.List.Infix
import Mathlib.Data.List.Nodup
import Mathlib.Data.List.Perm.Subperm
import Mathlib.Logic.Relation
import TreeQuery.Document.Walk

/-!
# Document order by recursion

The walk with a stack of pending nodes lists what the plain recursion over subtrees lists. No node
comes up twice there, so the number of nodes is never reached as a bound. What is listed below a
node is one piece of what is listed below each of its ancestors, and so is its text.
-/

set_option autoImplicit false

namespace TreeQuery.Document

open Relation

variable {d : Document}

def ChildOf (d : Document) (n p : Nat) : Prop :=
  d.parent? n = some p

def Below (d : Document) (n a : Nat) : Prop :=
  TransGen d.ChildOf n a

/-! ## Ancestors -/

theorem lt_size_of_parent? {n p : Nat} (h : d.parent? n = some p) : n < d.size :=
  lt_size_of_mem_children (mem_children.2 h)

theorem le_of_reflTransGen {n a : Nat} (h : ReflTransGen d.ChildOf n a) : a ≤ n := by
  induction h with
  | refl => exact Nat.le_refl n
  | tail _ hchild ih => exact Nat.le_trans (Nat.le_of_lt (d.linked.parent_lt hchild)) ih

theorem rightUnique_childOf (d : Document) : Relator.RightUnique d.ChildOf := by
  intro n p q hp hq
  exact Option.some.inj (hp.symm.trans hq)

/-- A node that is an ancestor of a sibling `b` of `a`, or `b` itself, is not `a`. -/
theorem not_reflTransGen_sibling {a b p : Nat} (ha : d.ChildOf a p) (hb : d.ChildOf b p)
    (hne : a ≠ b) : ¬ ReflTransGen d.ChildOf b a := by
  intro h
  rcases ReflTransGen.cases_head h with heq | ⟨q, hq, hrest⟩
  · exact hne heq.symm
  · obtain rfl := rightUnique_childOf d hq hb
    have hle := le_of_reflTransGen hrest
    have hlt := d.linked.parent_lt ha
    omega

/-! ## Subtrees -/

/-- A node and all below it, each before its children. -/
def subtree (d : Document) (n : Nat) : List Nat :=
  n :: (d.children n).attach.flatMap fun ⟨c, _⟩ => d.subtree c
termination_by d.size - n
decreasing_by
  have hlt := lt_of_mem_children ‹_›
  have hsize := lt_size_of_mem_children ‹_›
  omega

theorem subtree_eq (d : Document) (n : Nat) :
    d.subtree n = n :: (d.children n).flatMap d.subtree := by
  rw [subtree]
  simp [List.flatMap_subtype]

theorem mem_subtree {n m : Nat} : m ∈ d.subtree n ↔ ReflTransGen d.ChildOf m n := by
  constructor
  · induction n using subtree.induct d with
    | case1 n ih =>
      intro h
      rw [subtree_eq] at h
      rcases List.mem_cons.1 h with rfl | h
      · exact .refl
      · obtain ⟨c, hc, hm⟩ := List.mem_flatMap.1 h
        exact (ih c hc hm).tail (mem_children.1 hc)
  · intro h
    induction h with
    | refl =>
      rw [subtree_eq]
      exact List.mem_cons_self
    | tail _ hchild ih =>
      rw [subtree_eq]
      exact List.mem_cons_of_mem _ (List.mem_flatMap.2 ⟨_, mem_children.2 hchild, ih⟩)

theorem children_eq_nil_of_size_le {n : Nat} (h : d.size ≤ n) : d.children n = [] := by
  have hnone : d.nodes[n]? = none := Array.getElem?_eq_none h
  simp [children, hnone]

theorem nodup_children (d : Document) (n : Nat) : (d.children n).Nodup := by
  unfold children
  by_cases hn : n < d.nodes.size
  · rw [Array.getElem?_eq_getElem hn]
    simp only [Option.map_some, Option.getD_some, d.linked.children hn]
    exact List.nodup_range.filter _
  · rw [Array.getElem?_eq_none (by omega)]
    exact List.nodup_nil

theorem nodup_subtree (d : Document) (n : Nat) : (d.subtree n).Nodup := by
  induction n using subtree.induct d with
  | case1 n ih =>
    rw [subtree_eq, List.nodup_cons, List.nodup_flatMap]
    refine ⟨?_, ih, ?_⟩
    · intro h
      obtain ⟨c, hc, hn⟩ := List.mem_flatMap.1 h
      have hle := le_of_reflTransGen (mem_subtree.1 hn)
      have hlt := lt_of_mem_children hc
      omega
    · refine (d.nodup_children n).imp_of_mem ?_
      intro a b ha hb hne m hma hmb
      have ha' := mem_children.1 ha
      have hb' := mem_children.1 hb
      rcases ReflTransGen.total_of_right_unique (rightUnique_childOf d) (mem_subtree.1 hma)
        (mem_subtree.1 hmb) with h | h
      · exact not_reflTransGen_sibling hb' ha' (Ne.symm hne) h
      · exact not_reflTransGen_sibling ha' hb' hne h

/-! ## Walks -/

theorem walk_eq_take (d : Document) (fuel : Nat) (pending : List Nat) :
    d.walk fuel pending = (pending.flatMap d.subtree).take fuel := by
  induction fuel generalizing pending with
  | zero => simp [walk]
  | succ fuel ih =>
    cases pending with
    | nil => simp [walk]
    | cons node pending =>
      rw [walk, ih, List.flatMap_cons, subtree_eq]
      simp [List.flatMap_append]

theorem subtree_eq_singleton {n : Nat} (h : d.size ≤ n) : d.subtree n = [n] := by
  rw [subtree_eq, children_eq_nil_of_size_le h]
  rfl

/-- No walk from one node lists more nodes than there are. -/
theorem length_subtree_le (d : Document) (n : Nat) : (d.subtree n).length ≤ d.size := by
  by_cases hn : n < d.size
  · have hsub : d.subtree n ⊆ List.range d.size := by
      intro m hm
      rw [List.mem_range]
      rcases ReflTransGen.cases_head (mem_subtree.1 hm) with rfl | ⟨p, hp, -⟩
      · exact hn
      · exact lt_size_of_parent? hp
    have hlength := ((d.nodup_subtree n).subperm hsub).length_le
    rwa [List.length_range] at hlength
  · rw [subtree_eq_singleton (by omega)]
    exact d.linked.nonempty

theorem length_subtrees_le {ns : List Nat} {n : Nat} (h : ns.Sublist (d.children n)) :
    (ns.flatMap d.subtree).length ≤ d.size := by
  have hsub := (h.flatMap d.subtree).length_le
  have hlength := d.length_subtree_le n
  rw [subtree_eq, List.length_cons] at hlength
  omega

/-- A walk ends when its bound leaves room for all that is pending. -/
theorem walk_of_length_le {pending : List Nat} {fuel : Nat}
    (h : (pending.flatMap d.subtree).length ≤ fuel) :
    d.walk fuel pending = pending.flatMap d.subtree := by
  rw [walk_eq_take, List.take_of_length_le h]

theorem preorder_singleton (d : Document) (n : Nat) : d.preorder [n] = d.subtree n := by
  have h : ([n].flatMap d.subtree).length ≤ d.size := by
    rw [List.flatMap_singleton]
    exact d.length_subtree_le n
  rw [preorder, walk_of_length_le h, List.flatMap_singleton]

/-- Some of the children of a node, and all below them, by recursion. -/
theorem preorder_of_sublist {ns : List Nat} {n : Nat} (h : ns.Sublist (d.children n)) :
    d.preorder ns = ns.flatMap d.subtree :=
  walk_of_length_le (length_subtrees_le h)

/-- The nodes below `n` in document order, by recursion. -/
theorem preorder_children (d : Document) (n : Nat) :
    d.preorder (d.children n) = (d.children n).flatMap d.subtree :=
  preorder_of_sublist (List.Sublist.refl _)

theorem mem_preorder_children {n m : Nat} :
    m ∈ d.preorder (d.children n) ↔ d.Below m n := by
  rw [preorder_children, List.mem_flatMap]
  constructor
  · rintro ⟨c, hc, hm⟩
    exact TransGen.tail' (mem_subtree.1 hm) (mem_children.1 hc)
  · intro h
    obtain ⟨c, hm, hc⟩ := TransGen.tail'_iff.1 h
    exact ⟨c, mem_children.2 hc, mem_subtree.2 hm⟩

/-! ## Texts -/

/-- What is listed below a node is listed in one piece below each of its ancestors. -/
theorem subtree_isInfix {n a : Nat} (h : ReflTransGen d.ChildOf n a) :
    d.subtree n <:+: d.subtree a := by
  induction h with
  | refl => exact List.infix_rfl
  | @tail b c _ hchild ih =>
    have hpart : d.subtree b <:+: (d.children c).flatMap d.subtree :=
      List.infix_flatMap_of_mem (mem_children.2 hchild) d.subtree
    rw [d.subtree_eq c]
    exact ih.trans (List.infix_cons hpart)

theorem innerText_eq (d : Document) (n : Nat) :
    d.innerText n = String.join ((d.subtree n).filterMap d.text?) := by
  rw [innerText, preorder_singleton]

theorem join_innerText (ns : List Nat) : String.join (ns.map d.innerText) =
    String.join ((ns.flatMap d.subtree).filterMap d.text?) := by
  induction ns with
  | nil => rfl
  | cons n ns ih =>
    rw [List.map_cons, String.join_cons, ih, innerText_eq, List.flatMap_cons,
      List.filterMap_append, String.join_append]

/-- The text of a node is its own, followed by those of its children. -/
theorem innerText_rec (d : Document) (n : Nat) : d.innerText n =
    (d.text? n).getD "" ++ String.join ((d.children n).map d.innerText) := by
  rw [join_innerText, innerText_eq, subtree_eq, List.filterMap_cons]
  cases d.text? n with
  | none => rw [Option.getD_none, String.empty_append]
  | some text => rw [String.join_cons, Option.getD_some]

theorem innerText_isInfix {n a : Nat} (h : ReflTransGen d.ChildOf n a) :
    (d.innerText n).toList <:+: (d.innerText a).toList := by
  have htexts := (subtree_isInfix h).filterMap d.text?
  rw [innerText_eq, innerText_eq, String.toList_join, String.toList_join, List.flatMap_def,
    List.flatMap_def]
  exact (htexts.map String.toList).flatten

end TreeQuery.Document
