import Mathlib.Data.List.Sort
import Mathlib.Data.Set.Function
import TreeQuery.Proofs.Document.Siblings

/-!
# Documents with the same elements

Two documents may have the same elements and differ in all that stands between them. Every list of
elements to which one can go from an element is then the same in both.
-/

set_option autoImplicit false

namespace TreeQuery.Document

/-- The nodes that are no elements have no children, and `f` leads from the elements and the root of
`d` to those of `d'`. It keeps parents, the order among siblings, tags and attributes. -/
structure SameElements (d d' : Document) (f : Nat → Nat) : Prop where
  childless : ∀ n, d.isElement n = false → d.children n = []
  childless' : ∀ n, d'.isElement n = false → d'.children n = []
  bijOn : Set.BijOn f {n | d.isElement n = true} {n | d'.isElement n = true}
  parent : ∀ n, d.isElement n = true → d'.parent? (f n) = (d.parent? n).map f
  order : ∀ m n, d.isElement m = true → d.isElement n = true →
    (d.Precedes m n ↔ d'.Precedes (f m) (f n))
  tag : ∀ n, d.isElement n = true → d'.tag? (f n) = d.tag? n
  attributes : ∀ n, d.isElement n = true → ∀ name, d'.attribute? (f n) name = d.attribute? n name

variable {d d' : Document} {f : Nat → Nat} {n p : Nat}

theorem lt_size_of_isElement (h : d.isElement n = true) : n < d.size := by
  by_contra hge
  have hnone : d.nodes[n]? = none := Array.getElem?_eq_none (Nat.le_of_not_lt hge)
  simp [isElement, kind?, hnone] at h

/-- Where nodes keep their order, siblings do. -/
theorem precedes_iff_of_strictMono {m n : Nat} (hf : StrictMono f)
    (hm : d'.parent? (f m) = (d.parent? m).map f) (hn : d'.parent? (f n) = (d.parent? n).map f) :
    d.Precedes m n ↔ d'.Precedes (f m) (f n) := by
  rw [precedes_iff, precedes_iff, hf.lt_iff_lt, hm, hn]
  refine and_congr_right fun _ => ?_
  constructor
  · rintro ⟨p, hp, hq⟩
    exact ⟨f p, by rw [hp]; rfl, by rw [hq]; rfl⟩
  · rintro ⟨q, hq, hq'⟩
    obtain ⟨p, hp, rfl⟩ := Option.map_eq_some_iff.mp hq
    obtain ⟨p', hp', heq⟩ := Option.map_eq_some_iff.mp hq'
    obtain rfl := hf.injective heq
    exact ⟨p', hp, hp'⟩

/-! ## Elements among elements -/

theorem mem_elementChildren :
    n ∈ d.elementChildren p ↔ d.parent? n = some p ∧ d.isElement n = true := by
  rw [elementChildren, List.mem_filter, mem_children]

theorem pairwise_elementChildren (d : Document) (p : Nat) :
    (d.elementChildren p).Pairwise (· < ·) :=
  (d.pairwise_children p).filter _

def elementSubtree (d : Document) (n : Nat) : List Nat :=
  (d.subtree n).filter d.isElement

section Childless

variable (hleaf : ∀ n, d.isElement n = false → d.children n = [])

include hleaf

theorem isElement_of_parent? (h : d.parent? n = some p) : d.isElement p = true := by
  cases hp : d.isElement p with
  | true => rfl
  | false =>
    have hmem := mem_children.mpr h
    rw [hleaf p hp] at hmem
    cases hmem

theorem filter_subtrees (ns : List Nat) :
    (ns.flatMap d.subtree).filter d.isElement =
      (ns.filter d.isElement).flatMap d.elementSubtree := by
  induction ns with
  | nil => rfl
  | cons n ns ih =>
    rw [List.flatMap_cons, List.filter_append, ih]
    cases hn : d.isElement n with
    | true =>
      rw [List.filter_cons_of_pos hn, List.flatMap_cons]
      rfl
    | false =>
      have hnone : (d.subtree n).filter d.isElement = [] := by
        rw [subtree_eq, hleaf n hn]
        simp [hn]
      rw [List.filter_cons_of_neg (by simp [hn]), hnone, List.nil_append]

theorem elementSubtree_eq (hn : d.isElement n = true) :
    d.elementSubtree n = n :: (d.elementChildren n).flatMap d.elementSubtree := by
  rw [elementSubtree, subtree_eq, List.filter_cons_of_pos hn, filter_subtrees hleaf]
  rfl

theorem filter_preorder_children (n : Nat) :
    (d.preorder (d.children n)).filter d.isElement =
      (d.elementChildren n).flatMap d.elementSubtree := by
  rw [preorder_children, filter_subtrees hleaf]
  rfl

end Childless

/-! ## Corresponding elements -/

namespace SameElements

variable (h : SameElements d d' f)

include h

theorem isElement (hn : d.isElement n = true) : d'.isElement (f n) = true :=
  h.bijOn.mapsTo hn

theorem elementChildren (hp : d.isElement p = true) :
    d'.elementChildren (f p) = (d.elementChildren p).map f := by
  have hsorted : ((d.elementChildren p).map f).Pairwise (· < ·) := by
    rw [List.pairwise_map]
    apply (d.pairwise_elementChildren p).imp_of_mem
    intro m n hm hn hlt
    obtain ⟨hmp, hm⟩ := mem_elementChildren.mp hm
    obtain ⟨hnp, hn⟩ := mem_elementChildren.mp hn
    have hbefore := (h.order m n hm hn).mp (precedes_iff.mpr ⟨hlt, p, hmp, hnp⟩)
    exact (precedes_iff.mp hbefore).1
  apply (d'.pairwise_elementChildren (f p)).eq_of_mem_iff hsorted
  intro m
  rw [mem_elementChildren, List.mem_map]
  constructor
  · rintro ⟨hparent, hm⟩
    obtain ⟨n, hn, rfl⟩ := h.bijOn.surjOn hm
    rw [h.parent n hn, Option.map_eq_some_iff] at hparent
    obtain ⟨q, hq, hqp⟩ := hparent
    obtain rfl := h.bijOn.injOn (isElement_of_parent? h.childless hq) hp hqp
    exact ⟨n, mem_elementChildren.mpr ⟨hq, hn⟩, rfl⟩
  · rintro ⟨n, hn, rfl⟩
    obtain ⟨hparent, hn⟩ := mem_elementChildren.mp hn
    rw [h.parent n hn, hparent]
    exact ⟨rfl, h.isElement hn⟩

theorem elementSubtree (hn : d.isElement n = true) :
    d'.elementSubtree (f n) = (d.elementSubtree n).map f := by
  induction n using subtree.induct d with
  | case1 n ih =>
    rw [elementSubtree_eq h.childless hn, elementSubtree_eq h.childless' (h.isElement hn),
      h.elementChildren hn, List.flatMap_map, List.map_cons, List.map_flatMap]
    congr 1
    apply List.flatMap_congr
    intro c hc
    obtain ⟨hparent, hc⟩ := mem_elementChildren.mp hc
    exact ih c (mem_children.mpr hparent) hc

theorem preorder_children (hn : d.isElement n = true) :
    (d'.preorder (d'.children (f n))).filter d'.isElement =
      ((d.preorder (d.children n)).filter d.isElement).map f := by
  rw [filter_preorder_children h.childless, filter_preorder_children h.childless',
    h.elementChildren hn, List.flatMap_map, List.map_flatMap]
  apply List.flatMap_congr
  intro c hc
  exact h.elementSubtree (mem_elementChildren.mp hc).2

/-- The element siblings on both sides of an element. -/
theorem siblings (hn : d.isElement n = true) :
    (d'.siblingsBefore (f n)).filter d'.isElement =
        ((d.siblingsBefore n).filter d.isElement).map f ∧
      (d'.siblingsAfter (f n)).filter d'.isElement =
        ((d.siblingsAfter n).filter d.isElement).map f := by
  have hfn := h.isElement hn
  have hparent' := h.parent n hn
  cases hparent : d.parent? n with
  | none =>
    rw [hparent] at hparent'
    obtain ⟨hbefore, hafter⟩ := siblings_eq_nil hparent
    obtain ⟨hbefore', hafter'⟩ := siblings_eq_nil hparent'
    rw [hbefore, hafter, hbefore', hafter']
    exact ⟨rfl, rfl⟩
  | some p =>
    rw [hparent] at hparent'
    obtain ⟨before, after, hcut⟩ := exists_cut hparent
    obtain ⟨before', after', hcut'⟩ := exists_cut hparent'
    have hchildren := h.elementChildren (isElement_of_parent? h.childless hparent)
    have hnodup := hcut'.nodup_elementChildren hfn
    rw [hcut.elementChildren hn, hcut'.elementChildren hfn, List.map_append,
      List.map_cons] at hchildren
    rw [List.nodup_middle, List.nodup_cons, List.mem_append, not_or] at hnodup
    obtain ⟨hbefore, -, hafter⟩ :=
      (List.append_cons_inj_of_notMem hnodup.1.1 hnodup.1.2).mp hchildren
    rw [hcut.siblingsBefore, hcut.siblingsAfter, hcut'.siblingsBefore, hcut'.siblingsAfter,
      List.filter_reverse, List.filter_reverse, List.map_reverse, hbefore, hafter]
    exact ⟨rfl, rfl⟩

end SameElements

/-- An ascending renaming keeps the order among siblings, and the rest is asked of the nodes that
there are. -/
theorem SameElements.of_strictMono (hf : StrictMono f)
    (hleaf : ∀ n < d.size, d.isElement n = false → d.children n = [])
    (hleaf' : ∀ n < d'.size, d'.isElement n = false → d'.children n = [])
    (hmaps : ∀ n < d.size, d.isElement n = true → d'.isElement (f n) = true)
    (hsurj : ∀ m < d'.size, d'.isElement m = true → ∃ n < d.size, d.isElement n = true ∧ f n = m)
    (hparent : ∀ n < d.size, d'.parent? (f n) = (d.parent? n).map f)
    (htag : ∀ n < d.size, d'.tag? (f n) = d.tag? n)
    (hattribute : ∀ n < d.size, ∀ name, d'.attribute? (f n) name = d.attribute? n name) :
    d.SameElements d' f where
  childless n hn := by
    rcases Nat.lt_or_ge n d.size with h | h
    · exact hleaf n h hn
    · exact children_eq_nil_of_size_le h
  childless' n hn := by
    rcases Nat.lt_or_ge n d'.size with h | h
    · exact hleaf' n h hn
    · exact children_eq_nil_of_size_le h
  bijOn := by
    refine ⟨fun n hn => hmaps n (lt_size_of_isElement hn) hn, hf.injective.injOn, ?_⟩
    intro m hm
    obtain ⟨n, -, hn⟩ := hsurj m (lt_size_of_isElement hm) hm
    exact ⟨n, hn⟩
  parent n hn := hparent n (lt_size_of_isElement hn)
  order m n hm hn := precedes_iff_of_strictMono hf (hparent m (lt_size_of_isElement hm))
    (hparent n (lt_size_of_isElement hn))
  tag n hn := htag n (lt_size_of_isElement hn)
  attributes n hn := hattribute n (lt_size_of_isElement hn)

end TreeQuery.Document
