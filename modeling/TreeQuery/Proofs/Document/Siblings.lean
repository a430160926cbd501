import Mathlib.Data.List.Induction
import Mathlib.Data.List.Nodup
import TreeQuery.Proofs.Document.Preorder

/-!
# Siblings

The children of a node stand in one list. A node cuts it into the siblings before and after the
node, and its position among the element children can be read off both parts.
-/

set_option autoImplicit false

namespace TreeQuery.Document

variable {d : Document}

def Precedes (d : Document) (m n : Nat) : Prop :=
  ∃ p, [m, n].Sublist (d.children p)

def elementChildren (d : Document) (p : Nat) : List Nat :=
  (d.children p).filter d.isElement

theorem pairwise_children (d : Document) (p : Nat) : (d.children p).Pairwise (· < ·) := by
  unfold children
  by_cases hp : p < d.nodes.size
  · rw [Array.getElem?_eq_getElem hp]
    simp only [Option.map_some, Option.getD_some, d.linked.children hp]
    exact List.pairwise_lt_range.filter _
  · rw [Array.getElem?_eq_none (by omega)]
    exact List.Pairwise.nil

/-- Siblings stand in the order of their numbers. -/
theorem precedes_iff {m n : Nat} :
    d.Precedes m n ↔ m < n ∧ ∃ p, d.parent? m = some p ∧ d.parent? n = some p := by
  constructor
  · rintro ⟨p, hsub⟩
    refine ⟨?_, p, mem_children.1 (hsub.subset (by simp)), mem_children.1 (hsub.subset (by simp))⟩
    simpa using (d.pairwise_children p).sublist hsub
  · rintro ⟨hlt, p, hm, hn⟩
    obtain ⟨front, back, hsplit⟩ := List.append_of_mem (mem_children.2 hm)
    have hsorted := d.pairwise_children p
    rw [hsplit, List.pairwise_append] at hsorted
    have hmem := mem_children.2 hn
    rw [hsplit, List.mem_append, List.mem_cons] at hmem
    have hback : n ∈ back := by
      rcases hmem with hfront | rfl | hback
      · have := hsorted.2.2 n hfront m List.mem_cons_self
        omega
      · omega
      · exact hback
    refine ⟨p, ?_⟩
    rw [hsplit]
    refine List.Sublist.trans ?_ (List.sublist_append_right front _)
    exact List.Sublist.cons_cons m (List.singleton_sublist.2 hback)

/-- How a node cuts the children of its parent. -/
structure Cut (d : Document) (n p : Nat) (before after : List Nat) : Prop where
  children : d.children p = before ++ n :: after
  siblingsBefore : d.siblingsBefore n = before.reverse
  siblingsAfter : d.siblingsAfter n = after
  nodup : (before ++ n :: after).Nodup

theorem cut_of_children {n p : Nat} {before after : List Nat}
    (h : d.children p = before ++ n :: after) : d.Cut n p before after := by
  have hnodup : (before ++ n :: after).Nodup := h ▸ d.nodup_children p
  have hbefore : ∀ m ∈ before, decide (m ≠ n) = true := by
    intro m hm
    have hne := List.disjoint_of_nodup_append hnodup hm
    simpa using fun heq => hne (List.mem_cons.2 (.inl heq))
  have hparent : d.parent? n = some p := mem_children.1 (by simp [h])
  have hbrood : d.brood n = before ++ n :: after := by
    rw [brood, hparent]
    exact h
  refine ⟨h, ?_, ?_, hnodup⟩
  · rw [siblingsBefore, hbrood, List.takeWhile_append_of_pos hbefore]
    simp
  · rw [siblingsAfter, hbrood, List.dropWhile_append_of_pos hbefore]
    simp

theorem exists_cut {n p : Nat} (h : d.parent? n = some p) :
    ∃ before after, d.Cut n p before after := by
  obtain ⟨before, after, hsplit⟩ := List.append_of_mem (mem_children.2 h)
  exact ⟨before, after, cut_of_children hsplit⟩

theorem siblings_eq_nil {n : Nat} (h : d.parent? n = none) :
    d.siblingsBefore n = [] ∧ d.siblingsAfter n = [] := by
  simp [siblingsBefore, siblingsAfter, brood, h]

namespace Cut

variable {n p : Nat} {before after : List Nat}

theorem parent? (h : d.Cut n p before after) : d.parent? n = some p :=
  mem_children.1 (by simp [h.children])

theorem elementChildren (h : d.Cut n p before after) (hn : d.isElement n = true) :
    d.elementChildren p = before.filter d.isElement ++ n :: after.filter d.isElement := by
  simp [Document.elementChildren, h.children, hn]

theorem nodup_elementChildren (h : d.Cut n p before after) (hn : d.isElement n = true) :
    (before.filter d.isElement ++ n :: after.filter d.isElement).Nodup := by
  rw [← h.elementChildren hn]
  exact (d.nodup_children p).filter _

theorem pairwise (h : d.Cut n p before after) : (before ++ n :: after).Pairwise (· < ·) :=
  h.children ▸ d.pairwise_children p

theorem mem_after (h : d.Cut n p before after) {m : Nat} : m ∈ after ↔ d.Precedes n m := by
  obtain ⟨-, hafter, hbefore⟩ := List.pairwise_append.1 h.pairwise
  rw [precedes_iff, h.parent?]
  constructor
  · intro hm
    refine ⟨(List.pairwise_cons.1 hafter).1 m hm, p, rfl, mem_children.1 ?_⟩
    rw [h.children]
    exact List.mem_append_right _ (List.mem_cons_of_mem _ hm)
  · rintro ⟨hlt, q, heq, hq⟩
    obtain rfl := Option.some.inj heq
    have hm := mem_children.2 hq
    rw [h.children, List.mem_append, List.mem_cons] at hm
    rcases hm with hm | rfl | hm
    · have := hbefore m hm n List.mem_cons_self
      omega
    · omega
    · exact hm

end Cut

/-- The position of a member of a list without repetitions. -/
theorem getElem?_append_cons_iff {xs ys : List Nat} {n k : Nat} (h : (xs ++ n :: ys).Nodup) :
    (xs ++ n :: ys)[k]? = some n ↔ k = xs.length := by
  have hat : (xs ++ n :: ys)[xs.length]? = some n := by simp
  constructor
  · intro hk
    exact (List.getElem?_inj (List.getElem?_eq_some_iff.1 hk).1 h).1 (hk.trans hat.symm)
  · rintro rfl
    exact hat

/-- The position of an element among the element children, counted from the first. -/
theorem getElem?_elementChildren_iff {n k : Nat} (hn : d.isElement n = true) :
    (∃ p, (d.elementChildren p)[k]? = some n) ↔
      (d.parent? n).isSome ∧ ((d.siblingsBefore n).filter d.isElement).length = k := by
  constructor
  · rintro ⟨p, hk⟩
    have hmem := List.mem_of_getElem? hk
    have hparent := mem_children.1 (List.mem_filter.1 hmem).1
    obtain ⟨before, after, hcut⟩ := exists_cut hparent
    rw [hcut.elementChildren hn, getElem?_append_cons_iff (hcut.nodup_elementChildren hn)] at hk
    rw [hparent, hcut.siblingsBefore, List.filter_reverse, List.length_reverse]
    exact ⟨rfl, hk.symm⟩
  · rintro ⟨hsome, rfl⟩
    obtain ⟨p, hparent⟩ := Option.isSome_iff_exists.1 hsome
    obtain ⟨before, after, hcut⟩ := exists_cut hparent
    refine ⟨p, ?_⟩
    rw [hcut.elementChildren hn, getElem?_append_cons_iff (hcut.nodup_elementChildren hn),
      hcut.siblingsBefore, List.filter_reverse, List.length_reverse]

/-- The position of an element among the element children, counted from the last. -/
theorem getElem?_reverse_elementChildren_iff {n k : Nat} (hn : d.isElement n = true) :
    (∃ p, (d.elementChildren p).reverse[k]? = some n) ↔
      (d.parent? n).isSome ∧ ((d.siblingsAfter n).filter d.isElement).length = k := by
  have hreverse {p : Nat} {before after : List Nat} (hcut : d.Cut n p before after) :
      (d.elementChildren p).reverse = (after.filter d.isElement).reverse ++
        n :: (before.filter d.isElement).reverse := by
    rw [hcut.elementChildren hn]
    simp
  have hnodup {p : Nat} {before after : List Nat} (hcut : d.Cut n p before after) :
      ((after.filter d.isElement).reverse ++ n :: (before.filter d.isElement).reverse).Nodup := by
    rw [← hreverse hcut, hcut.elementChildren hn]
    exact List.nodup_reverse.2 (hcut.nodup_elementChildren hn)
  constructor
  · rintro ⟨p, hk⟩
    have hmem := List.mem_reverse.1 (List.mem_of_getElem? hk)
    have hparent := mem_children.1 (List.mem_filter.1 hmem).1
    obtain ⟨before, after, hcut⟩ := exists_cut hparent
    rw [hreverse hcut, getElem?_append_cons_iff (hnodup hcut), List.length_reverse] at hk
    rw [hparent, hcut.siblingsAfter]
    exact ⟨rfl, hk.symm⟩
  · rintro ⟨hsome, rfl⟩
    obtain ⟨p, hparent⟩ := Option.isSome_iff_exists.1 hsome
    obtain ⟨before, after, hcut⟩ := exists_cut hparent
    refine ⟨p, ?_⟩
    rw [hreverse hcut, getElem?_append_cons_iff (hnodup hcut), hcut.siblingsAfter,
      List.length_reverse]

theorem mem_siblingsAfter {m n : Nat} : m ∈ d.siblingsAfter n ↔ d.Precedes n m := by
  cases hparent : d.parent? n with
  | some p =>
    obtain ⟨before, after, hcut⟩ := exists_cut hparent
    rw [hcut.siblingsAfter, hcut.mem_after]
  | none => simp [siblings_eq_nil hparent, precedes_iff, hparent]

/-! ## Links -/

/-- Following `link` from a node leads through the nodes of a list and then ends. -/
def Follows (link : Nat → Option Nat) : Nat → List Nat → Prop
  | n, [] => link n = none
  | n, m :: ms => link n = some m ∧ Follows link m ms

section Links

variable {n p : Nat} {before after : List Nat}

theorem Cut.follows_next (h : d.Cut n p before after) : Follows d.nextSibling? n after := by
  induction after generalizing n before with
  | nil =>
    show d.nextSibling? n = none
    rw [nextSibling?, h.siblingsAfter]
    rfl
  | cons m after ih =>
    have hnext : d.children p = (before ++ [n]) ++ m :: after := by simp [h.children]
    refine ⟨?_, ih (cut_of_children hnext)⟩
    rw [nextSibling?, h.siblingsAfter]
    rfl

theorem Cut.follows_previous (h : d.Cut n p before after) :
    Follows d.previousSibling? n before.reverse := by
  induction before using List.reverseRecOn generalizing n after with
  | nil =>
    show d.previousSibling? n = none
    rw [previousSibling?, h.siblingsBefore]
    rfl
  | append_singleton before m ih =>
    have hprevious : d.children p = before ++ m :: (n :: after) := by simp [h.children]
    rw [List.reverse_append]
    refine ⟨?_, ih (cut_of_children hprevious)⟩
    rw [previousSibling?, h.siblingsBefore, List.reverse_append]
    rfl

end Links

/-- An element cuts the element children of its parent at its position there. -/
theorem exists_cut_of_getElem? {n p i : Nat} (h : (d.elementChildren p)[i]? = some n) :
    d.isElement n = true ∧ ∃ before after, d.Cut n p before after ∧
      before.filter d.isElement = (d.elementChildren p).take i ∧
      after.filter d.isElement = (d.elementChildren p).drop (i + 1) := by
  obtain ⟨hmem, hn⟩ := List.mem_filter.1 (List.mem_of_getElem? h)
  obtain ⟨before, after, hcut⟩ := exists_cut (mem_children.1 hmem)
  have hsplit := hcut.elementChildren hn
  rw [hsplit, getElem?_append_cons_iff (hcut.nodup_elementChildren hn)] at h
  subst h
  refine ⟨hn, before, after, hcut, ?_, ?_⟩
  · rw [hsplit]
    simp
  · rw [hsplit]
    simp

end TreeQuery.Document
