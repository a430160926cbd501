import TreeQuery.Document.Builder
import TreeQuery.Pattern.OfText
import TreeQuery.Proofs.Matching.Steps
import TreeQuery.Proofs.Selector.Evaluation

/-!
# Positions among siblings

An element is counted among its siblings by walking from it to either end. Both walks together pass
the element children of its parent, so that its two positions are those in one list, and the sibling
combinators lead to the part of that list behind it.
-/

set_option autoImplicit false

namespace TreeQuery

theorem Step.isEmpty_eq_position (xs : List Place) : xs.isEmpty = ((xs.length : Int) + 1 == 1) := by
  cases xs with
  | nil => rfl
  | cons x xs =>
    symm
    rw [List.isEmpty_cons, beq_eq_false_iff_ne, List.length_cons]
    omega

/-- A place without a parent is a region, the root, or no node of the document. -/
theorem siblings_of_orphan {d : Document} {q : Place} (h : ∀ n, q = .node n → d.parent? n = none) :
    q.parent? d = none ∧ q.preceding d = [] ∧ q.following d = [] := by
  cases q with
  | region r => exact ⟨rfl, rfl, rfl⟩
  | node n =>
    obtain ⟨hbefore, hafter⟩ := Document.siblings_eq_nil (h n rfl)
    simp [Place.parent?, h n rfl, Place.preceding, Place.following, hbefore, hafter]

section Engine

variable [PatternEngine]

namespace Step

variable {d : Document}

theorem mem_nthChild {k : Int} {xs : List Place} {q : Place} :
    q ∈ (nthChild k).apply d xs ↔ q ∈ xs ∧ q.isElement d = true ∧
      (q.parent? d).isSome = true ∧ ((q.preceding d).length : Int) + 1 = k := by
  rw [apply, mem_keep, Bool.and_eq_true, beq_iff_eq]

theorem mem_nthLastChild {k : Int} {xs : List Place} {q : Place} :
    q ∈ (nthLastChild k).apply d xs ↔ q ∈ xs ∧ q.isElement d = true ∧
      (q.parent? d).isSome = true ∧ ((q.following d).length : Int) + 1 = k := by
  rw [apply, mem_keep, Bool.and_eq_true, beq_iff_eq]

/-- Positions are counted from one. -/
theorem nthChild_eq_nil {k : Int} (hk : k < 1) (xs : List Place) :
    (nthChild k).apply d xs = [] ∧ (nthLastChild k).apply d xs = [] := by
  constructor
  · rw [List.eq_nil_iff_forall_not_mem]
    intro q hq
    obtain ⟨-, -, -, hcount⟩ := mem_nthChild.1 hq
    omega
  · rw [List.eq_nil_iff_forall_not_mem]
    intro q hq
    obtain ⟨-, -, -, hcount⟩ := mem_nthLastChild.1 hq
    omega

theorem firstChild_eq (xs : List Place) :
    (plain .firstChild).apply d xs = (nthChild 1).apply d xs := by
  simp only [apply, plainHolds, isEmpty_eq_position]

theorem lastChild_eq (xs : List Place) :
    (plain .lastChild).apply d xs = (nthLastChild 1).apply d xs := by
  simp only [apply, plainHolds, isEmpty_eq_position]

theorem onlyChild_eq (xs : List Place) : (plain .onlyChild).apply d xs =
    (plain .lastChild).apply d ((plain .firstChild).apply d xs) := by
  simp only [apply, keep, List.filter_filter]
  refine List.filter_congr fun q _ => ?_
  simp only [plainHolds]
  cases q.isElement d <;> cases (q.parent? d).isSome <;> simp [Bool.and_comm]

end Step

section Positions

variable {d : Document}

/-- What becomes of the element `n` that stands at the position `i`, counted from zero, among the
element children of `p`. -/
structure SiblingAt (d : Document) (p i n : Nat) : Prop where
  /-- The links in both directions lead over the children before and after it, and over no more. -/
  walks : ∃ before after : List Nat,
    Document.Follows d.previousSibling? n before ∧ Document.Follows d.nextSibling? n after ∧
      before.filter d.isElement = ((d.elementChildren p).take i).reverse ∧
      after.filter d.isElement = (d.elementChildren p).drop (i + 1)
  nthChild : ∀ (k : Int) (xs : List Place),
    .node n ∈ (Step.nthChild k).apply d xs ↔ .node n ∈ xs ∧ k = i + 1
  nthLastChild : ∀ (k : Int) (xs : List Place),
    .node n ∈ (Step.nthLastChild k).apply d xs ↔
      .node n ∈ xs ∧ k = (d.elementChildren p).length - i
  sibling : (Step.combinator .sibling).apply d [.node n] =
    ((d.elementChildren p).drop (i + 1)).map .node
  adjacent : (Step.combinator .adjacent).apply d [.node n] =
    (((d.elementChildren p).drop (i + 1)).take 1).map .node
  sibling_iff : ∀ j m : Nat, (d.elementChildren p)[j]? = some m →
    (.node m ∈ (Step.combinator .sibling).apply d [.node n] ↔ i < j)

theorem siblingAt {p i n : Nat} (h : (d.elementChildren p)[i]? = some n) : SiblingAt d p i n := by
  obtain ⟨hn, before, after, hcut, hbefore, hafter⟩ := Document.exists_cut_of_getElem? h
  have hlt : i < (d.elementChildren p).length := (List.getElem?_eq_some_iff.1 h).1
  have hparent : ((Place.node n).parent? d).isSome = true := by
    rw [parent?_isSome, hcut.parent?]
    rfl
  have hpreceding : ((Place.node n).preceding d).length = i := by
    rw [length_preceding, hcut.siblingsBefore, List.filter_reverse, hbefore, List.length_reverse,
      List.length_take, Nat.min_eq_left (Nat.le_of_lt hlt)]
  have hfollowing : (Place.node n).following d =
      ((d.elementChildren p).drop (i + 1)).map .node := by
    rw [Place.following, hcut.siblingsAfter, hafter]
  have hsibling : (Step.combinator .sibling).apply d [.node n] =
      ((d.elementChildren p).drop (i + 1)).map .node := by
    rw [Step.apply, List.flatMap_singleton]
    exact hfollowing
  refine ⟨⟨before.reverse, after, hcut.follows_previous, hcut.follows_next, ?_, hafter⟩, ?_, ?_,
    hsibling, ?_, ?_⟩
  · rw [List.filter_reverse, hbefore]
  · intro k xs
    rw [Step.mem_nthChild, hpreceding]
    simp [Place.isElement, hn, hparent, eq_comm]
  · intro k xs
    rw [Step.mem_nthLastChild, hfollowing, List.length_map, List.length_drop]
    have hcount : (((d.elementChildren p).length - (i + 1) : Nat) : Int) + 1 =
        (d.elementChildren p).length - i := by omega
    rw [hcount]
    simp [Place.isElement, hn, hparent, eq_comm]
  · rw [Step.apply, List.flatMap_singleton, Step.move, hfollowing, List.map_take]
  · intro j m hm
    rw [hsibling, List.mem_map]
    have hnodup : (d.elementChildren p).Nodup := (d.nodup_children p).filter _
    constructor
    · rintro ⟨m', hm', heq⟩
      obtain rfl := Place.node.inj heq
      obtain ⟨k, hk⟩ := List.mem_iff_getElem?.1 hm'
      rw [List.getElem?_drop] at hk
      have hjk := (List.getElem?_inj (List.getElem?_eq_some_iff.1 hm).1 hnodup).1 (hm.trans hk.symm)
      omega
    · intro hij
      refine ⟨m, List.mem_iff_getElem?.2 ⟨j - (i + 1), ?_⟩, rfl⟩
      rw [List.getElem?_drop, Nat.add_sub_cancel' hij]
      exact hm

/-- Positions among siblings are exact from both ends, and the siblings behind an element are the
rest of the list. The first and the last child are those at the position one. Places without a
parent have no position and no siblings. -/
theorem sibling_positions (d : Document) :
    (∀ p i n : Nat, (d.elementChildren p)[i]? = some n → SiblingAt d p i n) ∧
    (∀ xs : List Place,
      (∀ k : Int, k < 1 →
        (Step.nthChild k).apply d xs = [] ∧ (Step.nthLastChild k).apply d xs = []) ∧
      (Step.plain .firstChild).apply d xs = (Step.nthChild 1).apply d xs ∧
      (Step.plain .lastChild).apply d xs = (Step.nthLastChild 1).apply d xs ∧
      (Step.plain .onlyChild).apply d xs =
        (Step.plain .lastChild).apply d ((Step.plain .firstChild).apply d xs)) ∧
    (∀ q : Place, (∀ n, q = .node n → d.parent? n = none) →
      (∀ xs : List Place,
        (∀ k : Int, q ∉ (Step.nthChild k).apply d xs ∧ q ∉ (Step.nthLastChild k).apply d xs) ∧
        ∀ pseudo ∈ [PlainPseudo.firstChild, .lastChild, .onlyChild],
          q ∉ (Step.plain pseudo).apply d xs) ∧
      (Step.combinator .sibling).apply d [q] = [] ∧
      (Step.combinator .adjacent).apply d [q] = []) := by
  refine ⟨fun p i n => siblingAt, fun xs => ⟨fun k hk => Step.nthChild_eq_nil hk xs,
    Step.firstChild_eq xs, Step.lastChild_eq xs, Step.onlyChild_eq xs⟩, ?_⟩
  intro q hq
  obtain ⟨hparent, -, hfollowing⟩ := siblings_of_orphan hq
  have hnth (k : Int) (xs : List Place) : q ∉ (Step.nthChild k).apply d xs := by
    simp [Step.mem_nthChild, hparent]
  have hnthLast (k : Int) (xs : List Place) : q ∉ (Step.nthLastChild k).apply d xs := by
    simp [Step.mem_nthLastChild, hparent]
  refine ⟨fun xs => ⟨fun k => ⟨hnth k xs, hnthLast k xs⟩, ?_⟩, ?_, ?_⟩
  · intro pseudo hpseudo
    simp only [List.mem_cons, List.not_mem_nil, or_false] at hpseudo
    rcases hpseudo with rfl | rfl | rfl
    · rw [Step.firstChild_eq]
      exact hnth 1 xs
    · rw [Step.lastChild_eq]
      exact hnthLast 1 xs
    · rw [Step.onlyChild_eq, Step.lastChild_eq]
      exact hnthLast 1 _
  · rw [Step.apply, List.flatMap_singleton]
    exact hfollowing
  · rw [Step.apply, List.flatMap_singleton, Step.move, hfollowing]
    rfl

end Positions

end Engine

/-- Texts and comments are not counted, and regions and the root are no siblings. -/
theorem sibling_positions_mixed :
    let d : Document :=
      .build [.element "ul", .text "x", .leaf "a", .comment "y", .leaf "b", .close]
    (d.elementChildren 1)[1]? = some 5 ∧
      .node 5 ∈ (Step.nthChild 2).apply d [.node 3, .node 5] ∧
      .node 5 ∈ (Step.nthLastChild 1).apply d [.node 3, .node 5] ∧
      (Step.combinator .sibling).apply d [.node 5] = [] ∧
      .node 5 ∈ (Step.combinator .sibling).apply d [.node 3] ∧
      (Step.nthChild 0).apply d [.node 3, .node 5] = [] ∧
      d.parent? 0 = none ∧
      .node 0 ∉ (Step.plain .onlyChild).apply d [.node 0] ∧
      (Step.combinator .adjacent).apply d [.region ⟨1, 0, 2, none⟩] = [] := by
  intro d
  have hfirst : (d.elementChildren 1)[0]? = some 3 := by rfl
  have hsecond : (d.elementChildren 1)[1]? = some 5 := by rfl
  have hroot : ∀ n, Place.node 0 = .node n → d.parent? n = none := by
    rintro n ⟨⟩
    rfl
  obtain ⟨hpositions, hends, horphans⟩ := sibling_positions d
  have hb := hpositions 1 1 5 hsecond
  exact ⟨hsecond, (hb.nthChild 2 _).2 ⟨by simp, rfl⟩, (hb.nthLastChild 1 _).2 ⟨by simp, by rfl⟩,
    hb.sibling, ((hpositions 1 0 3 hfirst).sibling_iff 1 5 hsecond).2 Nat.zero_lt_one,
    ((hends _).1 0 (by decide)).1, rfl, ((horphans _ hroot).1 _).2 .onlyChild (by simp),
    (horphans (.region ⟨1, 0, 2, none⟩) (by simp)).2.2⟩

end TreeQuery
