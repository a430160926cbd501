import Mathlib
import TreeQuery.Document.Builder
import TreeQuery.Pattern.OfText
import TreeQuery.Proofs.Region.Slice
import TreeQuery.Proofs.Selector.Repetition
import TreeQuery.Proofs.Token.Scan

/-!
# Traversals of places

The elements below a place and its text are listed with a stack of pending nodes. Both are what the
recursion over its children gives, so that the text of a node is one piece of the text of each
ancestor, and the regions that cut a child list at its splitters have, put together, the elements
and the text of the place that is cut.
-/

set_option autoImplicit false

namespace TreeQuery

open Relation

variable {d : Document}

/-! ## Listings -/

namespace Place

/-- The node `n` is a child of the place, or stands below one. -/
def Holds (d : Document) (p : Place) (n : Nat) : Prop :=
  ∃ c ∈ p.childIds d, ReflTransGen d.ChildOf n c

/-- The nodes whose texts, with those of all below them, are the text of a place. -/
def textIds (d : Document) : Place → List Nat
  | node n => [n]
  | region r => r.children d

theorem childIds_sublist (d : Document) (p : Place) :
    (p.childIds d).Sublist (d.children p.host) := by
  cases p with
  | node n => exact List.Sublist.refl _
  | region r => exact (List.take_sublist _ _).trans (List.drop_sublist _ _)

theorem descendants_eq (d : Document) (p : Place) :
    p.descendants d = (((p.childIds d).flatMap d.subtree).filter d.isElement).map .node := by
  rw [descendants, Document.preorder_of_sublist (p.childIds_sublist d)]

theorem nodup_descendants (d : Document) (p : Place) : (p.descendants d).Nodup := by
  have hbelow : ((d.children p.host).flatMap d.subtree).Nodup := by
    have hnodup := d.nodup_subtree p.host
    rw [Document.subtree_eq, List.nodup_cons] at hnodup
    exact hnodup.2
  have hlisted := hbelow.sublist ((p.childIds_sublist d).flatMap d.subtree)
  rw [descendants_eq]
  exact (hlisted.filter _).map fun m n h => Place.node.inj h

theorem mem_descendants {p q : Place} :
    q ∈ p.descendants d ↔ ∃ n, q = .node n ∧ d.isElement n = true ∧ p.Holds d n := by
  simp only [descendants_eq, List.mem_map, List.mem_filter, List.mem_flatMap,
    Document.mem_subtree, Holds]
  constructor
  · rintro ⟨n, ⟨hbelow, hn⟩, rfl⟩
    exact ⟨n, rfl, hn, hbelow⟩
  · rintro ⟨n, rfl, hn, hbelow⟩
    exact ⟨n, ⟨hbelow, hn⟩, rfl⟩

theorem innerText_eq (d : Document) (p : Place) :
    p.innerText d = String.join (((p.textIds d).flatMap d.subtree).filterMap d.text?) := by
  cases p with
  | node n =>
    rw [textIds, List.flatMap_singleton]
    exact d.innerText_eq n
  | region r => exact Document.join_innerText (r.children d)

/-- An element has no text of its own. -/
theorem innerText_of_isElement {p : Place} (hp : p.isElement d = true) :
    p.innerText d = String.join ((p.childIds d).map d.innerText) := by
  cases p with
  | region r => rfl
  | node n =>
    have hnone : d.text? n = none := by
      have hn : d.isElement n = true := hp
      unfold Document.isElement at hn
      unfold Document.text?
      split at hn
      · next hkind => rw [hkind]
      · next hkind => rw [hkind]
      · cases hn
    show d.innerText n = _
    rw [Document.innerText_rec, hnone, Option.getD_none, String.empty_append]
    rfl

/-! ## Regions put together -/

/-- Elements that have, one after another, the children of another element. -/
theorem join_innerText {p : Place} {parts : List Place} (hp : p.isElement d = true)
    (hparts : ∀ q ∈ parts, q.isElement d = true)
    (hchildren : parts.flatMap (Place.childIds d) = p.childIds d) :
    String.join (parts.map (Place.innerText d)) = p.innerText d := by
  have htexts : ∀ qs : List Place, (∀ q ∈ qs, q.isElement d = true) →
      String.join (qs.map (Place.innerText d)) =
        String.join ((qs.flatMap (Place.childIds d)).map d.innerText) := by
    intro qs hqs
    induction qs with
    | nil => rfl
    | cons q qs ih =>
      rw [List.forall_mem_cons] at hqs
      rw [List.map_cons, String.join_cons, ih hqs.2, innerText_of_isElement hqs.1,
        List.flatMap_cons, List.map_append, String.join_append]
  rw [htexts parts hparts, hchildren, innerText_of_isElement hp]

theorem flatMap_descendants {p : Place} {parts : List Place}
    (hchildren : parts.flatMap (Place.childIds d) = p.childIds d) :
    parts.flatMap (Place.descendants d) = p.descendants d := by
  have hparts : parts.flatMap (Place.descendants d) =
      parts.flatMap fun q => (((q.childIds d).flatMap d.subtree).filter d.isElement).map .node :=
    List.flatMap_congr fun q _ => q.descendants_eq d
  rw [hparts, descendants_eq, ← hchildren, List.flatMap_assoc, List.filter_flatMap,
    List.map_flatMap]

end Place

/-! ## All elements -/

namespace Document

/-- Apart from the root, an element is a node that has a tag. -/
theorem isElement_eq_isSome_tag {n : Nat} (hn : n ≠ root) :
    d.isElement n = (d.tag? n).isSome := by
  unfold isElement tag?
  cases hkind : d.kind? n with
  | none => rfl
  | some kind =>
    cases kind with
    | root =>
      obtain ⟨node, hnode, hroot⟩ := Option.map_eq_some_iff.mp hkind
      obtain ⟨hlt, rfl⟩ := Array.getElem?_eq_some_iff.mp hnode
      exact absurd ((d.linked.rooted hlt).mp hroot) hn
    | _ => rfl

theorem tag?_root (d : Document) : d.tag? root = none := by
  have hlt : root < d.nodes.size := d.linked.nonempty
  have hkind : d.kind? root = some .root := by
    rw [kind?, Array.getElem?_eq_getElem hlt, Option.map_some, (d.linked.rooted hlt).mpr rfl]
  rw [tag?, hkind]

theorem descendants_root (d : Document) :
    (Place.node root).descendants d = d.elements.map .node := by
  rw [Place.descendants_eq, elements, preorder_singleton, subtree_eq,
    List.filter_cons_of_neg (by simp [tag?_root])]
  congr 1
  refine List.filter_congr fun n hn => isElement_eq_isSome_tag ?_
  obtain ⟨c, hc, hn⟩ := List.mem_flatMap.mp hn
  have hle := le_of_reflTransGen (mem_subtree.mp hn)
  have hlt := lt_of_mem_children hc
  omega

end Document

/-- What the walks from a place give. -/
structure Traversed (d : Document) (p : Place) : Prop where
  /-- The walk has ended when it reaches the number of nodes, and a larger bound changes nothing. -/
  ends : ∀ fuel, d.size ≤ fuel → d.walk fuel (p.childIds d) = (p.childIds d).flatMap d.subtree
  descendants : p.descendants d =
    (((p.childIds d).flatMap d.subtree).filter d.isElement).map .node
  nodup : (p.descendants d).Nodup
  mem_iff : ∀ q, q ∈ p.descendants d ↔ ∃ n, q = .node n ∧ d.isElement n = true ∧ p.Holds d n
  innerText : p.innerText d =
    String.join (((p.textIds d).flatMap d.subtree).filterMap d.text?)

theorem traversed (d : Document) (p : Place) : Traversed d p where
  ends fuel hfuel := by
    have hlength := Document.length_subtrees_le (p.childIds_sublist d)
    exact Document.walk_of_length_le (by omega)
  descendants := p.descendants_eq d
  nodup := p.nodup_descendants d
  mem_iff q := Place.mem_descendants
  innerText := p.innerText_eq d

section Engine

variable [PatternEngine]

/-- The regions before or after splitters have the children of the place that they cut. -/
theorem exists_split_regions {mode : SplitMode} (hmode : mode = .before ∨ mode = .after) {p : Place}
    {splitter : Selector} {found : List Place} (hfound : splitter.eval d [p] = .ok found)
    (hne : found ≠ []) (hchildren : ∀ q ∈ found, q ∈ p.children d) :
    ∃ regions, (Selector.split mode splitter).eval d [p] = .ok regions ∧
      (∀ q ∈ regions, q.isElement d = true) ∧
      regions.flatMap (Place.childIds d) = p.childIds d := by
  obtain ⟨runs, hsplit, hcuts⟩ := splitAt_ok mode hne hchildren
  refine ⟨runs.map fun r => p.regionOf r mode.direction?, ?_, ?_, ?_⟩
  · rw [eval_split_singleton, hfound]
    exact hsplit
  · intro q hq
    obtain ⟨r, -, rfl⟩ := List.mem_map.mp hq
    rw [Place.regionOf_eq]
    rfl
  · have hall := flatMap_children_regionOf hcuts hmode mode.direction?
    simp only [Place.children, ← List.map_flatMap] at hall
    rw [List.flatMap_map]
    exact List.map_injective_iff.mpr (fun m n h => Place.node.inj h) hall

theorem Document.selectAll_star (d : Document) : d.selectAll "*" = .ok (d.elements.map .node) := by
  have htokens : tokenize "*" = .ok [.ofKind .star, .endOfInput] :=
    tokenize_of_scanWithin (by cbv)
  have hcompile : d.compile {} "*" = .ok (.group false [.step (.universal .unstated)]) := by
    rw [compile, Compiler.compile_of_tokenize (by decide) htokens]
    rfl
  have hnodup := (Place.node root).nodup_descendants d
  have helements : ∀ q ∈ (Place.node root).descendants d, q.isElement d = true := by
    intro q hq
    obtain ⟨n, rfl, hn, -⟩ := Place.mem_descendants.mp hq
    exact hn
  rw [selectAll, hcompile]
  show (Selector.group false [.step (.universal .unstated)]).eval d [.node root] = _
  rw [Selector.eval_group_single, groupBase, Selector.eval_step]
  simp only [Bool.false_eq_true, if_false, List.flatMap_singleton]
  rw [Step.universal_elements helements, ← descendants_root]
  show Except.ok ((Place.node root).descendants d).eraseDups = _
  rw [eraseDups_of_nodup hnodup]

/-! ## Main statement -/

/-- The walks are the recursion over subtrees: they list each element below a place once and in
document order, and put the texts together in that order. A star selects all elements. The text of
a node is a piece of that of each ancestor, which hence contains what the node contains, and
regions before or after splitters have the elements and the text of the element that they cut. -/
theorem walks_by_recursion (d : Document) :
    (∀ p, Traversed d p) ∧
    (∀ n, d.subtree n = n :: (d.children n).flatMap d.subtree ∧
      d.innerText n = (d.text? n).getD "" ++ String.join ((d.children n).map d.innerText)) ∧
    d.selectAll "*" = .ok (d.elements.map .node) ∧
    (∀ n a, d.Below n a →
      (d.innerText n).toList <:+: (d.innerText a).toList ∧
      ∀ (text : String) (xs : List Place), .node n ∈ (Step.containsText text).apply d xs →
        .node a ∈ xs → d.isElement a = true → .node a ∈ (Step.containsText text).apply d xs) ∧
    ∀ mode, mode = .before ∨ mode = .after → ∀ p : Place, p.isElement d = true →
      ∀ (splitter : Selector) (found : List Place), splitter.eval d [p] = .ok found →
        found ≠ [] → (∀ q ∈ found, q ∈ p.children d) →
          ∃ regions, (Selector.split mode splitter).eval d [p] = .ok regions ∧
            String.join (regions.map (Place.innerText d)) = p.innerText d ∧
            regions.flatMap (Place.descendants d) = p.descendants d := by
  refine ⟨traversed d, fun n => ⟨d.subtree_eq n, d.innerText_rec n⟩, d.selectAll_star, ?_, ?_⟩
  · intro n a hbelow
    have hpiece := Document.innerText_isInfix hbelow.to_reflTransGen
    refine ⟨hpiece, fun text xs hn ha helement => ?_⟩
    rw [Step.apply, Step.mem_keep, occursIn_iff] at hn ⊢
    exact ⟨ha, helement, hn.2.2.trans hpiece⟩
  · intro mode hmode p hp splitter found hfound hne hchildren
    obtain ⟨regions, hsplit, helements, hall⟩ :=
      exists_split_regions hmode hfound hne hchildren
    exact ⟨regions, hsplit, Place.join_innerText hp helements hall,
      Place.flatMap_descendants hall⟩

end Engine

/-- A text may have a child, and its text is then a piece of its parent's. -/
theorem walks_by_recursion_mixed :
    let built := Document.build [.element "a", .text "x", .element "b", .text "y"]
    let d := (built.appendText 2 "z").2
    d.walk 6 [2, 3] = [2, 3].flatMap d.subtree ∧
      d.innerText 1 = "xzy" ∧
      (d.innerText 2).toList <:+: (d.innerText 1).toList ∧
      .node 1 ∈ (Step.containsText "y").apply d [.node 1, .node 3] ∧
      ∃ regions,
        (Selector.split .before (.step (.combinator .child))).eval d [.node 1] = .ok regions ∧
          String.join (regions.map (Place.innerText d)) = "xzy" ∧
          regions.flatMap (Place.descendants d) = [.node 3] := by
  intro built d
  have htext : d.innerText 1 = "xzy" := by decide +kernel
  have hdescendants : (Place.node 1).descendants d = [.node 3] := by decide +kernel
  have hchild : d.parent? 2 = some 1 ∧ d.parent? 3 = some 1 := by decide +kernel
  have hfound : (Selector.step (.combinator .child)).eval d [.node 1] = .ok [.node 3] := by
    decide +kernel
  obtain ⟨hwalks, -, -, hbelow, hregions⟩ := walks_by_recursion d
  obtain ⟨regions, hsplit, htexts, hlisted⟩ :=
    hregions .before (.inl rfl) (.node 1) (by decide) _ _ hfound (by simp) (by decide)
  exact ⟨(hwalks (.node 1)).ends 6 (by decide), htext, (hbelow 2 1 (.single hchild.1)).1,
    (hbelow 3 1 (.single hchild.2)).2 "y" _ (by decide +kernel) (by simp) (by decide),
    regions, hsplit, htexts.trans htext, hlisted.trans hdescendants⟩

end TreeQuery
