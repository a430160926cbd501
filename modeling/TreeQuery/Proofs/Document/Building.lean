import Mathlib
import TreeQuery.Document.Builder
import TreeQuery.Proofs.Document.Preorder

/-!
# Documents under construction

A new node goes below the end of the chain of last children, so document order lists the nodes in
the order of their creation. The open elements stand on that chain at every moment, blocks that are
repeated and elements that are closed at once included.
-/

set_option autoImplicit false

namespace TreeQuery

theorem NodeKind.element_ne_root (tag : String) : NodeKind.element tag ≠ .root := by
  simp

/-! ## One more node -/

namespace Document

open Relation

variable {d : Document} {p : Nat} {kind : NodeKind} {hk : kind ≠ .root}

/-- The document with one more node, the last child of `p`. -/
def grow (d : Document) (p : Nat) (kind : NodeKind) (hk : kind ≠ .root) : Document :=
  (d.append p kind hk).2

theorem nodes_grow (hp : p < d.size) : (d.grow p kind hk).nodes = appendNode d.nodes p kind := by
  have hlt : p < d.nodes.size := hp
  rw [grow, append, dif_pos hlt]

theorem size_grow (hp : p < d.size) : (d.grow p kind hk).size = d.size + 1 := by
  rw [size, nodes_grow hp, size_appendNode, size]

theorem getElem?_grow (hp : p < d.size) (i : Nat) :
    (d.grow p kind hk).nodes[i]? =
      if i = d.size then some { kind, parent := some p }
      else if p = i then
        d.nodes[i]?.map fun n => { n with children := n.children.push d.size }
      else d.nodes[i]? := by
  rw [nodes_grow hp, appendNode, Array.getElem?_push, Array.size_modify, Array.getElem?_modify]
  rfl

/-- What does not depend on the children of a node is kept. -/
theorem map_grow {α : Type} {f : Node → α} (hf : ∀ n children, f { n with children } = f n)
    (hp : p < d.size) (i : Nat) : (d.grow p kind hk).nodes[i]?.map f =
      if i = d.size then some (f { kind, parent := some p }) else d.nodes[i]?.map f := by
  rw [getElem?_grow hp]
  split
  · rfl
  · split
    · rw [Option.map_map]
      exact congrArg (Option.map · _) (funext fun n => hf n _)
    · rfl

theorem kind?_grow (hp : p < d.size) (i : Nat) :
    (d.grow p kind hk).kind? i = if i = d.size then some kind else d.kind? i :=
  map_grow (fun _ _ => rfl) hp i

theorem parent?_grow (hp : p < d.size) (i : Nat) :
    (d.grow p kind hk).parent? i = if i = d.size then some p else d.parent? i := by
  unfold parent?
  rw [nodes_grow hp, parentIn_appendNode, size]

theorem attributes_size (d : Document) : d.attributes d.size = .empty := by
  have hnone : d.nodes[d.size]? = none := Array.getElem?_eq_none (Nat.le_refl _)
  rw [attributes, hnone]
  rfl

theorem attributes_grow (hp : p < d.size) (i : Nat) :
    (d.grow p kind hk).attributes i = d.attributes i := by
  rw [attributes, map_grow (fun _ _ => rfl) hp]
  split
  · next hi =>
    rw [hi, attributes_size]
    rfl
  · rfl

theorem children_grow (hp : p < d.size) (i : Nat) :
    (d.grow p kind hk).children i =
      if i = p then d.children i ++ [d.size] else d.children i := by
  unfold children
  rw [getElem?_grow hp]
  by_cases hi : i = p
  · subst hi
    have hlt : i < d.nodes.size := hp
    rw [if_neg (Nat.ne_of_lt hp), if_pos rfl, if_pos rfl, Array.getElem?_eq_getElem hlt]
    simp
  · rw [if_neg hi, if_neg (Ne.symm hi)]
    split
    · next hsize =>
      rw [Array.getElem?_eq_none (Nat.le_of_eq hsize.symm)]
      rfl
    · rfl

/-! ## Document order -/

theorem children_size (d : Document) : d.children d.size = [] :=
  children_eq_nil_of_size_le (Nat.le_refl _)

theorem subtree_grow_of_not_mem (hp : p < d.size) {n : Nat} (hn : p ∉ d.subtree n) :
    (d.grow p kind hk).subtree n = d.subtree n := by
  induction n using subtree.induct d with
  | case1 n ih =>
    rw [subtree_eq d n, List.mem_cons, not_or] at hn
    obtain ⟨hne, hbelow⟩ := hn
    rw [subtree_eq, subtree_eq d n, children_grow hp, if_neg (Ne.symm hne)]
    refine congrArg (n :: ·) (List.flatMap_congr fun c hc => ih c hc fun hmem => hbelow ?_)
    exact List.mem_flatMap.mpr ⟨c, hc, hmem⟩

/-- The node `c` is the last child of `p`. -/
def LastChild (d : Document) (c p : Nat) : Prop :=
  (d.children p).getLast? = some c

theorem LastChild.mem {c : Nat} (h : d.LastChild c p) : c ∈ d.children p :=
  List.mem_of_getLast? h

theorem LastChild.childOf {c : Nat} (h : d.LastChild c p) : d.ChildOf c p :=
  mem_children.mp h.mem

/-- Where a new node comes last below the last child, it comes last below the parent. -/
theorem subtree_grow_of_lastChild (hp : p < d.size) {c q : Nat} (hlast : d.LastChild c q)
    (hmem : p ∈ d.subtree c) (hc : (d.grow p kind hk).subtree c = d.subtree c ++ [d.size]) :
    (d.grow p kind hk).subtree q = d.subtree q ++ [d.size] := by
  obtain ⟨before, hchildren⟩ := List.getLast?_eq_some_iff.mp hlast
  have hlt : q < c := lt_of_mem_children hlast.mem
  have hle : c ≤ p := le_of_reflTransGen (mem_subtree.mp hmem)
  have hbefore : before.flatMap (d.grow p kind hk).subtree = before.flatMap d.subtree := by
    refine List.flatMap_congr fun b hb => subtree_grow_of_not_mem hp fun hmem' => ?_
    have hnodup := (d.nodup_subtree q)
    rw [subtree_eq, hchildren, List.flatMap_append, List.nodup_cons, List.nodup_append] at hnodup
    have hdisjoint := hnodup.2.2.2 p (List.mem_flatMap.mpr ⟨b, hb, hmem'⟩) p
    exact hdisjoint (by simpa using hmem) rfl
  rw [subtree_eq, subtree_eq d q, children_grow hp, if_neg (by omega), hchildren,
    List.flatMap_append, List.flatMap_append, hbefore]
  simp [hc]

theorem subtree_grow_self (hp : p < d.size) :
    (d.grow p kind hk).subtree p = d.subtree p ++ [d.size] := by
  have hnew : (d.grow p kind hk).subtree d.size = [d.size] := by
    rw [subtree_eq, children_grow hp, if_neg (Nat.ne_of_gt hp), children_size]
    rfl
  have hold : (d.children p).flatMap (d.grow p kind hk).subtree =
      (d.children p).flatMap d.subtree := by
    refine List.flatMap_congr fun c hc => subtree_grow_of_not_mem hp fun hmem => ?_
    have hle := le_of_reflTransGen (mem_subtree.mp hmem)
    have hlt := lt_of_mem_children hc
    omega
  rw [subtree_eq, subtree_eq d p, children_grow hp, if_pos rfl, List.flatMap_append, hold]
  simp [hnew]

/-- Along a chain of last children, a node that is added at the end comes last everywhere. -/
theorem subtree_grow_of_chain (hp : p < d.size) {q : Nat} (h : ReflTransGen d.LastChild p q) :
    (d.grow p kind hk).subtree q = d.subtree q ++ [d.size] := by
  have hmem {c : Nat} (h : ReflTransGen d.LastChild p c) : p ∈ d.subtree c :=
    mem_subtree.mpr (ReflTransGen.mono (fun _ _ => LastChild.childOf) _ _ h)
  induction h with
  | refl => exact subtree_grow_self hp
  | tail hchain hlast ih => exact subtree_grow_of_lastChild hp hlast (hmem hchain) ih

theorem subtree_congr {d' : Document} (h : ∀ i, d'.children i = d.children i) (n : Nat) :
    d'.subtree n = d.subtree n := by
  induction n using subtree.induct d with
  | case1 n ih =>
    rw [subtree_eq, subtree_eq d n, h]
    exact congrArg (n :: ·) (List.flatMap_congr ih)

/-- Nodes keep their number, kind and parent while a document grows. -/
structure ExtendedBy (d d' : Document) : Prop where
  size_le : d.size ≤ d'.size
  kind? : ∀ {i}, i < d.size → d'.kind? i = d.kind? i
  parent? : ∀ {i}, i < d.size → d'.parent? i = d.parent? i

theorem ExtendedBy.refl (d : Document) : d.ExtendedBy d :=
  ⟨Nat.le_refl _, fun _ => rfl, fun _ => rfl⟩

theorem ExtendedBy.trans {d' d'' : Document} (h : d.ExtendedBy d') (h' : d'.ExtendedBy d'') :
    d.ExtendedBy d'' where
  size_le := Nat.le_trans h.size_le h'.size_le
  kind? hi := (h'.kind? (Nat.lt_of_lt_of_le hi h.size_le)).trans (h.kind? hi)
  parent? hi := (h'.parent? (Nat.lt_of_lt_of_le hi h.size_le)).trans (h.parent? hi)

theorem extendedBy_grow (hp : p < d.size) : d.ExtendedBy (d.grow p kind hk) where
  size_le := by
    rw [size_grow hp]
    exact Nat.le_succ _
  kind? hi := by rw [kind?_grow hp, if_neg (Nat.ne_of_lt hi)]
  parent? hi := by rw [parent?_grow hp, if_neg (Nat.ne_of_lt hi)]

/-! ## Attributes -/

section Attributes

variable (node : Nat) (name value : String)

theorem getElem?_setAttribute (i : Nat) : (d.setAttribute node name value).nodes[i]? =
    if node = i then
      d.nodes[i]?.map fun n => { n with attributes := n.attributes.set name value }
    else d.nodes[i]? :=
  Array.getElem?_modify ..

theorem size_setAttribute : (d.setAttribute node name value).size = d.size :=
  Array.size_modify ..

/-- What does not depend on the attributes of a node is kept. -/
theorem map_setAttribute {α : Type} {f : Node → α}
    (hf : ∀ n attributes, f { n with attributes } = f n) (i : Nat) :
    (d.setAttribute node name value).nodes[i]?.map f = d.nodes[i]?.map f := by
  rw [getElem?_setAttribute]
  split
  · rw [Option.map_map]
    exact congrArg (Option.map · _) (funext fun n => hf n _)
  · rfl

theorem children_setAttribute (i : Nat) :
    (d.setAttribute node name value).children i = d.children i := by
  rw [children, map_setAttribute node name value (fun _ _ => rfl), children]

theorem extendedBy_setAttribute (d : Document) : d.ExtendedBy (d.setAttribute node name value) where
  size_le := Nat.le_of_eq (size_setAttribute ..).symm
  kind? _ := map_setAttribute node name value (fun _ _ => rfl) _
  parent? _ := parentIn_modifyAttributes ..

theorem attributes_setAttribute (hnode : node < d.size) (i : Nat) :
    (d.setAttribute node name value).attributes i =
      if node = i then (d.attributes i).set name value else d.attributes i := by
  unfold attributes
  rw [getElem?_setAttribute]
  split
  · next hi =>
    subst hi
    have hlt : node < d.nodes.size := hnode
    rw [Array.getElem?_eq_getElem hlt]
    rfl
  · rfl

end Attributes

end Document

/-! ## Moves -/

/-- A step that is not made of other steps. -/
inductive BuildMove where
  | element (tag : String)
  | setAttribute (name value : String)
  | text (text : String)
  | comment (text : String)
  | close

mutual

/-- The moves that a step is made of. -/
def BuildStep.moves : BuildStep → List BuildMove
  | .element tag => [.element tag]
  | .leaf tag => [.element tag, .close]
  | .setAttribute name value => [.setAttribute name value]
  | .text content => [.text content]
  | .comment content => [.comment content]
  | .close => [.close]
  | .repeated count steps => (List.replicate count (BuildStep.listMoves steps)).flatten

def BuildStep.listMoves : List BuildStep → List BuildMove
  | [] => []
  | s :: steps => s.moves ++ BuildStep.listMoves steps

end

def BuildMove.made? : BuildMove → Option NodeKind
  | .element tag => some (.element tag.toLower)
  | .text content => some (.text content)
  | .comment content => some (.comment content)
  | _ => none

namespace DocumentBuilder

def move (b : DocumentBuilder) : BuildMove → DocumentBuilder
  | .element tag => b.element tag
  | .setAttribute name value => b.setAttribute name value
  | .text text => b.text text
  | .comment text => b.comment text
  | .close => b.close

def after (moves : List BuildMove) : DocumentBuilder :=
  moves.foldl move {}

theorem foldl_flatten_replicate (moves : List BuildMove) (count : Nat) (b : DocumentBuilder) :
    (List.replicate count moves).flatten.foldl move b =
      count.repeat (fun b => moves.foldl move b) b := by
  induction count with
  | zero => rfl
  | succ count ih =>
    rw [List.replicate_succ', List.flatten_append, List.foldl_append, ih, List.flatten_singleton]
    rfl

mutual

theorem step_eq (b : DocumentBuilder) : ∀ s : BuildStep, b.step s = s.moves.foldl move b
  | .element _ | .leaf _ | .setAttribute _ _ | .text _ | .comment _ | .close => rfl
  | .repeated count steps => by
    have hrun : (fun b : DocumentBuilder => b.run steps) =
        fun b => (BuildStep.listMoves steps).foldl move b := funext fun b => run_eq b steps
    rw [step, BuildStep.moves, foldl_flatten_replicate, hrun]

theorem run_eq (b : DocumentBuilder) :
    ∀ steps : List BuildStep, b.run steps = (BuildStep.listMoves steps).foldl move b
  | [] => rfl
  | s :: steps => by
    rw [run, BuildStep.listMoves, List.foldl_append, step_eq b s, run_eq _ steps]

end

end DocumentBuilder

theorem Document.build_eq (steps : List BuildStep) :
    Document.build steps = (DocumentBuilder.after (BuildStep.listMoves steps)).document :=
  congrArg DocumentBuilder.document (DocumentBuilder.run_eq {} steps)

/-! ## The chain of open elements -/

namespace DocumentBuilder

open Document

/-- The open elements, innermost first, and the root. -/
def spine (b : DocumentBuilder) : List Nat :=
  b.openElements ++ [root]

/-- What holds at every moment: each open element is the last child of the one around it, and
document order is the order of creation. -/
structure InOrder (b : DocumentBuilder) : Prop where
  chain : b.spine.IsChain b.document.LastChild
  elements : ∀ n ∈ b.openElements, (b.document.tag? n).isSome
  order : b.document.subtree root = List.range b.document.size

variable {b : DocumentBuilder} {kind : NodeKind} {hk : kind ≠ .root}

theorem exists_spine_eq (b : DocumentBuilder) : ∃ around, b.spine = b.current :: around := by
  unfold spine current
  cases b.openElements with
  | nil => exact ⟨[], rfl⟩
  | cons n around => exact ⟨around ++ [root], rfl⟩

theorem element_eq (b : DocumentBuilder) (tag : String) : b.element tag =
    { document := b.document.grow b.current (.element tag.toLower) (NodeKind.element_ne_root _)
      openElements := b.document.size :: b.openElements } := by
  have hnode : (b.document.appendElement b.current tag).1 = b.document.size := by
    unfold appendElement append
    split <;> rfl
  rw [← hnode]
  rfl

theorem setAttribute_cases (b : DocumentBuilder) (name value : String) :
    (b.openElements = [] ∧ b.setAttribute name value = b) ∨
      ∃ node, b.openElements.head? = some node ∧ b.setAttribute name value =
        { b with document := b.document.setAttribute node name value } := by
  obtain ⟨document, openElements⟩ := b
  cases openElements with
  | nil => exact .inl ⟨rfl, rfl⟩
  | cons node around => exact .inr ⟨node, rfl, rfl⟩

namespace InOrder

theorem init : InOrder {} where
  chain := List.isChain_singleton _
  elements := by simp
  order := by
    have hchildren : Document.empty.children root = [] := rfl
    show Document.empty.subtree root = _
    rw [subtree_eq, hchildren]
    rfl

theorem lt_size (h : b.InOrder) : ∀ n ∈ b.spine, n < b.document.size := by
  intro n hn
  rcases List.mem_append.mp hn with hn | hn
  · have htag := h.elements n hn
    unfold tag? kind? at htag
    by_contra hlt
    rw [Array.getElem?_eq_none (Nat.not_lt.mp hlt)] at htag
    cases htag
  · rw [List.mem_singleton.mp hn]
    exact b.document.linked.nonempty

theorem current_lt (h : b.InOrder) : b.current < b.document.size := by
  obtain ⟨around, hspine⟩ := b.exists_spine_eq
  exact h.lt_size _ (hspine ▸ List.mem_cons_self)

/-- The chain goes up from the innermost open element. -/
theorem lt_current (h : b.InOrder) : ∀ n ∈ b.spine.tail, n < b.current := by
  obtain ⟨around, hspine⟩ := b.exists_spine_eq
  have hdescends : b.spine.IsChain (· > ·) :=
    h.chain.imp fun _ _ hlast => lt_of_mem_children hlast.mem
  rw [hspine] at hdescends ⊢
  exact (List.pairwise_cons.mp hdescends.pairwise).1

theorem reflTransGen_root (h : b.InOrder) :
    Relation.ReflTransGen b.document.LastChild b.current root := by
  obtain ⟨around, hspine⟩ := b.exists_spine_eq
  have hchain := h.chain
  rw [hspine] at hchain
  refine List.relationReflTransGen_of_exists_isChain_cons around hchain ?_
  have hlast : b.spine.getLast? = some root := List.getLast?_concat
  rw [hspine, List.getLast?_eq_some_getLast (List.cons_ne_nil _ _)] at hlast
  exact Option.some.inj hlast

/-- A new node at the end of the chain leaves the links of the chain as they are. -/
theorem chain_grow (h : b.InOrder) :
    b.spine.IsChain (b.document.grow b.current kind hk).LastChild := by
  refine h.chain.imp_of_mem_tail_imp fun c p _ hp hlast => ?_
  unfold LastChild
  rw [children_grow h.current_lt, if_neg (Nat.ne_of_lt (h.lt_current p hp))]
  exact hlast

theorem tag?_grow (h : b.InOrder) : ∀ n ∈ b.openElements,
    ((b.document.grow b.current kind hk).tag? n).isSome := by
  intro n hn
  have hlt := h.lt_size n (List.mem_append_left _ hn)
  unfold tag?
  rw [(extendedBy_grow h.current_lt).kind? hlt]
  exact h.elements n hn

theorem order_grow (h : b.InOrder) : (b.document.grow b.current kind hk).subtree root =
    List.range (b.document.grow b.current kind hk).size := by
  rw [subtree_grow_of_chain h.current_lt h.reflTransGen_root, h.order, size_grow h.current_lt,
    List.range_succ]

/-- A node that is not opened. -/
theorem grow (h : b.InOrder) :
    InOrder { b with document := b.document.grow b.current kind hk } :=
  ⟨h.chain_grow, h.tag?_grow, h.order_grow⟩

theorem element (h : b.InOrder) (tag : String) : (b.element tag).InOrder := by
  rw [element_eq]
  refine ⟨?chain, ?elements, h.order_grow⟩
  case chain =>
    obtain ⟨around, hspine⟩ := b.exists_spine_eq
    have hchain : b.spine.IsChain (b.document.grow b.current (.element tag.toLower)
        (NodeKind.element_ne_root _)).LastChild := h.chain_grow
    show (b.document.size :: b.spine).IsChain _
    rw [hspine] at hchain ⊢
    refine List.isChain_cons_cons.mpr ⟨?_, hchain⟩
    unfold LastChild
    rw [children_grow h.current_lt, if_pos rfl]
    exact List.getLast?_concat
  case elements =>
    intro n hn
    rcases List.mem_cons.mp hn with rfl | hn
    · unfold tag?
      rw [kind?_grow h.current_lt, if_pos rfl]
      rfl
    · exact h.tag?_grow n hn

theorem close (h : b.InOrder) : b.close.InOrder where
  chain := by
    have hspine : b.close.spine = b.spine ∨ b.close.spine = b.spine.tail := by
      unfold spine DocumentBuilder.close
      cases b.openElements with
      | nil => exact .inl rfl
      | cons n around => exact .inr rfl
    rcases hspine with hspine | hspine
    · rw [hspine]
      exact h.chain
    · rw [hspine]
      exact h.chain.tail
  elements n hn := h.elements n (List.mem_of_mem_tail hn)
  order := h.order

theorem setAttribute (h : b.InOrder) (name value : String) :
    (b.setAttribute name value).InOrder := by
  rcases b.setAttribute_cases name value with ⟨-, heq⟩ | ⟨node, -, heq⟩
  · rw [heq]
    exact h
  · rw [heq]
    have hkept := b.document.extendedBy_setAttribute node name value
    refine ⟨?_, fun n hn => ?_, ?_⟩
    · refine h.chain.imp fun c p hlast => ?_
      unfold LastChild
      rw [children_setAttribute]
      exact hlast
    · unfold tag?
      rw [hkept.kind? (h.lt_size n (List.mem_append_left _ hn))]
      exact h.elements n hn
    · rw [subtree_congr (children_setAttribute node name value), h.order, size_setAttribute]

theorem move (h : b.InOrder) : ∀ m : BuildMove, (b.move m).InOrder
  | .element tag => h.element tag
  | .setAttribute name value => h.setAttribute name value
  | .text _ | .comment _ => h.grow
  | .close => h.close

theorem foldl (h : b.InOrder) (moves : List BuildMove) :
    (moves.foldl DocumentBuilder.move b).InOrder := by
  induction moves generalizing b with
  | nil => exact h
  | cons m moves ih => exact ih (h.move m)

theorem after (moves : List BuildMove) : (after moves).InOrder :=
  init.foldl moves

end InOrder

/-! ## Runs -/

theorem exists_grow_of_made {m : BuildMove} (hm : m.made? = some kind) (b : DocumentBuilder) :
    ∃ hk, (b.move m).document = b.document.grow b.current kind hk := by
  cases m <;> cases hm <;> exact ⟨by simp, rfl⟩

/-- The attribute that a move sets on a node. -/
def setting? (n : Nat) (b : DocumentBuilder) : BuildMove → Option (String × String)
  | .setAttribute name value => if b.openElements.head? = some n then some (name, value) else none
  | _ => none

def settings (n : Nat) (b : DocumentBuilder) : List BuildMove → List (String × String)
  | [] => []
  | m :: moves => (setting? n b m).toList ++ settings n (b.move m) moves

def kinds (b : DocumentBuilder) : List (Option NodeKind) :=
  (List.range b.document.size).map b.document.kind?

theorem document_move_of_made?_eq_none {m : BuildMove} (hm : m.made? = none) (b : DocumentBuilder) :
    (b.move m).document = b.document ∨ ∃ node name value,
      (b.move m).document = b.document.setAttribute node name value := by
  cases m with
  | element tag => cases hm
  | text content => cases hm
  | comment content => cases hm
  | close => exact .inl rfl
  | setAttribute name value =>
    rcases b.setAttribute_cases name value with ⟨-, heq⟩ | ⟨node, -, heq⟩
    · exact .inl (congrArg document heq)
    · exact .inr ⟨node, name, value, congrArg document heq⟩

namespace InOrder

theorem extendedBy_move (h : b.InOrder) (m : BuildMove) :
    b.document.ExtendedBy (b.move m).document := by
  cases hm : m.made? with
  | some kind =>
    obtain ⟨hk, hgrow⟩ := exists_grow_of_made hm b
    rw [hgrow]
    exact extendedBy_grow h.current_lt
  | none =>
    rcases document_move_of_made?_eq_none hm b with heq | ⟨node, name, value, heq⟩
    · rw [heq]
      exact .refl _
    · rw [heq]
      exact b.document.extendedBy_setAttribute node name value

theorem extendedBy_foldl (h : b.InOrder) (moves : List BuildMove) :
    b.document.ExtendedBy (moves.foldl DocumentBuilder.move b).document := by
  induction moves generalizing b with
  | nil => exact .refl _
  | cons m moves ih => exact (h.extendedBy_move m).trans (ih (h.move m))

theorem kinds_move (h : b.InOrder) (m : BuildMove) :
    (b.move m).kinds = b.kinds ++ m.made?.toList.map some := by
  have hkept := h.extendedBy_move m
  have hold : (List.range b.document.size).map (b.move m).document.kind? = b.kinds :=
    List.map_congr_left fun i hi => hkept.kind? (List.mem_range.mp hi)
  unfold kinds
  cases hm : m.made? with
  | some kind =>
    obtain ⟨hk, hgrow⟩ := exists_grow_of_made hm b
    have hnew : (b.move m).document.kind? b.document.size = some kind := by
      rw [hgrow, kind?_grow h.current_lt, if_pos rfl]
    have hsize : (b.move m).document.size = b.document.size + 1 := by
      rw [hgrow, size_grow h.current_lt]
    rw [hsize, List.range_succ, List.map_append, hold, List.map_singleton, hnew]
    rfl
  | none =>
    have hsize : (b.move m).document.size = b.document.size := by
      rcases document_move_of_made?_eq_none hm b with heq | ⟨node, name, value, heq⟩
      · rw [heq]
      · rw [heq, size_setAttribute]
    rw [hsize, hold]
    exact (List.append_nil _).symm

theorem kinds_foldl (h : b.InOrder) (moves : List BuildMove) :
    (moves.foldl DocumentBuilder.move b).kinds =
      b.kinds ++ (moves.filterMap BuildMove.made?).map some := by
  induction moves generalizing b with
  | nil => exact (List.append_nil _).symm
  | cons m moves ih =>
    rw [List.foldl_cons, ih (h.move m), h.kinds_move, List.append_assoc, ← List.map_append]
    cases hm : m.made? <;> simp [hm]

theorem attributes_move (h : b.InOrder) (m : BuildMove) (n : Nat) :
    (b.move m).document.attributes n =
      (setting? n b m).toList.foldl (fun a e => a.set e.1 e.2) (b.document.attributes n) := by
  cases hm : m.made? with
  | some kind =>
    obtain ⟨hk, hgrow⟩ := exists_grow_of_made hm b
    have hsetting : setting? n b m = none := by
      cases m with
      | setAttribute name value => cases hm
      | _ => rfl
    rw [hgrow, attributes_grow h.current_lt, hsetting]
    rfl
  | none =>
    cases m with
    | element tag => cases hm
    | text content => cases hm
    | comment content => cases hm
    | close => rfl
    | setAttribute name value =>
      rcases b.setAttribute_cases name value with ⟨hopen, heq⟩ | ⟨node, hopen, heq⟩
      · rw [DocumentBuilder.move, heq, setting?, hopen]
        rfl
      · have hnode : node < b.document.size :=
          h.lt_size node (List.mem_append_left _ (List.mem_of_head? hopen))
        rw [DocumentBuilder.move, heq, attributes_setAttribute _ _ _ hnode, setting?, hopen]
        split
        · next hn =>
          subst hn
          rw [if_pos rfl]
          rfl
        · next hn =>
          rw [if_neg (fun heq => hn (Option.some.inj heq))]
          rfl

theorem attributes_foldl (h : b.InOrder) (moves : List BuildMove) (n : Nat) :
    (moves.foldl DocumentBuilder.move b).document.attributes n =
      (settings n b moves).foldl (fun a e => a.set e.1 e.2) (b.document.attributes n) := by
  induction moves generalizing b with
  | nil => rfl
  | cons m moves ih =>
    rw [List.foldl_cons, ih (h.move m), h.attributes_move, settings, List.foldl_append]

end InOrder

end DocumentBuilder

end TreeQuery
