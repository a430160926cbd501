import TreeQuery.Pattern.OfText
import TreeQuery.Proofs.Compile.Faults
import TreeQuery.Proofs.Compile.Negation
import TreeQuery.Proofs.Document.SameElements
import TreeQuery.Proofs.Region.Nested

/-!
# Texts and comments as input

Each compound starts with a step that keeps elements only, a star if nothing else is written. So it
does not matter which texts and comments stand in a working set, and none come out of it again. A
stage makes elements out of elements, as long as all parents are elements.
-/

set_option autoImplicit false

namespace TreeQuery

/-- Only elements, and the root, have children. -/
abbrev Document.ElementParents (d : Document) : Prop :=
  ∀ n, d.isElement n = false → d.children n = []

/-! ## Stages -/

/-- The stage makes elements out of elements, and nothing out of nothing. -/
structure KeepsElements (d : Document)
    (run : List Place → Except SelectorError (List Place)) : Prop where
  empty : run [] = .ok []
  elements : ∀ {xs ys}, (∀ x ∈ xs, x.isElement d = true) → run xs = .ok ys →
    ∀ y ∈ ys, y.isElement d = true

/-- The stage looks at elements only, and gives elements only. -/
structure Inert (d : Document)
    (run : List Place → Except SelectorError (List Place)) : Prop where
  empty : run [] = .ok []
  filter : ∀ xs, run xs = run (xs.filter (·.isElement d))
  elements : ∀ {xs ys}, run xs = .ok ys → ∀ y ∈ ys, y.isElement d = true

section Stages

variable {d : Document} {f g : List Place → Except SelectorError (List Place)}

theorem KeepsElements.bind (hf : KeepsElements d f) (hg : KeepsElements d g) :
    KeepsElements d fun xs => f xs >>= g where
  empty := by
    show f [] >>= g = _
    rw [hf.empty]
    exact hg.empty
  elements := by
    intro xs ys hxs h
    obtain ⟨zs, hzs, h⟩ := except_bind_ok h
    exact hg.elements (hf.elements hxs hzs) h

theorem Inert.bind (hf : Inert d f) (hg : KeepsElements d g) :
    Inert d fun xs => f xs >>= g where
  empty := by
    show f [] >>= g = _
    rw [hf.empty]
    exact hg.empty
  filter := by
    intro xs
    show f xs >>= g = f (xs.filter (·.isElement d)) >>= g
    rw [← hf.filter]
  elements := by
    intro xs ys h
    obtain ⟨zs, hzs, h⟩ := except_bind_ok h
    exact hg.elements (hf.elements hzs) h

theorem Inert.keepsElements (hf : Inert d f) : KeepsElements d f :=
  ⟨hf.empty, fun _ h => hf.elements h⟩

theorem Inert.append (hf : Inert d f) (hg : Inert d g) :
    Inert d fun xs => do return (← f xs) ++ (← g xs) where
  empty := by
    simp only [hf.empty, hg.empty]
    rfl
  filter := by
    intro xs
    simp only [← hf.filter, ← hg.filter]
  elements := by
    intro xs ys h
    obtain ⟨us, hus, h⟩ := except_bind_ok h
    obtain ⟨vs, hvs, h⟩ := except_bind_ok h
    obtain rfl := Except.ok.inj h
    intro y hy
    rcases List.mem_append.mp hy with hy | hy
    · exact hf.elements hus y hy
    · exact hg.elements hvs y hy

theorem Step.keep_filter (test : Place → Bool) (xs : List Place) :
    Step.keep d test (xs.filter (·.isElement d)) = Step.keep d test xs := by
  rw [Step.keep, Step.keep, List.filter_filter]
  refine List.filter_congr fun p _ => ?_
  cases p.isElement d <;> simp

theorem mem_of_mem_filterM {α : Type} {f : α → Except SelectorError Bool} {xs ys : List α}
    (h : xs.filterM f = .ok ys) {y : α} (hy : y ∈ ys) : y ∈ xs := by
  rw [filterM_eq] at h
  obtain ⟨rs, hrs, h⟩ := except_bind_ok h
  obtain rfl := Except.ok.inj h
  obtain ⟨x, hx, hxy⟩ := mapM_ok hrs _ (List.reduceOption_mem_iff.mp hy)
  obtain ⟨b, -, hxy⟩ := except_bind_ok hxy
  cases b with
  | true =>
    obtain rfl := Option.some.inj (Except.ok.inj hxy)
    exact hx
  | false => cases Except.ok.inj hxy

theorem descendants_of_not_isElement (hleaf : d.ElementParents) {p : Place}
    (hp : p.isElement d = false) : p.descendants d = [] := by
  cases p with
  | region r => cases hp
  | node n =>
    have hnone : d.children n = [] := hleaf n hp
    rw [Place.descendants, Place.childIds, d.preorder_children, hnone]
    rfl

theorem flatMap_descendants_filter (hleaf : d.ElementParents) (xs : List Place) :
    (xs.filter (·.isElement d)).flatMap (Place.descendants d) =
      xs.flatMap (Place.descendants d) := by
  induction xs with
  | nil => rfl
  | cons x xs ih =>
    rw [List.flatMap_cons, ← ih]
    cases hx : x.isElement d with
    | true => rw [List.filter_cons_of_pos hx, List.flatMap_cons]
    | false =>
      rw [List.filter_cons_of_neg (by simp [hx]), descendants_of_not_isElement hleaf hx,
        List.nil_append]

/-- The alternatives of a group, over the working set or over what lies below it. -/
theorem Inert.group (hleaf : d.ElementParents)
    {f : List Place → Except SelectorError (List Place)} (hf : Inert d f) (anchored : Bool) :
    Inert d fun xs => do
      let base := if anchored then xs else xs.flatMap (Place.descendants d)
      return (← f base).eraseDups where
  empty := by
    cases anchored <;> simp [hf.empty]
  filter := by
    intro xs
    cases anchored with
    | true => simp only [if_true, ← hf.filter]
    | false => simp only [Bool.false_eq_true, if_false, flatMap_descendants_filter hleaf]
  elements := by
    intro xs ys h y hy
    obtain ⟨zs, hzs, h⟩ := except_bind_ok h
    obtain rfl := Except.ok.inj h
    exact hf.elements hzs y (List.mem_eraseDups.mp hy)

end Stages

section Engine

variable [PatternEngine]

/-! ## Steps -/

section Steps

variable {d : Document}

/-- The step at the start of a compound. -/
theorem CompoundHead.inert (head : CompoundHead) :
    Inert d fun xs => .ok (head.step.apply d xs) := by
  have hkeep (test : Place → Bool) : Inert d fun xs => .ok (Step.keep d test xs) := by
    refine ⟨rfl, fun xs => congrArg Except.ok (Step.keep_filter test xs).symm, ?_⟩
    intro xs ys h y hy
    obtain rfl := Except.ok.inj h
    exact (Step.mem_keep.mp hy).2.1
  have hstar (ns : Namespace) : Inert d fun xs => .ok ((Step.universal ns).apply d xs) := by
    cases hns : ns.isNamed with
    | true =>
      simp only [Step.apply, hns, if_true]
      refine ⟨rfl, fun _ => rfl, fun h y hy => ?_⟩
      obtain rfl := Except.ok.inj h
      cases hy
    | false =>
      simp only [Step.apply, hns, Bool.false_eq_true, if_false]
      exact hkeep _
  cases head with
  | type ns name => exact hkeep _
  | universal ns => exact hstar ns
  | implied => exact hstar .unstated

theorem Step.apply_nil (t : Step) : t.apply d [] = [] := by
  cases t with
  | universal ns =>
    rw [Step.apply]
    split <;> rfl
  | index value =>
    rw [Step.apply]
    split <;> rfl
  | plain pseudo => cases pseudo <;> rfl
  | _ => rfl

theorem Step.keepsElements (hleaf : d.ElementParents) (t : Step) :
    KeepsElements d fun xs => .ok (t.apply d xs) where
  empty := congrArg Except.ok t.apply_nil
  elements := by
    intro xs ys hxs h y hy
    obtain rfl := Except.ok.inj h
    have hsub (hmem : y ∈ xs) : y.isElement d = true := hxs y hmem
    cases t with
    | universal ns =>
      rw [Step.apply] at hy
      split at hy
      · cases hy
      · exact (Step.mem_keep.mp hy).2.1
    | id value => exact (Step.mem_keep.mp (List.mem_of_mem_take hy)).2.1
    | index value =>
      rw [Step.apply] at hy
      split at hy
      · exact hsub (List.mem_of_getElem? (Option.mem_toList.mp hy))
      · cases hy
    | combinator k =>
      obtain ⟨p, -, hp⟩ := List.mem_flatMap.mp hy
      exact Step.isElement_of_mem_move hp
    | plain pseudo =>
      cases pseudo with
      | last => exact hsub (List.mem_of_getLast? (Option.mem_toList.mp hy))
      | selectParent =>
        obtain ⟨p, -, hp⟩ := List.mem_flatMap.mp hy
        cases p with
        | region r => cases hp
        | node n =>
          obtain ⟨m, hm, rfl⟩ := Option.map_eq_some_iff.mp (Option.mem_toList.mp hp)
          exact Document.isElement_of_parent? hleaf hm
      | _ => exact (Step.mem_keep.mp hy).2.1
    | _ => exact (Step.mem_keep.mp hy).2.1

end Steps

/-! ## Pseudo-classes over nested groups -/

section Calls

variable {d : Document}

/-- What a region operator is handed as elements, it keeps whole or turns into regions. -/
theorem Selector.Regional.keepsElements {t : Selector} (ht : t.Regional) :
    KeepsElements d (t.eval d) where
  empty := by cases ht <;> rfl
  elements := by
    intro xs ys hxs h q hq
    obtain ⟨p, hp, out, hout, hmem⟩ := ht.exists_source h hq
    have hyields : p.Yields d q := ⟨t, ht, out, hout, hmem⟩
    rcases hyields.views with rfl | ⟨g, r, rfl, -⟩
    · exact hxs _ hp
    · rfl

/-- A negation hands the empty working set on, and so needs its argument to succeed there. -/
theorem groupedSelector_keepsElements {pseudo : GroupPseudo} (single : pseudo ≠ .between)
    {s t : Selector} (ht : Compiler.groupedSelector pseudo [s] = some t)
    (hs : s.eval d [] = .ok []) : KeepsElements d (t.eval d) := by
  cases pseudo with
  | has =>
    obtain rfl := Option.some.inj ht
    exact ⟨rfl, fun hxs h y hy => hxs y (mem_of_mem_filterM h hy)⟩
  | not =>
    obtain rfl := Option.some.inj ht
    refine ⟨Selector.eval_not_ok hs, fun {xs ys} hxs h y hy => ?_⟩
    cases hrun : s.eval d xs with
    | error e =>
      rw [Selector.eval_not_error hrun] at h
      cases h
    | ok zs =>
      rw [Selector.eval_not_ok hrun] at h
      obtain rfl := Except.ok.inj h
      exact hxs y (List.mem_of_mem_filter hy)
  | split mode =>
    obtain rfl := Option.some.inj ht
    exact (Selector.Regional.split mode s).keepsElements
  | before =>
    obtain rfl := Option.some.inj ht
    exact (Selector.Regional.before s).keepsElements
  | after =>
    obtain rfl := Option.some.inj ht
    exact (Selector.Regional.after s).keepsElements
  | between => exact absurd rfl single

end Calls

/-! ## Trees -/

section Trees

variable {d : Document} {registry : Registry Place}

/-- A modifier of one stage is evaluated as this stage is. -/
theorem ModifierTree.eval_of_stages {m : ModifierTree} {t : Selector}
    (h : m.stages registry = .ok [t]) : m.eval d registry = t.eval d := by
  funext xs
  rw [← modifier_eval m h, evalStages_singleton]

mutual

theorem modifier_keepsElements (hleaf : d.ElementParents) :
    ∀ (m : ModifierTree) {stages : List Selector},
    m.stages registry = .ok stages → (∀ e ∈ m.events, e.Builtin) →
      KeepsElements d (m.eval d registry)
  | .test test, stages, h, hbuiltin => by
    have hstages := h
    rw [ModifierTree.stages] at h
    obtain ⟨step, -, h⟩ := except_bind_ok h
    obtain rfl := Except.ok.inj h
    rw [ModifierTree.eval_of_stages hstages]
    exact step.keepsElements hleaf
  | .grouped pseudo single argument, stages, h, hbuiltin => by
    have hstages := h
    rw [ModifierTree.stages] at h
    obtain ⟨s, hs, h⟩ := except_bind_ok h
    obtain ⟨t, ht, -⟩ := eval_groupedSelector d single s
    rw [ht] at h
    obtain rfl := Except.ok.inj h
    have hargument := group_inert hleaf argument hs fun e he =>
      hbuiltin e (by simp [ModifierTree.events, he])
    rw [ModifierTree.eval_of_stages hstages]
    refine groupedSelector_keepsElements single ht ?_
    rw [group_eval argument hs]
    exact hargument.empty
  | .between start stop, stages, h, hbuiltin => by
    have hstages := h
    rw [ModifierTree.stages] at h
    obtain ⟨s, -, h⟩ := except_bind_ok h
    obtain ⟨t, -, h⟩ := except_bind_ok h
    obtain rfl := Except.ok.inj h
    rw [ModifierTree.eval_of_stages hstages]
    exact (Selector.Regional.between s t).keepsElements
  | .custom name arguments, stages, h, hbuiltin => by
    rw [ModifierTree.events] at hbuiltin
    exact (hbuiltin (.custom name (arguments.map ArgumentTree.argument)) (by simp)).elim

theorem modifiers_keepElements (hleaf : d.ElementParents) :
    ∀ (ms : List ModifierTree) {stages : List Selector},
    ModifierTree.listStages registry ms = .ok stages →
      (∀ e ∈ ModifierTree.listEvents ms, e.Builtin) →
        KeepsElements d (ModifierTree.listEval d registry ms)
  | [], stages, h, hbuiltin => ⟨rfl, fun hxs hok => by cases hok; exact hxs⟩
  | m :: ms, stages, h, hbuiltin => by
    rw [ModifierTree.listStages] at h
    obtain ⟨first, hfirst, h⟩ := except_bind_ok h
    obtain ⟨more, hmore, -⟩ := except_bind_ok h
    rw [ModifierTree.listEvents, List.forall_mem_append] at hbuiltin
    exact (modifier_keepsElements hleaf m hfirst hbuiltin.1).bind
      (modifiers_keepElements hleaf ms hmore hbuiltin.2)

theorem compound_inert (hleaf : d.ElementParents) :
    ∀ (c : CompoundTree) {stages : List Selector},
    c.stages registry = .ok stages → (∀ e ∈ c.events, e.Builtin) → Inert d (c.eval d registry)
  | .mk head modifiers, stages, h, hbuiltin => by
    rw [CompoundTree.stages] at h
    obtain ⟨more, hmore, -⟩ := except_bind_ok h
    rw [CompoundTree.events, List.forall_mem_cons] at hbuiltin
    exact head.inert.bind (modifiers_keepElements hleaf modifiers hmore hbuiltin.2)

theorem alternative_inert (hleaf : d.ElementParents) :
    ∀ (a : AlternativeTree) {stages : List Selector},
    a.stages registry = .ok stages → (∀ e ∈ a.events, e.Builtin) → Inert d (a.eval d registry)
  | .last c, stages, h, hbuiltin => compound_inert hleaf c h hbuiltin
  | .link c k rest, stages, h, hbuiltin => by
    rw [AlternativeTree.stages] at h
    obtain ⟨first, hfirst, h⟩ := except_bind_ok h
    obtain ⟨more, hmore, -⟩ := except_bind_ok h
    rw [AlternativeTree.events, List.forall_mem_append, List.forall_mem_cons] at hbuiltin
    have hrest := alternative_inert hleaf rest hmore hbuiltin.2.2
    exact (compound_inert hleaf c hfirst hbuiltin.1).bind
      ((Step.keepsElements hleaf (.combinator k)).bind hrest.keepsElements)

theorem alternatives_inert (hleaf : d.ElementParents) :
    ∀ (as : List AlternativeTree) {stages : List (List Selector)},
    AlternativeTree.listStages registry as = .ok stages →
      (∀ e ∈ AlternativeTree.listEvents as, e.Builtin) →
        Inert d (AlternativeTree.listEval d registry as)
  | [], stages, h, hbuiltin => ⟨rfl, fun _ => rfl, fun hok y hy => by cases hok; cases hy⟩
  | a :: as, stages, h, hbuiltin => by
    rw [AlternativeTree.listStages] at h
    obtain ⟨first, hfirst, h⟩ := except_bind_ok h
    obtain ⟨more, hmore, -⟩ := except_bind_ok h
    rw [AlternativeTree.listEvents, List.forall_mem_append, List.forall_mem_cons] at hbuiltin
    exact (alternative_inert hleaf a hfirst hbuiltin.1.2).append
      (alternatives_inert hleaf as hmore hbuiltin.2)

theorem group_inert (hleaf : d.ElementParents) :
    ∀ (g : GroupTree) {anchored : Bool} {s : Selector},
    g.selector registry anchored = .ok s → (∀ e ∈ g.events anchored, e.Builtin) →
      Inert d (g.eval d registry anchored)
  | .mk slashed alternatives, anchored, s, h, hbuiltin => by
    rw [GroupTree.selector] at h
    obtain ⟨stages, hstages, -⟩ := except_bind_ok h
    have hall := alternatives_inert hleaf alternatives hstages fun e he =>
      hbuiltin e (by simp [GroupTree.events, he])
    exact hall.group hleaf (anchored || slashed)

end

end Trees

/-! ## Main statement -/

theorem GroupTree.nodup_of_eval {d : Document} {registry : Registry Place} {g : GroupTree}
    {anchored : Bool} {xs ys : List Place} (h : g.eval d registry anchored xs = .ok ys) :
    ys.Nodup := by
  obtain ⟨slashed, alternatives⟩ := g
  obtain ⟨zs, -, h⟩ := except_bind_ok h
  obtain rfl := Except.ok.inj h
  exact nodup_eraseDups zs

/-- Where no text or comment has children, a text without custom selectors does not look at the
texts and comments of its working set, and gives elements and regions only, each once. Hence it
gives nothing, and does not fail, where the working set has nothing else. -/
theorem compile_inert {d d' : Document} {registry : Registry Place} {source : String}
    {tokens : List Token} {s : Selector} (hcompile : d.compile registry source = .ok s)
    (htokens : tokenize source = .ok tokens)
    (hbuiltin : ∀ e ∈ (transcript registry.signature? tokens).1, e.Builtin)
    (hleaf : ∀ n, d'.isElement n = false → d'.children n = []) (xs : List Place) :
    s.eval d' xs = s.eval d' (xs.filter (·.isElement d')) ∧
    (∀ ys, s.eval d' xs = .ok ys → (∀ y ∈ ys, y.isElement d' = true) ∧ ys.Nodup) ∧
    ((∀ x ∈ xs, x.isElement d' = false) → s.eval d' xs = .ok []) := by
  obtain ⟨g, hspells, hg⟩ := Document.exists_spells hcompile
  obtain ⟨tokens', htokens', hwritten⟩ := hspells
  obtain rfl := Except.ok.inj (htokens.symm.trans htokens')
  rw [transcript_ok_iff.2 ⟨g, hwritten, rfl⟩] at hbuiltin
  have hinert := group_inert hleaf g hg hbuiltin
  simp only [group_eval g hg]
  refine ⟨hinert.filter xs, fun ys hys => ⟨hinert.elements hys, GroupTree.nodup_of_eval hys⟩, ?_⟩
  intro hnone
  have hempty : xs.filter (·.isElement d') = [] := by
    rw [List.filter_eq_nil_iff]
    intro x hx
    simp [hnone x hx]
  rw [hinert.filter, hempty, hinert.empty]

end Engine

/-- A text and a comment stand beside the element whose children are looked for. -/
theorem compile_inert_mixed :
    let d : Document := .build [.text "x", .element "a", .comment "y", .leaf "b"]
    let tokens : List Token := [.ofKind .slash, .ofKind .star, .ofKind .greater, ⟨.ident, "b"⟩,
      .endOfInput]
    tokenize "/*>b" = .ok tokens ∧
      (∀ e ∈ (transcript (Registry.signature? (E := Place) {}) tokens).1, e.Builtin) ∧
      (∀ n, d.isElement n = false → d.children n = []) ∧
      ∃ s, d.compile {} "/*>b" = .ok s ∧ s.eval d [.node 1, .node 2, .node 3] = .ok [.node 4] ∧
        s.eval d [.node 2] = .ok [.node 4] ∧ s.eval d [.node 1, .node 3] = .ok [] := by
  intro d tokens
  have htokens : tokenize "/*>b" = .ok tokens := tokenize_of_scanWithin (by cbv)
  have htold : (transcript (Registry.signature? (E := Place) {}) tokens).1 =
      [.init, .anchor, .alternative, .universal .unstated, .combinator .child,
        .type .unstated "b", .close] := by rfl
  have hbuiltin : ∀ e ∈ (transcript (Registry.signature? (E := Place) {}) tokens).1,
      e.Builtin := by
    rw [htold]
    simp [Event.Builtin]
  have hleaf : ∀ n, d.isElement n = false → d.children n = [] := by
    intro n hn
    rcases Nat.lt_or_ge n d.size with h | h
    · have hall : ∀ n < d.size, d.isElement n = false → d.children n = [] := by decide
      exact hall n h hn
    · exact Document.children_eq_nil_of_size_le h
  have hcompile : ∃ s, d.compile {} "/*>b" = .ok s ∧ s.eval d [.node 2] = .ok [.node 4] := by
    rw [Document.compile, Compiler.compile_of_tokenize (by decide) htokens]
    exact ⟨_, rfl, by cbv⟩
  obtain ⟨s, hs, hrun⟩ := hcompile
  obtain ⟨hfilter, -, -⟩ := compile_inert hs htokens hbuiltin hleaf [.node 1, .node 2, .node 3]
  obtain ⟨-, -, hnone⟩ := compile_inert hs htokens hbuiltin hleaf [.node 1, .node 3]
  exact ⟨htokens, hbuiltin, hleaf, s, hs, hfilter.trans hrun, hrun, hnone (by decide)⟩

end TreeQuery
