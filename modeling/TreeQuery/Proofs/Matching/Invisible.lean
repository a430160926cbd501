import Mathlib.Data.List.Forall2
import Mathlib.Order.Monotone.Basic
import Mathlib.Tactic.IntervalCases
import TreeQuery.Document.Builder
import TreeQuery.Pattern.OfText
import TreeQuery.Proofs.Compile.Faults
import TreeQuery.Proofs.Compile.Nesting
import TreeQuery.Proofs.Document.SameElements
import TreeQuery.Proofs.Selector.Repetition

/-!
# Texts and comments are invisible

Two evaluations run side by side, on documents with the same elements. Their working sets stay in
correspondence position by position as long as no construct asks for texts or for children that are
no elements.
-/

set_option autoImplicit false

namespace TreeQuery

open List (Forall₂)

def Event.ElementOnly : Event → Prop
  | .containsText _ | .matchesText _ | .plain .empty | .custom .. => False
  | .grouped pseudo => pseudo = .has ∨ pseudo = .not
  | _ => True

theorem Event.ElementOnly.builtin {e : Event} (h : e.ElementOnly) : e.Builtin := by
  cases e with
  | custom name arguments => exact h
  | _ => trivial

theorem Event.ElementOnly.fault?_eq_none {e : Event} (h : e.ElementOnly) : e.fault? = none := by
  cases e with
  | grouped pseudo => rcases h with rfl | rfl <;> rfl
  | _ => rfl

/-! ## Two runs -/

/-- Both runs give related values, or fail with the same error. -/
def EndAlike {α β : Type} (R : α → β → Prop) :
    Except SelectorError α → Except SelectorError β → Prop
  | .ok a, .ok b => R a b
  | .error e, .error e' => e = e'
  | _, _ => False

section Agreement

variable {α β γ δ : Type} {R : α → β → Prop} {S : γ → δ → Prop}

theorem EndAlike.bind {x : Except SelectorError α} {y : Except SelectorError β} (h : EndAlike R x y)
    {f : α → Except SelectorError γ} {g : β → Except SelectorError δ}
    (hfg : ∀ a b, R a b → EndAlike S (f a) (g b)) : EndAlike S (x >>= f) (y >>= g) := by
  cases x with
  | error e =>
    cases y with
    | error e' => exact h
    | ok b => exact h.elim
  | ok a =>
    cases y with
    | error e' => exact h.elim
    | ok b => exact hfg a b h

theorem EndAlike.filterAuxM {f : α → Except SelectorError Bool} {g : β → Except SelectorError Bool}
    (hfg : ∀ a b, R a b → EndAlike (· = ·) (f a) (g b)) {xs kept : List α} {ys kept' : List β}
    (h : Forall₂ R xs ys) (hkept : Forall₂ R kept kept') :
    EndAlike (Forall₂ R) (List.filterAuxM f xs kept) (List.filterAuxM g ys kept') := by
  induction h generalizing kept kept' with
  | nil => exact hkept
  | cons hab _ ih =>
    refine (hfg _ _ hab).bind ?_
    rintro b _ rfl
    cases b with
    | false => exact ih hkept
    | true => exact ih (.cons hab hkept)

theorem EndAlike.filterM {f : α → Except SelectorError Bool} {g : β → Except SelectorError Bool}
    (hfg : ∀ a b, R a b → EndAlike (· = ·) (f a) (g b)) {xs : List α} {ys : List β}
    (h : Forall₂ R xs ys) : EndAlike (Forall₂ R) (xs.filterM f) (ys.filterM g) :=
  (EndAlike.filterAuxM hfg h .nil).bind fun _ _ hkept => List.rel_reverse hkept

theorem forall₂_eraseDups [BEq α] [LawfulBEq α] [BEq β] [LawfulBEq β] (hR : Relator.BiUnique R)
    {xs : List α} {ys : List β} (h : Forall₂ R xs ys) : Forall₂ R xs.eraseDups ys.eraseDups := by
  induction xs using eraseDups_induction generalizing ys with
  | nil =>
    cases h
    exact .nil
  | cons x xs ih =>
    cases h with
    | @cons _ y _ ys hxy h =>
      rw [List.eraseDups_cons, List.eraseDups_cons]
      refine .cons hxy (ih ?_)
      refine List.rel_filter ?_ h
      intro a b hab
      have hiff : a = x ↔ b = y := Relator.rel_eq hR hab hxy
      simp [hiff]

end Agreement

/-! ## Places -/

/-- An element of `d` and the element to which it corresponds. -/
def Corresponds (d : Document) (f : Nat → Nat) (p q : Place) : Prop :=
  ∃ n, d.isElement n = true ∧ p = .node n ∧ q = .node (f n)

abbrev Aligned (d : Document) (f : Nat → Nat) : List Place → List Place → Prop :=
  Forall₂ (Corresponds d f)

variable {d d' : Document} {f : Nat → Nat}

theorem aligned_map {ns : List Nat} (h : ∀ n ∈ ns, d.isElement n = true) :
    Aligned d f (ns.map .node) ((ns.map f).map .node) := by
  induction ns with
  | nil => exact .nil
  | cons n ns ih =>
    have hn := h n List.mem_cons_self
    exact .cons ⟨n, hn, rfl, rfl⟩ (ih fun m hm => h m (List.mem_cons_of_mem n hm))

theorem Aligned.exists_map {xs ys : List Place} (h : Aligned d f xs ys) :
    ∃ ns : List Nat, (∀ n ∈ ns, d.isElement n = true) ∧ xs = ns.map .node ∧
      ys = ns.map fun n => .node (f n) := by
  induction h with
  | nil => exact ⟨[], by simp, rfl, rfl⟩
  | cons hpq _ ih =>
    obtain ⟨n, hn, rfl, rfl⟩ := hpq
    obtain ⟨ns, hns, rfl, rfl⟩ := ih
    refine ⟨n :: ns, ?_, rfl, rfl⟩
    simpa using ⟨hn, hns⟩

theorem Aligned.keep {xs ys : List Place} (h : Aligned d f xs ys) {test test' : Place → Bool}
    (htest : ∀ n, d.isElement n = true → test' (.node (f n)) = test (.node n))
    (hf : ∀ n, d.isElement n = true → d'.isElement (f n) = true) :
    Aligned d f (Step.keep d test xs) (Step.keep d' test' ys) := by
  refine List.rel_filter ?_ h
  rintro p q ⟨n, hn, rfl, rfl⟩
  simp only [Place.isElement, hn, hf n hn, htest n hn, Bool.true_and]

theorem Aligned.getElem? {xs ys : List Place} (h : Aligned d f xs ys) (i : Nat) :
    Aligned d f xs[i]?.toList ys[i]?.toList := by
  have htake (zs : List Place) : zs[i]?.toList = (zs.drop i).take 1 := by
    rw [List.take_one, List.head?_drop]
  rw [htake, htake]
  exact List.forall₂_take 1 (List.forall₂_drop i h)

theorem Aligned.getLast? {xs ys : List Place} (h : Aligned d f xs ys) :
    Aligned d f xs.getLast?.toList ys.getLast?.toList := by
  have htake (zs : List Place) : zs.getLast?.toList = zs.reverse.take 1 := by
    rw [List.take_one, List.head?_reverse]
  rw [htake, htake]
  exact List.forall₂_take 1 (List.rel_reverse h)

theorem agree_ok {xs ys : List Place} (hxs : Aligned d f xs ys) :
    EndAlike (Aligned d f) (.ok xs) (.ok ys) := hxs

/-- Two runs of one selector on corresponding working sets. -/
abbrev Alike (d : Document) (f : Nat → Nat)
    (run run' : List Place → Except SelectorError (List Place)) : Prop :=
  ∀ xs ys : List Place, Aligned d f xs ys → EndAlike (Aligned d f) (run xs) (run' ys)

/-- Lists of elements that are the same in both documents. -/
theorem aligned_elements {ns ms : List Nat}
    (heq : ms.filter d'.isElement = (ns.filter d.isElement).map f) :
    Aligned d f ((ns.filter d.isElement).map .node) ((ms.filter d'.isElement).map .node) := by
  rw [heq]
  exact aligned_map fun n hn => (List.mem_filter.mp hn).2

section Elements

variable (h : d.SameElements d' f)

include h

theorem biUnique_corresponds : Relator.BiUnique (Corresponds d f) := by
  constructor
  · rintro p r q ⟨m, hm, rfl, rfl⟩ ⟨n, hn, rfl, heq⟩
    exact congrArg Place.node (h.bijOn.injOn hm hn (Place.node.inj heq))
  · rintro p q r ⟨m, hm, rfl, rfl⟩ ⟨n, hn, heq, rfl⟩
    obtain rfl := Place.node.inj heq
    rfl

theorem aligned_descendants {p q : Place} (hpq : Corresponds d f p q) :
    Aligned d f (p.descendants d) (q.descendants d') := by
  obtain ⟨n, hn, rfl, rfl⟩ := hpq
  exact aligned_elements (h.preorder_children hn)

theorem aligned_move {p q : Place} (hpq : Corresponds d f p q) (k : Combinator) :
    Aligned d f (Step.move d p k) (Step.move d' q k) := by
  cases k with
  | descendant => exact aligned_descendants h hpq
  | child =>
    obtain ⟨n, hn, rfl, rfl⟩ := hpq
    exact aligned_elements (h.elementChildren hn)
  | adjacent =>
    obtain ⟨n, hn, rfl, rfl⟩ := hpq
    exact List.forall₂_take 1 (aligned_elements (h.siblings hn).2)
  | sibling =>
    obtain ⟨n, hn, rfl, rfl⟩ := hpq
    exact aligned_elements (h.siblings hn).2

theorem aligned_parent {p q : Place} (hpq : Corresponds d f p q) :
    Aligned d f (p.parent? d).toList (q.parent? d').toList := by
  obtain ⟨n, hn, rfl, rfl⟩ := hpq
  simp only [Place.parent?, h.parent n hn]
  cases hparent : d.parent? n with
  | none => exact .nil
  | some m =>
    exact .cons ⟨m, Document.isElement_of_parent? h.childless hparent, rfl, rfl⟩ .nil

section Positions

variable {n : Nat} (hn : d.isElement n = true)

include hn

theorem isSome_parent :
    ((Place.node (f n)).parent? d').isSome = ((Place.node n).parent? d).isSome := by
  simp [Place.parent?, h.parent n hn]

theorem length_preceding_eq :
    ((Place.node (f n)).preceding d').length = ((Place.node n).preceding d).length := by
  simp [Place.preceding, (h.siblings hn).1]

theorem length_following_eq :
    ((Place.node (f n)).following d').length = ((Place.node n).following d).length := by
  simp [Place.following, (h.siblings hn).2]

theorem plainHolds_eq {pseudo : PlainPseudo} (hpseudo : pseudo ≠ .empty) :
    Step.plainHolds d' (.node (f n)) pseudo = Step.plainHolds d (.node n) pseudo := by
  have hempty {ps qs : List Place} (heq : ps.length = qs.length) : ps.isEmpty = qs.isEmpty := by
    rw [Bool.eq_iff_iff, List.isEmpty_iff_length_eq_zero, List.isEmpty_iff_length_eq_zero, heq]
  have hbefore := hempty (length_preceding_eq h hn)
  have hafter := hempty (length_following_eq h hn)
  have hparent := isSome_parent h hn
  cases pseudo with
  | empty => exact absurd rfl hpseudo
  | last => rfl
  | selectParent => rfl
  | firstChild => simp only [Step.plainHolds, hparent, hbefore]
  | lastChild => simp only [Step.plainHolds, hparent, hafter]
  | onlyChild => simp only [Step.plainHolds, hparent, hbefore, hafter]

end Positions

theorem alike_grouped {pseudo : GroupPseudo} (hpseudo : pseudo = .has ∨ pseudo = .not)
    (single : pseudo ≠ .between) {call call' : List Place → Except SelectorError (List Place)}
    (hcall : Alike d f call call') :
    Alike d f (pseudo.eval d call · single) (pseudo.eval d' call' · single) := by
  intro xs ys hxs
  rcases hpseudo with rfl | rfl
  · refine EndAlike.filterM (fun p q hpq => ?_) hxs
    refine (hcall _ _ (.cons hpq .nil)).bind fun ps qs hps => ?_
    cases hps with
    | nil => exact rfl
    | cons => exact rfl
  · refine (hcall _ _ hxs).bind fun ps qs hps => ?_
    refine agree_ok (List.rel_filter ?_ hxs)
    intro p q hpq
    have hmem : p ∈ ps ↔ q ∈ qs := List.rel_mem (biUnique_corresponds h) hpq hps
    simp [hmem]

end Elements

/-! ## Steps -/

section Engine

variable [PatternEngine]

def Step.ElementOnly : Step → Prop
  | .containsText _ | .matchesText _ | .plain .empty => False
  | _ => True

theorem Step.elementOnly_of_event {e : Event} {s : Step} (h : Step.ofEvent? e = some (.ok s))
    (he : e.ElementOnly) : s.ElementOnly := by
  cases e with
  | compareAttribute ns name comparison value =>
    have h := Option.some.inj h
    cases hvalue : ValueTest.ofComparison value comparison with
    | error err =>
      rw [hvalue] at h
      cases h
    | ok test =>
      rw [hvalue] at h
      cases h
      trivial
  | nthChild step offset =>
    have h := Option.some.inj h
    split at h <;> cases h
    trivial
  | nthLastChild step offset =>
    have h := Option.some.inj h
    split at h <;> cases h
    trivial
  | plain pseudo =>
    cases h
    cases pseudo with
    | empty => exact he.elim
    | _ => trivial
  | containsText text => exact he.elim
  | matchesText pattern => exact he.elim
  | _ =>
    cases h
    try trivial

/-- A step that looks at elements only takes corresponding working sets to corresponding ones. -/
theorem aligned_apply (h : d.SameElements d' f) {s : Step} (hs : s.ElementOnly) {xs ys : List Place}
    (hxs : Aligned d f xs ys) : Aligned d f (s.apply d xs) (s.apply d' ys) := by
  have hkeep {test test' : Place → Bool}
      (htest : ∀ n, d.isElement n = true → test' (.node (f n)) = test (.node n)) :
      Aligned d f (Step.keep d test xs) (Step.keep d' test' ys) :=
    hxs.keep htest fun n hn => h.isElement hn
  cases s with
  | type ns name =>
    refine hkeep fun n hn => ?_
    simp only [Place.tag?, h.tag n hn]
  | universal ns =>
    simp only [Step.apply]
    split
    · exact .nil
    · exact hkeep fun n hn => rfl
  | id value =>
    refine List.forall₂_take 1 (hkeep fun n hn => ?_)
    simp only [Place.attribute?, h.attributes n hn]
  | className name =>
    refine hkeep fun n hn => ?_
    simp only [Place.hasClass, Document.hasClass, h.attributes n hn]
  | hasAttribute ns name =>
    refine hkeep fun n hn => ?_
    simp only [Place.attribute?, h.attributes n hn]
  | compareAttribute ns name test =>
    refine hkeep fun n hn => ?_
    simp only [Place.attribute?, h.attributes n hn]
  | plain pseudo =>
    cases pseudo with
    | empty => exact hs.elim
    | last => exact hxs.getLast?
    | selectParent => exact List.rel_flatMap hxs fun p q hpq => aligned_parent h hpq
    | firstChild => exact hkeep fun n hn => plainHolds_eq h hn (by decide)
    | lastChild => exact hkeep fun n hn => plainHolds_eq h hn (by decide)
    | onlyChild => exact hkeep fun n hn => plainHolds_eq h hn (by decide)
  | nthChild position =>
    refine hkeep fun n hn => ?_
    simp only [isSome_parent h hn, length_preceding_eq h hn]
  | nthLastChild position =>
    refine hkeep fun n hn => ?_
    simp only [isSome_parent h hn, length_following_eq h hn]
  | index value =>
    simp only [Step.apply]
    split
    · exact hxs.getElem? value.toNat
    · exact .nil
  | combinator k => exact List.rel_flatMap hxs fun p q hpq => aligned_move h hpq k
  | containsText text => exact hs.elim
  | matchesText pattern => exact hs.elim

/-! ## Trees -/

section Trees

variable (registry : Registry Place)

mutual

theorem modifier_alike (h : d.SameElements d' f) : ∀ m : ModifierTree,
    (∀ e ∈ m.events, e.ElementOnly) →
    Alike d f (m.eval d registry) (m.eval d' registry)
  | .test test, honly => by
    intro xs ys hxs
    rw [ModifierTree.events] at honly
    rw [ModifierTree.eval, ModifierTree.eval]
    have hevent := Compiler.ofEvent?_test test
    cases hstep : test.step with
    | error e => exact rfl
    | ok s =>
      rw [hstep] at hevent
      have hs := Step.elementOnly_of_event hevent (honly _ List.mem_cons_self)
      exact aligned_apply h hs hxs
  | .grouped pseudo single argument, honly => by
    intro xs ys hxs
    rw [ModifierTree.events] at honly
    rw [ModifierTree.eval, ModifierTree.eval]
    refine alike_grouped h (honly (.grouped pseudo) (by simp)) single ?_ _ _ hxs
    exact group_alike h argument _ fun e he => honly e (by simp [he])
  | .between start stop, honly => by
    rw [ModifierTree.events] at honly
    exact absurd (honly (.grouped .between) (by simp)) (by simp [Event.ElementOnly])
  | .custom name arguments, honly => by
    rw [ModifierTree.events] at honly
    exact (honly (.custom name (arguments.map ArgumentTree.argument)) (by simp)).elim

theorem modifiers_alike (h : d.SameElements d' f) : ∀ ms : List ModifierTree,
    (∀ e ∈ ModifierTree.listEvents ms, e.ElementOnly) →
    Alike d f (ModifierTree.listEval d registry ms) (ModifierTree.listEval d' registry ms)
  | [], honly => fun xs ys hxs => hxs
  | m :: ms, honly => by
    intro xs ys hxs
    rw [ModifierTree.listEvents, List.forall_mem_append] at honly
    rw [ModifierTree.listEval, ModifierTree.listEval]
    exact (modifier_alike h m honly.1 _ _ hxs).bind fun ps qs hps =>
      modifiers_alike h ms honly.2 _ _ hps

theorem compound_alike (h : d.SameElements d' f) : ∀ c : CompoundTree,
    (∀ e ∈ c.events, e.ElementOnly) →
    Alike d f (c.eval d registry) (c.eval d' registry)
  | .mk head modifiers, honly => by
    intro xs ys hxs
    rw [CompoundTree.events, List.forall_mem_cons] at honly
    rw [CompoundTree.eval, CompoundTree.eval]
    have hhead : head.step.ElementOnly := by cases head <;> trivial
    exact modifiers_alike h modifiers honly.2 _ _ (aligned_apply h hhead hxs)

theorem alternative_alike (h : d.SameElements d' f) : ∀ a : AlternativeTree,
    (∀ e ∈ a.events, e.ElementOnly) →
    Alike d f (a.eval d registry) (a.eval d' registry)
  | .last c, honly => by
    intro xs ys hxs
    rw [AlternativeTree.events] at honly
    rw [AlternativeTree.eval, AlternativeTree.eval]
    exact compound_alike h c honly _ _ hxs
  | .link c k rest, honly => by
    intro xs ys hxs
    rw [AlternativeTree.events, List.forall_mem_append, List.forall_mem_cons] at honly
    rw [AlternativeTree.eval, AlternativeTree.eval]
    refine (compound_alike h c honly.1 _ _ hxs).bind fun ps qs hps => ?_
    exact alternative_alike h rest honly.2.2 _ _ (aligned_apply h (s := .combinator k) trivial hps)

theorem alternatives_alike (h : d.SameElements d' f) : ∀ as : List AlternativeTree,
    (∀ e ∈ AlternativeTree.listEvents as, e.ElementOnly) →
    Alike d f (AlternativeTree.listEval d registry as) (AlternativeTree.listEval d' registry as)
  | [], honly => fun xs ys _ => agree_ok .nil
  | a :: as, honly => by
    intro xs ys hxs
    rw [AlternativeTree.listEvents, List.forall_mem_append, List.forall_mem_cons] at honly
    rw [AlternativeTree.listEval, AlternativeTree.listEval]
    refine (alternative_alike h a honly.1.2 _ _ hxs).bind fun ps qs hps => ?_
    refine (alternatives_alike h as honly.2 _ _ hxs).bind fun ps' qs' hps' => ?_
    exact agree_ok (List.rel_append hps hps')

theorem group_alike (h : d.SameElements d' f) : ∀ (g : GroupTree) (anchored : Bool),
    (∀ e ∈ g.events anchored, e.ElementOnly) →
    Alike d f (g.eval d registry anchored) (g.eval d' registry anchored)
  | .mk slashed alternatives, anchored, honly => by
    intro xs ys hxs
    rw [GroupTree.events] at honly
    rw [GroupTree.eval, GroupTree.eval]
    have hbase : Aligned d f
        (if anchored || slashed then xs else xs.flatMap (Place.descendants d))
        (if anchored || slashed then ys else ys.flatMap (Place.descendants d')) := by
      split
      · exact hxs
      · exact List.rel_flatMap hxs fun p q hpq => aligned_descendants h hpq
    have honly' : ∀ e ∈ AlternativeTree.listEvents alternatives, e.ElementOnly :=
      fun e he => honly e (by simp [he])
    refine (alternatives_alike h alternatives honly' _ _ hbase).bind ?_
    intro ps qs hps
    exact agree_ok (forall₂_eraseDups (biUnique_corresponds h) hps)

end

end Trees

/-! ## Main statement -/

/-- Documents with the same elements give the same elements in the same order, whatever texts and
comments stand between them, for every text that asks for elements only. -/
theorem compile_sameElements {registry : Registry Place} {source : String} {tokens : List Token}
    {s : Selector} (h : d.SameElements d' f) (hcompile : d.compile registry source = .ok s)
    (htokens : tokenize source = .ok tokens)
    (honly : ∀ e ∈ (transcript registry.signature? tokens).1, e.ElementOnly) :
    d'.compile registry source = .ok s ∧
      ∀ input : List Nat, (∀ n ∈ input, d.isElement n = true) →
        ∃ output : List Nat, (∀ n ∈ output, d.isElement n = true) ∧
          s.eval d (input.map .node) = .ok (output.map .node) ∧
          s.eval d' (input.map fun n => .node (f n)) = .ok (output.map fun n => .node (f n)) := by
  obtain ⟨g, hspells, hg⟩ := Document.exists_spells hcompile
  obtain ⟨tokens', htokens', hwritten⟩ := id hspells
  obtain rfl := Except.ok.inj (htokens.symm.trans htokens')
  rw [transcript_ok_iff.2 ⟨g, hwritten, rfl⟩] at honly
  refine ⟨hspells.compile_eq.trans hg, ?_⟩
  intro input hinput
  have hrun := group_alike registry h g false honly _ _ (aligned_map hinput)
  rw [← group_eval g hg, ← group_eval g hg, List.map_map] at hrun
  cases heval : s.eval d (input.map .node) with
  | error err =>
    rw [group_eval g hg] at heval
    obtain ⟨e, he, hfault⟩ := group_fault g hg heval fun e he => (honly e he).builtin
    have hnone := (honly e he).fault?_eq_none
    rw [hnone] at hfault
    cases hfault
  | ok ps =>
    cases heval' : s.eval d' (input.map (Place.node ∘ f)) with
    | error err =>
      rw [heval, heval'] at hrun
      exact hrun.elim
    | ok qs =>
      rw [heval, heval'] at hrun
      obtain ⟨output, helements, rfl, rfl⟩ := Aligned.exists_map hrun
      exact ⟨output, helements, rfl, heval'⟩

end Engine

/-- The last item of a list is the last one also where a text follows it. -/
theorem compile_sameElements_item :
    let d : Document := .build [.element "ul", .leaf "li", .leaf "li"]
    let d' : Document := .build [.text "a", .element "ul", .text "b", .leaf "li", .comment "c",
      .leaf "li", .text "d"]
    d.SameElements d' (2 * ·) ∧ ∃ s, d.compile {} "li:last-child" = .ok s ∧
      s.eval d [.node 0] = .ok [.node 3] ∧ d'.compile {} "li:last-child" = .ok s ∧
      s.eval d' [.node 0] = .ok [.node 6] := by
  intro d d'
  have hmono : StrictMono (2 * · : Nat → Nat) := by
    intro m n hmn
    dsimp only
    omega
  have hsame : d.SameElements d' (2 * ·) := by
    apply Document.SameElements.of_strictMono hmono
    · decide
    · decide
    · decide
    · decide
    · decide
    · intro n hn
      have hn : n < 4 := hn
      interval_cases n <;> rfl
    · intro n hn name
      have hn : n < 4 := hn
      interval_cases n <;> rfl
  have htokens : tokenize "li:last-child" =
      .ok [⟨.ident, "li"⟩, .ofKind .colon, ⟨.ident, "last-child"⟩, .endOfInput] :=
    tokenize_of_scanWithin (by cbv)
  have hcompile : ∃ s, d.compile {} "li:last-child" = .ok s ∧
      s.eval d [.node 0] = .ok [.node 3] := by
    rw [Document.compile, Compiler.compile_of_tokenize (by decide) htokens]
    exact ⟨_, rfl, by cbv⟩
  obtain ⟨s, hs, hrun⟩ := hcompile
  have htold : (transcript ({} : Registry Place).signature?
      [⟨.ident, "li"⟩, .ofKind .colon, ⟨.ident, "last-child"⟩, .endOfInput]).1 =
      [.init, .alternative, .type .unstated "li", .plain .lastChild, .close] := by rfl
  have honly : ∀ e ∈ (transcript ({} : Registry Place).signature?
      [⟨.ident, "li"⟩, .ofKind .colon, ⟨.ident, "last-child"⟩, .endOfInput]).1,
      e.ElementOnly := by
    rw [htold]
    simp [Event.ElementOnly]
  obtain ⟨hs', hall⟩ := compile_sameElements hsame hs htokens honly
  obtain ⟨output, -, houtput, houtput'⟩ := hall [0] (by decide)
  have hthree : output = [3] := by
    have heq := Except.ok.inj (houtput.symm.trans hrun)
    exact List.map_injective_iff.mpr (fun _ _ => Place.node.inj) heq
  subst hthree
  exact ⟨hsame, s, hs, hrun, hs', houtput'⟩

end TreeQuery
