import Mathlib
import TreeQuery.Document.Builder
import TreeQuery.Pattern.OfText
import TreeQuery.Proofs.Matching.Steps
import TreeQuery.Proofs.Selector.Evaluation
import TreeQuery.Proofs.Token.Scan

/-!
# Selectors select what they mean

The stages of a selector are followed from left to right, from the set of input nodes to the set of
nodes that each compound and each combinator leaves. A text whose tree has a meaning of its own
compiles, is evaluated without failure, and gives the nodes that the meaning tells.
-/

set_option autoImplicit false

namespace TreeQuery

open Selector (evalStages evalAlternatives)

variable {d : Document} {P Q R : Nat → Prop}

/-! ## Where trees lead -/

theorem AlternativeTree.anyLeads_iff {as : List AlternativeTree} {first n : Nat} :
    AlternativeTree.AnyLeads d as first n ↔ ∃ a ∈ as, a.Leads d first n := by
  induction as with
  | nil => simp [AlternativeTree.AnyLeads]
  | cons a as ih => simp [AlternativeTree.AnyLeads, ih]

theorem AlternativeTree.anyLeads_uncombined {as : List AlternativeTree}
    (h : ∀ a ∈ as, ∃ c, a = .last c) {first n : Nat} :
    AlternativeTree.AnyLeads d as first n ↔ first = n ∧ AlternativeTree.AnyLeads d as n n := by
  induction as with
  | nil => simp [AlternativeTree.AnyLeads]
  | cons a as ih =>
    obtain ⟨c, rfl⟩ := h a List.mem_cons_self
    have htail := ih fun a ha => h a (List.mem_cons_of_mem _ ha)
    simp only [AlternativeTree.AnyLeads, AlternativeTree.Leads, htail]
    grind

theorem GroupTree.selects_uncombined {g : GroupTree} (h : g.Uncombined) (P : Nat → Prop) (n : Nat) :
    g.Selects d true P n ↔ P n ∧ g.Selects d true (· = n) n := by
  obtain ⟨slashed, alternatives⟩ := g
  have hleads {first : Nat} : AlternativeTree.AnyLeads d alternatives first n ↔
      first = n ∧ AlternativeTree.AnyLeads d alternatives n n :=
    AlternativeTree.anyLeads_uncombined h
  simp only [GroupTree.Selects, Bool.true_or, if_true]
  constructor
  · rintro ⟨first, hfirst, hany⟩
    obtain ⟨rfl, hany⟩ := hleads.1 hany
    exact ⟨hfirst, first, rfl, hany⟩
  · rintro ⟨hn, first, rfl, hany⟩
    exact ⟨first, hn, hany⟩

theorem CompoundTree.Describes.isElement {c : CompoundTree} {n : Nat} (h : c.Describes d n) :
    d.isElement n = true := by
  obtain ⟨head, modifiers⟩ := c
  exact h.1

theorem AlternativeTree.Leads.isElement {a : AlternativeTree} {first n : Nat}
    (h : a.Leads d first n) : d.isElement first = true := by
  cases a with
  | last c =>
    obtain ⟨rfl, hc⟩ := h
    exact hc.isElement
  | link c k rest => exact h.1.isElement

theorem AlternativeTree.AnyLeads.isElement {as : List AlternativeTree} {first n : Nat}
    (h : AlternativeTree.AnyLeads d as first n) : d.isElement first = true := by
  induction as with
  | nil => exact h.elim
  | cons a as ih =>
    rcases h with h | h
    · exact h.isElement
    · exact ih h

/-- The nodes among which the first compound of an alternative is looked for. -/
theorem Denotes.base {xs : List Place} (h : Denotes xs P) (anchored : Bool) :
    Denotes (if anchored then xs else xs.flatMap (Place.descendants d)) fun n =>
      if anchored then P n else ∃ i, P i ∧ d.isElement n = true ∧ d.Below n i := by
  cases anchored with
  | true => exact h
  | false => exact h.flatMap fun m => Step.denotes_move m .descendant

section Engine

variable [PatternEngine]

/-! ## Stages -/

/-- From the nodes that satisfy `P`, the stages come to those that satisfy `Q`. -/
def Computes (d : Document) (stages : List Selector) (P Q : Nat → Prop) : Prop :=
  ∀ xs, Denotes xs P → ∃ ys, evalStages d stages xs = .ok ys ∧ Denotes ys Q

namespace Computes

variable {stages more : List Selector}

theorem congr (h : Computes d stages P Q) (hQR : ∀ n, Q n ↔ R n) : Computes d stages P R := by
  intro xs hxs
  obtain ⟨ys, hrun, hys⟩ := h xs hxs
  exact ⟨ys, hrun, hys.congr hQR⟩

theorem nil : Computes d [] P P :=
  fun xs hxs => ⟨xs, rfl, hxs⟩

theorem append (h : Computes d stages P Q) (h' : Computes d more Q R) :
    Computes d (stages ++ more) P R := by
  intro xs hxs
  obtain ⟨ys, hrun, hys⟩ := h xs hxs
  obtain ⟨zs, hrun', hzs⟩ := h' ys hys
  refine ⟨zs, ?_, hzs⟩
  rw [Selector.evalStages_append, hrun]
  exact hrun'

theorem single {s : Selector}
    (h : ∀ xs, Denotes xs P → ∃ ys, s.eval d xs = .ok ys ∧ Denotes ys Q) :
    Computes d [s] P Q := by
  intro xs hxs
  obtain ⟨ys, hrun, hys⟩ := h xs hxs
  refine ⟨ys, ?_, hys⟩
  show s.eval d xs >>= pure = .ok ys
  rw [hrun]
  rfl

/-- A test of elements. -/
theorem keep {s : Step} {f : Place → Bool} (hs : ∀ xs, s.apply d xs = Step.keep d f xs)
    (hf : ∀ n, d.isElement n = true → (f (.node n) = true ↔ R n)) :
    Computes d [.step s] P fun n => P n ∧ d.isElement n = true ∧ R n := by
  refine single fun xs hxs => ⟨_, Selector.eval_step d s xs, ?_⟩
  rw [hs]
  refine hxs.filter fun n _ => ?_
  have helement : (Place.node n).isElement d = d.isElement n := rfl
  rw [helement, Bool.and_eq_true]
  constructor
  · rintro ⟨hn, hfn⟩
    exact ⟨hn, (hf n hn).1 hfn⟩
  · rintro ⟨hn, hr⟩
    exact ⟨hn, (hf n hn).2 hr⟩

theorem head (h : CompoundHead) :
    Computes d [.step h.step] P fun n => P n ∧ d.isElement n = true ∧ h.Describes d n := by
  cases h with
  | type ns name =>
    refine keep (fun xs => rfl) fun n hn => ?_
    simp [CompoundHead.Describes, Place.tag?, Option.any_eq_true]
  | universal ns =>
    refine keep (f := fun _ => !ns.isNamed) (fun xs => ?_) fun n hn => ?_
    · show (if ns.isNamed then [] else Step.keep d (fun _ => true) xs) = _
      cases ns.isNamed <;> simp [Step.keep]
    · simp [CompoundHead.Describes]
  | implied =>
    refine keep (f := fun _ => true) (fun xs => rfl) fun n hn => ?_
    simp [CompoundHead.Describes]

theorem combinator (k : Combinator) :
    Computes d [.step (.combinator k)] P
      fun n => ∃ m, P m ∧ d.isElement n = true ∧ k.Relates d m n :=
  single fun xs hxs =>
    ⟨_, Selector.eval_step d (.combinator k) xs, hxs.flatMap fun m => Step.denotes_move m k⟩

end Computes

/-! ## Nested groups -/

/-- On every set of nodes, the selector gives the nodes that `S` relates to the set. -/
def Selector.Realizes (d : Document) (s : Selector) (S : (Nat → Prop) → Nat → Prop) : Prop :=
  ∀ P xs, Denotes xs P → ∃ ys, s.eval d xs = .ok ys ∧ Denotes ys (S P)

theorem Selector.Realizes.has {s : Selector} {S : (Nat → Prop) → Nat → Prop}
    (h : s.Realizes d S) : Computes d [.has s] P fun n => P n ∧ ∃ m, S (· = n) m := by
  refine Computes.single fun xs hxs => ?_
  let found (p : Place) : Bool := (s.eval d [p]).toOption.any fun ys => !ys.isEmpty
  have hfound : ∀ p ∈ xs, (do return !(← s.eval d [p]).isEmpty) = Except.ok (found p) := by
    intro p hp
    obtain ⟨n, rfl, -⟩ := (hxs p).1 hp
    obtain ⟨ys, hrun, -⟩ := h (· = n) _ (Denotes.singleton n)
    simp only [found, hrun]
    rfl
  refine ⟨_, (Selector.eval_has d s xs).trans (filterM_ok hfound), hxs.filter fun n _ => ?_⟩
  obtain ⟨ys, hrun, hys⟩ := h (· = n) _ (Denotes.singleton n)
  simp only [found, hrun, Except.toOption, Option.any_some, Bool.not_eq_true',
    List.isEmpty_eq_false_iff_exists_mem]
  constructor
  · rintro ⟨p, hp⟩
    obtain ⟨m, -, hm⟩ := (hys p).1 hp
    exact ⟨m, hm⟩
  · rintro ⟨m, hm⟩
    exact ⟨.node m, (hys _).2 ⟨m, rfl, hm⟩⟩

/-- A negation may evaluate its argument on the whole set if the argument treats each node alone. -/
theorem Selector.Realizes.not {s : Selector} {S : (Nat → Prop) → Nat → Prop}
    (h : s.Realizes d S) (halone : ∀ P n, S P n ↔ P n ∧ S (· = n) n) :
    Computes d [.not s] P fun n => P n ∧ ¬ S (· = n) n := by
  refine Computes.single fun xs hxs => ?_
  obtain ⟨ys, hrun, hys⟩ := h P xs hxs
  refine ⟨without xs ys, ?_, ?_⟩
  · rw [Selector.eval_not, hrun]
    rfl
  · intro p
    rw [mem_without, hxs p, hys p]
    constructor
    · rintro ⟨⟨n, rfl, hn⟩, hexcluded⟩
      exact ⟨n, rfl, hn, fun hS => hexcluded ⟨n, rfl, (halone P n).2 ⟨hn, hS⟩⟩⟩
    · rintro ⟨n, rfl, hn, hS⟩
      refine ⟨⟨n, rfl, hn⟩, ?_⟩
      rintro ⟨m, heq, hm⟩
      obtain rfl := Place.node.inj heq
      exact hS ((halone P n).1 hm).2

/-! ## Trees -/

section Trees

variable (d : Document) (registry : Registry Place)

mutual

/-- A modifier only ever meets elements. -/
theorem modifier_computes : ∀ m : ModifierTree, m.Declarative →
    ∃ stages, m.stages registry = .ok stages ∧ ∀ P : Nat → Prop,
      (∀ n, P n → d.isElement n = true) → Computes d stages P fun n => P n ∧ m.Describes d n
  | .test test, h => by
    obtain ⟨s, f, hs, happly, hf⟩ := test.apply_step d h
    refine ⟨[.step s], ?_, fun P hP => ?_⟩
    · rw [ModifierTree.stages, hs]
      rfl
    · refine (Computes.keep happly hf).congr fun n => ?_
      constructor
      · rintro ⟨hn, -, htest⟩
        exact ⟨hn, htest⟩
      · rintro ⟨hn, htest⟩
        exact ⟨hn, hP n hn, htest⟩
  | .grouped pseudo single argument, h => by
    obtain ⟨hpseudo, hargument⟩ := h
    obtain ⟨s, hs, hrealizes⟩ := group_realizes argument hargument pseudo.anchorsArgument
    have hstages : (ModifierTree.grouped pseudo single argument).stages registry =
        .ok (Compiler.groupedSelector pseudo [s]).toList := by
      rw [ModifierTree.stages, hs]
      rfl
    rcases hpseudo with rfl | ⟨rfl, huncombined⟩
    · exact ⟨[.has s], hstages, fun P hP => hrealizes.has⟩
    · exact ⟨[.not s], hstages, fun P hP => hrealizes.not (argument.selects_uncombined huncombined)⟩

theorem modifiers_compute : ∀ ms : List ModifierTree, ModifierTree.AllDeclarative ms →
    ∃ stages, ModifierTree.listStages registry ms = .ok stages ∧ ∀ P : Nat → Prop,
      (∀ n, P n → d.isElement n = true) →
        Computes d stages P fun n => P n ∧ ModifierTree.AllDescribe d ms n
  | [], _ => ⟨[], rfl, fun P hP => Computes.nil.congr fun n => (and_iff_left trivial).symm⟩
  | m :: ms, h => by
    obtain ⟨stages, hstages, hm⟩ := modifier_computes m h.1
    obtain ⟨more, hmore, hms⟩ := modifiers_compute ms h.2
    refine ⟨stages ++ more, ?_, fun P hP => ?_⟩
    · rw [ModifierTree.listStages, hstages, hmore]
      rfl
    · refine ((hm P hP).append (hms _ fun n hn => hP n hn.1)).congr fun n => ?_
      rw [ModifierTree.AllDescribe, and_assoc]

theorem compound_computes : ∀ c : CompoundTree, c.Declarative →
    ∃ first more, c.stages registry = .ok (first :: more) ∧ ∀ P : Nat → Prop,
      Computes d (first :: more) P fun n => P n ∧ c.Describes d n
  | .mk head modifiers, h => by
    obtain ⟨stages, hstages, hmodifiers⟩ := modifiers_compute modifiers h
    refine ⟨.step head.step, stages, ?_, fun P => ?_⟩
    · rw [CompoundTree.stages, hstages]
      rfl
    · refine ((Computes.head head).append (hmodifiers _ fun n hn => hn.2.1)).congr fun n => ?_
      rw [CompoundTree.Describes, and_assoc, and_assoc]

theorem alternative_computes : ∀ a : AlternativeTree, a.Declarative →
    ∃ first more, a.stages registry = .ok (first :: more) ∧ ∀ P : Nat → Prop,
      Computes d (first :: more) P fun n => ∃ start, P start ∧ a.Leads d start n
  | .last c, h => by
    obtain ⟨first, more, hstages, hc⟩ := compound_computes c h
    refine ⟨first, more, hstages, fun P => (hc P).congr fun n => ?_⟩
    simp [AlternativeTree.Leads]
  | .link c k rest, h => by
    obtain ⟨first, more, hstages, hc⟩ := compound_computes c h.1
    obtain ⟨first', more', hstages', hrest⟩ := alternative_computes rest h.2
    refine ⟨first, more ++ .step (.combinator k) :: first' :: more', ?_, fun P => ?_⟩
    · rw [AlternativeTree.stages, hstages, hstages']
      rfl
    · refine ((hc P).append ((Computes.combinator k).append (hrest _))).congr fun n => ?_
      constructor
      · rintro ⟨next, ⟨m, ⟨hm, hdescribes⟩, -, hrelates⟩, hleads⟩
        exact ⟨m, hm, hdescribes, next, hrelates, hleads⟩
      · rintro ⟨m, hm, hdescribes, next, hrelates, hleads⟩
        exact ⟨next, ⟨m, ⟨hm, hdescribes⟩, hleads.isElement, hrelates⟩, hleads⟩

theorem alternatives_evaluate : ∀ as : List AlternativeTree, AlternativeTree.AllDeclarative as →
    ∃ stages, AlternativeTree.listStages registry as = .ok stages ∧
      ∀ (P : Nat → Prop) (xs : List Place), Denotes xs P →
        ∃ ys, evalAlternatives d (stages.filterMap Selector.chain?) xs = .ok ys ∧
          Denotes ys fun n => ∃ start, P start ∧ AlternativeTree.AnyLeads d as start n
  | [], _ => by
    refine ⟨[], rfl, fun P xs hxs => ⟨[], rfl, ?_⟩⟩
    intro p
    simp [AlternativeTree.AnyLeads]
  | a :: as, h => by
    obtain ⟨first, more, hstages, ha⟩ := alternative_computes a h.1
    obtain ⟨stages, hrest, has⟩ := alternatives_evaluate as h.2
    refine ⟨(first :: more) :: stages, ?_, fun P xs hxs => ?_⟩
    · rw [AlternativeTree.listStages, hstages, hrest]
      rfl
    · obtain ⟨ys, hrun, hys⟩ := ha P xs hxs
      obtain ⟨zs, hrun', hzs⟩ := has P xs hxs
      refine ⟨ys ++ zs, ?_, (hys.append hzs).congr fun n => ?_⟩
      · have hchain : Selector.chain? (first :: more) = some (more.foldl .andThen first) := rfl
        rw [List.filterMap_cons_some hchain, Selector.evalAlternatives_cons,
          Selector.eval_chain d hchain, hrun, hrun']
        rfl
      · simp only [AlternativeTree.AnyLeads, and_or_left, exists_or]

theorem group_realizes : ∀ g : GroupTree, g.Declarative → ∀ anchored : Bool,
    ∃ s, g.selector registry anchored = .ok s ∧ s.Realizes d (g.Selects d anchored)
  | .mk slashed alternatives, h, anchored => by
    obtain ⟨stages, hstages, halternatives⟩ := alternatives_evaluate alternatives h
    refine ⟨.group (anchored || slashed) (stages.filterMap Selector.chain?), ?_,
      fun P xs hxs => ?_⟩
    · rw [GroupTree.selector, hstages]
      rfl
    · obtain ⟨ys, hrun, hys⟩ := halternatives _ _ (Denotes.base hxs (anchored || slashed))
      refine ⟨firstOccurrences ys, ?_, ?_⟩
      · rw [Selector.eval_group, hrun]
        rfl
      · intro p
        rw [mem_firstOccurrences]
        refine (hys.congr fun n => ?_) p
        rw [GroupTree.Selects]
        cases anchored || slashed with
        | true => rfl
        | false =>
          constructor
          · rintro ⟨first, ⟨i, hi, -, hbelow⟩, hany⟩
            exact ⟨first, ⟨i, hi, hbelow⟩, hany⟩
          · rintro ⟨first, ⟨i, hi, hbelow⟩, hany⟩
            exact ⟨first, ⟨i, hi, hany.isElement, hbelow⟩, hany⟩

end

end Trees

/-! ## Main statement -/

/-- A text of a tree with a meaning of its own compiles, is evaluated without failure on all lists
of nodes, and selects the nodes to which an alternative leads: from below an input node, or from an
input node if the text starts with a slash. -/
theorem select_iff_leads (d : Document) (registry : Registry Place) {source : String}
    {tokens : List Token} {slashed : Bool} {alternatives : List AlternativeTree}
    (htokens : tokenize source = .ok tokens)
    (hwritten : (GroupTree.mk slashed alternatives).Written registry.signature? (beforeEnd tokens))
    (hmeaning : (GroupTree.mk slashed alternatives).Declarative) (input : List Nat) :
    ∃ s output, d.compile registry source = .ok s ∧ s.eval d (input.map .node) = .ok output ∧
      ∀ p, p ∈ output ↔ ∃ n, p = .node n ∧ ∃ a ∈ alternatives, ∃ first,
        (if slashed then first ∈ input else ∃ i ∈ input, d.Below first i) ∧
          a.Leads d first n := by
  obtain ⟨s, hs, hrealizes⟩ := group_realizes d registry _ hmeaning false
  obtain ⟨output, hrun, houtput⟩ := hrealizes _ _ (Denotes.map_node input)
  refine ⟨s, output, (d.compile_eq registry htokens hwritten).trans hs, hrun, ?_⟩
  refine houtput.congr fun n => ?_
  simp only [GroupTree.Selects, Bool.false_or, AlternativeTree.anyLeads_iff]
  constructor
  · rintro ⟨first, hfirst, a, ha, hleads⟩
    exact ⟨a, ha, first, hfirst, hleads⟩
  · rintro ⟨a, ha, first, hfirst, hleads⟩
    exact ⟨first, hfirst, a, ha, hleads⟩

end Engine

/-- An item in a list is selected. -/
theorem select_iff_leads_descendant :
    ∃ s output, Document.compile (.build [.element "ul", .leaf "li"]) {} "ul li" = .ok s ∧
      s.eval (.build [.element "ul", .leaf "li"]) [.node 0] = .ok output ∧
      .node 2 ∈ output := by
  have htokens : tokenize "ul li" =
      .ok [⟨.ident, "ul"⟩, ⟨.whiteSpace, " "⟩, ⟨.ident, "li"⟩, Token.endOfInput] :=
    tokenize_of_scanWithin (by cbv)
  have hname (t : Token) (ht : t.kind = .ident) :
      CompoundTree.Written ({} : Registry Place).signature? (.mk (.type .unstated t.text) []) [t] :=
    .mk (.type .unstated ht) .nil (by simp)
  have hblank : Combinator.Written .descendant [⟨.whiteSpace, " "⟩] := .blank rfl
  have hgroup := GroupTree.Written.plain
    (.link (hname ⟨.ident, "ul"⟩ rfl) hblank (.last (hname ⟨.ident, "li"⟩ rfl))) .nil
  obtain ⟨s, output, hs, hrun, houtput⟩ :=
    select_iff_leads (.build [.element "ul", .leaf "li"]) {} htokens hgroup
      ⟨⟨trivial, trivial⟩, trivial⟩ [0]
  refine ⟨s, output, hs, hrun, (houtput _).2 ⟨2, rfl, _, List.mem_cons_self, 1, ?_, ?_⟩⟩
  · exact ⟨0, List.mem_cons_self, .single rfl⟩
  · have hlower (name : String) : sameName name.toLower (Namespace.qualify name .unstated) := by
      simp [sameName, Namespace.qualify]
    exact ⟨⟨rfl, ⟨_, rfl, hlower "ul"⟩, trivial⟩, 2, .single rfl, rfl, rfl,
      ⟨_, rfl, hlower "li"⟩, trivial⟩

end TreeQuery
