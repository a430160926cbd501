import TreeQuery.Pattern.OfText
import TreeQuery.Proofs.Compile.Negation

/-!
# Pointwise texts

Most constructs look at each place of a working set by itself. Texts that are made of them alone at
top level give, on two working sets one after the other, what they give on each. What stands inside
a pseudo-class may look at whole working sets, as it is called on single places; only a negation
hands its own working set on.
-/

set_option autoImplicit false

namespace TreeQuery

/-! ## Results on lists put together -/

/-- The third result is an error if the first or the second is one, and otherwise stands in the
relation `R` to both. -/
def Joins {α : Type} (R : α → α → α → Prop) :
    Except SelectorError α → Except SelectorError α → Except SelectorError α → Prop
  | .ok a, .ok b, z => ∃ c, z = .ok c ∧ R a b c
  | _, _, z => ∃ e, z = .error e

namespace Joins

variable {α β : Type} {R : α → α → α → Prop} {S : β → β → β → Prop}
  {x y z : Except SelectorError α}

theorem of_errors (x : Except SelectorError α) (e e' : SelectorError) :
    Joins R x (.error e) (.error e') := by
  cases x <;> exact ⟨e', rfl⟩

theorem bind (h : Joins R x y z) {f g k : α → Except SelectorError β}
    (hfg : ∀ a b c, R a b c → Joins S (f a) (g b) (k c)) :
    Joins S (x >>= f) (y >>= g) (z >>= k) := by
  cases x with
  | error e =>
    obtain ⟨e', rfl⟩ := h
    exact ⟨e', rfl⟩
  | ok a =>
    cases y with
    | error e =>
      obtain ⟨e', rfl⟩ := h
      exact of_errors (f a) e e'
    | ok b =>
      obtain ⟨c, rfl, hc⟩ := h
      exact hfg a b c hc

theorem of_seq (op : α → α → α) (h : z = do return op (← x) (← y)) :
    Joins (fun a b c => c = op a b) x y z := by
  subst h
  cases x with
  | error e => exact ⟨e, rfl⟩
  | ok a =>
    cases y with
    | error e => exact ⟨e, rfl⟩
    | ok b => exact ⟨_, rfl, rfl⟩

theorem error_iff (h : Joins R x y z) :
    (∃ e, z = .error e) ↔ (∃ e, x = .error e) ∨ ∃ e, y = .error e := by
  cases x with
  | error e => exact ⟨fun _ => .inl ⟨e, rfl⟩, fun _ => h⟩
  | ok a =>
    cases y with
    | error e => exact ⟨fun _ => .inr ⟨e, rfl⟩, fun _ => h⟩
    | ok b =>
      obtain ⟨c, rfl, -⟩ := h
      simp

theorem exists_ok {a b : α} (h : Joins R (.ok a) (.ok b) z) : ∃ c, z = .ok c ∧ R a b c := h

end Joins

/-- The stage gives on two lists put together what it gives on each, put together. -/
def Additive (run : List Place → Except SelectorError (List Place)) : Prop :=
  ∀ xs ys, Joins (fun us vs ws => ws = us ++ vs) (run xs) (run ys) (run (xs ++ ys))

namespace Additive

variable {f g : List Place → Except SelectorError (List Place)}

theorem bind (hf : Additive f) (hg : Additive g) : Additive fun xs => f xs >>= g := by
  intro xs ys
  refine (hf xs ys).bind ?_
  rintro us vs _ rfl
  exact hg us vs

theorem error (e : SelectorError) : Additive fun _ => .error e :=
  fun _ _ => ⟨e, rfl⟩

theorem flatMap (f : Place → List Place) : Additive fun xs => .ok (xs.flatMap f) :=
  fun _ _ => ⟨_, rfl, List.flatMap_append⟩

theorem filter (p : Place → Bool) : Additive fun xs => .ok (xs.filter p) :=
  fun _ _ => ⟨_, rfl, List.filter_append ..⟩

/-- Each place is answered by itself, and the answers are put together. -/
theorem mapM {α : Type} (f : Place → Except SelectorError α) (op : List α → List Place)
    (hop : ∀ as bs, op (as ++ bs) = op as ++ op bs) :
    Additive fun xs => do return op (← xs.mapM f) := by
  intro xs ys
  have hanswers : Joins (fun as bs cs => cs = as ++ bs) (xs.mapM f) (ys.mapM f)
      ((xs ++ ys).mapM f) := .of_seq _ List.mapM_append
  refine hanswers.bind ?_
  rintro as bs _ rfl
  exact ⟨_, rfl, hop as bs⟩

theorem filterM (f : Place → Except SelectorError Bool) : Additive fun xs => xs.filterM f := by
  have hmapM := mapM (fun x => do return if ← f x then some x else none) _ List.reduceOption_append
  simpa only [filterM_eq] using hmapM

end Additive

/-! ## Calls that test -/

/-- The call fails on every working set, or gives the members that pass a test, in some order and
perhaps repeated. -/
def Tests (call : List Place → Except SelectorError (List Place)) : Prop :=
  (∃ e, ∀ xs, call xs = .error e) ∨
    ∃ p : Place → Bool, ∀ xs, ∃ ys, call xs = .ok ys ∧ ∀ x, x ∈ ys ↔ x ∈ xs ∧ p x = true

namespace Tests

variable {f g : List Place → Except SelectorError (List Place)}

theorem filter (p : Place → Bool) : Tests fun xs => .ok (xs.filter p) :=
  .inr ⟨p, fun _ => ⟨_, rfl, fun _ => List.mem_filter⟩⟩

theorem bind (hf : Tests f) (hg : Tests g) : Tests fun xs => f xs >>= g := by
  rcases hf with ⟨e, hf⟩ | ⟨p, hf⟩
  · simp only [hf]
    exact .inl ⟨e, fun _ => rfl⟩
  · rcases hg with ⟨e, hg⟩ | ⟨q, hg⟩
    · refine .inl ⟨e, fun xs => ?_⟩
      obtain ⟨ys, hys, -⟩ := hf xs
      simp only [hys]
      exact hg ys
    · refine .inr ⟨fun x => p x && q x, fun xs => ?_⟩
      obtain ⟨ys, hys, hmem⟩ := hf xs
      obtain ⟨zs, hzs, hmem'⟩ := hg ys
      simp only [hys]
      refine ⟨zs, hzs, fun x => ?_⟩
      rw [hmem', hmem, and_assoc, Bool.and_eq_true]

theorem append (hf : Tests f) (hg : Tests g) : Tests fun xs => do return (← f xs) ++ (← g xs) := by
  rcases hf with ⟨e, hf⟩ | ⟨p, hf⟩
  · simp only [hf]
    exact .inl ⟨e, fun _ => rfl⟩
  · rcases hg with ⟨e, hg⟩ | ⟨q, hg⟩
    · refine .inl ⟨e, fun xs => ?_⟩
      obtain ⟨ys, hys, -⟩ := hf xs
      simp only [hys, hg]
      rfl
    · refine .inr ⟨fun x => p x || q x, fun xs => ?_⟩
      obtain ⟨ys, hys, hmem⟩ := hf xs
      obtain ⟨zs, hzs, hmem'⟩ := hg xs
      simp only [hys, hzs]
      refine ⟨ys ++ zs, rfl, fun x => ?_⟩
      rw [List.mem_append, hmem, hmem', ← and_or_left, Bool.or_eq_true]

theorem eraseDups (hf : Tests f) : Tests fun xs => do return (← f xs).eraseDups :=
  hf.bind (.inr ⟨fun _ => true, fun _ => ⟨_, rfl, by simp⟩⟩)

end Tests

section Calls

variable (d : Document) {call last : List Place → Except SelectorError (List Place)}

/-- A negation is additive when its argument tests each member by itself. -/
theorem additive_not (h : Tests call) (single : GroupPseudo.not ≠ .between) :
    Additive fun xs => GroupPseudo.not.eval d call xs single := by
  rcases h with ⟨e, hcall⟩ | ⟨p, hcall⟩
  · simp only [GroupPseudo.eval, hcall]
    exact .error e
  · have hkept : ∀ xs, GroupPseudo.not.eval d call xs single = .ok (xs.filter fun x => !p x) := by
      intro xs
      obtain ⟨ys, hys, hmem⟩ := hcall xs
      rw [GroupPseudo.eval, hys]
      show Except.ok (xs.filter fun x => x ∉ ys) = _
      congr 1
      refine List.filter_congr fun x hx => ?_
      simp [hmem, hx]
    simp only [hkept]
    exact .filter _

/-- The other pseudo-classes call their arguments on each member alone. -/
theorem additive_grouped (pseudo : GroupPseudo) (hnot : pseudo ≠ .not)
    (single : pseudo ≠ .between) : Additive fun xs => pseudo.eval d call xs single := by
  cases pseudo with
  | has => exact .filterM _
  | not => exact absurd rfl hnot
  | split mode => exact .mapM _ _ fun _ _ => List.flatten_append
  | before => exact .mapM _ _ List.reduceOption_append
  | after => exact .mapM _ _ List.reduceOption_append
  | between => exact absurd rfl single

theorem additive_between : Additive (evalBetween d call last) :=
  .mapM _ _ List.reduceOption_append

/-- What a group is applied to on lists put together. -/
theorem groupBase_append (anchored : Bool) (xs ys : List Place) :
    groupBase d anchored (xs ++ ys) = groupBase d anchored xs ++ groupBase d anchored ys := by
  unfold groupBase
  split
  · rfl
  · exact List.flatMap_append

variable [PatternEngine]

theorem additive_apply {t : Step} (h : t.elementwise = true ∨ t = .plain .selectParent ∨
    ∃ k, t = .combinator k) : Additive fun xs => .ok (t.apply d xs) := by
  rcases h with h | rfl | ⟨k, rfl⟩
  · obtain ⟨p, hp⟩ := Step.exists_filter d h
    simp only [hp]
    exact .filter p
  · exact .flatMap _
  · exact .flatMap _

end Calls

section Engine

variable [PatternEngine]

/-! ## Trees -/

def SimpleTest.Elementwise : SimpleTest → Prop
  | id _ | index _ | plain .last | plain .selectParent => False
  | _ => True

def ModifierTree.Elementwise : ModifierTree → Prop
  | .test t => t.Elementwise
  | _ => False

def CompoundTree.Elementwise : CompoundTree → Prop
  | .mk _ modifiers => ∀ m ∈ modifiers, m.Elementwise

def GroupTree.Elementwise : GroupTree → Prop
  | .mk _ alternatives => ∀ a ∈ alternatives, ∃ c : CompoundTree, a = .last c ∧ c.Elementwise

/-- The modifier looks at each place of its working set by itself. -/
def ModifierTree.Pointwise : ModifierTree → Prop
  | .test t => t.Elementwise ∨ t = .plain .selectParent
  | .grouped .not _ argument => argument.Elementwise
  | .grouped .. | .between .. => True
  | .custom .. => False

def CompoundTree.Pointwise : CompoundTree → Prop
  | .mk _ modifiers => ∀ m ∈ modifiers, m.Pointwise

def AlternativeTree.Pointwise : AlternativeTree → Prop
  | .last c => c.Pointwise
  | .link c _ rest => c.Pointwise ∧ rest.Pointwise

/-- All that stands at top level looks at each place of its working set by itself. -/
def GroupTree.Pointwise : GroupTree → Prop
  | .mk _ alternatives => ∀ a ∈ alternatives, a.Pointwise

theorem CompoundHead.elementwise_step (head : CompoundHead) : head.step.elementwise = true := by
  cases head <;> rfl

theorem SimpleTest.Elementwise.step {test : SimpleTest} (h : test.Elementwise) {t : Step}
    (ht : test.step = .ok t) : t.elementwise = true := by
  cases test with
  | compareAttribute ns name comparison value =>
    rw [SimpleTest.step] at ht
    cases hvalue : ValueTest.ofComparison value comparison with
    | error e =>
      rw [hvalue] at ht
      cases ht
    | ok v =>
      rw [hvalue] at ht
      cases ht
      rfl
  | plain pseudo =>
    cases ht
    cases pseudo with
    | last | selectParent => exact h.elim
    | _ => rfl
  | matchesText text =>
    rw [SimpleTest.step] at ht
    cases hpattern : Pattern.ofText text with
    | error e =>
      rw [hpattern] at ht
      cases ht
    | ok pattern =>
      rw [hpattern] at ht
      cases ht
      rfl
  | id value => exact h.elim
  | index value => exact h.elim
  | _ =>
    cases ht
    rfl

section Trees

variable (d : Document) (registry : Registry Place)

theorem modifier_tests : ∀ {m : ModifierTree}, m.Elementwise → Tests (m.eval d registry)
  | .test test, h => by
    simp only [ModifierTree.eval]
    cases ht : test.step with
    | error e => exact .inl ⟨e, fun _ => rfl⟩
    | ok t =>
      obtain ⟨p, hp⟩ := Step.exists_filter d (h.step ht)
      show Tests fun xs => .ok (t.apply d xs)
      simp only [hp]
      exact .filter p
  | .grouped .., h => h.elim
  | .between .., h => h.elim
  | .custom .., h => h.elim

theorem modifiers_test {ms : List ModifierTree} (h : ∀ m ∈ ms, m.Elementwise) :
    Tests (ModifierTree.listEval d registry ms) := by
  induction ms with
  | nil => exact .inr ⟨fun _ => true, fun xs => ⟨xs, rfl, fun _ => by simp⟩⟩
  | cons m ms ih =>
    rw [List.forall_mem_cons] at h
    exact (modifier_tests d registry h.1).bind (ih h.2)

theorem compound_tests {c : CompoundTree} (h : c.Elementwise) : Tests (c.eval d registry) := by
  obtain ⟨head, modifiers⟩ := c
  obtain ⟨p, hp⟩ := Step.exists_filter d head.elementwise_step
  have hall := (Tests.filter p).bind (modifiers_test d registry h)
  simp only [← hp] at hall
  exact hall

theorem alternatives_test {as : List AlternativeTree}
    (h : ∀ a ∈ as, ∃ c : CompoundTree, a = .last c ∧ c.Elementwise) :
    Tests (AlternativeTree.listEval d registry as) := by
  induction as with
  | nil => exact .inr ⟨fun _ => false, fun xs => ⟨[], rfl, fun _ => by simp⟩⟩
  | cons a as ih =>
    rw [List.forall_mem_cons] at h
    obtain ⟨⟨c, rfl, hc⟩, has⟩ := h
    exact (compound_tests d registry hc).append (ih has)

/-- On its working set itself, a list of compounds of element tests tests each member. -/
theorem group_tests {g : GroupTree} (h : g.Elementwise) : Tests (g.eval d registry true) := by
  obtain ⟨slashed, alternatives⟩ := g
  exact (alternatives_test d registry h).eraseDups

theorem modifier_additive : ∀ {m : ModifierTree}, m.Pointwise → Additive (m.eval d registry)
  | .test test, h => by
    simp only [ModifierTree.eval]
    cases ht : test.step with
    | error e => exact .error e
    | ok t =>
      refine additive_apply d ?_
      rcases h with h | rfl
      · exact .inl (h.step ht)
      · cases ht
        exact .inr (.inl rfl)
  | .grouped pseudo single argument, h => by
    by_cases hnot : pseudo = .not
    · subst hnot
      exact additive_not d (group_tests d registry h) single
    · exact additive_grouped d pseudo hnot single
  | .between .., h => additive_between d
  | .custom .., h => h.elim

theorem modifiers_additive {ms : List ModifierTree} (h : ∀ m ∈ ms, m.Pointwise) :
    Additive (ModifierTree.listEval d registry ms) := by
  induction ms with
  | nil => exact fun _ _ => ⟨_, rfl, rfl⟩
  | cons m ms ih =>
    rw [List.forall_mem_cons] at h
    exact (modifier_additive d registry h.1).bind (ih h.2)

theorem compound_additive {c : CompoundTree} (h : c.Pointwise) : Additive (c.eval d registry) := by
  obtain ⟨head, modifiers⟩ := c
  have hhead : Additive fun xs => .ok (head.step.apply d xs) :=
    additive_apply d (.inl head.elementwise_step)
  exact hhead.bind (modifiers_additive d registry h)

theorem alternative_additive : ∀ {a : AlternativeTree}, a.Pointwise →
    Additive (a.eval d registry)
  | .last c, h => compound_additive d registry h
  | .link c k rest, h => by
    have hmove : Additive fun xs => .ok ((Step.combinator k).apply d xs) :=
      additive_apply d (.inr (.inr ⟨k, rfl⟩))
    exact (compound_additive d registry h.1).bind (hmove.bind (alternative_additive h.2))

/-- Several alternatives give the same places, in an order of their own. -/
theorem alternatives_join {as : List AlternativeTree} (h : ∀ a ∈ as, a.Pointwise)
    (xs ys : List Place) :
    Joins (fun us vs ws => ∀ p, p ∈ ws ↔ p ∈ us ∨ p ∈ vs)
      (AlternativeTree.listEval d registry as xs) (AlternativeTree.listEval d registry as ys)
      (AlternativeTree.listEval d registry as (xs ++ ys)) := by
  induction as with
  | nil => exact ⟨[], rfl, by simp⟩
  | cons a as ih =>
    rw [List.forall_mem_cons] at h
    refine (alternative_additive d registry h.1 xs ys).bind ?_
    rintro us vs _ rfl
    refine (ih h.2).bind fun us' vs' ws' hws => ⟨_, rfl, fun p => ?_⟩
    simp only [List.mem_append, hws]
    exact or_or_or_comm

theorem group_join {g : GroupTree} (h : g.Pointwise) (anchored : Bool) (xs ys : List Place) :
    Joins (fun us vs ws => ∀ p, p ∈ ws ↔ p ∈ us ∨ p ∈ vs) (g.eval d registry anchored xs)
      (g.eval d registry anchored ys) (g.eval d registry anchored (xs ++ ys)) := by
  obtain ⟨slashed, alternatives⟩ := g
  have hjoin := alternatives_join d registry h (groupBase d (anchored || slashed) xs)
    (groupBase d (anchored || slashed) ys)
  rw [← groupBase_append] at hjoin
  refine hjoin.bind fun us vs ws hws => ⟨_, rfl, fun p => ?_⟩
  simp only [List.mem_eraseDups, hws]

theorem group_join_single {a : AlternativeTree} (h : a.Pointwise) (anchored slashed : Bool)
    (xs ys : List Place) :
    Joins (fun us vs ws => ws = us ++ vs.filter fun p => p ∉ us)
      ((GroupTree.mk slashed [a]).eval d registry anchored xs)
      ((GroupTree.mk slashed [a]).eval d registry anchored ys)
      ((GroupTree.mk slashed [a]).eval d registry anchored (xs ++ ys)) := by
  have hjoin := alternative_additive d registry h
    (groupBase d (anchored || slashed) xs) (groupBase d (anchored || slashed) ys)
  rw [← groupBase_append] at hjoin
  simp only [GroupTree.eval, AlternativeTree.listEval, bind_assoc, pure_bind, List.append_nil]
  refine hjoin.bind ?_
  rintro us vs _ rfl
  refine ⟨_, rfl, ?_⟩
  rw [eraseDups_append]
  congr 1
  refine List.filter_congr fun p _ => ?_
  simp

end Trees

/-! ## Main statement -/

/-- A text that looks at each place by itself fails on two working sets put together if it fails on
one of them, and otherwise gives the places that it gives on either. With a single alternative they
come in order: what is new on the second working set follows the result on the first. -/
theorem compile_additive {d : Document} {registry : Registry Place} {source : String}
    {g : GroupTree} {s : Selector} (hspells : g.Spells registry.signature? source)
    (hg : g.Pointwise) (hs : d.compile registry source = .ok s) (d' : Document)
    (xs ys : List Place) :
    ((∃ e, s.eval d' (xs ++ ys) = .error e) ↔
      (∃ e, s.eval d' xs = .error e) ∨ ∃ e, s.eval d' ys = .error e) ∧
    ∀ us vs, s.eval d' xs = .ok us → s.eval d' ys = .ok vs → ∃ ws, s.eval d' (xs ++ ys) = .ok ws ∧
      (∀ p, p ∈ ws ↔ p ∈ us ∨ p ∈ vs) ∧
      ∀ slashed a, g = .mk slashed [a] → ws = us ++ vs.filter fun p => p ∉ us := by
  rw [hspells.compile_eq] at hs
  have hjoin := group_join d' registry hg false xs ys
  simp only [← group_eval g hs] at hjoin
  refine ⟨hjoin.error_iff, fun us vs hus hvs => ?_⟩
  rw [hus, hvs] at hjoin
  obtain ⟨ws, hws, hmem⟩ := hjoin.exists_ok
  refine ⟨ws, hws, hmem, ?_⟩
  rintro slashed a rfl
  have hsingle := group_join_single d' registry
    (hg a (List.mem_singleton_self a)) false slashed xs ys
  simp only [← group_eval _ hs] at hsingle
  rw [hus, hvs, hws] at hsingle
  obtain ⟨ws', hws', horder⟩ := hsingle.exists_ok
  rw [Except.ok.inj hws', horder]

end Engine

/-- A place that both working sets lead to comes where the first one leads to it. -/
theorem compile_additive_overlap :
    let d : Document := .build [.element "a", .leaf "b", .leaf "c"]
    let g : GroupTree := .bare (.grouped .not (by decide)
      (.mk false [.last (.mk (.type .unstated "b") [])]))
    let s : Selector := .group false
      [.andThen (.step (.universal .unstated)) (.not (.group true [.step (.type .unstated "b")]))]
    g.Spells (Registry.signature? (E := Place) {}) ":not(b)" ∧ g.Pointwise ∧
      d.compile {} ":not(b)" = .ok s ∧ s.eval d [.node 1] = .ok [.node 3] ∧
        s.eval d [.node 0] = .ok [.node 1, .node 3] ∧
        s.eval d [.node 1, .node 0] = .ok [.node 3, .node 1] := by
  intro d g s
  have htokens : tokenize "b" = .ok [⟨.ident, "b"⟩, .endOfInput] :=
    tokenize_of_scanWithin (by cbv)
  have hhead : CompoundHead.Written (.type .unstated "b") ([] ++ [⟨.ident, "b"⟩]) :=
    @CompoundHead.Written.type .unstated [] ⟨.ident, "b"⟩ .unstated rfl
  have hargument : (GroupTree.mk false [.last (.mk (.type .unstated "b") [])]).Spells
      (Registry.signature? (E := Place) {}) "b" :=
    ⟨_, htokens, .plain (.last (.mk hhead .nil (by simp))) .nil⟩
  have single : GroupPseudo.not ≠ .between := by decide
  have hspells : g.Spells (Registry.signature? (E := Place) {}) ":not(b)" := hargument.bare single
  have hg : g.Pointwise := by
    simp [g, GroupTree.bare, GroupTree.Pointwise, AlternativeTree.Pointwise,
      CompoundTree.Pointwise, ModifierTree.Pointwise, GroupTree.Elementwise,
      CompoundTree.Elementwise]
  have hselector : g.selector {} false = .ok s := by rfl
  have hs : d.compile {} ":not(b)" = .ok s := hspells.compile_eq.trans hselector
  have hone : s.eval d [.node 1] = .ok [.node 3] := by
    rw [group_eval g hselector]
    cbv
  have hzero : s.eval d [.node 0] = .ok [.node 1, .node 3] := by
    rw [group_eval g hselector]
    cbv
  obtain ⟨ws, hws, -, horder⟩ :=
    (compile_additive hspells hg hs d [.node 1] [.node 0]).2 _ _ hone hzero
  obtain rfl := horder false _ rfl
  exact ⟨hspells, hg, hs, hone, hzero, hws⟩

end TreeQuery
