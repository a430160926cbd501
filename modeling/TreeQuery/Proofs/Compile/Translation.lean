import TreeQuery.Proofs.Compile.Memo
import TreeQuery.Proofs.Event.Derivation

/-!
# Selectors of syntax trees

A selector can be read off a syntax tree by recursion. A compiler that is told the events of the
tree puts the same selector together, or fails with the same error.
-/

set_option autoImplicit false

namespace TreeQuery

/-! ## Trees -/

theorem Compiler.groupCount_of_single {pseudo : GroupPseudo} (single : pseudo ≠ .between) :
    (Event.grouped pseudo).groupCount = 1 := by
  cases pseudo with
  | between => exact absurd rfl single
  | _ => rfl

/-- No tree is written without tokens. -/
theorem GroupTree.not_written_endOfInput {sig : String → Option (List ArgumentType)}
    {g : GroupTree} : ¬ g.Written sig (beforeEnd [Token.endOfInput]) := by
  intro hg
  have h := transcript_ok_iff.2 ⟨g, hg, rfl⟩
  have hend : (transcript sig [Token.endOfInput]).2 ≠ .ok () := by
    intro hok
    cases hok
  exact hend (congrArg Prod.snd h)

variable [PatternEngine]

def Selector.chain? : List Selector → Option Selector
  | [] => none
  | s :: stages => some (stages.foldl .andThen s)

def CompoundHead.step : CompoundHead → Step
  | type ns name => .type ns name
  | universal ns => .universal ns
  | implied => .universal .unstated

def SimpleTest.step : SimpleTest → Except SelectorError Step
  | id value => .ok (.id value)
  | className name => .ok (.className name)
  | hasAttribute ns name => .ok (.hasAttribute ns name)
  | compareAttribute ns name comparison value =>
    (ValueTest.ofComparison value comparison).map (.compareAttribute ns name)
  | plain pseudo => .ok (.plain pseudo)
  | nthChild position => .ok (.nthChild position)
  | nthLastChild position => .ok (.nthLastChild position)
  | index value => .ok (.index value)
  | containsText text => .ok (.containsText text)
  | matchesText text => (Pattern.ofText text).map .matchesText

section Trees

variable (registry : Registry Place)

mutual

/-- The stages of a modifier, which are one unless its pseudo-class takes other arguments. -/
def ModifierTree.stages : ModifierTree → Except SelectorError (List Selector)
  | .test test => do
    let step ← test.step
    return [.step step]
  | .grouped pseudo _ argument => do
    let s ← argument.selector pseudo.anchorsArgument
    return (Compiler.groupedSelector pseudo [s]).toList
  | .between start stop => do
    let s ← start.selector false
    let t ← stop.selector false
    return [.between s t]
  | .custom name arguments => do
    let nested ← ArgumentTree.selectors arguments
    match registry.find? name with
    | some c =>
      let s ← c.invoke name (Compiler.customArguments (arguments.map ArgumentTree.argument) nested)
      return [s]
    | none => throw (.unknownPseudo name)

def ModifierTree.listStages : List ModifierTree → Except SelectorError (List Selector)
  | [] => return []
  | m :: ms => do
    let stages ← m.stages
    return stages ++ (← ModifierTree.listStages ms)

def ArgumentTree.selectors : List ArgumentTree → Except SelectorError (List Selector)
  | [] => return []
  | a :: as => do
    let nested ← a.nested
    return nested ++ (← ArgumentTree.selectors as)

def ArgumentTree.nested : ArgumentTree → Except SelectorError (List Selector)
  | .group group => do
    let s ← group.selector false
    return [s]
  | _ => return []

def CompoundTree.stages : CompoundTree → Except SelectorError (List Selector)
  | .mk head modifiers => do
    let stages ← ModifierTree.listStages modifiers
    return .step head.step :: stages

def AlternativeTree.stages : AlternativeTree → Except SelectorError (List Selector)
  | .last c => c.stages
  | .link c k rest => do
    let stages ← c.stages
    return stages ++ .step (.combinator k) :: (← rest.stages)

def AlternativeTree.listStages : List AlternativeTree → Except SelectorError (List (List Selector))
  | [] => return []
  | a :: as => do
    let stages ← a.stages
    return stages :: (← AlternativeTree.listStages as)

def GroupTree.selector (anchored : Bool) : GroupTree → Except SelectorError Selector
  | .mk slashed alternatives => do
    let stages ← AlternativeTree.listStages alternatives
    return .group (anchored || slashed) (stages.filterMap Selector.chain?)

end

end Trees

/-! ## Generators -/

namespace Generator

def extend (stages : List Selector) (g : Generator) : Generator :=
  stages.foldl add g

def addAlternative (g : Generator) (stages : List Selector) : Generator :=
  g.beginAlternative.extend stages

theorem extend_extend (xs ys : List Selector) (g : Generator) :
    (g.extend xs).extend ys = g.extend (xs ++ ys) := by
  simp [extend]

/-- Stages after a first one make one chain with it. -/
theorem extend_some (stages : List Selector) (g : Generator) (s : Selector) :
    { g with current := some s }.extend stages =
      { g with current := some (stages.foldl .andThen s) } := by
  induction stages generalizing s with
  | nil => rfl
  | cons t stages ih => exact ih (.andThen s t)

theorem addAlternative_eq (g : Generator) (stages : List Selector) :
    g.addAlternative stages =
      { g with alternatives := g.selectors, current := Selector.chain? stages } := by
  cases stages with
  | nil => rfl
  | cons s stages => exact extend_some stages g.beginAlternative s

theorem selectors_addAlternatives (stages : List (List Selector)) (g : Generator) :
    (stages.foldl addAlternative g).selectors =
      g.selectors ++ stages.filterMap Selector.chain? := by
  induction stages generalizing g with
  | nil => simp
  | cons s stages ih =>
    rw [List.foldl_cons, ih, addAlternative_eq]
    cases hs : Selector.chain? s <;> simp [selectors, hs]

theorem anchored_addAlternatives (stages : List (List Selector)) (g : Generator) :
    (stages.foldl addAlternative g).anchored = g.anchored := by
  induction stages generalizing g with
  | nil => rfl
  | cons s stages ih =>
    rw [List.foldl_cons, ih, addAlternative_eq]

theorem selector_close_addAlternatives (anchored : Bool) (stages : List (List Selector)) :
    (stages.foldl addAlternative { anchored }).close.selector =
      .ok (.group anchored (stages.filterMap Selector.chain?)) := by
  have hselectors := selectors_addAlternatives stages { anchored }
  have hanchored := anchored_addAlternatives stages { anchored }
  rw [selector, close, hselectors, hanchored]
  rfl

end Generator

/-! ## Computations of a compiler -/

namespace Compiler

open EventSink (deliver deliver_append deliver_append_ok deliver_singleton)

/-- A computation ended like the outcome, in a state that fits its value. Nothing is said about
the state after a failure. -/
def Ends {α : Type} (result : EStateM.Result SelectorError Compiler Unit)
    (outcome : Except SelectorError α) (fits : α → Compiler → Prop) : Prop :=
  match outcome with
  | .ok a => ∃ c, result = .ok () c ∧ fits a c
  | .error e => ∃ c, result = .error e c

namespace Ends

variable {α β : Type} {outcome : Except SelectorError α} {fits : α → Compiler → Prop}
  {f : α → Except SelectorError β} {fits' : β → Compiler → Prop} {c : Compiler}

theorem bind {p q : EStateM SelectorError Compiler Unit} (h : Ends (p c) outcome fits)
    (hq : ∀ a c', fits a c' → Ends (q c') (f a) fits') :
    Ends ((p >>= fun _ => q) c) (outcome >>= f) fits' := by
  cases outcome with
  | error e =>
    obtain ⟨c', hp⟩ := h
    exact ⟨c', Parse.bind_error hp⟩
  | ok a =>
    obtain ⟨c', hp, hfits⟩ := h
    rw [Parse.bind_ok hp]
    exact hq a c' hfits

theorem append {xs ys : List Event} (h : Ends (deliver xs c) outcome fits)
    (hys : ∀ a c', fits a c' → Ends (deliver ys c') (f a) fits') :
    Ends (deliver (xs ++ ys) c) (outcome >>= f) fits' := by
  rw [deliver_append]
  exact h.bind hys

/-- An event that does not fail and gives nothing. -/
theorem cons_ok {e : Event} {es : List Event} {c' : Compiler} (h : handle e c = .ok () c')
    (hes : Ends (deliver es c') outcome fits) : Ends (deliver (e :: es) c) outcome fits := by
  have hdeliver : deliver (e :: es) c = deliver es c' := Parse.bind_ok h
  rw [hdeliver]
  exact hes

theorem imp {result : EStateM.Result SelectorError Compiler Unit} (h : Ends result outcome fits)
    {fits' : α → Compiler → Prop} (hfits : ∀ a c', fits a c' → fits' a c') :
    Ends result outcome fits' := by
  cases outcome with
  | error e => exact h
  | ok a =>
    obtain ⟨c', hp, hc'⟩ := h
    exact ⟨c', hp, hfits a c' hc'⟩

/-- Another value may be told, and less of the state. -/
theorem map {result : EStateM.Result SelectorError Compiler Unit} (h : Ends result outcome fits)
    {g : α → β} (hfits : ∀ a c', fits a c' → fits' (g a) c') :
    Ends result (outcome >>= fun a => pure (g a)) fits' := by
  cases outcome with
  | error e => exact h
  | ok a =>
    obtain ⟨c', hp, hc'⟩ := h
    exact ⟨c', hp, hfits a c' hc'⟩

end Ends

/-! ## Nested groups -/

/-- The compiler has finished nested groups on top of `c`, with the given selectors. -/
inductive Holds (c : Compiler) : List Selector → Compiler → Prop
  | nil : Holds c [] c
  | concat {nested : List Selector} {c' : Compiler} {g : Generator} {s : Selector} :
      Holds c nested c' → g.selector = .ok s → Holds c (nested ++ [s]) (c'.push g)

variable {c c' : Compiler} {nested : List Selector}

theorem Holds.memo (h : Holds c nested c') : c'.memo = c.memo := by
  induction h with
  | nil => rfl
  | concat _ _ ih => exact ih

theorem Holds.registry (h : Holds c nested c') : c'.registry = c.registry := by
  induction h with
  | nil => rfl
  | concat _ _ ih => exact ih

theorem Holds.takeNested (h : Holds c nested c') :
    ∃ gs, takeNested nested.length c' = (gs, c) ∧
      gs.mapM Generator.selector = (.ok nested : Except SelectorError (List Selector)) := by
  induction h with
  | nil => exact ⟨[], rfl, rfl⟩
  | @concat nested c' g s _ hg ih =>
    obtain ⟨gs, htake, hgs⟩ := ih
    have hleave : (c'.push g).leave = c' := rfl
    refine ⟨gs ++ [g], ?_, ?_⟩
    · rw [List.length_append, List.length_singleton, Compiler.takeNested, hleave, htake]
      rfl
    · rw [List.mapM_append, hgs]
      simp [hg]
      rfl

/-- An event over nested groups chains the selector that it makes, if it makes one. -/
theorem handleNested_ends (h : Holds c nested c') {e : Event} (he : e.groupCount = nested.length) :
    Ends (handleNested e c') (nestedSelector c.registry nested e)
      fun s? c'' => c'' = c.update (·.extend s?.toList) := by
  obtain ⟨gs, htake, hgs⟩ := h.takeNested
  have hrun : handleNested e c' = (do
      let s? ← MonadExcept.ofExcept (nestedSelector c.registry nested e)
      chainSelector s? : EStateM SelectorError Compiler Unit) c := by
    unfold handleNested
    have hget : (modifyGet (takeNested e.groupCount) : EStateM SelectorError Compiler _) c' =
        .ok gs c := by
      rw [he]
      show EStateM.Result.ok (takeNested nested.length c').1 (takeNested nested.length c').2 = _
      rw [htake]
    rw [Parse.bind_ok hget, hgs]
    rfl
  rw [hrun]
  cases nestedSelector c.registry nested e with
  | error err => exact ⟨c, rfl⟩
  | ok s? =>
    cases s? with
    | none => exact ⟨c, rfl, rfl⟩
    | some s => exact ⟨_, rfl, rfl⟩

/-! ## Events of trees -/

/-- Without a memo, a step is just chained. -/
theorem addStep_eq (hc : c.memo = none) (s : Step) : c.addStep s = c.update (·.add (.step s)) := by
  obtain ⟨document, registry, memo, generator, enclosing⟩ := c
  obtain rfl : memo = none := hc
  rfl

theorem step_ends {e : Event} {outcome : Except SelectorError Step}
    (h : Step.ofEvent? e = some outcome) (hc : c.memo = none) :
    Ends (handle e c) outcome fun s c' => c' = c.update (·.add (.step s)) := by
  rw [handle_of_step h]
  cases outcome with
  | error err => exact ⟨c, rfl⟩
  | ok s => exact ⟨_, rfl, addStep_eq hc s⟩

theorem handle_head (hc : c.memo = none) (head : CompoundHead) :
    handle head.event c = .ok () (c.update (·.add (.step head.step))) := by
  have hstep : Step.ofEvent? head.event = some (.ok head.step) := by
    cases head <;> rfl
  obtain ⟨c', hrun, rfl⟩ := step_ends hstep hc
  exact hrun

theorem handle_combinator (hc : c.memo = none) (k : Combinator) :
    handle (.combinator k) c = .ok () (c.update (·.add (.step (.combinator k)))) := by
  obtain ⟨c', hrun, rfl⟩ := step_ends (e := .combinator k) rfl hc
  exact hrun

theorem ofEvent?_test (test : SimpleTest) : Step.ofEvent? test.event = some test.step := by
  cases test <;> rfl

/-- The events of a group leave a generator that has its selector. -/
abbrev GroupEnds (g : GroupTree) : Prop :=
  ∀ (anchored : Bool) (c : Compiler), c.memo = none →
    Ends (deliver (g.events anchored) c) (g.selector c.registry anchored) fun s c' =>
      ∃ generator, c' = c.update (fun _ => generator) ∧ generator.selector = .ok s

theorem nest_ends {g : GroupTree} (hg : GroupEnds g) (anchored : Bool) (h : Holds c nested c')
    (hc : c'.memo = none) :
    Ends (deliver (.nest :: g.events anchored) c') (g.selector c'.registry anchored)
      fun s c'' => Holds c (nested ++ [s]) c'' := by
  have hnest : handle .nest c' = .ok () c'.enter := rfl
  refine Ends.cons_ok hnest ((hg anchored c'.enter hc).imp ?_)
  rintro s c'' ⟨generator, rfl, hs⟩
  exact h.concat hs

mutual

theorem modifier_ends : ∀ (m : ModifierTree) (c : Compiler), c.memo = none →
    Ends (deliver m.events c) (m.stages c.registry) fun stages c' =>
      c' = c.update (·.extend stages)
  | .test test, c, hc => by
    rw [ModifierTree.events, deliver_singleton, ModifierTree.stages]
    exact (step_ends (ofEvent?_test test) hc).map fun s c' h => h
  | .grouped pseudo single argument, c, hc => by
    have hcount : (Event.grouped pseudo).groupCount = 1 := groupCount_of_single single
    rw [ModifierTree.events, ModifierTree.stages]
    refine (nest_ends (group_ends argument) _ .nil hc).append ?_
    intro s c' h
    rw [deliver_singleton]
    refine (handleNested_ends h hcount).map (g := Option.toList) ?_
    exact fun s? c'' h => h
  | .between start stop, c, hc => by
    rw [ModifierTree.events, ModifierTree.stages, List.append_assoc]
    refine (nest_ends (group_ends start) false .nil hc).append ?_
    intro s c' h
    rw [← h.registry]
    refine (nest_ends (group_ends stop) false h (h.memo.trans hc)).append ?_
    intro t c'' h'
    rw [deliver_singleton]
    refine (handleNested_ends (e := .grouped .between) h' rfl).map (g := Option.toList) ?_
    exact fun s? c'' h => h
  | .custom name arguments, c, hc => by
    rw [ModifierTree.events, ModifierTree.stages]
    refine (arguments_end arguments c c [] .nil hc).append ?_
    intro nested c' h
    rw [deliver_singleton]
    have hends := handleNested_ends h.1 (e := .custom name (arguments.map ArgumentTree.argument))
      h.2.symm
    simp only [nestedSelector, List.nil_append] at hends
    cases hfind : c.registry.find? name with
    | none =>
      rw [hfind] at hends
      exact hends
    | some custom =>
      rw [hfind] at hends
      revert hends
      show Ends _ (some <$> custom.invoke name (customArguments _ nested)) _ → Ends _ (do
        let s ← custom.invoke name (customArguments _ nested)
        return [s]) _
      cases custom.invoke name (customArguments (arguments.map ArgumentTree.argument) nested) with
      | error e => exact fun hends => hends
      | ok s => exact fun hends => hends

theorem modifiers_end : ∀ (ms : List ModifierTree) (c : Compiler), c.memo = none →
    Ends (deliver (ModifierTree.listEvents ms) c) (ModifierTree.listStages c.registry ms)
      fun stages c' => c' = c.update (·.extend stages)
  | [], c, hc => ⟨c, rfl, rfl⟩
  | m :: ms, c, hc => by
    rw [ModifierTree.listEvents, ModifierTree.listStages]
    refine (modifier_ends m c hc).append ?_
    rintro stages c' rfl
    refine (modifiers_end ms (c.update (·.extend stages)) hc).map ?_
    rintro more c' rfl
    simp only [← Generator.extend_extend]
    rfl

theorem arguments_end : ∀ (as : List ArgumentTree) (c c' : Compiler) (before : List Selector),
    Holds c before c' → c'.memo = none →
    Ends (deliver (ArgumentTree.listEvents as) c') (ArgumentTree.selectors c'.registry as)
      fun nested c'' => Holds c (before ++ nested) c'' ∧
        nested.length = (as.map ArgumentTree.argument).count .group
  | [], c, c', before, h, hc => ⟨c', rfl, by simpa using h, rfl⟩
  | a :: as, c, c', before, h, hc => by
    rw [ArgumentTree.listEvents, ArgumentTree.selectors]
    refine (argument_ends a c c' before h hc).append ?_
    rintro nested c'' ⟨h', hlength⟩
    have hregistry : c''.registry = c'.registry := h'.registry.trans h.registry.symm
    rw [← hregistry]
    refine (arguments_end as c c'' _ h' ?_).map ?_
    · exact h'.memo.trans (h.memo.symm.trans hc)
    · rintro more c₃ ⟨h₃, hmore⟩
      refine ⟨by simpa using h₃, ?_⟩
      rw [List.map_cons, List.length_append, hlength, hmore]
      cases a <;> simp [ArgumentTree.argument, Nat.add_comm]

theorem argument_ends : ∀ (a : ArgumentTree) (c c' : Compiler) (before : List Selector),
    Holds c before c' → c'.memo = none →
    Ends (deliver a.events c') (a.nested c'.registry)
      fun nested c'' => Holds c (before ++ nested) c'' ∧
        nested.length = [a.argument].count .group
  | .string text, c, c', before, h, hc => ⟨c', rfl, by simpa using h, rfl⟩
  | .integer value, c, c', before, h, hc => ⟨c', rfl, by simpa using h, rfl⟩
  | .group g, c, c', before, h, hc => by
    rw [ArgumentTree.events, ArgumentTree.nested]
    exact (nest_ends (group_ends g) false h hc).map fun s c'' h => ⟨h, rfl⟩

theorem compound_ends : ∀ (t : CompoundTree) (c : Compiler), c.memo = none →
    Ends (deliver t.events c) (t.stages c.registry) fun stages c' =>
      c' = c.update (·.extend stages)
  | .mk head modifiers, c, hc => by
    rw [CompoundTree.events, CompoundTree.stages]
    refine Ends.cons_ok (handle_head hc head) ?_
    refine (modifiers_end modifiers (c.update (·.add (.step head.step))) hc).map ?_
    rintro stages c' rfl
    rfl

theorem alternative_ends : ∀ (a : AlternativeTree) (c : Compiler), c.memo = none →
    Ends (deliver a.events c) (a.stages c.registry) fun stages c' =>
      c' = c.update (·.extend stages)
  | .last t, c, hc => compound_ends t c hc
  | .link t k rest, c, hc => by
    rw [AlternativeTree.events, AlternativeTree.stages]
    refine (compound_ends t c hc).append ?_
    rintro stages c' rfl
    refine Ends.cons_ok (handle_combinator (c := c.update (·.extend stages)) hc k) ?_
    refine (alternative_ends rest
      ((c.update (·.extend stages)).update (·.add (.step (.combinator k)))) hc).map ?_
    rintro more c' rfl
    simp only [← Generator.extend_extend]
    rfl

theorem alternatives_end : ∀ (as : List AlternativeTree) (c : Compiler), c.memo = none →
    Ends (deliver (AlternativeTree.listEvents as) c) (AlternativeTree.listStages c.registry as)
      fun stages c' => c' = c.update (stages.foldl Generator.addAlternative ·)
  | [], c, hc => ⟨c, rfl, rfl⟩
  | a :: as, c, hc => by
    have hstart : handle .alternative c = .ok () (c.update (·.beginAlternative)) := rfl
    rw [AlternativeTree.listEvents, AlternativeTree.listStages]
    refine (Ends.cons_ok hstart (alternative_ends a (c.update (·.beginAlternative)) hc)).append ?_
    rintro stages c' rfl
    refine (alternatives_end as (c.update (·.addAlternative stages)) hc).map ?_
    rintro more c' rfl
    rfl

theorem group_ends : ∀ g : GroupTree, GroupEnds g
  | .mk slashed alternatives, anchored, c, hc => by
    have hinit : handle .init c = .ok () (c.update fun _ => {}) := rfl
    have hanchor : deliver ((if anchored then [.anchor] else []) ++
        (if slashed then [.anchor] else [])) (c.update fun _ => {}) =
          .ok () (c.update fun _ => { anchored := anchored || slashed }) := by
      cases anchored <;> cases slashed <;> rfl
    rw [GroupTree.events, GroupTree.selector]
    refine Ends.cons_ok hinit ?_
    rw [List.append_assoc, deliver_append_ok hanchor]
    refine (alternatives_end alternatives
      (c.update fun _ => { anchored := anchored || slashed }) hc).append ?_
    rintro stages c' rfl
    rw [deliver_singleton]
    exact ⟨_, rfl, _, rfl, Generator.selector_close_addAlternatives _ stages⟩

end

/-! ## Texts -/

/-- The tokens of a tree compile to its selector. -/
theorem compileTokens_eq (hc : c.memo = none) {tokens : List Token} {g : GroupTree}
    (hg : g.Written c.registry.signature? (beforeEnd tokens)) :
    ∃ c', compileTokens tokens c = Except.within (g.selector c.registry false) c' := by
  have hsig : EventSink.signature? c = c.registry.signature? := rfl
  have hparse := parseTokens_eq_deliver tokens c
  rw [hsig, transcript_ok_iff.2 ⟨g, hg, rfl⟩] at hparse
  have hends := group_ends g false c hc
  cases hs : g.selector c.registry false with
  | error e =>
    rw [hs] at hends
    obtain ⟨c', hrun⟩ := hends
    rw [Parse.bind_error hrun] at hparse
    have hread : readTokens tokens c = .error e (c'.leaveTo c.enclosing.length) := by
      simp only [readTokens, hparse]
    exact ⟨_, Parse.bind_error hread⟩
  | ok s =>
    rw [hs] at hends
    obtain ⟨c', hrun, generator, rfl, hselector⟩ := hends
    rw [Parse.bind_ok hrun] at hparse
    have hread : readTokens tokens c = .ok () (c.update fun _ => generator) := by
      simp only [readTokens, hparse]
      rfl
    refine ⟨c.update fun _ => generator, (Parse.bind_ok hread).trans ?_⟩
    show (MonadExcept.ofExcept generator.selector : EStateM SelectorError Compiler Selector)
      (c.update fun _ => generator) = _
    rw [hselector]
    rfl

end Compiler

/-- A text of a tree compiles to its selector. -/
theorem Document.compile_eq (d : Document) (registry : Registry Place) {source : String}
    {tokens : List Token} (htokens : tokenize source = .ok tokens) {g : GroupTree}
    (hg : g.Written registry.signature? (beforeEnd tokens)) :
    d.compile registry source = g.selector registry false := by
  have hsource : source ≠ "" := by
    rintro rfl
    have hempty : tokenize "" = .ok [Token.endOfInput] := by
      simp [tokenize, Token.scan, Token.withBlanks]
    obtain rfl := Except.ok.inj (htokens.symm.trans hempty)
    exact GroupTree.not_written_endOfInput hg
  obtain ⟨c', hrun⟩ := Compiler.compileTokens_eq (c := { document := d, registry }) rfl hg
  rw [Document.compile, Compiler.compile_of_tokenize hsource htokens, hrun]
  cases g.selector registry false <;> rfl

end TreeQuery
