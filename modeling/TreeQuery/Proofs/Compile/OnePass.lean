import TreeQuery.Pattern.OfText
import TreeQuery.Proofs.Compile.TreeEvaluation

/-!
# Compiling in one pass

The compiler is told the events of a tree one after another and never sees the tree. It fails only
at the first pattern that is malformed. If there is none, its selector is evaluated as the tree is.
-/

set_option autoImplicit false

namespace TreeQuery

/-! ## Types of arguments -/

section Arguments

variable {sig : String → Option (List ArgumentType)}

theorem ArgumentTree.Written.type_eq {type : ArgumentType} {a : ArgumentTree} {ts : List Token}
    (h : a.Written sig type ts) : a.value.type = type := by
  cases h <;> rfl

theorem MoreArgumentsWritten.types_eq {types : List ArgumentType} {as : List ArgumentTree}
    {ts : List Token} (h : MoreArgumentsWritten sig types as ts) :
    as.map (·.value.type) = types := by
  induction as generalizing types ts with
  | nil =>
    cases h
    rfl
  | cons a as ih =>
    cases h with
    | cons _ ha has => rw [List.map_cons, ha.type_eq, ih has]

theorem ArgumentsWritten.types_eq {types : List ArgumentType} {as : List ArgumentTree}
    {ts : List Token} (h : ArgumentsWritten sig types as ts) : as.map (·.value.type) = types := by
  cases h with
  | nil => rfl
  | cons ha has => rw [List.map_cons, ha.type_eq, has.types_eq]

end Arguments

/-! ## Malformed patterns -/

def Event.pattern? : Event → Option String
  | .compareAttribute _ _ .regexMatch text => some text
  | .matchesText text => some text
  | _ => none

section Engine

variable [PatternEngine]

/-- A text that the engine refuses, and what it says about it. -/
def refusal? (text : String) : Option (String × Option String) :=
  match PatternEngine.build ⟨true, true⟩ text with
  | .ok _ => none
  | .error reason? => some (text, reason?)

def malformedPattern? (es : List Event) : Option (String × Option String) :=
  (es.filterMap Event.pattern?).findSome? refusal?

theorem malformedPattern?_append (xs ys : List Event) :
    malformedPattern? (xs ++ ys) = (malformedPattern? xs).or (malformedPattern? ys) := by
  rw [malformedPattern?, List.filterMap_append, List.findSome?_append]
  rfl

theorem malformedPattern?_singleton {e : Event} (h : e.pattern? = none) :
    malformedPattern? [e] = none := by
  rw [malformedPattern?, List.filterMap_cons_none h]
  rfl

/-- A computation over events fails at their first malformed pattern, and not otherwise. -/
def Settles {α : Type} (es : List Event) (x : Except SelectorError α) : Prop :=
  match malformedPattern? es with
  | some (text, reason?) => x = .error (.invalidPattern text reason?)
  | none => ∃ a, x = .ok a

namespace Settles

variable {α β : Type} {xs ys : List Event} {x : Except SelectorError α}
  {f : α → Except SelectorError β}

theorem pure (a : α) : Settles [] (Pure.pure a) :=
  ⟨a, rfl⟩

theorem bind (hx : Settles xs x) (hf : ∀ a, x = .ok a → Settles ys (f a)) :
    Settles (xs ++ ys) (x >>= f) := by
  unfold Settles at hx ⊢
  rw [malformedPattern?_append]
  cases hxs : malformedPattern? xs with
  | some refused =>
    rw [hxs] at hx
    obtain rfl : x = .error (.invalidPattern refused.1 refused.2) := hx
    rfl
  | none =>
    rw [hxs] at hx
    obtain ⟨a, rfl⟩ := hx
    exact hf a rfl

theorem skip {e : Event} (he : e.pattern? = none) (hx : Settles xs x) : Settles (e :: xs) x := by
  unfold Settles at hx ⊢
  rw [← List.singleton_append, malformedPattern?_append, malformedPattern?_singleton he]
  exact hx

theorem concat {e : Event} (hx : Settles xs x) (he : e.pattern? = none) :
    Settles (xs ++ [e]) x := by
  unfold Settles at hx ⊢
  rw [malformedPattern?_append, malformedPattern?_singleton he, Option.or_none]
  exact hx

theorem map (hx : Settles xs x) (g : α → β) : Settles xs (x >>= fun a => Pure.pure (g a)) := by
  have h : Settles (xs ++ []) (x >>= fun a => Pure.pure (g a)) :=
    hx.bind fun a _ => Settles.pure (g a)
  rw [List.append_nil] at h
  exact h

end Settles

/-- What is made of a pattern needs it to be accepted. -/
theorem settles_pattern {α : Type} {e : Event} {text : String} (he : e.pattern? = some text)
    (f : Pattern → α) : Settles [e] ((Pattern.ofText text).map f) := by
  have hmalformed : malformedPattern? [e] = refusal? text := by
    rw [malformedPattern?, List.filterMap_cons_some he, List.filterMap_nil,
      List.findSome?_singleton]
  rw [Settles, hmalformed, refusal?]
  cases hbuild : PatternEngine.build ⟨true, true⟩ text with
  | ok regex =>
    rw [Pattern.ofText_of_ok hbuild]
    exact ⟨_, rfl⟩
  | error reason? =>
    rw [Pattern.ofText_of_error hbuild]
    rfl

theorem settles_test (test : SimpleTest) : Settles [test.event] test.step := by
  cases test with
  | compareAttribute ns name comparison text =>
    cases comparison with
    | regexMatch =>
      have hmap : (SimpleTest.compareAttribute ns name .regexMatch text).step =
          (Pattern.ofText text).map fun p => .compareAttribute ns name (.regexMatch p) := by
        cases h : Pattern.ofText text <;> simp [SimpleTest.step, ValueTest.ofComparison, h, Except.map]
      rw [hmap]
      exact settles_pattern rfl _
    | _ => exact ⟨_, rfl⟩
  | matchesText text => exact settles_pattern rfl _
  | _ => exact ⟨_, rfl⟩

/-! ## Trees -/

section Trees

variable {registry : Registry Place}

/-- A custom selector is handed arguments of the types that it declares, so applying it does not
fail. -/
theorem settles_custom {name : String} {arguments : List ArgumentTree}
    (hsig : registry.signature? name = some (arguments.map (·.value.type)))
    (h : Settles (ArgumentTree.listEvents arguments) (ArgumentTree.selectors registry arguments)) :
    Settles (ModifierTree.custom name arguments).events
      ((ModifierTree.custom name arguments).stages registry) := by
  rw [ModifierTree.events, ModifierTree.stages]
  refine h.bind fun nested hnested => ?_
  obtain ⟨c, hfind, htypes⟩ := Option.map_eq_some_iff.mp hsig
  have hlength := length_selectors hnested
  have hvalues : (Arguments.ofList? 0 c.types (arguments.map ArgumentTree.value)).isSome := by
    rw [Arguments.isSome_ofList?, htypes, List.map_map]
    rfl
  obtain ⟨values, hvalues⟩ := Option.isSome_iff_exists.mp hvalues
  rw [hfind]
  dsimp only
  rw [CustomSelector.invoke, ofList?_customArguments hlength, hvalues]
  exact ⟨_, rfl⟩

/-! ## Trees -/

theorem Settles.alternatives {a : AlternativeTree} {as : List AlternativeTree}
    (ha : Settles a.events (a.stages registry))
    (has : Settles (AlternativeTree.listEvents as) (AlternativeTree.listStages registry as)) :
    Settles (AlternativeTree.listEvents (a :: as))
      (AlternativeTree.listStages registry (a :: as)) := by
  rw [AlternativeTree.listEvents, AlternativeTree.listStages]
  exact (ha.skip rfl).bind fun stages _ => has.map _

theorem Settles.group {as : List AlternativeTree}
    (has : Settles (AlternativeTree.listEvents as) (AlternativeTree.listStages registry as))
    (anchored slashed : Bool) :
    Settles ((GroupTree.mk slashed as).events anchored)
      ((GroupTree.mk slashed as).selector registry anchored) := by
  rw [GroupTree.events, GroupTree.selector]
  have hbody := has.map (fun stages => Selector.group (anchored || slashed)
    (stages.filterMap Selector.chain?))
  refine (Settles.concat ?_ rfl).skip rfl
  cases anchored with
  | false => cases slashed with
    | false => exact hbody
    | true => exact hbody.skip rfl
  | true => cases slashed with
    | false => exact hbody.skip rfl
    | true => exact (hbody.skip rfl).skip rfl

theorem Settles.arguments {a : ArgumentTree} {as : List ArgumentTree}
    (ha : Settles a.events (a.nested registry))
    (has : Settles (ArgumentTree.listEvents as) (ArgumentTree.selectors registry as)) :
    Settles (ArgumentTree.listEvents (a :: as)) (ArgumentTree.selectors registry (a :: as)) := by
  rw [ArgumentTree.listEvents, ArgumentTree.selectors]
  exact ha.bind fun nested _ => has.map _

mutual

theorem modifier_settles {m : ModifierTree} {ts : List Token} :
    m.Written registry.signature? ts → Settles m.events (m.stages registry)
  | .test h => by
    rw [ModifierTree.events, ModifierTree.stages]
    exact (settles_test _).map fun step => [Selector.step step]
  | .grouped hg _ => by
    rw [ModifierTree.events, ModifierTree.stages]
    exact (((group_settles hg _).map _).skip rfl).concat rfl
  | .between hg _ hg' _ => by
    rw [ModifierTree.events, ModifierTree.stages]
    have hstart := (group_settles hg false).skip (e := .nest) rfl
    exact (hstart.bind fun s _ => ((group_settles hg' false).map _).skip rfl).concat rfl
  | .function _ hsig has _ => by
    apply settles_custom
    · rw [has.types_eq, hsig]
    · exact arguments_settle has
  | .name _ _ _ hsig => settles_custom hsig (.pure [])

theorem modifiers_settle {ms : List ModifierTree} {ts : List Token} :
    ModifiersWritten registry.signature? ms ts →
      Settles (ModifierTree.listEvents ms) (ModifierTree.listStages registry ms)
  | .nil => .pure []
  | .cons hm hms => by
    rw [ModifierTree.listEvents, ModifierTree.listStages]
    exact (modifier_settles hm).bind fun stages _ => (modifiers_settle hms).map _

theorem argument_settles {type : ArgumentType} {a : ArgumentTree} {ts : List Token} :
    a.Written registry.signature? type ts → Settles a.events (a.nested registry)
  | .string _ => .pure []
  | .integer _ => .pure []
  | .group hg => by
    rw [ArgumentTree.events, ArgumentTree.nested]
    exact ((group_settles hg false).map _).skip rfl

theorem moreArguments_settle {types : List ArgumentType} {as : List ArgumentTree}
    {ts : List Token} : MoreArgumentsWritten registry.signature? types as ts →
      Settles (ArgumentTree.listEvents as) (ArgumentTree.selectors registry as)
  | .nil => .pure []
  | .cons _ ha has => (argument_settles ha).arguments (moreArguments_settle has)

theorem arguments_settle {types : List ArgumentType} {as : List ArgumentTree}
    {ts : List Token} : ArgumentsWritten registry.signature? types as ts →
      Settles (ArgumentTree.listEvents as) (ArgumentTree.selectors registry as)
  | .nil => .pure []
  | .cons ha has => (argument_settles ha).arguments (moreArguments_settle has)

theorem compound_settles {c : CompoundTree} {ts : List Token} :
    c.Written registry.signature? ts → Settles c.events (c.stages registry)
  | @CompoundTree.Written.mk _ head _ _ _ _ hms _ => by
    rw [CompoundTree.events, CompoundTree.stages]
    have hhead : head.event.pattern? = none := by
      cases head <;> rfl
    exact ((modifiers_settle hms).map _).skip hhead

theorem alternative_settles {a : AlternativeTree} {ts : List Token} :
    a.Written registry.signature? ts → Settles a.events (a.stages registry)
  | .last hc => by
    rw [AlternativeTree.events, AlternativeTree.stages]
    exact compound_settles hc
  | .link hc _ ha => by
    rw [AlternativeTree.events, AlternativeTree.stages]
    exact (compound_settles hc).bind fun stages _ => ((alternative_settles ha).map _).skip rfl

theorem moreAlternatives_settle {as : List AlternativeTree} {ts : List Token} :
    MoreAlternativesWritten registry.signature? as ts →
      Settles (AlternativeTree.listEvents as) (AlternativeTree.listStages registry as)
  | .nil => .pure []
  | .cons _ _ ha has => (alternative_settles ha).alternatives (moreAlternatives_settle has)

theorem group_settles {g : GroupTree} {ts : List Token} :
    g.Written registry.signature? ts → ∀ anchored : Bool,
      Settles (g.events anchored) (g.selector registry anchored)
  | .plain ha has, anchored =>
    ((alternative_settles ha).alternatives (moreAlternatives_settle has)).group anchored false
  | .slashed _ _ ha has, anchored =>
    ((alternative_settles ha).alternatives (moreAlternatives_settle has)).group anchored true

end

end Trees

/-- Accepted tokens have a syntax tree, and compiling their events, without a memo, gives a selector
that is evaluated as each such tree is. There is none only if a pattern is malformed, and then the
first such pattern is the error. -/
theorem compileTokens_eval (d : Document) (registry : Registry Place) {tokens : List Token}
    {t : Transcript}
    (h : parseTokens tokens ({ signature? := registry.signature? } : Transcript) = .ok () t) :
    (∃ g : GroupTree, g.Written registry.signature? (beforeEnd tokens)) ∧
      ∀ g : GroupTree, g.Written registry.signature? (beforeEnd tokens) →
        t.events = g.events false ∧
          match malformedPattern? t.events with
          | some (text, reason?) => ∃ c, Compiler.compileTokens tokens { document := d, registry } =
              .error (.invalidPattern text reason?) c
          | none => ∃ s c, Compiler.compileTokens tokens { document := d, registry } = .ok s c ∧
              ∀ xs, s.eval d xs = g.eval d registry false xs := by
  have hsig : EventSink.signature? ({ signature? := registry.signature? } : Transcript) =
    registry.signature? := rfl
  obtain ⟨es, htold⟩ := transcript_ok_of_parse h
  have hes : t.events = es := by
    rw [parseTokens_eq_deliver, htold, Parse.bind_ok (Transcript.deliver_eq _ _)] at h
    cases h
    rfl
  rw [hsig, ← hes] at htold
  constructor
  · obtain ⟨g, hg, -⟩ := transcript_ok_iff.mp htold
    exact ⟨g, hg⟩
  · intro g hg
    have hevents : t.events = g.events false := by
      have htree := transcript_ok_iff.mpr ⟨g, hg, rfl⟩
      rw [htold] at htree
      exact congrArg Prod.fst htree
    obtain ⟨c, hcompile⟩ := Compiler.compileTokens_eq (c := { document := d, registry }) rfl hg
    have hsettles := group_settles hg false
    rw [Settles, ← hevents] at hsettles
    refine ⟨hevents, ?_⟩
    cases hpattern : malformedPattern? t.events with
    | some refused =>
      rw [hpattern] at hsettles
      have hs : g.selector registry false = .error (.invalidPattern refused.1 refused.2) := hsettles
      rw [hs] at hcompile
      exact ⟨c, hcompile⟩
    | none =>
      rw [hpattern] at hsettles
      obtain ⟨s, hs⟩ := hsettles
      rw [hs] at hcompile
      exact ⟨s, c, hcompile, group_eval g hs⟩

end Engine

theorem compileTokens_eval_has :
    let tokens : List Token := [.ofKind .colon, ⟨.function, "has"⟩, ⟨.ident, "a"⟩,
      .ofKind .rightParen, .endOfInput]
    let signature? := Registry.signature? (E := Place) {}
    parseTokens tokens ({ signature? } : Transcript) = .ok () ⟨signature?, [.init, .alternative,
        .universal .unstated, .nest, .init, .alternative, .type .unstated "a", .close,
        .grouped .has, .close]⟩ ∧
      ∃ g : GroupTree, g.Written signature? (beforeEnd tokens) ∧
        ∃ s c, Compiler.compileTokens tokens { document := .empty, registry := {} } = .ok s c ∧
          ∀ xs, s.eval .empty xs = g.eval .empty {} false xs := by
  intro tokens signature?
  have hparse : parseTokens tokens ({ signature? } : Transcript) = .ok () ⟨signature?, [.init,
      .alternative, .universal .unstated, .nest, .init, .alternative, .type .unstated "a", .close,
      .grouped .has, .close]⟩ := by rfl
  obtain ⟨⟨g, hg⟩, heval⟩ := compileTokens_eval .empty {} hparse
  exact ⟨hparse, g, hg, (heval g hg).2⟩

end TreeQuery
