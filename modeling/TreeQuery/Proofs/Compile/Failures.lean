import Mathlib
import TreeQuery.Document.Builder
import TreeQuery.Pattern.OfText
import TreeQuery.Proofs.Compile.Discipline
import TreeQuery.Proofs.Compile.Faults
import TreeQuery.Proofs.Token.Scan

/-!
# How texts fail

A text that does not compile is malformed or asks for a position formula, and up to its failure the
compiler is ready for all that it is told. A compiled text without custom selectors fails only where
a region operator is handed a place that is no child.
-/

set_option autoImplicit false

namespace TreeQuery

theorem tokenize_error {source : String} {err : SelectorError}
    (h : tokenize source = .error err) : err.kind = .format := by
  unfold tokenize at h
  split at h
  · cases h
  · cases h
    rfl

section Engine

variable [PatternEngine]

namespace Compiler

variable {d : Document} {c c' : Compiler} {tokens : List Token} {source : String}
  {s : Selector} {err : SelectorError}

/-! ## Reading -/

/-- Read to the end, the tokens leave a closed group behind. -/
theorem parseTokens_guarded (tokens : List Token) (c : Compiler) :
    match parseTokens tokens (Guarded.mk c) with
    | .ok _ g => ∃ s, g.compiler.generator.selector = .ok s
    | .error e _ => Expected tokens e := by
  have hgroup := Meets.group (tokens.length + 1) (Nat.lt_succ_self tokens.length)
    (TokenReader.ofList tokens) c List.suffix_rfl (Nat.le_refl _) ⟨rfl, rfl⟩
  unfold parseTokens
  cases hrun : Parse.group (tokens.length + 1) ⟨TokenReader.ofList tokens, Guarded.mk c⟩ with
  | error e s =>
    rw [hrun] at hgroup
    exact hgroup
  | ok u s =>
    rw [hrun] at hgroup
    exact hgroup.2.2

/-- No event is refused, so that guarding a compiler changes nothing. -/
theorem deliver_guarded (tokens : List Token) (c : Compiler) :
    EventSink.deliver (transcript c.registry.signature? tokens).1 (Guarded.mk c) =
        guardResult (EventSink.deliver (transcript c.registry.signature? tokens).1 c) ∧
      ReadyFor (transcript c.registry.signature? tokens).1 c := by
  rcases Guarded.deliver_cases (transcript c.registry.signature? tokens).1 c with ⟨g, hrefused⟩ | h
  · have hparse := parseTokens_guarded tokens c
    have hread : parseTokens tokens (Guarded.mk c) = .error .notCompiled g := by
      rw [parseTokens_eq_deliver]
      exact Parse.bind_error hrefused
    rw [hread] at hparse
    rcases hparse with hkind | ⟨hkind, -⟩
    · cases hkind
    · cases hkind
  · exact h

theorem parseTokens_eq_guarded (tokens : List Token) (c : Compiler) :
    parseTokens tokens (Guarded.mk c) = guardResult (parseTokens tokens c) := by
  have hsig : EventSink.signature? (Guarded.mk c) = c.registry.signature? := rfl
  have hsig' : EventSink.signature? c = c.registry.signature? := rfl
  rw [parseTokens_eq_deliver, parseTokens_eq_deliver, hsig, hsig']
  obtain ⟨hguarded, -⟩ := deliver_guarded tokens c
  cases hrun : EventSink.deliver (transcript c.registry.signature? tokens).1 c with
  | error e c' =>
    rw [hrun] at hguarded
    rw [Parse.bind_error hguarded, Parse.bind_error hrun]
    rfl
  | ok u c' =>
    rw [hrun] at hguarded
    rw [Parse.bind_ok hguarded, Parse.bind_ok hrun]
    cases (transcript c.registry.signature? tokens).2 <;> rfl

/-! ## Compiling -/

theorem compileTokens_error (h : compileTokens tokens c = .error err c') :
    Expected tokens err := by
  have hparse := parseTokens_guarded tokens c
  rw [parseTokens_eq_guarded] at hparse
  cases hrun : parseTokens tokens c with
  | error e inner =>
    rw [hrun] at hparse
    have hread : readTokens tokens c = .error e (inner.leaveTo c.enclosing.length) := by
      simp only [readTokens, hrun]
    rw [compileTokens, Parse.bind_error hread] at h
    cases h
    exact hparse
  | ok u inner =>
    rw [hrun] at hparse
    obtain ⟨s, hs⟩ := hparse
    have hread : readTokens tokens c = .ok () inner := by
      simp only [readTokens, hrun]
    have hs : inner.generator.selector = .ok s := hs
    have hend : (MonadExcept.ofExcept inner.generator.selector :
        EStateM SelectorError Compiler Selector) inner = .error err c' := by
      rw [compileTokens, Parse.bind_ok hread] at h
      exact h
    rw [hs] at hend
    cases hend

theorem compile_error (hsource : source ≠ "") (h : compile source c = .error err c') :
    err.kind = .format ∨ err.kind = .notSupported ∧
      ∃ tokens, tokenize source = .ok tokens ∧ Positional tokens := by
  cases htokens : tokenize source with
  | error e =>
    rw [compile, if_neg hsource, htokens] at h
    cases h
    exact .inl (tokenize_error htokens)
  | ok tokens =>
    rw [compile_of_tokenize hsource htokens] at h
    exact (compileTokens_error h).imp_right fun ⟨hkind, hpositional⟩ =>
      ⟨hkind, tokens, rfl, hpositional⟩

/-- Compiled tokens have a tree, and their selector is that of the tree. -/
theorem exists_tree (hc : c.Shares d) (h : compileTokens tokens c = .ok s c') :
    ∃ g : GroupTree, (transcript c.registry.signature? tokens).1 = g.events false ∧
      g.selector c.registry false = .ok s := by
  have hparse : ∃ inner, parseTokens tokens c = .ok () inner := by
    cases hrun : parseTokens tokens c with
    | ok u inner => exact ⟨inner, rfl⟩
    | error e inner =>
      have hread : readTokens tokens c = .error e (inner.leaveTo c.enclosing.length) := by
        simp only [readTokens, hrun]
      rw [compileTokens, Parse.bind_error hread] at h
      cases h
  obtain ⟨inner, hparse⟩ := hparse
  obtain ⟨es, htold⟩ := transcript_ok_of_parse hparse
  obtain ⟨g, hg, hes⟩ := transcript_ok_iff.mp htold
  obtain ⟨outcome, c₁, hrun, hbare, -⟩ := compileTokens_transparent d tokens c hc
  obtain ⟨c₂, htree⟩ := compileTokens_eq (c := c.bare) rfl hg
  have houtcome : .ok s = outcome := Except.eq_of_within (s := c') (h.symm.trans hrun)
  have hselector : outcome = g.selector c.registry false :=
    Except.eq_of_within (hbare.symm.trans htree)
  exact ⟨g, (congrArg Prod.fst htold).trans hes, (houtcome.trans hselector).symm⟩

/-! ## Evaluating -/

variable {u u' : Compiler} {input : List Place}

theorem evaluate_eq (hu : u.Shares d) (s : Selector) (input : List Place) :
    ∃ u', evaluate s input u = Except.within (s.eval d input) u' := by
  obtain ⟨outcome, u', hrun, hbare, -⟩ := evaluate_transparent d s input u hu
  have hplain : evaluate s input u.bare = Except.within (s.eval d input) u.bare := by
    simp only [evaluate, bare, hu.document]
    cases s.eval d input <;> rfl
  rw [Except.eq_of_within (hplain.symm.trans hbare)]
  exact ⟨u', hrun⟩

/-- The selector of a tree fails where an operator among the events of the tree does. -/
theorem evaluate_fault (hu : u.Shares d) {registry : Registry Place} {g : GroupTree}
    (hs : g.selector registry false = .ok s) (h : evaluate s input u = .error err u') :
    FaultOf (g.events false) err := by
  obtain ⟨u₁, hrun⟩ := evaluate_eq hu s input
  rw [h, group_eval g hs] at hrun
  have heval : .error err = g.eval d registry false input := Except.eq_of_within (s := u') hrun
  exact group_fault g hs heval.symm

/-- A compiled selector without custom ones fails at a region operator alone. -/
theorem evaluate_error (hc : c.Shares d) (hcompile : compileTokens tokens c = .ok s c')
    (hcustom : ∀ name arguments,
      .custom name arguments ∉ (transcript c.registry.signature? tokens).1)
    {d' : Document} (hu : u.Shares d') (h : evaluate s input u = .error err u') :
    (err = .splitterNotChild ∨ err = .limitNotChild) ∧
      ∃ pseudo, .grouped pseudo ∈ (transcript c.registry.signature? tokens).1 ∧
        pseudo ≠ .has ∧ pseudo ≠ .not := by
  obtain ⟨g, hevents, hselector⟩ := exists_tree hc hcompile
  have hbuiltin : ∀ e ∈ g.events false, e.Builtin := by
    intro e he
    rw [← hevents] at he
    cases e with
    | custom name arguments => exact hcustom name arguments he
    | _ => trivial
  obtain ⟨e, he, hfault⟩ := evaluate_fault hu hselector h hbuiltin
  obtain ⟨herr, pseudo, rfl, hne⟩ := Event.fault?_cases hfault
  rw [← hevents] at he
  exact ⟨herr, pseudo, he, hne⟩

end Compiler

section Texts

variable {d : Document} {c : Compiler} {source : String}

open Compiler in
/-- A text that is not empty fails to compile because it is malformed, or because of a position
formula where a constant is required. Up to its failure, whatever is taken from nested groups is
closed, and custom selectors are handed arguments of the types that they declare. If it compiles
and holds no custom selector, then it fails on an input only if a splitter or a limit is no child,
and never without a region operator. -/
theorem compile_failures (hc : c.Shares d) (hsource : source ≠ "") :
    (∀ err c', compile source c = .error err c' →
      err.kind = .format ∨ err.kind = .notSupported ∧ ∃ tokens, tokenize source = .ok tokens ∧
        ∃ t ∈ tokens, t.kind = .function ∧ t.text ∈ ["nth-child", "nth-last-child"]) ∧
    ∀ tokens, tokenize source = .ok tokens →
      let events := (transcript c.registry.signature? tokens).1
      (∀ before e after c', events = before ++ e :: after →
        EventSink.deliver before c = .ok () c' →
          ∃ nested : List Selector,
            (takeNested e.groupCount c').1.mapM Generator.selector = .ok nested ∧
              ∀ name arguments, e = .custom name arguments →
                ∃ info, c'.registry.find? name = some info ∧
                  (customArguments arguments nested).map (·.type) = info.types ∧
                  ∃ s, info.invoke name (customArguments arguments nested) = .ok s) ∧
      ∀ s c', compile source c = .ok s c' → (∀ name arguments, .custom name arguments ∉ events) →
        ∀ (d' : Document) (u : Compiler), u.Shares d' → ∀ input : List Place,
          (∀ err u', evaluate s input u = .error err u' →
            err = .splitterNotChild ∨ err = .limitNotChild) ∧
          ((∀ pseudo, .grouped pseudo ∈ events → pseudo = .has ∨ pseudo = .not) →
            ∃ output u', evaluate s input u = .ok output u') := by
  refine ⟨fun err c' h => compile_error hsource h, ?_⟩
  intro tokens htokens events
  refine ⟨?_, ?_⟩
  · intro before e after c' hsplit hrun
    have hready : ReadyFor events c := (deliver_guarded tokens c).2
    rw [hsplit] at hready
    obtain ⟨⟨nested, hnested, hhanded⟩, -⟩ := hready.ready hrun
    refine ⟨nested, hnested, ?_⟩
    rintro name arguments rfl
    obtain ⟨info, hinfo, htypes⟩ := hhanded
    exact ⟨info, hinfo, htypes, exists_invoke name htypes⟩
  · intro s c' hcompile hcustom d' u hu input
    rw [compile_of_tokenize hsource htokens] at hcompile
    have hfault {err : SelectorError} {u' : Compiler} (h : evaluate s input u = .error err u') :=
      evaluate_error hc hcompile hcustom hu h
    refine ⟨fun err u' h => (hfault h).1, fun hregion => ?_⟩
    cases hrun : evaluate s input u with
    | ok output u' => exact ⟨output, u', rfl⟩
    | error err u' =>
      obtain ⟨-, pseudo, hpseudo, hhas, hnot⟩ := hfault hrun
      rcases hregion pseudo hpseudo with rfl | rfl
      · exact absurd rfl hhas
      · exact absurd rfl hnot

end Texts

end Engine

open Compiler in
theorem compile_failures_has :
    let d : Document := .build [.element "a", .leaf "b"]
    let c : Compiler := { document := d }
    c.Shares d ∧ (":has(b)" : String) ≠ "" ∧ ∃ s c', compile ":has(b)" c = .ok s c' ∧
      ∃ output u', evaluate s [.node 0] c = .ok output u' := by
  intro d c
  have hc : c.Shares d := ⟨rfl, nofun⟩
  have hsource : (":has(b)" : String) ≠ "" := by decide
  have htokens : tokenize ":has(b)" = .ok [.ofKind .colon, ⟨.function, "has"⟩,
      ⟨.ident, "b"⟩, .ofKind .rightParen, .endOfInput] := tokenize_of_scanWithin (by cbv)
  have htold : (transcript ({} : Registry Place).signature? [.ofKind .colon,
      ⟨.function, "has"⟩, ⟨.ident, "b"⟩, .ofKind .rightParen, .endOfInput]).1 =
      [.init, .alternative, .universal .unstated, .nest, .init, .alternative, .type .unstated "b",
        .close, .grouped .has, .close] := by rfl
  have hcompile : ∃ s c', compile ":has(b)" c = .ok s c' := by
    rw [compile_of_tokenize hsource htokens]
    exact ⟨_, _, rfl⟩
  obtain ⟨s, c', hcompile⟩ := hcompile
  have heval := ((compile_failures hc hsource).2 _ htokens).2 s c' hcompile
  have hregistry : c.registry = {} := rfl
  rw [hregistry, htold] at heval
  exact ⟨hc, hsource, s, c', hcompile, (heval (by simp) d c hc [.node 0]).2 (by simp)⟩

end TreeQuery
