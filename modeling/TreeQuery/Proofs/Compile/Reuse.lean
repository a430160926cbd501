import TreeQuery.Pattern.OfText
import TreeQuery.Proofs.Compile.Failures
import TreeQuery.Proofs.Compile.OnePass
import TreeQuery.Proofs.Event.Rules

/-!
# Compilers that are used again

Reading tokens starts a group anew and closes it last of all. So whatever was left in the generator
by earlier uses is forgotten, a failure leaves no selector behind, and a success leaves the selector
that a fresh compiler makes.
-/

set_option autoImplicit false

namespace TreeQuery

section Engine

variable [PatternEngine]

namespace Compiler

/-- Leaving a group takes its generator from the stack of generators. -/
theorem stack_repeat_leave {n : Nat} {c : Compiler} (h : n ≤ c.enclosing.length) :
    (n.repeat leave c).generator :: (n.repeat leave c).enclosing =
      (c.generator :: c.enclosing).drop n := by
  induction n with
  | zero => rfl
  | succ n ih =>
    have hleft := ih (Nat.le_of_succ_le h)
    have hlength := congrArg List.length hleft
    simp only [List.length_cons, List.length_drop] at hlength
    rw [← List.tail_drop, ← hleft, Nat.repeat, leave]
    cases henclosing : (n.repeat leave c).enclosing with
    | nil =>
      rw [henclosing, List.length_nil] at hlength
      omega
    | cons g outer => rfl

/-! ## Groups that are not closed yet -/

/-- The generator that stands directly on those of `outer` is not closed. -/
def Unclosed (outer : List Generator) (c : Compiler) : Prop :=
  ∃ (inner : List Generator) (g : Generator),
    c.generator :: c.enclosing = inner ++ g :: outer ∧ g.compiled = none

namespace Unclosed

variable {outer : List Generator} {c : Compiler}

/-- What happens to the innermost generator leaves others alone, and does not close it. -/
theorem update (h : Unclosed outer c) {f : Generator → Generator}
    (hf : ∀ g : Generator, g.compiled = none → (f g).compiled = none) :
    Unclosed outer (c.update f) := by
  obtain ⟨inner, g, hstack, hg⟩ := h
  cases inner with
  | nil =>
    obtain ⟨rfl, henclosing⟩ := List.cons.inj hstack
    exact ⟨[], f c.generator, congrArg (_ :: ·) henclosing, hf _ hg⟩
  | cons x inner =>
    obtain ⟨-, henclosing⟩ := List.cons.inj hstack
    exact ⟨f c.generator :: inner, g, congrArg (_ :: ·) henclosing, hg⟩

theorem enter (h : Unclosed outer c) : Unclosed outer c.enter := by
  obtain ⟨inner, g, hstack, hg⟩ := h
  exact ⟨{} :: inner, g, congrArg (_ :: ·) hstack, hg⟩

/-- A nested group that is closed is not the one in question. -/
theorem leave (h : Unclosed outer c) (hclosed : c.generator.compiled ≠ none) :
    Unclosed outer c.leave := by
  obtain ⟨inner, g, hstack, hg⟩ := h
  cases inner with
  | nil =>
    obtain ⟨rfl, -⟩ := List.cons.inj hstack
    exact absurd hg hclosed
  | cons x inner =>
    obtain ⟨-, henclosing⟩ := List.cons.inj hstack
    refine ⟨inner, g, ?_, hg⟩
    simp only [Compiler.leave, henclosing]
    cases inner <;> rfl

/-- Taking nested groups that are all closed stops short of the one in question. -/
theorem takeNested {n : Nat} (h : Unclosed outer c)
    (hclosed : ∀ g ∈ (Compiler.takeNested n c).1, g.compiled ≠ none) :
    Unclosed outer (Compiler.takeNested n c).2 := by
  induction n generalizing c with
  | zero => exact h
  | succ n ih =>
    apply ih
    · apply h.leave
      exact hclosed _ (List.mem_append_right _ List.mem_cons_self)
    · intro g hg
      exact hclosed g (List.mem_append_left _ hg)

/-- A nested group may be closed when it is not closed yet and stands above the one in question. -/
theorem close {inner : List Generator} {g : Generator} (hg : g.compiled = none)
    (h : Unclosed (inner ++ g :: outer) c) : Unclosed outer (c.update .close) := by
  obtain ⟨above, x, hstack, -⟩ := h
  cases above with
  | nil =>
    obtain ⟨-, henclosing⟩ := List.cons.inj hstack
    exact ⟨c.generator.close :: inner, g, congrArg (_ :: ·) henclosing, hg⟩
  | cons y above =>
    obtain ⟨-, henclosing⟩ := List.cons.inj hstack
    refine ⟨c.generator.close :: above ++ x :: inner, g, ?_, hg⟩
    show c.generator.close :: c.enclosing = _
    simp [henclosing]

/-- Leaving the nested groups leads back to the group, and it has no selector. -/
theorem leaveTo (h : Unclosed outer c) :
    (c.leaveTo outer.length).generator.selector = .error .notCompiled ∧
      (c.leaveTo outer.length).enclosing = outer := by
  obtain ⟨inner, g, hstack, hg⟩ := h
  have hlength := congrArg List.length hstack
  simp only [List.length_cons, List.length_append] at hlength
  have hcount : c.enclosing.length - outer.length = inner.length := by omega
  have hleft := stack_repeat_leave (n := inner.length) (c := c) (by omega)
  rw [hstack, List.drop_left] at hleft
  obtain ⟨hgenerator, henclosing⟩ := List.cons.inj hleft
  rw [Compiler.leaveTo, hcount]
  exact ⟨by rw [hgenerator, Generator.selector, hg], henclosing⟩

end Unclosed

theorem compiled_foldl_add (stages : List Selector) (g : Generator) :
    (stages.foldl .add g).compiled = g.compiled := by
  induction stages generalizing g with
  | nil => rfl
  | cons s stages ih => exact ih (g.add s)

theorem compiled_of_mapM {gs : List Generator} {ss : List Selector}
    (h : gs.mapM Generator.selector = .ok ss) : ∀ g ∈ gs, g.compiled ≠ none := by
  induction gs generalizing ss with
  | nil => simp
  | cons x gs ih =>
    rw [List.mapM_cons] at h
    obtain ⟨s, hs, h⟩ := except_bind_ok h
    obtain ⟨rest, hrest, -⟩ := except_bind_ok h
    intro g hg hnone
    rcases List.mem_cons.mp hg with rfl | hg
    · rw [Generator.selector, hnone] at hs
      cases hs
    · exact ih hrest g hg hnone

/-- No event other than the end of the group closes it, if the compiler is ready for the event. -/
theorem Unclosed.handle {outer : List Generator} {c : Compiler} {e : Event}
    (h : Unclosed outer c) (hready : c.Ready e) (hclose : e ≠ .close) :
    Unclosed outer (lastState (Compiler.handle e c)) := by
  have hnested : Unclosed outer (lastState (handleNested e c)) := by
    obtain ⟨nested, hnested, -⟩ := hready.nested
    have htaken := h.takeNested (compiled_of_mapM hnested)
    rcases handleNested_cases hnested with ⟨s?, hrun⟩ | ⟨err, hrun, -⟩
    · rw [hrun]
      exact htaken.update fun g hg => (compiled_foldl_add _ g).trans hg
    · rw [hrun]
      exact htaken
  cases hstep : Step.ofEvent? e with
  | some outcome =>
    rw [handle_of_step hstep]
    cases outcome with
    | error err => exact h
    | ok s =>
      have hadd : Unclosed outer ((c.memoize s).update (·.add (.step s))) :=
        Unclosed.update (c := c.memoize s) h fun _ hg => hg
      exact hadd
  | none =>
    cases e with
    | init => exact h.update fun _ _ => rfl
    | anchor => exact h.update fun _ hg => hg
    | alternative => exact h.update fun _ hg => hg
    | close => exact absurd rfl hclose
    | nest => exact h.enter
    | grouped pseudo => exact hnested
    | custom name arguments => exact hnested
    | _ => cases hstep

end Compiler

/-! ## Reading -/

open Compiler (Unclosed Guarded)

namespace Parse

section KeepsOpen

variable {R α β : Type}

/-- The part closes no group that was begun before it, whether it fails or not. -/
def KeepsOpen (p : Parse R Guarded α) : Prop :=
  ∀ (outer : List Generator) (r : R) (c : Compiler), Unclosed outer c →
    Unclosed outer (lastState (p ⟨r, ⟨c⟩⟩)).sink.compiler

theorem KeepsOpen.bind {p : Parse R Guarded α} (h : KeepsOpen p) {f : α → Parse R Guarded β}
    (hf : ∀ a, KeepsOpen (f a)) : KeepsOpen (p >>= f) := by
  intro outer r c hc
  have hp := h outer r c hc
  cases hrun : p ⟨r, ⟨c⟩⟩ with
  | error e s =>
    rw [hrun] at hp
    rw [bind_error hrun]
    exact hp
  | ok a s =>
    rw [hrun] at hp
    rw [bind_ok hrun]
    exact hf a outer s.source s.sink.compiler hp

theorem KeepsOpen.emit {e : Event} (he : e ≠ .close) :
    KeepsOpen (Parse.emit e : Parse R Guarded Unit) := by
  intro outer r c hc
  by_cases hready : c.Ready e
  · have hopen := hc.handle hready he
    have hguarded := Guarded.handle_ready hready
    cases hrun : Compiler.handle e c with
    | ok u c' =>
      rw [hrun] at hguarded hopen
      simp only [Parse.emit, hguarded, Compiler.guardResult]
      exact hopen
    | error err c' =>
      rw [hrun] at hguarded hopen
      simp only [Parse.emit, hguarded, Compiler.guardResult]
      exact hopen
  · simp only [Parse.emit, Guarded.handle_refused hready]
    exact hc

/-- A guarded compiler always closes its group. -/
theorem emit_close (r : R) (c : Compiler) :
    Parse.emit .close ⟨r, Guarded.mk c⟩ = .ok () ⟨r, ⟨c.update .close⟩⟩ := by
  have hready : c.Ready .close := ⟨⟨[], rfl, trivial⟩, trivial⟩
  simp only [Parse.emit, Guarded.handle_ready hready]
  rfl

theorem emit_nest (r : R) (c : Compiler) :
    Parse.emit .nest ⟨r, Guarded.mk c⟩ = .ok () ⟨r, ⟨c.enter⟩⟩ := by
  have hready : c.Ready .nest := ⟨⟨[], rfl, trivial⟩, trivial⟩
  simp only [Parse.emit, Guarded.handle_ready hready]
  rfl

/-- A nested group closes the group that it begins, and no other. -/
theorem KeepsOpen.nest {body : Parse R Guarded Unit} (h : KeepsOpen body) :
    KeepsOpen (do
      Parse.emit .nest
      body
      Parse.emit .close) := by
  intro outer r c hc
  obtain ⟨inner, g, hstack, hg⟩ := id hc
  rw [bind_ok (emit_nest r c)]
  have hbegun : Unclosed (inner ++ g :: outer) c.enter := ⟨[], {}, congrArg _ hstack, rfl⟩
  have houter := h outer r c.enter hc.enter
  have hinner := h _ r c.enter hbegun
  cases hrun : body ⟨r, ⟨c.enter⟩⟩ with
  | error e s =>
    rw [hrun] at houter
    rw [bind_error hrun]
    exact houter
  | ok u s =>
    rw [hrun] at hinner
    rw [bind_ok hrun]
    obtain ⟨r', ⟨c'⟩⟩ := s
    rw [emit_close]
    exact Unclosed.close hg hinner

variable [TokenSource R]

theorem KeepsOpen.tryRead (specs : List TokenSpec) :
    KeepsOpen (Parse.tryRead specs : Parse R Guarded (Option Token)) := by
  have hpeek : KeepsOpen (Parse.peek : Parse R Guarded Token) := fun _ _ _ h => h
  have hread : KeepsOpen (Parse.read : Parse R Guarded Token) := fun _ _ _ h => h
  refine hpeek.bind fun t => ?_
  split
  · exact hread.bind fun t _ _ _ h => h
  · exact fun _ _ _ h => h

theorem KeepsOpen.namespacePart :
    KeepsOpen (Parse.namespacePart : Parse R Guarded Namespace) := by
  refine (KeepsOpen.tryRead _).bind fun t? => ?_
  cases t? with
  | none => exact fun _ _ _ h => h
  | some t =>
    have hbar : KeepsOpen (do
        if ← Parse.skip .pipe then
          return if t.kind = .ident then .named t.text else .any
        Parse.unread t
        return .unstated : Parse R Guarded Namespace) := by
      have hskip : KeepsOpen (Parse.skip .pipe : Parse R Guarded Bool) :=
        (KeepsOpen.tryRead _).bind fun _ _ _ _ h => h
      refine hskip.bind fun bar => ?_
      cases bar with
      | false => exact fun _ _ _ h => h
      | true => exact fun _ _ _ h => h
    dsimp only
    split
    · exact fun _ _ _ h => h
    · exact hbar

theorem rules_keepsOpen : Rules (R := R) (G := Guarded) KeepsOpen where
  pure _ := fun _ _ _ h => h
  throw _ := fun _ _ _ h => h
  bind h hf := h.bind hf
  peek := fun _ _ _ h => h
  tryRead := KeepsOpen.tryRead
  namespacePart := KeepsOpen.namespacePart
  signature? _ := fun _ _ _ h => h
  emit e he := KeepsOpen.emit (e := e) (by
    rintro rfl
    cases he)
  nest := KeepsOpen.nest

end KeepsOpen

end Parse

namespace Compiler

variable {c c' : Compiler} {tokens : List Token} {s : Selector} {err : SelectorError}

/-- What was left in the generator does not matter. -/
theorem parseTokens_update (tokens : List Token) (c : Compiler) (f : Generator → Generator) :
    parseTokens tokens (c.update f) = parseTokens tokens c :=
  rfl

/-- Reading that fails leaves the group unclosed. -/
theorem parseTokens_unclosed (h : parseTokens tokens c = .error err c') :
    Unclosed c.enclosing c' := by
  rw [← parseTokens_update tokens c fun _ => {}] at h
  have hguarded := parseTokens_eq_guarded tokens (c.update fun _ => {})
  rw [h] at hguarded
  have hopen := Parse.rules_keepsOpen.unclosedGroup (R := TokenReader) (tokens.length + 1)
    c.enclosing (TokenReader.ofList tokens) (c.update fun _ => {}) ⟨[], {}, rfl, rfl⟩
  unfold parseTokens at hguarded
  rw [Parse.group_eq] at hguarded
  cases hrun : (Parse.unclosedGroup (tokens.length + 1) : Parse TokenReader Guarded Unit)
      ⟨TokenReader.ofList tokens, Guarded.mk (c.update fun _ => {})⟩ with
  | error e s =>
    obtain ⟨r, ⟨c₁⟩⟩ := s
    rw [hrun] at hopen
    rw [Parse.bind_error hrun] at hguarded
    cases hguarded
    exact hopen
  | ok u s =>
    obtain ⟨r, ⟨c₁⟩⟩ := s
    rw [Parse.bind_ok hrun, Parse.emit_close] at hguarded
    cases hguarded

theorem readTokens_error (h : readTokens tokens c = .error err c') :
    c'.generator.selector = .error .notCompiled := by
  cases hparse : parseTokens tokens c with
  | ok u c₁ =>
    simp only [readTokens, hparse] at h
    cases h
  | error e c₁ =>
    simp only [readTokens, hparse] at h
    cases h
    exact (parseTokens_unclosed hparse).leaveTo.1

theorem readTokens_eq_ok_iff :
    readTokens tokens c = .ok () c' ↔ parseTokens tokens c = .ok () c' := by
  unfold readTokens
  cases parseTokens tokens c with
  | ok u c₁ => exact Iff.rfl
  | error e c₁ => simp

theorem readTokens_ok (h : readTokens tokens c = .ok () c') :
    ∃ s, c'.generator.selector = .ok s := by
  have hguarded := parseTokens_guarded tokens c
  rw [parseTokens_eq_guarded, readTokens_eq_ok_iff.mp h] at hguarded
  exact hguarded

/-- A text compiles to the selector that reading its tokens leaves in the generator. -/
theorem compileTokens_eq_ok_iff :
    compileTokens tokens c = .ok s c' ↔
      readTokens tokens c = .ok () c' ∧ c'.generator.selector = .ok s := by
  cases hread : readTokens tokens c with
  | error e c₁ =>
    rw [compileTokens, Parse.bind_error hread]
    simp
  | ok u c₁ =>
    have hrun : compileTokens tokens c = Except.within c₁.generator.selector c₁ := by
      rw [compileTokens, Parse.bind_ok hread]
      show (MonadExcept.ofExcept c₁.generator.selector : EStateM SelectorError Compiler _) c₁ = _
      cases c₁.generator.selector <;> rfl
    rw [hrun]
    constructor
    · intro h
      cases hs : c₁.generator.selector with
      | error e =>
        rw [hs] at h
        cases h
      | ok t =>
        rw [hs] at h
        cases h
        exact ⟨rfl, hs⟩
    · rintro ⟨h, hs⟩
      cases h
      rw [hs]
      rfl

/-- Without a memo, the custom selectors alone decide what tokens compile to. -/
theorem compileTokens_of_registry {c₁ c₂ : Compiler} (h₁ : c₁.memo = none) (h₂ : c₂.memo = none)
    (hregistry : c₂.registry = c₁.registry) (h : compileTokens tokens c₁ = .ok s c') :
    ∃ c'', compileTokens tokens c₂ = .ok s c'' := by
  obtain ⟨hread, -⟩ := compileTokens_eq_ok_iff.mp h
  obtain ⟨es, htold⟩ := transcript_ok_of_parse (readTokens_eq_ok_iff.mp hread)
  obtain ⟨g, hg, -⟩ := transcript_ok_iff.mp htold
  obtain ⟨c, hrun⟩ := compileTokens_eq h₁ hg
  have hg' : g.Written c₂.registry.signature? (beforeEnd tokens) := by
    rw [hregistry]
    exact hg
  obtain ⟨c'', hrun'⟩ := compileTokens_eq h₂ hg'
  have hselector : g.selector c₁.registry false = .ok s :=
    Except.eq_of_within (y := .ok s) (hrun.symm.trans h)
  rw [hregistry, hselector] at hrun'
  exact ⟨c'', hrun'⟩

/-- A memo changes nothing in what tokens compile to. -/
theorem compileTokens_ok_bare {d : Document} (hc : c.Shares d)
    (h : compileTokens tokens c = .ok s c') :
    c'.Shares d ∧ compileTokens tokens c.bare = .ok s c'.bare := by
  obtain ⟨outcome, c₁, hrun, hbare, hc₁⟩ := compileTokens_transparent d tokens c hc
  obtain rfl := Except.eq_of_within (y := .ok s) (hrun.symm.trans h)
  cases hrun.symm.trans h
  exact ⟨hc₁, hbare⟩

/-- Reading tokens into a compiler that was used before, in whatever way, is reading them into one
whose group is fresh. A failure leaves no selector. A success leaves the selector that a fresh
compiler without a memo makes of the tokens, and it gives the same answers with the memo, if there
is one and it serves the document. -/
theorem readTokens_reused (tokens : List Token) (c : Compiler) :
    readTokens tokens c = readTokens tokens { c with generator := {} } ∧
      match readTokens tokens c with
      | .error _ c' => c'.generator.selector = .error .notCompiled
      | .ok _ c' => ∃ s, c'.generator.selector = .ok s ∧
          (c.Shares c.document → ∃ fresh,
            compileTokens tokens { document := c.document, registry := c.registry } = .ok s fresh ∧
              ∀ input, ∃ answer c₁ c₂, evaluate s input c' = Except.within answer c₁ ∧
                evaluate s input fresh = Except.within answer c₂) := by
  refine ⟨rfl, ?_⟩
  cases hread : readTokens tokens c with
  | error err c' => exact readTokens_error hread
  | ok u c' =>
    obtain ⟨s, hs⟩ := readTokens_ok hread
    refine ⟨s, hs, fun hc => ?_⟩
    have hcompile := compileTokens_eq_ok_iff.mpr ⟨hread, hs⟩
    obtain ⟨hc', hbare⟩ := compileTokens_ok_bare hc hcompile
    have hnew : Shares c.document { document := c.document, registry := c.registry } :=
      ⟨rfl, nofun⟩
    obtain ⟨fresh, hfresh⟩ : ∃ fresh,
        compileTokens tokens { document := c.document, registry := c.registry } = .ok s fresh :=
      compileTokens_of_registry (rfl : c.bare.memo = none) rfl rfl hbare
    obtain ⟨hfresh', -⟩ := compileTokens_ok_bare hnew hfresh
    refine ⟨fresh, hfresh, fun input => ?_⟩
    obtain ⟨c₁, heval⟩ := evaluate_eq hc' s input
    obtain ⟨c₂, heval'⟩ := evaluate_eq hfresh' s input
    exact ⟨_, c₁, c₂, heval, heval'⟩

end Compiler

end Engine

namespace Compiler

/-- A generator full of remains reads one text that breaks off and one that does not. -/
theorem readTokens_reused_remains :
    let s : Selector := .step (.universal .unstated)
    let t : Selector := .group false [.step (.type .unstated "b")]
    let c : Compiler :=
      { document := .build [.leaf "a", .leaf "b"], memo := some { capacity := 1 },
        generator := ⟨[s], some s, true, some s⟩ }
    (∃ e c', readTokens [.ofKind .colon, ⟨.function, "has"⟩, ⟨.ident, "a"⟩] c = .error e c' ∧
      c'.generator.selector = .error .notCompiled) ∧
    ∃ c' c₁, readTokens [⟨.ident, "b"⟩] c = .ok () c' ∧ c'.generator.selector = .ok t ∧
      evaluate t [.node 0] c' = .ok [.node 2] c₁ := by
  intro s t c
  have hc : c.Shares c.document := by
    refine ⟨rfl, fun m hm => ?_⟩
    obtain rfl := Option.some.inj hm
    exact StageMemo.Serves.empty c.document 1
  constructor
  · exact ⟨_, _, rfl, (readTokens_reused [.ofKind .colon, ⟨.function, "has"⟩, ⟨.ident, "a"⟩] c).2⟩
  · have hread : readTokens [⟨.ident, "b"⟩] c = .ok ()
        { c with
          memo := some (StageMemo.memoize { capacity := 1 }
            ((Step.type .unstated "b").keyed c.document))
          generator := { compiled := some t } } := rfl
    have hfresh : compileTokens [⟨.ident, "b"⟩] { document := c.document, registry := c.registry } =
        .ok t { document := c.document, generator := { compiled := some t } } := rfl
    have hreused := (readTokens_reused [⟨.ident, "b"⟩] c).2
    rw [hread] at hreused
    obtain ⟨t', ht, hreused⟩ := hreused
    cases ht
    obtain ⟨fresh, hfresh', hreused⟩ := hreused hc
    rw [hfresh] at hfresh'
    cases hfresh'
    obtain ⟨answer, c₁, c₂, hanswer, hplain⟩ := hreused [.node 0]
    have heval : t.eval c.document [.node 0] = .ok [.node 2] := by cbv
    have hanswer' : Except.within (t.eval c.document [.node 0])
        { document := c.document, generator := { compiled := some t } } =
          Except.within answer c₂ := by
      rw [← hplain]
      simp only [evaluate]
      cases t.eval c.document [.node 0] <;> rfl
    obtain rfl := Except.eq_of_within hanswer'
    rw [heval] at hanswer
    exact ⟨_, c₁, hread, rfl, hanswer⟩

end Compiler

end TreeQuery
