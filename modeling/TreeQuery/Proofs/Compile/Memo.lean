import TreeQuery.Compile.Compiler
import TreeQuery.Proofs.Event.Replay
import TreeQuery.Proofs.Selector.Memo

/-!
# Compiling with a memo

A compiler with a memo makes the same selectors as one without. On its way it registers steps with
the memo, which goes on to serve the document.
-/

set_option autoImplicit false

namespace TreeQuery

variable [PatternEngine]

namespace Compiler

def bare (c : Compiler) : Compiler :=
  { c with memo := none }

/-- A compiler over `d` whose memo, if there is one, serves `d`. -/
structure Shares (d : Document) (c : Compiler) : Prop where
  document : c.document = d
  serves : ∀ m : StageMemo Place, c.memo = some m → m.Serves d

/-- With and without the memo, the computation ends alike, up to the memo. -/
def Transparent {α : Type} (d : Document) (p : EStateM SelectorError Compiler α) : Prop :=
  ∀ c : Compiler, c.Shares d → ∃ (outcome : Except SelectorError α) (c' : Compiler),
    p c = Except.within outcome c' ∧ p c.bare = Except.within outcome c'.bare ∧ c'.Shares d

namespace Transparent

variable {d : Document} {α β : Type}

theorem pure (a : α) : Transparent d (Pure.pure a) :=
  fun c hc => ⟨.ok a, c, rfl, rfl, hc⟩

theorem throw (e : SelectorError) :
    Transparent d (MonadExcept.throw e : EStateM SelectorError Compiler α) :=
  fun c hc => ⟨.error e, c, rfl, rfl, hc⟩

theorem ofExcept (outcome : Except SelectorError α) :
    Transparent d (MonadExcept.ofExcept outcome) := by
  intro c hc
  refine ⟨outcome, c, ?_, ?_, hc⟩ <;> cases outcome <;> rfl

theorem bind {p : EStateM SelectorError Compiler α} (h : Transparent d p)
    {f : α → EStateM SelectorError Compiler β} (hf : ∀ a, Transparent d (f a)) :
    Transparent d (p >>= f) := by
  intro c hc
  obtain ⟨outcome, c', hrun, hbare, hc'⟩ := h c hc
  cases outcome with
  | error e => exact ⟨.error e, c', Parse.bind_error hrun, Parse.bind_error hbare, hc'⟩
  | ok a =>
    obtain ⟨outcome, c'', hrun', hbare', hc''⟩ := hf a c' hc'
    exact ⟨outcome, c'', (Parse.bind_ok hrun).trans hrun', (Parse.bind_ok hbare).trans hbare', hc''⟩

theorem modifyGet {f : Compiler → α × Compiler} (hanswer : ∀ c, (f c.bare).1 = (f c).1)
    (hbare : ∀ c, (f c.bare).2 = (f c).2.bare) (hshares : ∀ c, c.Shares d → (f c).2.Shares d) :
    Transparent d (MonadStateOf.modifyGet f) := by
  intro c hc
  refine ⟨.ok (f c).1, (f c).2, rfl, ?_, hshares c hc⟩
  rw [← hanswer, ← hbare]
  rfl

theorem modify {f : Compiler → Compiler} (hbare : ∀ c, f c.bare = (f c).bare)
    (hshares : ∀ c, c.Shares d → (f c).Shares d) :
    Transparent d
      (MonadState.modifyGet fun c => (PUnit.unit, f c) : EStateM SelectorError Compiler PUnit) :=
  modifyGet (fun _ => rfl) hbare hshares

/-- What is done may depend on the state, but not on its memo. -/
theorem get_bind {f : Compiler → EStateM SelectorError Compiler β} (hbare : ∀ c, f c.bare = f c)
    (h : ∀ c, Transparent d (f c)) : Transparent d (get >>= f) := by
  intro c hc
  obtain ⟨outcome, c', hrun, hrun', hc'⟩ := h c c hc
  refine ⟨outcome, c', hrun, ?_, hc'⟩
  rw [← hbare] at hrun'
  exact hrun'

end Transparent

/-! ## Changes of the generators -/

section Changes

variable {d : Document} {c : Compiler}

theorem Shares.update (h : c.Shares d) (f : Generator → Generator) : (c.update f).Shares d :=
  ⟨h.document, h.serves⟩

theorem Shares.enter (h : c.Shares d) : c.enter.Shares d :=
  ⟨h.document, h.serves⟩

theorem Shares.leave (h : c.Shares d) : c.leave.Shares d :=
  ⟨h.document, h.serves⟩

theorem Shares.memoize (h : c.Shares d) (s : Step) : (c.memoize s).Shares d where
  document := h.document
  serves := by
    intro m hm
    obtain ⟨m', hm', rfl⟩ := Option.map_eq_some_iff.1 hm
    rw [h.document]
    exact (h.serves m' hm').memoize s

theorem takeNested_bare (n : Nat) (c : Compiler) :
    takeNested n c.bare = ((takeNested n c).1, (takeNested n c).2.bare) := by
  induction n generalizing c with
  | zero => rfl
  | succ n ih =>
    have hleave : c.bare.leave = c.leave.bare := rfl
    simp only [takeNested, hleave, ih]
    rfl

theorem Shares.takeNested (h : c.Shares d) (n : Nat) : (takeNested n c).2.Shares d := by
  induction n generalizing c with
  | zero => exact h
  | succ n ih => exact ih h.leave

theorem repeat_leave_bare (n : Nat) (c : Compiler) :
    n.repeat leave c.bare = (n.repeat leave c).bare := by
  induction n with
  | zero => rfl
  | succ n ih =>
    simp only [Nat.repeat, ih]
    rfl

theorem Shares.leaveTo (h : c.Shares d) (depth : Nat) : (c.leaveTo depth).Shares d := by
  unfold Compiler.leaveTo
  induction c.enclosing.length - depth with
  | zero => exact h
  | succ n ih => exact ih.leave

theorem bare_leaveTo (depth : Nat) (c : Compiler) : c.bare.leaveTo depth = (c.leaveTo depth).bare :=
  repeat_leave_bare _ c

end Changes

/-! ## Events -/

theorem takeNested_registry (n : Nat) (c : Compiler) :
    (takeNested n c).2.registry = c.registry := by
  induction n generalizing c with
  | zero => rfl
  | succ n ih => exact ih c.leave

theorem handle_of_step {e : Event} {outcome : Except SelectorError Step}
    (h : Step.ofEvent? e = some outcome) : handle e = chainStep outcome := by
  cases e with
  | init => cases h
  | anchor => cases h
  | alternative => cases h
  | close => cases h
  | nest => cases h
  | _ => simp only [handle, h]

/-- What an event can do. -/
theorem handle_cases (e : Event) :
    (∃ f, handle e = modify (update f)) ∨ handle e = modify enter ∨
      (∃ outcome, handle e = chainStep outcome) ∨ handle e = handleNested e := by
  cases hstep : Step.ofEvent? e with
  | some outcome => exact .inr (.inr (.inl ⟨outcome, handle_of_step hstep⟩))
  | none =>
    cases e with
    | init => exact .inl ⟨_, rfl⟩
    | anchor => exact .inl ⟨_, rfl⟩
    | alternative => exact .inl ⟨_, rfl⟩
    | close => exact .inl ⟨_, rfl⟩
    | nest => exact .inr (.inl rfl)
    | grouped pseudo => exact .inr (.inr (.inr rfl))
    | custom name arguments => exact .inr (.inr (.inr rfl))
    | _ => cases hstep

theorem handleNested_transparent (d : Document) (e : Event) :
    Transparent d (handleNested e) := by
  refine (Transparent.modifyGet ?_ ?_ fun c hc => hc.takeNested _).bind fun nested =>
    (Transparent.ofExcept _).bind fun selectors => Transparent.get_bind (fun _ => rfl) fun c =>
      (Transparent.ofExcept _).bind fun s? => ?_
  · intro c
    rw [takeNested_bare]
  · intro c
    rw [takeNested_bare]
  · cases s? with
    | some s => exact Transparent.modify (fun _ => rfl) fun c hc => hc.update _
    | none => exact Transparent.pure ()

theorem chainStep_transparent (d : Document) (outcome : Except SelectorError Step) :
    Transparent d (chainStep outcome) := by
  cases outcome with
  | ok s => exact Transparent.modify (fun _ => rfl) fun c hc => (hc.memoize s).update _
  | error err => exact Transparent.throw err

theorem handle_transparent (d : Document) (e : Event) : Transparent d (handle e) := by
  rcases handle_cases e with ⟨f, h⟩ | h | ⟨outcome, h⟩ | h <;> rw [h]
  · exact Transparent.modify (fun _ => rfl) fun c hc => hc.update f
  · exact Transparent.modify (fun _ => rfl) fun c hc => hc.enter
  · exact chainStep_transparent d outcome
  · exact handleNested_transparent d e

theorem deliver_transparent (d : Document) (es : List Event) :
    Transparent d (EventSink.deliver es) := by
  induction es with
  | nil => exact Transparent.pure ()
  | cons e es ih => exact (handle_transparent d e).bind fun _ => ih

def KeepsRegistry {α : Type} (p : EStateM SelectorError Compiler α) : Prop :=
  ∀ c : Compiler, (lastState (p c)).registry = c.registry

theorem KeepsRegistry.bind {α β : Type} {p : EStateM SelectorError Compiler α}
    (h : KeepsRegistry p) {f : α → EStateM SelectorError Compiler β}
    (hf : ∀ a, KeepsRegistry (f a)) : KeepsRegistry (p >>= f) := by
  intro c
  have hc := h c
  cases hp : p c with
  | ok a c' =>
    rw [hp] at hc
    rw [Parse.bind_ok hp]
    exact (hf a c').trans hc
  | error e c' =>
    rw [hp] at hc
    rw [Parse.bind_error hp]
    exact hc

theorem KeepsRegistry.ofExcept {α : Type} (outcome : Except SelectorError α) :
    KeepsRegistry (MonadExcept.ofExcept outcome) := by
  intro c
  cases outcome <;> rfl

theorem handleNested_registry (e : Event) : KeepsRegistry (handleNested e) := by
  have htake : KeepsRegistry (modifyGet (takeNested e.groupCount)) :=
    fun c => takeNested_registry e.groupCount c
  have hget : KeepsRegistry get := fun c => rfl
  refine htake.bind fun nested => (KeepsRegistry.ofExcept _).bind fun selectors =>
    hget.bind fun c => (KeepsRegistry.ofExcept _).bind fun s? => ?_
  cases s? with
  | some s => exact fun c => rfl
  | none => exact fun c => rfl

instance : SteadySink Compiler where
  signature?_handle e c := by
    have hregistry : (lastState (handle e c)).registry = c.registry := by
      rcases handle_cases e with ⟨f, h⟩ | h | ⟨outcome, h⟩ | h <;> rw [h]
      · rfl
      · rfl
      · cases outcome <;> rfl
      · exact handleNested_registry e c
    show (lastState (handle e c)).registry.signature? = c.registry.signature?
    rw [hregistry]

/-! ## Texts -/

theorem parseTokens_transparent (d : Document) (tokens : List Token) :
    Transparent d (parseTokens tokens) := by
  intro c hc
  have hsig : EventSink.signature? c.bare = EventSink.signature? c := rfl
  have hread := (deliver_transparent d (transcript (EventSink.signature? c) tokens).1).bind
    fun _ => Transparent.ofExcept (transcript (EventSink.signature? c) tokens).2
  obtain ⟨outcome, c', hrun, hbare, hc'⟩ := hread c hc
  refine ⟨outcome, c', ?_, ?_, hc'⟩
  · rw [parseTokens_eq_deliver]
    exact hrun
  · rw [parseTokens_eq_deliver, hsig]
    exact hbare

theorem readTokens_transparent (d : Document) (tokens : List Token) :
    Transparent d (readTokens tokens) := by
  intro c hc
  obtain ⟨outcome, c', hrun, hbare, hc'⟩ := parseTokens_transparent d tokens c hc
  have henclosing : c.bare.enclosing = c.enclosing := rfl
  cases outcome with
  | ok u =>
    refine ⟨.ok (), c', ?_, ?_, hc'⟩
    · simp only [readTokens, hrun]
      rfl
    · simp only [readTokens, hbare]
      rfl
  | error e =>
    refine ⟨.error e, c'.leaveTo c.enclosing.length, ?_, ?_, hc'.leaveTo _⟩
    · simp only [readTokens, hrun]
      rfl
    · simp only [readTokens, hbare, henclosing, ← bare_leaveTo]
      rfl

theorem compileTokens_transparent (d : Document) (tokens : List Token) :
    Transparent d (compileTokens tokens) :=
  (readTokens_transparent d tokens).bind fun _ =>
    Transparent.get_bind (fun _ => rfl) fun _ => Transparent.ofExcept _

theorem compile_transparent (d : Document) (source : String) : Transparent d (compile source) := by
  have hrest : Transparent d (do
      let tokens ← MonadExcept.ofExcept (tokenize source)
      compileTokens tokens : EStateM SelectorError Compiler Selector) :=
    (Transparent.ofExcept _).bind fun tokens => compileTokens_transparent d tokens
  unfold compile
  split
  · exact (Transparent.throw _).bind fun _ => hrest
  · exact hrest

/-- Evaluation through the memo ends as evaluation without it. -/
theorem evaluate_transparent (d : Document) (s : Selector) (input : List Place) :
    Transparent d (evaluate s input) := by
  intro c hc
  obtain ⟨document, registry, memo, generator, enclosing⟩ := c
  obtain rfl : document = d := hc.document
  have hbare : evaluate s input (bare ⟨document, registry, memo, generator, enclosing⟩) =
      Except.within (s.eval document input)
        (bare ⟨document, registry, memo, generator, enclosing⟩) := by
    simp only [evaluate, bare]
    cases s.eval document input <;> rfl
  cases memo with
  | none => exact ⟨s.eval document input, _, hbare, hbare, hc⟩
  | some m =>
    obtain ⟨m', hrun, hm'⟩ := Selector.evalMemo_follows s input m (hc.serves m rfl)
    refine ⟨s.eval document input, ⟨document, registry, some m', generator, enclosing⟩, ?_, hbare,
      rfl, ?_⟩
    · simp only [evaluate, hrun]
      cases s.eval document input <;> rfl
    · intro m'' h
      obtain rfl := Option.some.inj h
      exact hm'

end Compiler

end TreeQuery
