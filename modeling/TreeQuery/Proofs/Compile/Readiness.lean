import TreeQuery.Proofs.Compile.Memo

/-!
# Ready compilers

An event over nested groups finds them finished on top of the generators of the groups around it.
A compiler that is ready for an event fails on it for a malformed pattern alone. A guarded compiler
refuses an event for which it is not ready, and is otherwise the compiler itself.
-/

set_option autoImplicit false

namespace TreeQuery

def EventArgument.type : EventArgument → ArgumentType
  | string _ => .string
  | integer _ => .integer
  | group => .subSelector

def Event.Constant : Event → Prop
  | nthChild step _ | nthLastChild step _ => step = 1
  | _ => True

variable [PatternEngine]

namespace Compiler

/-- A custom selector is registered and handed arguments of the types that it declares. -/
def Handed (registry : Registry Place) (nested : List Selector) : Event → Prop
  | .custom name arguments => ∃ info, registry.find? name = some info ∧
      (customArguments arguments nested).map (·.type) = info.types
  | _ => True

/-- The nested groups that the event takes are closed, and their selectors are handed over as they
should be. -/
structure Ready (c : Compiler) (e : Event) : Prop where
  nested : ∃ nested : List Selector,
    (takeNested e.groupCount c).1.mapM Generator.selector = .ok nested ∧
      Handed c.registry nested e
  constant : e.Constant

/-- Besides the groups of `outer`, `n` nested groups are open no more but still to be used. -/
def Above (registry : Registry Place) (outer : List Generator) : Nat → Compiler → Prop
  | 0, c => c.registry = registry ∧ c.enclosing = outer
  | n + 1, c => (∃ s, c.generator.selector = .ok s) ∧ Above registry outer n c.leave

variable {registry : Registry Place} {outer : List Generator} {n : Nat} {c c' : Compiler}

namespace Above

theorem congr (h : Above registry outer n c) (hregistry : c'.registry = c.registry)
    (hgenerator : c'.generator = c.generator) (henclosing : c'.enclosing = c.enclosing) :
    Above registry outer n c' := by
  induction n generalizing c c' with
  | zero => exact ⟨hregistry.trans h.1, henclosing.trans h.2⟩
  | succ n ih =>
    refine ⟨hgenerator ▸ h.1, ih h.2 hregistry ?_ ?_⟩
    · exact congrArg (List.headD · {}) henclosing
    · exact congrArg List.tail henclosing

theorem registry_eq (h : Above registry outer n c) : c.registry = registry := by
  induction n generalizing c with
  | zero => exact h.1
  | succ n ih =>
    have hleave : c.leave.registry = registry := ih h.2
    exact hleave

/-- A finished group counts with those that were finished before it was entered. -/
theorem finish (h : Above registry outer n c)
    (hinner : Above registry (c.generator :: c.enclosing) 0 c')
    (hclosed : ∃ s, c'.generator.selector = .ok s) : Above registry outer (n + 1) c' := by
  refine ⟨hclosed, h.congr ?_ ?_ ?_⟩
  · exact hinner.1.trans h.registry_eq.symm
  · show c'.enclosing.headD {} = c.generator
    rw [hinner.2]
    rfl
  · show c'.enclosing.tail = c.enclosing
    rw [hinner.2]
    rfl

theorem takeNested (h : Above registry outer n c) :
    ∃ nested : List Selector, nested.length = n ∧
      (Compiler.takeNested n c).1.mapM Generator.selector = .ok nested ∧
      Above registry outer 0 (Compiler.takeNested n c).2 := by
  induction n generalizing c with
  | zero => exact ⟨[], rfl, rfl, h⟩
  | succ n ih =>
    obtain ⟨⟨s, hs⟩, hleave⟩ := h
    obtain ⟨nested, hlength, hnested, houter⟩ := ih hleave
    refine ⟨nested ++ [s], by simp [hlength], ?_, houter⟩
    rw [Compiler.takeNested, List.mapM_append, hnested]
    simp [hs]
    rfl

end Above

/-- Arguments of the declared types are accepted. -/
theorem exists_invoke {info : CustomSelector Place} {arguments : List (CustomArgument Selector)}
    (name : String) (h : arguments.map (·.type) = info.types) :
    ∃ s, info.invoke name arguments = .ok s := by
  obtain ⟨values, hvalues⟩ :=
    Option.isSome_iff_exists.mp ((Arguments.isSome_ofList? info.types arguments 0).mpr h)
  rw [CustomSelector.invoke, hvalues]
  exact ⟨_, rfl⟩

theorem types_customArguments {arguments : List EventArgument} {nested : List Selector}
    (h : nested.length = arguments.count .group) :
    (customArguments arguments nested).map (·.type) = arguments.map EventArgument.type := by
  induction arguments generalizing nested with
  | nil =>
    rw [List.eq_nil_of_length_eq_zero h]
    rfl
  | cons a arguments ih =>
    cases a with
    | string text => exact congrArg (_ :: ·) (ih (by simpa using h))
    | integer value => exact congrArg (_ :: ·) (ih (by simpa using h))
    | group =>
      cases nested with
      | nil => simp at h
      | cons s nested => exact congrArg (_ :: ·) (ih (by simpa using h))

/-! ## Events -/

/-- What is asked of an event that opens no group, apart from the groups under construction. -/
def Fits (registry : Registry Place) : Event → Prop
  | .nest => False
  | .custom name arguments => registry.signature? name = some (arguments.map EventArgument.type)
  | e => e.Constant

theorem Above.ready {e : Event} (h : Above registry outer e.groupCount c)
    (hfits : Fits registry e) : c.Ready e := by
  obtain ⟨nested, hlength, hnested, -⟩ := h.takeNested
  cases e with
  | custom name arguments =>
    obtain ⟨info, hinfo, htypes⟩ := Option.map_eq_some_iff.mp hfits
    rw [← h.registry_eq] at hinfo
    have hhanded := (types_customArguments hlength).trans htypes.symm
    exact ⟨⟨nested, hnested, info, hinfo, hhanded⟩, trivial⟩
  | nest => exact hfits.elim
  | _ => exact ⟨⟨nested, hnested, trivial⟩, hfits⟩

/-- An event over nested groups takes them in any case, and chains what it makes of them. -/
theorem handleNested_eq (e : Event) (c : Compiler) :
    handleNested e c =
      match ((takeNested e.groupCount c).1.mapM Generator.selector : Except SelectorError _) >>=
          (nestedSelector c.registry · e) with
      | .ok s? => .ok () ((takeNested e.groupCount c).2.update fun g => s?.toList.foldl .add g)
      | .error err => .error err (takeNested e.groupCount c).2 := by
  have hget : (modifyGet (takeNested e.groupCount) : EStateM SelectorError Compiler _) c =
      .ok (takeNested e.groupCount c).1 (takeNested e.groupCount c).2 := rfl
  unfold handleNested
  rw [Parse.bind_ok hget, ← takeNested_registry e.groupCount c]
  cases ((takeNested e.groupCount c).1.mapM Generator.selector :
      Except SelectorError (List Selector)) with
  | error err => rfl
  | ok nested =>
    generalize (takeNested e.groupCount c).2 = outer
    have hbind : (Except.ok nested >>= (nestedSelector outer.registry · e)) =
        nestedSelector outer.registry nested e := rfl
    rw [hbind]
    show (MonadExcept.ofExcept (nestedSelector outer.registry nested e) >>= chainSelector :
      EStateM SelectorError Compiler Unit) outer = _
    cases nestedSelector outer.registry nested e with
    | error err => rfl
    | ok s? => cases s? <;> rfl

/-- An event over closed groups chains what it makes after the groups around them. -/
theorem handleNested_cases {e : Event} {nested : List Selector}
    (h : (takeNested e.groupCount c).1.mapM Generator.selector = .ok nested) :
    (∃ s? : Option Selector, handleNested e c =
        .ok () ((takeNested e.groupCount c).2.update fun g => s?.toList.foldl .add g)) ∨
      ∃ err, handleNested e c = .error err (takeNested e.groupCount c).2 ∧
        nestedSelector c.registry nested e = .error err := by
  have hrun := handleNested_eq e c
  have hbind : (Except.ok nested >>= (nestedSelector c.registry · e)) =
      nestedSelector c.registry nested e := rfl
  rw [h, hbind] at hrun
  cases hmade : nestedSelector c.registry nested e with
  | error err =>
    rw [hmade] at hrun
    exact .inr ⟨err, hrun, rfl⟩
  | ok s? =>
    rw [hmade] at hrun
    exact .inl ⟨s?, hrun⟩

/-- After an event that took the groups on top, those around it are left. -/
theorem Above.handle {e : Event} (h : Above registry outer e.groupCount c)
    (hfits : Fits registry e) (hrun : Compiler.handle e c = .ok () c') :
    Above registry outer 0 c' := by
  obtain ⟨nested, -, hnested, houter⟩ := h.takeNested
  cases hstep : Step.ofEvent? e with
  | some outcome =>
    have hcount : e.groupCount = 0 := by
      cases e with
      | grouped pseudo => cases hstep
      | custom name arguments => cases hstep
      | _ => rfl
    rw [hcount] at h
    rw [handle_of_step hstep] at hrun
    cases outcome with
    | error err => cases hrun
    | ok s =>
      cases hrun
      exact h
  | none =>
    have hgroups (hrun : handleNested e c = .ok () c') : Above registry outer 0 c' := by
      rcases handleNested_cases hnested with ⟨f, heq⟩ | ⟨err, heq, -⟩
      · rw [heq] at hrun
        cases hrun
        exact houter
      · rw [heq] at hrun
        cases hrun
    cases e with
    | init => cases hrun; exact h
    | anchor => cases hrun; exact h
    | alternative => cases hrun; exact h
    | close => cases hrun; exact h
    | nest => exact hfits.elim
    | grouped pseudo => exact hgroups hrun
    | custom name arguments => exact hgroups hrun
    | _ => cases hstep

theorem selector_of_close (hrun : handle .close c = .ok () c') :
    ∃ s, c'.generator.selector = .ok s := by
  cases hrun
  exact ⟨_, rfl⟩

theorem Pattern.kind_of_error {text : String} {err : SelectorError}
    (h : Pattern.ofText text = .error err) : err.kind = .format := by
  cases hbuild : PatternEngine.build ⟨true, true⟩ text with
  | ok regex => cases (Pattern.ofText_of_ok hbuild).symm.trans h
  | error reason? =>
    cases (Pattern.ofText_of_error hbuild).symm.trans h
    rfl

theorem Step.error_of_event {e : Event} {err : SelectorError} (hconstant : e.Constant)
    (h : Step.ofEvent? e = some (.error err)) : err.kind = .format := by
  cases e with
  | compareAttribute ns name comparison value =>
    have h := Option.some.inj h
    cases comparison with
    | regexMatch =>
      simp only [ValueTest.ofComparison] at h
      cases hpattern : Pattern.ofText value with
      | error e =>
        rw [hpattern] at h
        cases h
        exact Pattern.kind_of_error hpattern
      | ok pattern =>
        rw [hpattern] at h
        cases h
    | _ => cases h
  | nthChild step offset =>
    obtain rfl : step = 1 := hconstant
    cases h
  | nthLastChild step offset =>
    obtain rfl : step = 1 := hconstant
    cases h
  | matchesText pattern =>
    have h := Option.some.inj h
    cases hpattern : Pattern.ofText pattern with
    | error e =>
      rw [hpattern] at h
      cases h
      exact Pattern.kind_of_error hpattern
    | ok p =>
      rw [hpattern] at h
      cases h
  | _ => cases h

/-- A compiler that is ready for an event can only find a malformed pattern. -/
theorem Ready.handle_error {e : Event} {err : SelectorError} (h : c.Ready e)
    (hrun : handle e c = .error err c') : err.kind = .format := by
  obtain ⟨nested, hnested, hcustom⟩ := h.nested
  cases hstep : Step.ofEvent? e with
  | some outcome =>
    rw [handle_of_step hstep] at hrun
    cases outcome with
    | ok s => cases hrun
    | error err' =>
      cases hrun
      exact Step.error_of_event h.constant hstep
  | none =>
    have hgroups (hrun : handleNested e c = .error err c') :
        nestedSelector c.registry nested e = .error err := by
      rcases handleNested_cases hnested with ⟨f, heq⟩ | ⟨err', heq, hfail⟩
      · rw [heq] at hrun
        cases hrun
      · rw [heq] at hrun
        cases hrun
        exact hfail
    cases e with
    | init => cases hrun
    | anchor => cases hrun
    | alternative => cases hrun
    | close => cases hrun
    | nest => cases hrun
    | grouped pseudo => cases hgroups hrun
    | custom name arguments =>
      obtain ⟨info, hinfo, htypes⟩ := hcustom
      obtain ⟨s, hs⟩ := exists_invoke name htypes
      have hfail := hgroups hrun
      rw [nestedSelector, hinfo] at hfail
      simp only [hs] at hfail
      cases hfail
    | _ => cases hstep

/-! ## Guarded compilers -/

/-- A compiler that refuses an event for which it is not ready. -/
structure Guarded where
  compiler : Compiler

def guardResult {α : Type} : EStateM.Result SelectorError Compiler α →
    EStateM.Result SelectorError Guarded α
  | .ok a c => .ok a ⟨c⟩
  | .error e c => .error e ⟨c⟩

open Classical in
noncomputable instance : EventSink Guarded where
  signature? g name := g.compiler.registry.signature? name
  handle e g := if g.compiler.Ready e then guardResult (handle e g.compiler)
    else .error .notCompiled g

theorem Guarded.handle_ready {e : Event} (h : c.Ready e) :
    EventSink.handle e (Guarded.mk c) = guardResult (Compiler.handle e c) :=
  if_pos h

theorem Guarded.handle_refused {e : Event} (h : ¬ c.Ready e) :
    EventSink.handle e (Guarded.mk c) = .error .notCompiled ⟨c⟩ :=
  if_neg h

instance : SteadySink Guarded where
  signature?_handle e g := by
    obtain ⟨c⟩ := g
    by_cases h : c.Ready e
    · rw [Guarded.handle_ready h]
      have hsteady : EventSink.signature? (lastState (handle e c)) = EventSink.signature? c :=
        SteadySink.signature?_handle e c
      cases hrun : handle e c with
      | ok u c' =>
        rw [hrun] at hsteady
        exact hsteady
      | error err c' =>
        rw [hrun] at hsteady
        exact hsteady
    · rw [Guarded.handle_refused h]
      rfl

/-- The compiler is ready for each of the events that it reaches. -/
def ReadyFor : List Event → Compiler → Prop
  | [], _ => True
  | e :: es, c => c.Ready e ∧ ∀ c', Compiler.handle e c = .ok () c' → ReadyFor es c'

theorem ReadyFor.ready {before after : List Event} {e : Event}
    (h : ReadyFor (before ++ e :: after) c) (hrun : EventSink.deliver before c = .ok () c') :
    c'.Ready e := by
  induction before generalizing c with
  | nil =>
    cases hrun
    exact h.1
  | cons x before ih =>
    cases hx : Compiler.handle x c with
    | error err c₁ =>
      have hfail : EventSink.deliver (x :: before) c = .error err c₁ := Parse.bind_error hx
      rw [hfail] at hrun
      cases hrun
    | ok u c₁ =>
      have hdeliver : EventSink.deliver (x :: before) c = EventSink.deliver before c₁ :=
        Parse.bind_ok hx
      rw [hdeliver] at hrun
      exact ih (h.2 c₁ hx) hrun

/-- A guarded compiler refuses some event, or it does what the compiler does, which is ready for
every event that it reaches. -/
theorem Guarded.deliver_cases (es : List Event) (c : Compiler) :
    (∃ g, EventSink.deliver es (Guarded.mk c) = .error .notCompiled g) ∨
      EventSink.deliver es (Guarded.mk c) = guardResult (EventSink.deliver es c) ∧
      ReadyFor es c := by
  induction es generalizing c with
  | nil => exact .inr ⟨rfl, trivial⟩
  | cons x es ih =>
    by_cases hx : c.Ready x
    · have hguarded := Guarded.handle_ready hx
      cases hrun : Compiler.handle x c with
      | error err c₁ =>
        rw [hrun] at hguarded
        have hdeliver : EventSink.deliver (x :: es) c = .error err c₁ := Parse.bind_error hrun
        have hdeliver' : EventSink.deliver (x :: es) (Guarded.mk c) = .error err ⟨c₁⟩ :=
          Parse.bind_error hguarded
        rw [hdeliver, hdeliver']
        refine .inr ⟨rfl, hx, ?_⟩
        intro c' hok
        rw [hrun] at hok
        cases hok
      | ok u c₁ =>
        rw [hrun] at hguarded
        have hdeliver : EventSink.deliver (x :: es) c = EventSink.deliver es c₁ :=
          Parse.bind_ok hrun
        have hdeliver' : EventSink.deliver (x :: es) (Guarded.mk c) =
            EventSink.deliver es (Guarded.mk c₁) := Parse.bind_ok hguarded
        rw [hdeliver, hdeliver']
        refine (ih c₁).imp_right fun ⟨hagree, hready⟩ => ⟨hagree, hx, ?_⟩
        intro c' hok
        rw [hrun] at hok
        cases hok
        exact hready
    · exact .inl ⟨_, Parse.bind_error (Guarded.handle_refused hx)⟩

end Compiler

end TreeQuery
