import TreeQuery.Proofs.Compile.TreeEvaluation

/-!
# Faults of an evaluation

A compiled selector without custom ones fails for one reason alone: a region operator is handed a
place that is no child. The operator that raises the error is among the events of the tree.
-/

set_option autoImplicit false

namespace TreeQuery

/-- The error that the operator told by an event raises on a place that is no child. -/
def Event.fault? : Event → Option SelectorError
  | .grouped (.split _) => some .splitterNotChild
  | .grouped .before | .grouped .after | .grouped .between => some .limitNotChild
  | _ => none

theorem Event.fault?_cases {e : Event} {err : SelectorError} (h : e.fault? = some err) :
    (err = .splitterNotChild ∨ err = .limitNotChild) ∧
      ∃ pseudo, e = .grouped pseudo ∧ pseudo ≠ .has ∧ pseudo ≠ .not := by
  cases e with
  | grouped pseudo =>
    cases pseudo with
    | has => cases h
    | not => cases h
    | split mode =>
      cases h
      exact ⟨.inl rfl, _, rfl, nofun, nofun⟩
    | _ =>
      cases h
      exact ⟨.inr rfl, _, rfl, nofun, nofun⟩
  | _ => cases h

def Event.Builtin : Event → Prop
  | .custom .. => False
  | _ => True

/-! ## Lists -/

section Lists

variable {α β : Type} {e : SelectorError}

theorem except_bind_error {x : Except SelectorError α} {f : α → Except SelectorError β}
    (h : x >>= f = .error e) : x = .error e ∨ ∃ a, x = .ok a ∧ f a = .error e := by
  cases x with
  | error err =>
    obtain rfl : err = e := Except.error.inj h
    exact .inl rfl
  | ok a => exact .inr ⟨a, rfl, h⟩

theorem mapM_error {f : α → Except SelectorError β} {xs : List α}
    (h : xs.mapM f = .error e) : ∃ x ∈ xs, f x = .error e := by
  induction xs with
  | nil => cases h
  | cons x xs ih =>
    rw [List.mapM_cons] at h
    rcases except_bind_error h with hx | ⟨y, -, h⟩
    · exact ⟨x, List.mem_cons_self, hx⟩
    · rcases except_bind_error h with hxs | ⟨ys, -, h⟩
      · obtain ⟨z, hz, hfail⟩ := ih hxs
        exact ⟨z, List.mem_cons_of_mem x hz, hfail⟩
      · cases h

theorem filterM_error {f : α → Except SelectorError Bool} {xs : List α}
    (h : xs.filterM f = .error e) : ∃ x ∈ xs, f x = .error e := by
  rw [filterM_eq] at h
  rcases except_bind_error h with h | ⟨kept, -, h⟩
  · obtain ⟨x, hx, h⟩ := mapM_error h
    rcases except_bind_error h with h | ⟨b, -, h⟩
    · exact ⟨x, hx, h⟩
    · cases h
  · cases h

end Lists

/-! ## Region operators -/

section Operators

variable {d : Document} {err : SelectorError}

theorem locate_eq_error {children : List Place} {e : SelectorError} {p : Place}
    (h : locate children e p = .error err) : err = e := by
  unfold locate at h
  split at h
  · cases h
  · exact (Except.error.inj h).symm

theorem splitAt_eq_error {mode : SplitMode} {p : Place} {splitters : List Place}
    (h : p.splitAt d mode splitters = .error err) : err = .splitterNotChild := by
  rcases except_bind_error h with h | ⟨positions, -, h⟩
  · obtain ⟨q, -, hq⟩ := mapM_error h
    exact locate_eq_error hq
  · split at h <;> cases h

theorem limitFrom_eq_error {children : List Place} {start : Nat} {limits : List Place}
    (h : Place.limitFrom children start limits = .error err) : err = .limitNotChild := by
  induction limits with
  | nil => cases h
  | cons q limits ih =>
    rcases except_bind_error h with h | ⟨position, -, h⟩
    · exact locate_eq_error h
    · split at h
      · cases h
      · exact ih h

section Calls

variable {call last : List Place → Except SelectorError (List Place)} {xs : List Place}

theorem each_call_error {β : Type} {f : Place → List Place → Except SelectorError β}
    (h : (xs.mapM fun x => call [x] >>= f x) = .error err) :
    (∃ ys, call ys = .error err) ∨ ∃ x ys, f x ys = .error err := by
  obtain ⟨x, -, h⟩ := mapM_error h
  rcases except_bind_error h with h | ⟨ys, -, h⟩
  · exact .inl ⟨_, h⟩
  · exact .inr ⟨x, ys, h⟩

/-- A pseudo-class over one group fails with an error of its group or with its own. -/
theorem GroupPseudo.eval_eq_error {pseudo : GroupPseudo} {single : pseudo ≠ .between}
    (h : pseudo.eval d call xs single = .error err) :
    (∃ ys, call ys = .error err) ∨ (Event.grouped pseudo).fault? = some err := by
  cases pseudo with
  | has =>
    obtain ⟨x, -, h⟩ := filterM_error h
    rcases except_bind_error h with h | ⟨ys, -, h⟩
    · exact .inl ⟨_, h⟩
    · cases h
  | not =>
    rcases except_bind_error h with h | ⟨ys, -, h⟩
    · exact .inl ⟨_, h⟩
    · cases h
  | split mode =>
    rcases except_bind_error h with h | ⟨regions, -, h⟩
    · rcases each_call_error h with hcall | ⟨x, ys, h⟩
      · exact .inl hcall
      · exact .inr (congrArg some (splitAt_eq_error h).symm)
    · cases h
  | before =>
    rcases except_bind_error h with h | ⟨regions, -, h⟩
    · rcases each_call_error h with hcall | ⟨x, ys, h⟩
      · exact .inl hcall
      · rcases except_bind_error h with h | ⟨found, -, h⟩
        · exact .inr (congrArg some (limitFrom_eq_error h).symm)
        · cases h
    · cases h
  | after =>
    rcases except_bind_error h with h | ⟨regions, -, h⟩
    · rcases each_call_error h with hcall | ⟨x, ys, h⟩
      · exact .inl hcall
      · rcases except_bind_error h with h | ⟨found, -, h⟩
        · exact .inr (congrArg some (limitFrom_eq_error h).symm)
        · cases h
    · cases h
  | between => exact absurd rfl single

theorem evalBetween_eq_error (h : evalBetween d call last xs = .error err) :
    (∃ ys, call ys = .error err) ∨ (∃ ys, last ys = .error err) ∨ err = .limitNotChild := by
  rcases except_bind_error h with h | ⟨regions, -, h⟩
  · rcases each_call_error h with hcall | ⟨x, ys, h⟩
    · exact .inl hcall
    · rcases except_bind_error h with h | ⟨found, -, h⟩
      · exact .inr (.inr (limitFrom_eq_error h))
      · cases found with
        | none => cases h
        | some start =>
          rcases except_bind_error h with h | ⟨zs, -, h⟩
          · exact .inr (.inl ⟨_, h⟩)
          · rcases except_bind_error h with h | ⟨found, -, h⟩
            · exact .inr (.inr (limitFrom_eq_error h))
            · cases h
  · cases h

end Calls

end Operators

/-! ## Trees -/

/-- The error is raised by an operator among the events, which tell no custom selector. -/
def FaultOf (events : List Event) (err : SelectorError) : Prop :=
  (∀ e ∈ events, e.Builtin) → ∃ e ∈ events, e.fault? = some err

theorem FaultOf.mono {events more : List Event} {err : SelectorError} (h : FaultOf events err)
    (hsub : events ⊆ more) : FaultOf more err := by
  intro hbuiltin
  obtain ⟨e, he, hfault⟩ := h fun e he => hbuiltin e (hsub he)
  exact ⟨e, hsub he, hfault⟩

variable [PatternEngine]

section Trees

variable {d : Document} {registry : Registry Place} {err : SelectorError}

mutual

theorem modifier_fault : ∀ (m : ModifierTree) {stages : List Selector},
    m.stages registry = .ok stages → ∀ {xs : List Place},
      m.eval d registry xs = .error err → FaultOf m.events err
  | .test test, stages, h, xs, heval => by
    rw [ModifierTree.stages] at h
    obtain ⟨step, hstep, -⟩ := except_bind_ok h
    rw [ModifierTree.eval, hstep] at heval
    cases heval
  | .grouped pseudo single argument, stages, h, xs, heval => by
    rw [ModifierTree.stages] at h
    obtain ⟨s, hs, -⟩ := except_bind_ok h
    rw [ModifierTree.eval] at heval
    rw [ModifierTree.events]
    rcases GroupPseudo.eval_eq_error heval with ⟨ys, hcall⟩ | hfault
    · apply (group_fault argument hs hcall).mono
      simp
    · intro hbuiltin
      exact ⟨.grouped pseudo, by simp, hfault⟩
  | .between start stop, stages, h, xs, heval => by
    rw [ModifierTree.stages] at h
    obtain ⟨s, hs, h⟩ := except_bind_ok h
    obtain ⟨t, ht, -⟩ := except_bind_ok h
    rw [ModifierTree.eval] at heval
    rw [ModifierTree.events]
    rcases evalBetween_eq_error heval with ⟨ys, hcall⟩ | ⟨ys, hcall⟩ | rfl
    · apply (group_fault start hs hcall).mono
      simp
    · apply (group_fault stop ht hcall).mono
      intro e he
      simp [he]
    · intro hbuiltin
      exact ⟨.grouped .between, by simp, rfl⟩
  | .custom name arguments, stages, h, xs, heval => by
    intro hbuiltin
    rw [ModifierTree.events] at hbuiltin
    exact (hbuiltin (.custom name (arguments.map ArgumentTree.argument)) (by simp)).elim

theorem modifiers_fault : ∀ (ms : List ModifierTree) {stages : List Selector},
    ModifierTree.listStages registry ms = .ok stages → ∀ {xs : List Place},
      ModifierTree.listEval d registry ms xs = .error err →
        FaultOf (ModifierTree.listEvents ms) err
  | [], stages, h, xs, heval => by cases heval
  | m :: ms, stages, h, xs, heval => by
    rw [ModifierTree.listStages] at h
    obtain ⟨first, hfirst, h⟩ := except_bind_ok h
    obtain ⟨more, hmore, -⟩ := except_bind_ok h
    rw [ModifierTree.listEval] at heval
    rw [ModifierTree.listEvents]
    rcases except_bind_error heval with heval | ⟨ys, -, heval⟩
    · apply (modifier_fault m hfirst heval).mono
      simp
    · apply (modifiers_fault ms hmore heval).mono
      simp

theorem compound_fault : ∀ (c : CompoundTree) {stages : List Selector},
    c.stages registry = .ok stages → ∀ {xs : List Place},
      c.eval d registry xs = .error err → FaultOf c.events err
  | .mk head modifiers, stages, h, xs, heval => by
    rw [CompoundTree.stages] at h
    obtain ⟨more, hmore, -⟩ := except_bind_ok h
    rw [CompoundTree.eval] at heval
    rw [CompoundTree.events]
    apply (modifiers_fault modifiers hmore heval).mono
    simp

theorem alternative_fault : ∀ (a : AlternativeTree) {stages : List Selector},
    a.stages registry = .ok stages → ∀ {xs : List Place},
      a.eval d registry xs = .error err → FaultOf a.events err
  | .last c, stages, h, xs, heval => by
    rw [AlternativeTree.eval] at heval
    exact compound_fault c h heval
  | .link c k rest, stages, h, xs, heval => by
    rw [AlternativeTree.stages] at h
    obtain ⟨first, hfirst, h⟩ := except_bind_ok h
    obtain ⟨more, hmore, -⟩ := except_bind_ok h
    rw [AlternativeTree.eval] at heval
    rw [AlternativeTree.events]
    rcases except_bind_error heval with heval | ⟨ys, -, heval⟩
    · apply (compound_fault c hfirst heval).mono
      simp
    · apply (alternative_fault rest hmore heval).mono
      simp

theorem alternatives_fault : ∀ (as : List AlternativeTree) {stages : List (List Selector)},
    AlternativeTree.listStages registry as = .ok stages → ∀ {xs : List Place},
      AlternativeTree.listEval d registry as xs = .error err →
        FaultOf (AlternativeTree.listEvents as) err
  | [], stages, h, xs, heval => by cases heval
  | a :: as, stages, h, xs, heval => by
    rw [AlternativeTree.listStages] at h
    obtain ⟨first, hfirst, h⟩ := except_bind_ok h
    obtain ⟨more, hmore, -⟩ := except_bind_ok h
    rw [AlternativeTree.listEval] at heval
    rw [AlternativeTree.listEvents]
    rcases except_bind_error heval with heval | ⟨ys, -, heval⟩
    · apply (alternative_fault a hfirst heval).mono
      simp
    · rcases except_bind_error heval with heval | ⟨zs, -, heval⟩
      · apply (alternatives_fault as hmore heval).mono
        simp
      · cases heval

theorem group_fault : ∀ (g : GroupTree) {anchored : Bool} {s : Selector},
    g.selector registry anchored = .ok s → ∀ {xs : List Place},
      g.eval d registry anchored xs = .error err → FaultOf (g.events anchored) err
  | .mk slashed alternatives, anchored, s, h, xs, heval => by
    rw [GroupTree.selector] at h
    obtain ⟨stages, hstages, -⟩ := except_bind_ok h
    rw [GroupTree.eval] at heval
    rw [GroupTree.events]
    rcases except_bind_error heval with heval | ⟨ys, -, heval⟩
    · apply (alternatives_fault alternatives hstages heval).mono
      intro e he
      simp [he]
    · cases heval

end

end Trees

end TreeQuery
