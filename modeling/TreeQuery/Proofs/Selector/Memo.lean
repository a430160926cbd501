import TreeQuery.Selector.Basic
import TreeQuery.Proofs.Selector.Keys
import TreeQuery.Proofs.Stage.Memo

/-!
# Evaluation through a memo

A memo serves a document when all stages that it keeps are steps on that document, each under its
own key. Evaluation through such a memo follows evaluation without one.
-/

set_option autoImplicit false

namespace TreeQuery

variable [PatternEngine]

/-- The stages that are kept are steps on `d`, under their keys. -/
structure StageMemo.Serves (d : Document) (m : StageMemo Place) : Prop where
  sound : m.Sound
  steps : ∀ {key : StageKey} {stage : Stage Place}, (key, stage) ∈ m.table →
    ∃ s : Step, s.key = key ∧ (s.keyed d).stage = stage

namespace StageMemo.Serves

variable {d : Document} {m : StageMemo Place}

theorem empty (d : Document) (capacity : Nat) : Serves d { capacity } where
  sound s hs := by simp at hs
  steps h := by simp [StageMemo.table] at h

theorem memoize (h : m.Serves d) (s : Step) : (m.memoize (s.keyed d)).Serves d where
  sound := h.sound.memoize _
  steps := by
    intro key stage hmem
    rw [m.table_memoize] at hmem
    split at hmem
    · exact h.steps hmem
    · rcases List.mem_append.1 hmem with hmem | hmem
      · exact h.steps hmem
      · obtain ⟨rfl, rfl⟩ := Prod.mk.inj (List.mem_singleton.1 hmem)
        exact ⟨s, rfl, rfl⟩

theorem clear (h : m.Serves d) : m.clear.Serves d where
  sound := StageMemo.Sound.clear m
  steps hmem := h.steps (m.table_clear ▸ hmem)

/-- A key stands for one step, so the stage kept under it is that step. -/
theorem stageFor_eq (h : m.Serves d) (s : Step) :
    m.stageFor (s.keyed d) = (s.keyed d).stage := by
  unfold StageMemo.stageFor
  cases hlook : m.table.lookup (s.keyed d).key with
  | none => rfl
  | some stage =>
    obtain ⟨before, after, htable, -⟩ := List.lookup_eq_some_iff.1 hlook
    obtain ⟨t, ht, rfl⟩ := h.steps (htable ▸ List.mem_append_right before List.mem_cons_self)
    rw [Step.key_injective ht]
    rfl

theorem run (h : m.Serves d) (s : Step) (input : List Place) :
    ∃ m', StageMemo.run (s.keyed d) input m = Except.within ((s.keyed d).stage input) m' ∧
      m'.Serves d := by
  obtain ⟨m', hrun, hsound, htable⟩ := h.sound.run (s.keyed d) input
  rw [h.stageFor_eq] at hrun
  refine ⟨m', hrun, hsound, ?_⟩
  intro key stage hmem
  rw [htable] at hmem
  exact h.steps hmem

end StageMemo.Serves

/-! ## Following an evaluation -/

/-- In every memo that serves `d`, the computation ends like the outcome, in such a memo again. -/
def Follows {α : Type} (d : Document) (p : EStateM SelectorError (StageMemo Place) α)
    (outcome : Except SelectorError α) : Prop :=
  ∀ m : StageMemo Place, m.Serves d → ∃ m', p m = Except.within outcome m' ∧ m'.Serves d

namespace Follows

variable {d : Document} {α β : Type}

theorem pure (a : α) : Follows d (Pure.pure a) (Pure.pure a) :=
  fun m hm => ⟨m, rfl, hm⟩

theorem throw (e : SelectorError) :
    Follows d (MonadExcept.throw e) (MonadExcept.throw e : Except SelectorError α) :=
  fun m hm => ⟨m, rfl, hm⟩

theorem ofExcept (outcome : Except SelectorError α) :
    Follows d (MonadExcept.ofExcept outcome) (MonadExcept.ofExcept outcome) := by
  intro m hm
  cases outcome with
  | ok a => exact ⟨m, rfl, hm⟩
  | error e => exact ⟨m, rfl, hm⟩

theorem bind {p : EStateM SelectorError (StageMemo Place) α} {q : Except SelectorError α}
    (h : Follows d p q) {f : α → EStateM SelectorError (StageMemo Place) β}
    {g : α → Except SelectorError β} (hf : ∀ a, Follows d (f a) (g a)) :
    Follows d (p >>= f) (q >>= g) := by
  intro m hm
  obtain ⟨m', hrun, hm'⟩ := h m hm
  cases q with
  | error e =>
    refine ⟨m', ?_, hm'⟩
    simp only [Bind.bind, EStateM.bind, hrun]
    rfl
  | ok a =>
    obtain ⟨m'', hrun', hm''⟩ := hf a m' hm'
    refine ⟨m'', ?_, hm''⟩
    simp only [Bind.bind, EStateM.bind, hrun]
    exact hrun'

theorem map {p : EStateM SelectorError (StageMemo Place) α} {q : Except SelectorError α}
    (h : Follows d p q) (f : α → β) : Follows d (f <$> p) (f <$> q) := by
  intro m hm
  obtain ⟨m', hrun, hm'⟩ := h m hm
  refine ⟨m', ?_, hm'⟩
  simp only [Functor.map, EStateM.map, hrun]
  cases q <;> rfl

theorem tryCatch {p : EStateM SelectorError (StageMemo Place) α} {q : Except SelectorError α}
    (h : Follows d p q) {f : SelectorError → EStateM SelectorError (StageMemo Place) α}
    {g : SelectorError → Except SelectorError α} (hf : ∀ e, Follows d (f e) (g e)) :
    Follows d (MonadExceptOf.tryCatch p f) (MonadExceptOf.tryCatch q g) := by
  intro m hm
  obtain ⟨m', hrun, hm'⟩ := h m hm
  simp only [MonadExceptOf.tryCatch, EStateM.tryCatch, hrun]
  cases q with
  | ok a => exact ⟨m', rfl, hm'⟩
  | error e => exact hf e m' hm'

theorem mapM {p : α → EStateM SelectorError (StageMemo Place) β}
    {q : α → Except SelectorError β} (h : ∀ a, Follows d (p a) (q a)) (xs : List α) :
    Follows d (xs.mapM p) (xs.mapM q) := by
  induction xs with
  | nil => exact pure []
  | cons x xs ih =>
    rw [List.mapM_cons, List.mapM_cons]
    exact (h x).bind fun y => ih.bind fun ys => pure _

theorem filterM {p : α → EStateM SelectorError (StageMemo Place) Bool}
    {q : α → Except SelectorError Bool} (h : ∀ a, Follows d (p a) (q a)) (xs : List α) :
    Follows d (xs.filterM p) (xs.filterM q) := by
  have haux (xs kept : List α) :
      Follows d (List.filterAuxM p xs kept) (List.filterAuxM q xs kept) := by
    induction xs generalizing kept with
    | nil => exact pure kept
    | cons x xs ih => exact (h x).bind fun b => ih _
  exact (haux xs []).bind fun ys => pure _

/-- A procedure whose nested selectors follow follows. -/
theorem procedure {answer : Nat → List Place → EStateM SelectorError (StageMemo Place) (List Place)}
    {plain : Nat → List Place → Except SelectorError (List Place)}
    (h : ∀ i xs, Follows d (answer i xs) (plain i xs)) (p : Procedure Place α) :
    Follows d (p.run answer) (p.run plain) := by
  induction p with
  | done outcome =>
    cases outcome with
    | ok a => exact pure a
    | error e => exact throw e
  | ask position input next ih =>
    exact (tryCatch ((h position input).map Except.ok) fun e => pure (.error e)).bind
      fun reply => ih reply

end Follows

/-! ## Selectors -/

namespace Selector

variable {d : Document}

/-- The steps of both evaluations. -/
theorem step_follows (s : Step) (xs : List Place) :
    Follows d (StageMemo.run (s.keyed d) xs) ((s.keyed d).stage xs) := by
  intro m hm
  exact hm.run s xs

mutual

theorem evalMemo_follows : ∀ (s : Selector) (xs : List Place),
    Follows d (s.evalMemo d xs) (s.eval d xs)
  | step s, xs => step_follows s xs
  | andThen first second, xs => (evalMemo_follows first xs).bind (evalMemo_follows second)
  | group anchored alternatives, xs =>
    (evalEach_follows alternatives _).bind fun _ => Follows.pure _
  | has argument, xs =>
    Follows.filterM (fun p => (evalMemo_follows argument [p]).bind fun _ => Follows.pure _) xs
  | not argument, xs => (evalMemo_follows argument xs).bind fun _ => Follows.pure _
  | split mode splitter, xs =>
    (Follows.mapM (fun p => (evalMemo_follows splitter [p]).bind fun splitters =>
      Follows.ofExcept (p.splitAt d mode splitters)) xs).bind fun _ => Follows.pure _
  | before limit, xs =>
    (Follows.mapM (fun p => (evalMemo_follows limit [p]).bind fun limits =>
      (Follows.ofExcept (p.limitOf d 0 limits)).bind fun _ => Follows.pure _) xs).bind
        fun _ => Follows.pure _
  | after limit, xs =>
    (Follows.mapM (fun p => (evalMemo_follows limit [p]).bind fun limits =>
      (Follows.ofExcept (p.limitOf d 0 limits)).bind fun _ => Follows.pure _) xs).bind
        fun _ => Follows.pure _
  | between first last, xs =>
    (Follows.mapM (fun p => (evalMemo_follows first [p]).bind fun limits =>
      (Follows.ofExcept (p.limitOf d 0 limits)).bind fun start => by
        cases start with
        | none => exact Follows.pure _
        | some start =>
          exact (evalMemo_follows last [p]).bind fun limits =>
            (Follows.ofExcept (p.limitOf d start limits)).bind fun _ => Follows.pure _) xs).bind
        fun _ => Follows.pure _
  | custom body arguments, xs => Follows.procedure (evalNth_follows arguments) (body xs)

theorem evalEach_follows : ∀ (selectors : List Selector) (xs : List Place),
    Follows d
      (evalEach d (fun step xs => StageMemo.run (step.keyed d) xs) selectors xs)
      (evalEach d (fun step xs => (step.keyed d).stage xs) selectors xs)
  | [], _ => Follows.pure []
  | s :: selectors, xs =>
    (evalMemo_follows s xs).bind fun _ => (evalEach_follows selectors xs).bind fun _ =>
      Follows.pure _

theorem evalNth_follows : ∀ (selectors : List Selector) (i : Nat) (xs : List Place),
    Follows d
      (evalNth d (fun step xs => StageMemo.run (step.keyed d) xs) selectors i xs)
      (evalNth d (fun step xs => (step.keyed d).stage xs) selectors i xs)
  | [], _, _ => Follows.pure []
  | s :: _, 0, xs => evalMemo_follows s xs
  | _ :: selectors, i + 1, xs => evalNth_follows selectors i xs

end

end Selector

end TreeQuery
