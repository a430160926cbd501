import Mathlib.Data.List.ReduceOption
import TreeQuery.Proofs.Compile.Translation

/-!
# Evaluation of one construct

Equations for the evaluation of each construct, and the members of the lists that it puts together.
-/

set_option autoImplicit false

namespace TreeQuery

/-! ## Lists of places -/

theorem foldl_firstOccurrences (xs : List Place) (seen : Std.HashSet Place) (kept : Array Place)
    (h : ∀ p, seen.contains p = true ↔ p ∈ kept.toList) (p : Place) :
    p ∈ (xs.foldl
      (fun (seen, kept) x =>
        if seen.contains x then (seen, kept) else (seen.insert x, kept.push x))
      (seen, kept)).2.toList ↔ p ∈ kept.toList ∨ p ∈ xs := by
  induction xs generalizing seen kept with
  | nil => simp
  | cons x xs ih =>
    rw [List.foldl_cons]
    by_cases hx : seen.contains x = true
    · simp only [hx, if_true]
      rw [ih seen kept h, List.mem_cons]
      have hmem := (h x).1 hx
      grind
    · simp only [hx, if_false, Bool.false_eq_true]
      rw [ih]
      · simp [or_assoc]
      · intro q
        have hq := h q
        simp only [Std.HashSet.contains_insert, Bool.or_eq_true, beq_iff_eq, Array.toList_push,
          List.mem_append, List.mem_singleton, hq]
        grind

@[simp] theorem mem_firstOccurrences {xs : List Place} {p : Place} :
    p ∈ firstOccurrences xs ↔ p ∈ xs := by
  unfold firstOccurrences
  rw [foldl_firstOccurrences xs ∅ #[] (by simp)]
  simp

@[simp] theorem mem_without {xs excluded : List Place} {p : Place} :
    p ∈ without xs excluded ↔ p ∈ xs ∧ p ∉ excluded := by
  simp [without]

theorem filterAuxM_ok {α : Type} {f : α → Except SelectorError Bool} {b : α → Bool}
    {xs : List α} (h : ∀ x ∈ xs, f x = .ok (b x)) (kept : List α) :
    List.filterAuxM f xs kept = .ok ((xs.filter b).reverse ++ kept) := by
  induction xs generalizing kept with
  | nil => rfl
  | cons x xs ih =>
    have hx : f x = .ok (b x) := h x List.mem_cons_self
    have hxs : ∀ y ∈ xs, f y = .ok (b y) := fun y hy => h y (List.mem_cons_of_mem _ hy)
    have hstep : List.filterAuxM f (x :: xs) kept =
        List.filterAuxM f xs (bif b x then x :: kept else kept) := by
      show (f x >>= fun c => List.filterAuxM f xs (bif c then x :: kept else kept)) = _
      rw [hx]
      rfl
    rw [hstep, ih hxs]
    cases hb : b x <;> simp [hb]

/-- A filter whose test never fails. -/
theorem filterM_ok {α : Type} {f : α → Except SelectorError Bool} {b : α → Bool} {xs : List α}
    (h : ∀ x ∈ xs, f x = .ok (b x)) : xs.filterM f = .ok (xs.filter b) := by
  unfold List.filterM
  rw [filterAuxM_ok h]
  show Except.ok ((xs.filter b).reverse ++ []).reverse = _
  simp

theorem filterAuxM_eq {α : Type} (f : α → Except SelectorError Bool) (xs kept : List α) :
    List.filterAuxM f xs kept = do
      let ys ← xs.mapM fun x => do return if ← f x then some x else none
      return ys.reduceOption.reverse ++ kept := by
  induction xs generalizing kept with
  | nil => rfl
  | cons x xs ih =>
    show (f x >>= fun b => List.filterAuxM f xs (bif b then x :: kept else kept)) = _
    rw [List.mapM_cons]
    cases f x with
    | error e => rfl
    | ok b =>
      show List.filterAuxM f xs (bif b then x :: kept else kept) =
        (xs.mapM _ >>= fun ys => Pure.pure (_ :: ys)) >>= _
      rw [ih, bind_assoc]
      cases b <;> simp

/-- A filter whose test can fail makes all tests first. -/
theorem filterM_eq {α : Type} (f : α → Except SelectorError Bool) (xs : List α) :
    xs.filterM f = do
      return (← xs.mapM fun x => do return if ← f x then some x else none).reduceOption := by
  unfold List.filterM
  rw [filterAuxM_eq]
  simp

theorem toList_injective {α : Type} : Function.Injective (Option.toList (α := α)) := by
  intro a b h
  cases a with
  | none =>
    cases b with
    | none => rfl
    | some y => cases h
  | some x => exact (Option.toList_eq_singleton_iff.mp h.symm).symm

/-! ## Steps -/

namespace Step

variable {d : Document}

theorem mem_keep {test : Place → Bool} {xs : List Place} {q : Place} :
    q ∈ keep d test xs ↔ q ∈ xs ∧ q.isElement d = true ∧ test q = true := by
  rw [keep, List.mem_filter, Bool.and_eq_true]

/-- Combinators lead to elements only. -/
theorem isElement_of_mem_move {p q : Place} {k : Combinator} (h : q ∈ move d p k) :
    q.isElement d = true := by
  have hnodes (ns : List Nat) (hq : q ∈ (ns.filter d.isElement).map .node) :
      q.isElement d = true := by
    obtain ⟨n, hn, rfl⟩ := List.mem_map.mp hq
    exact (List.mem_filter.mp hn).2
  cases k with
  | descendant => exact hnodes _ h
  | child =>
    cases p <;> exact hnodes _ h
  | adjacent =>
    cases p with
    | node n => exact hnodes _ (List.mem_of_mem_take h)
    | region r => cases h
  | sibling =>
    cases p with
    | node n => exact hnodes _ h
    | region r => cases h

variable [PatternEngine]

/-- A star keeps a working set of elements as it is. -/
theorem universal_elements {xs : List Place} (hxs : ∀ x ∈ xs, x.isElement d = true) :
    (Step.universal .unstated).apply d xs = xs := by
  simp only [Step.apply, Namespace.isNamed, Bool.false_eq_true, if_false, Step.keep, Bool.and_true]
  exact List.filter_eq_self.mpr hxs

end Step

variable [PatternEngine]

/-! ## Selectors -/

namespace Selector

variable (d : Document)

abbrev evalAlternatives (alternatives : List Selector) (xs : List Place) :
    Except SelectorError (List Place) :=
  evalEach d (fun step xs => (step.keyed d).stage xs) alternatives xs

theorem eval_step (s : Step) (xs : List Place) : (step s).eval d xs = .ok (s.apply d xs) := rfl

theorem eval_andThen (s t : Selector) (xs : List Place) :
    (andThen s t).eval d xs = s.eval d xs >>= t.eval d := rfl

theorem eval_group (anchored : Bool) (alternatives : List Selector) (xs : List Place) :
    (group anchored alternatives).eval d xs =
      firstOccurrences <$> evalAlternatives d alternatives
        (if anchored then xs else xs.flatMap (Place.descendants d)) := by
  show (evalAlternatives d alternatives
    (if anchored then xs else xs.flatMap (Place.descendants d)) >>= fun ys =>
      Pure.pure (firstOccurrences ys)) = _
  rw [map_eq_pure_bind]

theorem evalAlternatives_cons (s : Selector) (alternatives : List Selector) (xs : List Place) :
    evalAlternatives d (s :: alternatives) xs = (do
      let ys ← s.eval d xs
      return ys ++ (← evalAlternatives d alternatives xs)) := rfl

theorem eval_has (s : Selector) (xs : List Place) :
    (has s).eval d xs = xs.filterM fun p => do return !(← s.eval d [p]).isEmpty := rfl

theorem eval_not (s : Selector) (xs : List Place) :
    (not s).eval d xs = (without xs ·) <$> s.eval d xs := by
  show (s.eval d xs >>= fun ys => Pure.pure (without xs ys)) = _
  rw [map_eq_pure_bind]

def evalStages (stages : List Selector) (xs : List Place) : Except SelectorError (List Place) :=
  stages.foldlM (fun xs s => s.eval d xs) xs

theorem evalStages_append (stages more : List Selector) (xs : List Place) :
    evalStages d (stages ++ more) xs = evalStages d stages xs >>= evalStages d more := by
  unfold evalStages
  rw [List.foldlM_append]

theorem eval_foldl_andThen (stages : List Selector) (s : Selector) (xs : List Place) :
    (stages.foldl andThen s).eval d xs = s.eval d xs >>= evalStages d stages := by
  induction stages generalizing s with
  | nil =>
    show s.eval d xs = s.eval d xs >>= Pure.pure
    rw [bind_pure]
  | cons t stages ih =>
    rw [List.foldl_cons, ih, eval_andThen, bind_assoc]
    rfl

/-- A chain evaluates its stages one after another. -/
theorem eval_chain {stages : List Selector} {s : Selector} (h : chain? stages = some s)
    (xs : List Place) : s.eval d xs = evalStages d stages xs := by
  cases stages with
  | nil => cases h
  | cons t stages =>
    obtain rfl := Option.some.inj h
    exact eval_foldl_andThen d stages t xs

end Selector

end TreeQuery
