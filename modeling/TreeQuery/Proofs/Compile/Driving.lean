import Mathlib.Data.List.DropRight
import TreeQuery.Compile.Drive
import TreeQuery.Proofs.Compile.Readiness
import TreeQuery.Proofs.Compile.TreeEvaluation

/-!
# Generators driven by hand

A generator takes calls in any order and refuses some. It lists one chain of stages for each
alternative since the group was begun, and closing the group makes a selector of what is listed. A
call that is refused changes nothing. Where calls drive nested groups first, each generator is driven
by calls of its own.
-/

set_option autoImplicit false

namespace TreeQuery

variable [PatternEngine]

namespace GeneratorCall

open Compiler (push takeNested groupedSelector)

/-- The stages that a call chains, unless it is refused. -/
def stages : GeneratorCall → Except SelectorError (List Selector)
  | step _ outcome _ => do return [.step (← outcome)]
  | custom s => return [s]
  | grouped pseudo groups _ => do
    let nested ← groups.mapM Generator.selector
    return (groupedSelector pseudo nested).toList
  | _ => return []

/-- What a call that chains nothing makes of the generator. -/
def change : GeneratorCall → Generator → Generator
  | init => .init
  | anchor => .anchor
  | alternative => .beginAlternative
  | close => .close
  | _ => id

theorem takeNested_foldl_push (groups : List Generator) (c : Compiler) :
    takeNested groups.length (groups.foldl push c) = (groups, c) := by
  induction groups using List.reverseRecOn with
  | nil => rfl
  | append_singleton groups g ih =>
    have hleave : ((groups.foldl push c).push g).leave = groups.foldl push c := rfl
    rw [List.foldl_append, List.length_append, List.length_singleton]
    show takeNested (groups.length + 1) ((groups.foldl push c).push g) = _
    rw [takeNested, hleave, ih]
    rfl

/-- All that a call can do. -/
theorem perform_cases (x : GeneratorCall) (c : Compiler) :
    match x.stages with
    | .error e => x.perform c = .error e c
    | .ok stages => ∃ memo, x.perform c =
        .ok () { c with memo, generator := (x.change c.generator).extend stages } := by
  cases x with
  | init => exact ⟨c.memo, rfl⟩
  | anchor => exact ⟨c.memo, rfl⟩
  | alternative => exact ⟨c.memo, rfl⟩
  | close => exact ⟨c.memo, rfl⟩
  | custom s => exact ⟨c.memo, rfl⟩
  | step e outcome h =>
    rw [perform, Compiler.handle_of_step h]
    cases outcome with
    | error err => rfl
    | ok s => exact ⟨(c.memoize s).memo, rfl⟩
  | grouped pseudo groups h =>
    have hcount : (Event.grouped pseudo).groupCount = groups.length := h.symm
    have hrun : perform (grouped pseudo groups h) c =
        Compiler.handleNested (.grouped pseudo) (groups.foldl push c) := rfl
    rw [hrun, Compiler.handleNested_eq, hcount, takeNested_foldl_push, stages]
    cases groups.mapM (Generator.selector : Generator → Except SelectorError Selector) with
    | error err => rfl
    | ok nested => exact ⟨c.memo, rfl⟩

theorem eq_of_perform_error {x : GeneratorCall} {c c' : Compiler} {e : SelectorError}
    (h : x.perform c = .error e c') : c' = c := by
  have hcases := x.perform_cases c
  cases hstages : x.stages with
  | error err =>
    rw [hstages] at hcases
    cases h.symm.trans hcases
    rfl
  | ok stages =>
    rw [hstages] at hcases
    obtain ⟨memo, hrun⟩ := hcases
    cases h.symm.trans hrun

/-! ## Sequences of calls -/

def drive (c : Compiler) (calls : List GeneratorCall) : Compiler :=
  calls.foldl (fun c x => lastState (x.perform c)) c

def chained (x : GeneratorCall) : List Selector :=
  match x.stages with
  | .ok stages => stages
  | .error _ => []

theorem generator_perform (x : GeneratorCall) (c : Compiler) :
    (lastState (x.perform c)).generator = (x.change c.generator).extend x.chained := by
  have hcases := x.perform_cases c
  cases hstages : x.stages with
  | error err =>
    have hchange : x.change c.generator = c.generator := by
      cases x with
      | step e outcome h => rfl
      | custom s => rfl
      | grouped pseudo groups h => rfl
      | _ => cases hstages
    rw [hstages] at hcases
    rw [hcases, chained, hstages, hchange]
    rfl
  | ok stages =>
    rw [hstages] at hcases
    obtain ⟨memo, hrun⟩ := hcases
    rw [hrun, chained, hstages]
    rfl

def after (g : Generator) (calls : List GeneratorCall) : Generator :=
  calls.foldl (fun g x => (x.change g).extend x.chained) g

theorem generator_drive (c : Compiler) (calls : List GeneratorCall) :
    (drive c calls).generator = after c.generator calls := by
  induction calls generalizing c with
  | nil => rfl
  | cons x calls ih =>
    show (drive (lastState (x.perform c)) calls).generator = _
    rw [ih, generator_perform]
    rfl

theorem after_concat (g : Generator) (calls : List GeneratorCall) (x : GeneratorCall) :
    after g (calls ++ [x]) = (x.change (after g calls)).extend x.chained := by
  simp [after]

/-! ## What is listed -/

def resets : GeneratorCall → Bool
  | init | close => true
  | _ => false

def startsAlternative : GeneratorCall → Bool
  | alternative => true
  | _ => false

def isInit : GeneratorCall → Bool
  | init => true
  | _ => false

def isAnchor : GeneratorCall → Bool
  | anchor => true
  | _ => false

/-- The selectors that are listed after calls: what was chained since the last reset, in one chain
for each alternative that is not empty. -/
def listed (calls : List GeneratorCall) : List Selector :=
  ((calls.rtakeWhile fun x => !x.resets).splitOnP startsAlternative).filterMap fun part =>
    Selector.chain? (part.flatMap chained)

def anchoredBy (calls : List GeneratorCall) : Bool :=
  (calls.rtakeWhile fun x => !x.isInit).any isAnchor

end GeneratorCall

namespace Generator

theorem extend_eq (g : Generator) (stages : List Selector) :
    g.extend stages =
      { g with current := Selector.chain? (g.current.toList ++ stages) } := by
  cases hcurrent : g.current with
  | some s =>
    have hg : { g with current := some s } = g := by rw [← hcurrent]
    rw [← hg, extend_some]
    rfl
  | none =>
    cases stages with
    | nil =>
      have hg : { g with current := none } = g := by rw [← hcurrent]
      exact hg.symm
    | cons s stages =>
      have hadd : g.add s = { g with current := some s } := by rw [add, hcurrent]
      show (g.add s).extend stages = _
      rw [hadd, extend_some]
      rfl

theorem anchored_extend (g : Generator) (stages : List Selector) :
    (g.extend stages).anchored = g.anchored := by
  rw [extend_eq]

theorem selectors_extend (g : Generator) (stages : List Selector) :
    (g.extend stages).selectors =
      g.alternatives ++ (Selector.chain? (g.current.toList ++ stages)).toList := by
  rw [extend_eq]
  rfl

end Generator

namespace GeneratorCall

/-- A call that neither drops alternatives nor starts one chains to what is there. -/
theorem selectors_change_extend {x : GeneratorCall} (hresets : x.resets = false)
    (hstarts : x.startsAlternative = false) (g : Generator) (stages : List Selector) :
    ((x.change g).extend stages).selectors = (g.extend stages).selectors := by
  rw [Generator.selectors_extend, Generator.selectors_extend]
  cases x with
  | init => cases hresets
  | close => cases hresets
  | alternative => cases hstarts
  | _ => rfl

/-- Up to the first start of an alternative, calls go on with the present one. -/
theorem selectors_after {calls : List GeneratorCall} (h : ∀ x ∈ calls, x.resets = false)
    (g : Generator) : ∃ first rest, calls.splitOnP startsAlternative = first :: rest ∧
      (after g calls).selectors = (g.extend (first.flatMap chained)).selectors ++
        rest.filterMap fun part => Selector.chain? (part.flatMap chained) := by
  induction calls generalizing g with
  | nil => exact ⟨[], [], rfl, by simp [after, Generator.extend]⟩
  | cons x calls ih =>
    obtain ⟨hx, hcalls⟩ := List.forall_mem_cons.mp h
    obtain ⟨first, rest, hparts, hselectors⟩ := ih hcalls ((x.change g).extend x.chained)
    have hrun : after g (x :: calls) = after ((x.change g).extend x.chained) calls := rfl
    rw [List.splitOnP_cons_eq_if_modifyHead, hparts, hrun, hselectors, Generator.extend_extend]
    cases hstarts : x.startsAlternative with
    | true =>
      refine ⟨[], first :: rest, rfl, ?_⟩
      have hnew : (x.change g).extend (x.chained ++ first.flatMap chained) =
          g.addAlternative (first.flatMap chained) := by
        cases x with
        | alternative => rfl
        | _ => cases hstarts
      have hadded : (g.addAlternative (first.flatMap chained)).selectors =
          g.selectors ++ [first.flatMap chained].filterMap Selector.chain? :=
        Generator.selectors_addAlternatives [first.flatMap chained] g
      have hfirst : [first.flatMap chained].filterMap Selector.chain? =
          [first].filterMap fun part => Selector.chain? (part.flatMap chained) := rfl
      rw [hnew, hadded, hfirst, List.append_assoc, ← List.filterMap_append]
      rfl
    | false =>
      refine ⟨x :: first, rest, rfl, ?_⟩
      rw [selectors_change_extend hx hstarts]
      rfl

/-- A call that drops the alternatives leaves none. -/
theorem change_of_resets {x : GeneratorCall} (h : x.resets = true) (g : Generator) :
    ((x.change g).extend x.chained).alternatives = [] ∧
      ((x.change g).extend x.chained).current = none := by
  cases x with
  | init => exact ⟨rfl, rfl⟩
  | close => exact ⟨rfl, rfl⟩
  | _ => cases h

/-- What was chained before the last reset is not there any more. -/
theorem after_rdropWhile (calls : List GeneratorCall) :
    (after {} (calls.rdropWhile fun x => !x.resets)).alternatives = [] ∧
      (after {} (calls.rdropWhile fun x => !x.resets)).current = none := by
  induction calls using List.reverseRecOn with
  | nil => exact ⟨rfl, rfl⟩
  | append_singleton calls x ih =>
    cases hx : x.resets with
    | true =>
      rw [List.rdropWhile_concat_neg _ _ x (by simp [hx]), after_concat]
      exact change_of_resets hx _
    | false =>
      rw [List.rdropWhile_concat_pos _ _ x (by simp [hx])]
      exact ih

theorem selectors_after_init (calls : List GeneratorCall) :
    (after {} calls).selectors = listed calls := by
  have hsplit : after {} calls = after (after {} (calls.rdropWhile fun x => !x.resets))
      (calls.rtakeWhile fun x => !x.resets) := by
    unfold after
    rw [← List.foldl_append, List.rdropWhile_append_rtakeWhile]
  obtain ⟨halternatives, hcurrent⟩ := after_rdropWhile calls
  have hlast : ∀ x ∈ calls.rtakeWhile fun x => !x.resets, x.resets = false := fun x hx => by
    simpa using List.mem_rtakeWhile_imp hx
  obtain ⟨first, rest, hparts, hselectors⟩ := selectors_after hlast
    (after {} (calls.rdropWhile fun x => !x.resets))
  rw [hsplit, hselectors, Generator.selectors_extend, halternatives, hcurrent, listed, hparts,
    List.filterMap_cons]
  cases hchain : Selector.chain? (first.flatMap chained) <;> simp [hchain]

example (s t u v : Selector) :
    listed [custom s, init, custom t, alternative, alternative, custom u, anchor, custom v] =
      [t, .andThen u v] := rfl

theorem anchoredBy_concat (calls : List GeneratorCall) (x : GeneratorCall) :
    anchoredBy (calls ++ [x]) = (!x.isInit && (anchoredBy calls || x.isAnchor)) := by
  unfold anchoredBy
  cases hx : x.isInit <;> simp [hx]

theorem anchored_after_init (calls : List GeneratorCall) :
    (after {} calls).anchored = anchoredBy calls := by
  induction calls using List.reverseRecOn with
  | nil => rfl
  | append_singleton calls x ih =>
    rw [after_concat, Generator.anchored_extend, anchoredBy_concat, ← ih]
    cases x with
    | init => rfl
    | anchor => exact (Bool.or_true _).symm
    | _ => exact (Bool.or_false _).symm

end GeneratorCall

/-! ## Calls with nested calls -/

namespace Compiler

theorem lastState_bind {α β : Type} {P Q : Compiler → Prop} {x : EStateM SelectorError Compiler α}
    {f : α → EStateM SelectorError Compiler β} {c : Compiler} (hx : P (lastState (x c)))
    (herror : ∀ c', P c' → Q c') (hf : ∀ a c', P c' → Q (lastState (f a c'))) :
    Q (lastState ((x >>= f) c)) := by
  cases h : x c with
  | error e c' =>
    rw [h] at hx
    have hrun : (x >>= f) c = .error e c' := by simp only [bind, EStateM.bind, h]
    rw [hrun]
    exact herror c' hx
  | ok a c' =>
    rw [h] at hx
    have hrun : (x >>= f) c = f a c' := by simp only [bind, EStateM.bind, h]
    rw [hrun]
    exact hf a c' hx

/-- No more than `n` calls lead from the generator of `c` to that of `c'`. -/
def Driven (n : Nat) (c c' : Compiler) : Prop :=
  ∃ calls : List GeneratorCall, calls.length ≤ n ∧
    c'.generator = GeneratorCall.after c.generator calls

namespace Driven

variable {n : Nat} {c c' : Compiler}

theorem succ (h : Driven n c c') : Driven (n + 1) c c' := by
  obtain ⟨calls, hlength, hcalls⟩ := h
  exact ⟨calls, Nat.le_succ_of_le hlength, hcalls⟩

theorem perform (h : Driven n c c') (x : GeneratorCall) :
    Driven (n + 1) c (lastState (x.perform c')) := by
  obtain ⟨calls, hlength, hcalls⟩ := h
  refine ⟨calls ++ [x], by simpa using hlength, ?_⟩
  rw [GeneratorCall.generator_perform, hcalls, GeneratorCall.after_concat]

/-- Nested groups are driven beside the generator that is to use them. -/
theorem driveGroups (groups : List (List CompilerCall)) (h : Driven n c c') :
    Driven n c (lastState (Compiler.driveGroups groups c')) := by
  induction groups generalizing c' with
  | nil =>
    rw [Compiler.driveGroups]
    exact h
  | cons calls groups ih =>
    have hnew : Driven n c (lastState (driveNew (callAll calls) c')) := by
      unfold driveNew
      split <;> exact h
    rw [Compiler.driveGroups]
    refine lastState_bind hnew (fun _ h₁ => h₁) fun g c₁ h₁ => ?_
    exact lastState_bind (ih h₁) (fun _ h₂ => h₂) fun generators c₂ h₂ => h₂

theorem call (x : CompilerCall) (h : Driven n c c') :
    Driven (n + 1) c (lastState (Compiler.call x c')) := by
  cases x with
  | event e =>
    rw [Compiler.call]
    cases GeneratorCall.ofEvent? e with
    | some y => exact h.perform y
    | none => exact h.succ
  | grouped pseudo groups =>
    rw [Compiler.call]
    refine lastState_bind (h.driveGroups groups) (fun _ h₁ => h₁.succ) fun generators c₁ h₁ => ?_
    by_cases harity : generators.length = pseudo.arity
    · rw [dif_pos harity]
      exact h₁.perform _
    · rw [dif_neg harity]
      exact h₁.succ

theorem callAll (calls : List CompilerCall) (h : Driven n c c') :
    Driven (n + calls.length) c (lastState (Compiler.callAll calls c')) := by
  induction calls generalizing n c' with
  | nil =>
    rw [Compiler.callAll]
    exact h
  | cons x calls ih =>
    have hlength : n + (x :: calls).length = n + 1 + calls.length := by
      rw [List.length_cons]
      omega
    rw [Compiler.callAll, hlength]
    refine lastState_bind (h.call x) (fun c₁ h₁ => ?_) fun _ c₁ h₁ => ih h₁
    obtain ⟨xs, hxs, hafter⟩ := h₁
    exact ⟨xs, Nat.le_add_right_of_le hxs, hafter⟩

end Driven

/-- Calls with nested calls drive the generator by no more calls than there are, also where one of
them fails. -/
theorem generator_callAll (calls : List CompilerCall) (c : Compiler) :
    ∃ xs : List GeneratorCall, xs.length ≤ calls.length ∧
      (lastState (callAll calls c)).generator = GeneratorCall.after c.generator xs := by
  have hstart : Driven 0 c c := ⟨[], Nat.le_refl 0, rfl⟩
  have hend := hstart.callAll calls
  rwa [Nat.zero_add] at hend

end Compiler

/-! ## The selector of a group that is closed -/

namespace Selector

section

variable {m : Type → Type} [Monad m] [LawfulMonad m] [MonadExceptOf SelectorError m]
variable (d : Document) (onStep : Step → List Place → m (List Place))

theorem evalEach_eq (selectors : List Selector) (xs : List Place) :
    evalEach d onStep selectors xs =
      List.flatten <$> selectors.mapM fun s => s.evalWith d onStep xs := by
  induction selectors with
  | nil => simp [evalEach]
  | cons s selectors ih => simp [evalEach, ih]

/-- A group evaluates its alternatives in their order, and keeps the first occurrences. -/
theorem evalWith_group (anchored : Bool) (alternatives : List Selector) (xs : List Place) :
    (group anchored alternatives).evalWith d onStep xs = (do
      let results ← alternatives.mapM fun s => s.evalWith d onStep (groupBase d anchored xs)
      return results.flatten.eraseDups) := by
  have hgroup : (group anchored alternatives).evalWith d onStep xs = (do
      return firstOccurrences (← evalEach d onStep alternatives (groupBase d anchored xs))) := rfl
  rw [hgroup, evalEach_eq, bind_map_left]
  simp only [firstOccurrences_eq]

end

end Selector

namespace GeneratorCall

variable (d : Document) (registry : Registry Place) (memo : Option (StageMemo Place))

/-- A group is the union of the alternatives that are listed when it is closed, whatever calls it
took before and with a memo as without one. A refused call leaves it as it was. -/
theorem selector_drive_close (calls : List GeneratorCall) :
    let start : Compiler := { document := d, registry, memo }
    (drive start calls).generator.selectors = listed calls ∧
    (∃ s, (drive start (calls ++ [close])).generator.selector = .ok s ∧
      (∀ input, s.eval d input = (do
        let results ← (drive start calls).generator.selectors.mapM fun t =>
          t.eval d (groupBase d (anchoredBy calls) input)
        return results.flatten.eraseDups)) ∧
      ∀ input, s.evalMemo d input = (do
        let results ← (drive start calls).generator.selectors.mapM fun t =>
          t.evalMemo d (groupBase d (anchoredBy calls) input)
        return results.flatten.eraseDups)) ∧
    ∀ x e c, perform x (drive start calls) = .error e c → c = drive start calls := by
  intro start
  have hgenerator : (drive start calls).generator = after {} calls := generator_drive start calls
  have hclosed : (drive start (calls ++ [close])).generator = (after {} calls).close := by
    rw [generator_drive, after_concat]
    rfl
  refine ⟨?listed, ⟨.group (after {} calls).anchored (after {} calls).selectors, ?closed,
    ?plain, ?memoized⟩, fun x e c => eq_of_perform_error⟩
  case listed => rw [hgenerator, selectors_after_init]
  case closed => rw [hclosed]; rfl
  case plain =>
    intro input
    rw [hgenerator, ← anchored_after_init]
    exact Selector.evalWith_group d _ _ _ input
  case memoized =>
    intro input
    rw [hgenerator, ← anchored_after_init]
    exact Selector.evalWith_group d _ _ _ input

end GeneratorCall

end TreeQuery
