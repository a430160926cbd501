import Std.Data.HashSet
import TreeQuery.Custom.Registry
import TreeQuery.Region.Runs
import TreeQuery.Selector.Step

/-!
# Selectors

A selector maps a list of places to a list of places, or fails. It is put together from steps, from
groups of alternatives, and from operators over nested selectors.
-/

set_option autoImplicit false

namespace TreeQuery

variable [PatternEngine]

inductive Selector where
  | step (step : Step)
  | andThen (first second : Selector)
  /-- Alternatives over the working set, or, unless anchored, over what lies below it. -/
  | group (anchored : Bool) (alternatives : List Selector)
  | has (argument : Selector)
  | not (argument : Selector)
  | split (mode : SplitMode) (splitter : Selector)
  | before (limit : Selector)
  | after (limit : Selector)
  | between (first last : Selector)
  | custom (body : List Place → Procedure Place (List Place)) (arguments : List Selector)

/-- The elements of a list without repetitions, in the order of their first occurrence. -/
def firstOccurrences (xs : List Place) : List Place :=
  (xs.foldl
    (fun (seen, kept) x =>
      if seen.contains x then (seen, kept) else (seen.insert x, kept.push x))
    ((∅ : Std.HashSet Place), (#[] : Array Place))).2.toList

def without (xs excluded : List Place) : List Place :=
  let excluded := Std.HashSet.ofList excluded
  xs.filter fun x => !excluded.contains x

def locate (children : List Place) (e : SelectorError) (p : Place) : Except SelectorError Nat :=
  match children.idxOf? p with
  | some i => .ok i
  | none => .error e

/-- The members of a list of positions below `n`, by increasing size and without repetitions. -/
def increasing (n : Nat) (positions : List Nat) : List Nat :=
  (List.range n).filter positions.contains

namespace Place

section Sums

variable (add : Nat → Nat → Nat) (d : Document)

/-- The regions into which splitters cut the children of a place. -/
def splitAtBy (mode : SplitMode) (p : Place) (splitters : List Place) :
    Except SelectorError (List Place) := do
  let children := p.children d
  let positions ← splitters.mapM (locate children .splitterNotChild)
  if positions.isEmpty then return if mode.keepsUnsplit then [p] else []
  let runs := Run.splitBy add mode (increasing children.length positions) children.length
  return runs.map fun run => p.regionOfBy add run mode.direction?

def regionBeforeBy (p : Place) (limit : Nat) : Place :=
  p.regionOfBy add (Run.before limit) (some .left)

def regionAfterBy (p : Place) (limit : Nat) : Place :=
  p.regionOfBy add (Run.afterBy add limit (p.children d).length) (some .right)

def regionBetweenBy (p : Place) (first last : Nat) : Place :=
  p.regionOfBy add (Run.betweenBy add first last) none

end Sums

variable (d : Document)

def splitAt (mode : SplitMode) (p : Place) (splitters : List Place) :
    Except SelectorError (List Place) :=
  p.splitAtBy (· + ·) d mode splitters

def regionBefore (p : Place) (limit : Nat) : Place :=
  p.regionBeforeBy (· + ·) limit

def regionAfter (p : Place) (limit : Nat) : Place :=
  p.regionAfterBy (· + ·) d limit

def regionBetween (p : Place) (first last : Nat) : Place :=
  p.regionBetweenBy (· + ·) first last

/-- The position of the first of `limits` that stands at `start` or later. The limits are looked
at in their own order, and only up to that one. -/
def limitFrom (children : List Place) (start : Nat) :
    List Place → Except SelectorError (Option Nat)
  | [] => return none
  | limit :: limits => do
    let position ← locate children .limitNotChild limit
    if start ≤ position then return some position
    limitFrom children start limits

def limitOf (p : Place) (start : Nat) (limits : List Place) : Except SelectorError (Option Nat) :=
  limitFrom (p.children d) start limits

variable {m : Type → Type} [Monad m] [MonadExceptOf SelectorError m]

/-- The region that a limit delimits, given how limits are found. -/
def delimited (region : Place → Nat → Place) (limit : List Place → m (List Place)) (p : Place) :
    m (Option Place) := do
  let limits ← limit [p]
  let found ← MonadExcept.ofExcept (p.limitOf d 0 limits)
  return found.map (region p)

/-- The region that two limits delimit. The last one is looked for from the first one on, and only
if there is a first one. -/
def delimitedTwice (region : Place → Nat → Nat → Place) (first last : List Place → m (List Place))
    (p : Place) : m (Option Place) := do
  let limits ← first [p]
  match ← MonadExcept.ofExcept (p.limitOf d 0 limits) with
  | none => return none
  | some start =>
    let limits ← last [p]
    let found ← MonadExcept.ofExcept (p.limitOf d start limits)
    return found.map (region p start)

end Place

namespace Selector

section Evaluation

variable {m : Type → Type} [Monad m] [MonadExceptOf SelectorError m]

variable (d : Document) (onStep : Step → List Place → m (List Place))

mutual

/-- Evaluate a selector, given how its steps are evaluated. -/
def evalWith : Selector → List Place → m (List Place)
  | step s, xs => onStep s xs
  | andThen first second, xs => do
    let ys ← first.evalWith xs
    second.evalWith ys
  | group anchored alternatives, xs => do
    let base := if anchored then xs else xs.flatMap (Place.descendants d)
    return firstOccurrences (← evalEach alternatives base)
  | has argument, xs => xs.filterM fun p => do
    return !(← argument.evalWith [p]).isEmpty
  | not argument, xs => do
    return without xs (← argument.evalWith xs)
  | split mode splitter, xs => do
    let regions ← xs.mapM fun p => do
      let splitters ← splitter.evalWith [p]
      MonadExcept.ofExcept (p.splitAt d mode splitters)
    return regions.flatten
  | before limit, xs => do
    let regions ← xs.mapM (Place.delimited d Place.regionBefore limit.evalWith)
    return regions.reduceOption
  | after limit, xs => do
    let regions ← xs.mapM (Place.delimited d (Place.regionAfter d) limit.evalWith)
    return regions.reduceOption
  | between first last, xs => do
    let regions ← xs.mapM
      (Place.delimitedTwice d Place.regionBetween first.evalWith last.evalWith)
    return regions.reduceOption
  | custom body arguments, xs => (body xs).run (evalNth arguments)

/-- The results of all selectors on the same input, one after another. -/
def evalEach : List Selector → List Place → m (List Place)
  | [], _ => return []
  | s :: selectors, xs => do
    let ys ← s.evalWith xs
    return ys ++ (← evalEach selectors xs)

def evalNth : List Selector → Nat → List Place → m (List Place)
  | [], _, _ => return []
  | s :: _, 0, xs => s.evalWith xs
  | _ :: selectors, i + 1, xs => evalNth selectors i xs

end

end Evaluation

def eval (d : Document) (s : Selector) : Stage Place :=
  s.evalWith d fun step xs => (step.keyed d).stage xs

/-- Evaluate a selector with the results of its steps shared through a memo. -/
def evalMemo (d : Document) (s : Selector) (xs : List Place) :
    EStateM SelectorError (StageMemo Place) (List Place) :=
  s.evalWith d (fun step xs => StageMemo.run (step.keyed d) xs) xs

end Selector

end TreeQuery
