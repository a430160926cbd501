import TreeQuery.Compile.Compiler
import TreeQuery.Pattern.OfText

/-!
# Driving a compiler by hand

A generator takes calls in any order, not only as they come from tokens. Nested groups are handed
over as the generators that were driven for them, in whatever state these are.
-/

set_option autoImplicit false

namespace TreeQuery

variable [PatternEngine]

inductive GeneratorCall where
  | init
  | anchor
  | alternative
  | close
  | step (e : Event) (outcome : Except SelectorError Step) (h : Step.ofEvent? e = some outcome)
  | custom (s : Selector)
  | grouped (pseudo : GroupPseudo) (groups : List Generator) (h : groups.length = pseudo.arity)

namespace GeneratorCall

open Compiler (push handle chainSelector)

/-- The call that an event makes on its own. -/
def ofEvent? : Event → Option GeneratorCall
  | .init => some init
  | .anchor => some anchor
  | .alternative => some alternative
  | .close => some close
  | e =>
    match h : Step.ofEvent? e with
    | some outcome => some (step e outcome h)
    | none => none

/-- Carry out a call. Nested groups are put above the generator that is to use them. -/
def perform : GeneratorCall → EStateM SelectorError Compiler Unit
  | init => handle .init
  | anchor => handle .anchor
  | alternative => handle .alternative
  | close => handle .close
  | step e _ _ => handle e
  | custom s => chainSelector (some s)
  | grouped pseudo groups _ => fun c => handle (.grouped pseudo) (groups.foldl push c)

end GeneratorCall

/-- A call with the calls by which its nested groups are driven first. -/
inductive CompilerCall where
  | event (e : Event)
  | grouped (pseudo : GroupPseudo) (groups : List (List CompilerCall))

namespace Compiler

/-- Drive a new generator, which shares the memo with the present one. -/
def driveNew (calls : EStateM SelectorError Compiler Unit) :
    EStateM SelectorError Compiler Generator := fun c =>
  match calls { c with generator := {}, enclosing := [] } with
  | .ok _ inner => .ok inner.generator { c with memo := inner.memo }
  | .error e inner => .error e { c with memo := inner.memo }

mutual

/-- Carry out a call. What makes no call of a generator does nothing. -/
def call : CompilerCall → EStateM SelectorError Compiler Unit
  | .event e =>
    match GeneratorCall.ofEvent? e with
    | some x => x.perform
    | none => pure ()
  | .grouped pseudo groups => do
    let generators ← driveGroups groups
    if h : generators.length = pseudo.arity then
      (GeneratorCall.grouped pseudo generators h).perform
    else pure ()

def driveGroups : List (List CompilerCall) → EStateM SelectorError Compiler (List Generator)
  | [] => pure []
  | calls :: groups => do
    let g ← driveNew (callAll calls)
    return g :: (← driveGroups groups)

def callAll : List CompilerCall → EStateM SelectorError Compiler Unit
  | [] => pure ()
  | c :: calls => do
    call c
    callAll calls

end

end Compiler

end TreeQuery
