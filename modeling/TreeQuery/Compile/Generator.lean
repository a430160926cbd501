import TreeQuery.Selector.Basic

/-!
# Generators

A generator puts the selector of one group together: the steps of the present alternative are
chained, and finished alternatives are collected until the group is closed.
-/

set_option autoImplicit false

namespace TreeQuery

variable [PatternEngine]

/-- The selector of a group under construction. -/
structure Generator where
  alternatives : List Selector := []
  current : Option Selector := none
  /-- Whether the group is matched against the working set itself. -/
  anchored : Bool := false
  compiled : Option Selector := none

namespace Generator

def init (_ : Generator) : Generator := {}

def anchor (g : Generator) : Generator :=
  { g with anchored := true }

/-- The alternatives so far, the one under construction last. -/
def selectors (g : Generator) : List Selector :=
  g.alternatives ++ g.current.toList

/-- Start an alternative; one without steps is dropped. -/
def beginAlternative (g : Generator) : Generator :=
  { g with alternatives := g.selectors, current := none }

def add (g : Generator) (s : Selector) : Generator :=
  { g with current := some (match g.current with
    | some previous => .andThen previous s
    | none => s) }

def close (g : Generator) : Generator where
  anchored := g.anchored
  compiled := some (.group g.anchored g.selectors)

def selector (g : Generator) : Except SelectorError Selector :=
  match g.compiled with
  | some s => .ok s
  | none => .error .notCompiled

end Generator

end TreeQuery
