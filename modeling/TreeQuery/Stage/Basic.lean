import TreeQuery.Error

/-!
# Stages

A stage maps a list of elements to another list, or fails. Stages compose from left to right.
-/

set_option autoImplicit false

namespace TreeQuery

/-- A mapping of lists of elements that may fail. -/
abbrev Stage (E : Type) := List E → Except SelectorError (List E)

namespace Stage

variable {E : Type}

def identity : Stage E := fun xs => .ok xs

def nothing : Stage E := fun _ => .ok []

def keep (p : E → Bool) : Stage E := fun xs => .ok (xs.filter p)

def expand (f : E → List E) : Stage E := fun xs => .ok (xs.flatMap f)

def fail (e : SelectorError) : Stage E := fun _ => .error e

def andThen (first second : Stage E) : Stage E := fun xs => first xs >>= second

def chain (stages : List (Stage E)) : Stage E := stages.foldl andThen identity

end Stage

end TreeQuery
