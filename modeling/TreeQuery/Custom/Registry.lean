import TreeQuery.Custom.Procedure

/-!
# Custom selectors

A custom selector is registered under a name with the types of its arguments. It is handed values
of exactly these types.
-/

set_option autoImplicit false

namespace TreeQuery

/-- A nested selector, by its position among the nested selectors of one call. -/
structure SubSelector where
  position : Nat
  deriving DecidableEq

namespace SubSelector

def run {E : Type} (s : SubSelector) (input : List E) : Procedure E (List E) :=
  .call s.position input

end SubSelector

/-- Values of the given types. -/
inductive Arguments : List ArgumentType → Type where
  | nil : Arguments []
  | string {types : List ArgumentType} (text : String) (values : Arguments types) :
    Arguments (.string :: types)
  | integer {types : List ArgumentType} (value : Int) (values : Arguments types) :
    Arguments (.integer :: types)
  | subSelector {types : List ArgumentType} (selector : SubSelector) (values : Arguments types) :
    Arguments (.subSelector :: types)

/-- An argument as it was read; nested selectors are values of `S`. -/
inductive CustomArgument (S : Type) where
  | string (text : String)
  | integer (value : Int)
  | subSelector (selector : S)

namespace CustomArgument

variable {S : Type}

def type : CustomArgument S → ArgumentType
  | string _ => .string
  | integer _ => .integer
  | subSelector _ => .subSelector

def selector? : CustomArgument S → Option S
  | subSelector s => some s
  | _ => none

def label : CustomArgument S → String
  | string text => "String(" ++ quote text ++ ")"
  | integer value => "Integer(" ++ toString value ++ ")"
  | subSelector _ => "SubSelector(..)"

end CustomArgument

namespace Arguments

variable {S : Type}

/-- The values of arguments that have the given types. Nested selectors are numbered from `next`
on. -/
def ofList? (next : Nat) :
    (types : List ArgumentType) → List (CustomArgument S) → Option (Arguments types)
  | [], [] => some nil
  | .string :: types, .string text :: arguments =>
    (ofList? next types arguments).map (string text)
  | .integer :: types, .integer value :: arguments =>
    (ofList? next types arguments).map (integer value)
  | .subSelector :: types, .subSelector _ :: arguments =>
    (ofList? (next + 1) types arguments).map (subSelector ⟨next⟩)
  | _, _ => none

/-- Arguments have values exactly when their types are the given ones. -/
theorem isSome_ofList? (types : List ArgumentType) (arguments : List (CustomArgument S))
    (next : Nat) : (ofList? next types arguments).isSome ↔ arguments.map (·.type) = types := by
  induction types generalizing arguments next with
  | nil => cases arguments <;> simp [ofList?]
  | cons t types ih =>
    cases arguments with
    | nil => cases t <;> simp [ofList?]
    | cons a arguments =>
      have h₀ := ih arguments next
      have h₁ := ih arguments (next + 1)
      cases t <;> cases a <;> simp_all [ofList?, CustomArgument.type]

end Arguments

/-- A named operation over lists of elements. -/
structure CustomSelector (E : Type) where
  types : List ArgumentType
  apply : Arguments types → List E → Procedure E (List E)

/-- Custom selectors by name, in the order of their registration. -/
structure Registry (E : Type) where
  entries : List (String × CustomSelector E) := []

namespace Registry

variable {E : Type}

def find? (r : Registry E) (name : String) : Option (CustomSelector E) :=
  r.entries.lookup name

def signature? (r : Registry E) (name : String) : Option (List ArgumentType) :=
  (r.find? name).map (·.types)

def contains (r : Registry E) (name : String) : Bool :=
  (r.find? name).isSome

def register (r : Registry E) (name : String) (selector : CustomSelector E) :
    Except SelectorError (Registry E) :=
  if r.contains name then .error (.duplicateName name)
  else .ok { entries := r.entries ++ [(name, selector)] }

def size (r : Registry E) : Nat :=
  r.entries.length

def names (r : Registry E) : List String :=
  (r.entries.map Prod.fst).mergeSort fun a b => decide (a ≤ b)

def describe (r : Registry E) : String :=
  "CustomSelectorRegistry \x7b names: " ++ quoteList r.names ++ " \x7d"

end Registry

def CustomSelector.describe {E : Type} (s : CustomSelector E) (name : String) : String :=
  "CustomSelectorInfo \x7b name: " ++ quote name ++ ", arg_types: "
    ++ ArgumentType.labels s.types ++ ", .. \x7d"

end TreeQuery
