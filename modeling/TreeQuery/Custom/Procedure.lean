import TreeQuery.Error

/-!
# Procedures with nested selectors

What a custom selector computes depends on its input and on what its nested selectors answer, and
on nothing else. A procedure is the tree of such a computation: at each node it asks a nested
selector and goes on with the answer, be it a list of elements or an error.
-/

set_option autoImplicit false

namespace TreeQuery

/-- A computation that may ask nested selectors over elements `E`. -/
inductive Procedure (E α : Type) where
  | done (result : Except SelectorError α)
  | ask (position : Nat) (input : List E)
      (next : Except SelectorError (List E) → Procedure E α)

namespace Procedure

variable {E α β : Type}

def bind : Procedure E α → (α → Procedure E β) → Procedure E β
  | done (.ok a), f => f a
  | done (.error e), _ => done (.error e)
  | ask position input next, f => ask position input fun answer => (next answer).bind f

instance : Monad (Procedure E) where
  pure a := done (.ok a)
  bind := bind

def fail (e : SelectorError) : Procedure E α := done (.error e)

/-- The answer of a nested selector; its error becomes the procedure's. -/
def call (position : Nat) (input : List E) : Procedure E (List E) :=
  ask position input done

def run {m : Type → Type} [Monad m] [MonadExceptOf SelectorError m]
    (answer : Nat → List E → m (List E)) : Procedure E α → m α
  | done (.ok a) => pure a
  | done (.error e) => throw e
  | ask position input next => do
    let reply ← tryCatch (Except.ok <$> answer position input) fun e => pure (.error e)
    (next reply).run answer

end Procedure

end TreeQuery
