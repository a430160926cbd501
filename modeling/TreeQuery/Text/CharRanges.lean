/-!
# Sets of characters by their boundaries

A set of code points is stored as the increasing sequence of the points where membership changes.
Large classes of Unicode are tables of this form.
-/

set_option autoImplicit false

namespace TreeQuery

/-- The code points at which membership changes, increasing; the first bound enters the set. -/
structure CharRanges where
  bounds : Array Nat

namespace CharRanges

def crossings (r : CharRanges) (n : Nat) : Nat :=
  r.bounds.foldl (fun k bound => if bound ≤ n then k + 1 else k) 0

/-- A character belongs to the set when an odd number of bounds has been crossed. -/
def contains (r : CharRanges) (c : Char) : Bool :=
  r.crossings c.toNat % 2 == 1

end CharRanges

/-- The bounds of a set made of two others: `keep` tells whether a point belongs to it from whether
it belongs to each of the two. Before the first bound of either, `inX` and `inY` hold. -/
def combineBounds (keep : Bool → Bool → Bool) (inX inY : Bool) : List Nat → List Nat → List Nat
  | [], [] => []
  | x :: xs, [] =>
    let rest := combineBounds keep (!inX) inY xs []
    if keep inX inY == keep (!inX) inY then rest else x :: rest
  | [], y :: ys =>
    let rest := combineBounds keep inX (!inY) [] ys
    if keep inX inY == keep inX (!inY) then rest else y :: rest
  | x :: xs, y :: ys =>
    if x < y then
      let rest := combineBounds keep (!inX) inY xs (y :: ys)
      if keep inX inY == keep (!inX) inY then rest else x :: rest
    else if y < x then
      let rest := combineBounds keep inX (!inY) (x :: xs) ys
      if keep inX inY == keep inX (!inY) then rest else y :: rest
    else
      let rest := combineBounds keep (!inX) (!inY) xs ys
      if keep inX inY == keep (!inX) (!inY) then rest else x :: rest
termination_by xs ys => xs.length + ys.length

def withinBounds : List Nat → Nat → Bool
  | [], _ => false
  | b :: bs, n => if n < b then false else !withinBounds bs n

def boundsOfPoints : List Nat → List Nat
  | [] => []
  | n :: ns =>
    match boundsOfPoints ns with
    | [] => [n, n + 1]
    | b :: bs =>
      if n = b then b :: bs else if n + 1 = b then n :: bs else n :: (n + 1) :: b :: bs

def stretches : List Nat → List (Nat × Nat)
  | a :: b :: rest => (a, b - 1) :: stretches rest
  | _ => []

end TreeQuery
