import TreeQuery.Event.Basic
import TreeQuery.Region.Place

/-!
# Runs of a child list

Region operators cut the child list of a place into runs. A run is a range of positions that is
open at its end. Positions are handed in by increasing size and without repetition. Where they are
summed, the sum is an argument, so that numbers of bounded size can be told from all numbers.
-/

set_option autoImplicit false

namespace TreeQuery

/-- The positions from `start` up to, but without, `stop`. -/
structure Run where
  start : Nat
  stop : Nat
  deriving DecidableEq, Inhabited

namespace SplitMode

def direction? : SplitMode → Option Direction
  | before | after => some .right
  | between | all => none

/-- Whether a place without splitters is kept whole. -/
def keepsUnsplit : SplitMode → Bool
  | all => true
  | _ => false

end SplitMode

namespace Run

def edges : List Nat → List Run
  | a :: b :: cuts => ⟨a, b⟩ :: edges (b :: cuts)
  | _ => []

section Sums

variable (add : Nat → Nat → Nat)

/-- The runs into which the splitters at `positions` cut a list of length `n`, empty ones
included. -/
def cutBy (mode : SplitMode) (positions : List Nat) (n : Nat) : List Run :=
  match mode with
  | .before => edges (0 :: positions ++ [n])
  | .after => edges (0 :: positions.map (add · 1) ++ [n])
  | .between => (edges positions).map fun r => ⟨add r.start 1, r.stop⟩
  | .all =>
    ⟨0, add (positions.headD 0) 1⟩ ::
      ((edges positions).map (fun r => ⟨r.start, add r.stop 1⟩) ++ [⟨positions.getLastD 0, n⟩])

/-- The non-empty runs into which the splitters at `positions` cut a list of length `n`. Without
splitters there are none. -/
def splitBy (mode : SplitMode) (positions : List Nat) (n : Nat) : List Run :=
  if positions.isEmpty then []
  else (cutBy add mode positions n).filter fun r => r.start < r.stop && r.stop ≤ n

def afterBy (limit n : Nat) : Run := ⟨min (add limit 1) n, n⟩

/-- The positions strictly between two limits; none when they touch. -/
def betweenBy (first last : Nat) : Run := ⟨add first 1, max last (add first 1)⟩

end Sums

def cut (mode : SplitMode) (positions : List Nat) (n : Nat) : List Run :=
  cutBy (· + ·) mode positions n

def split (mode : SplitMode) (positions : List Nat) (n : Nat) : List Run :=
  splitBy (· + ·) mode positions n

def before (limit : Nat) : Run := ⟨0, limit⟩

def after (limit n : Nat) : Run := afterBy (· + ·) limit n

def between (first last : Nat) : Run := betweenBy (· + ·) first last

end Run

/-- The region over a run of a place's children. A run of a region becomes a run of the region's
own parent. -/
def Place.regionOfBy (add : Nat → Nat → Nat) (p : Place) (run : Run)
    (direction : Option Direction) : Place :=
  match p with
  | .node id => .region ⟨id, run.start, run.stop, direction⟩
  | .region r => .region ⟨r.parent, add r.start run.start, add r.start run.stop, direction⟩

def Place.regionOf (p : Place) (run : Run) (direction : Option Direction) : Place :=
  p.regionOfBy (· + ·) run direction

end TreeQuery
