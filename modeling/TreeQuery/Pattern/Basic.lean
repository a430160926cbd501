import TreeQuery.Pattern.CharSet

/-!
# Patterns

A pattern relates positions of a text: from one position it reaches others. For one text it comes
down to moves among its positions, which are followed from whole sets of positions at once. The
pattern occurs in the text when something is reached.
-/

set_option autoImplicit false

namespace TreeQuery

/-- A condition on the characters around a position. -/
inductive Assertion where
  | textStart
  | textEnd
  | lineStart
  | lineEnd
  | lineStartCrlf
  | lineEndCrlf
  | boundary (wordChars : CharSet)
  | noBoundary (wordChars : CharSet)
  | wordStart (wordChars : CharSet)
  | wordEnd (wordChars : CharSet)
  | halfStart (wordChars : CharSet)
  | halfEnd (wordChars : CharSet)
  deriving DecidableEq

namespace Assertion

/-- Whether the condition holds between two neighbouring characters; a missing neighbour is an
end of the text. -/
def holds (before after : Option Char) : Assertion → Bool
  | textStart => before.isNone
  | textEnd => after.isNone
  | lineStart => before.all (· == '\n')
  | lineEnd => after.all (· == '\n')
  | lineStartCrlf =>
    before.all fun c => c == '\n' || (c == '\r' && after != some '\n')
  | lineEndCrlf =>
    after.all fun c => c == '\r' || (c == '\n' && before != some '\r')
  | boundary w => before.any w.contains != after.any w.contains
  | noBoundary w => before.any w.contains == after.any w.contains
  | wordStart w => !before.any w.contains && after.any w.contains
  | wordEnd w => before.any w.contains && !after.any w.contains
  | halfStart w => !before.any w.contains
  | halfEnd w => !after.any w.contains

end Assertion

inductive PatternBody where
  | empty
  | chars (set : CharSet)
  | assertion (a : Assertion)
  | seq (p q : PatternBody)
  | either (p q : PatternBody)
  /-- At least `least` and, if there is a bound, at most `most` times. A greedy repetition would
  rather go on than stop. -/
  | repeated (least : Nat) (most : Option Nat) (greedy : Bool) (p : PatternBody)
  | group (captures : Bool) (p : PatternBody)
  deriving DecidableEq

/-- A number taken as a set of positions: those where its binary digits are one. -/
abbrev Positions := Nat

def positionsWhere (n : Nat) (p : Nat → Bool) : Positions :=
  (List.range n).foldl (fun s i => if p i then s ||| 1 <<< i else s) 0

/-- Apply `f` at most `n` times, and no more once it changes nothing. -/
def iterateUntilStable (f : Positions → Positions) : Nat → Positions → Positions
  | 0, s => s
  | n + 1, s =>
    let t := f s
    if t = s then s else iterateUntilStable f n t

/-- The moves that a pattern allows among the positions of one text. -/
inductive Moves where
  | stay (positions : Positions)
  | pass (positions : Positions)
  | seq (p q : Moves)
  | either (p q : Moves)
  /-- Move `least` times, and then up to `more` times again. -/
  | repeated (least more : Nat) (p : Moves)
  deriving DecidableEq

def Moves.reach : Moves → Positions → Positions
  | stay positions, s => s &&& positions
  | pass positions, s => (s &&& positions) <<< 1
  | seq p q, s => q.reach (p.reach s)
  | either p q, s => p.reach s ||| q.reach s
  | repeated least more p, s =>
    iterateUntilStable (fun t => t ||| p.reach t) more (iterateUntilStable p.reach least s)

namespace PatternBody

/-- The moves that a pattern allows in a text. In a text of `n` characters nothing changes any more
after `n + 1` repetitions, since one of them must stay where it is and can be done again. -/
def moves (text : Array Char) : PatternBody → Moves
  | empty => .stay (positionsWhere (text.size + 1) fun _ => true)
  | chars set => .pass (positionsWhere text.size fun i => text[i]?.any set.contains)
  | assertion a =>
    .stay (positionsWhere (text.size + 1) fun i =>
      a.holds (if i = 0 then none else text[i - 1]?) text[i]?)
  | seq p q => .seq (p.moves text) (q.moves text)
  | either p q => .either (p.moves text) (q.moves text)
  | group _ p => p.moves text
  | repeated least most _ p =>
    let bound := text.size + 1
    .repeated (min least bound) (most.elim bound fun m => min (m - least) bound) (p.moves text)

def occurs (p : PatternBody) (text : String) : Bool :=
  let chars := text.toList.toArray
  (p.moves chars).reach (positionsWhere (chars.size + 1) fun _ => true) != 0

end PatternBody

end TreeQuery
