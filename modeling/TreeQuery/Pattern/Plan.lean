import TreeQuery.Pattern.Basic
import TreeQuery.Text.Utf8

/-!
# Plans of patterns

A plan says how the automaton of a pattern is put together. It is simpler than the pattern:
neighbouring characters form one text, rows and choices are flat, a choice between characters is a
set, alternatives that begin alike share their beginning, and what can only match the empty text
is not repeated.
-/

set_option autoImplicit false

namespace TreeQuery

/-- A pattern as its automaton is put together. -/
inductive Plan where
  | nothing
  | text (codePoints : List Nat)
  | chars (bounds : List Nat)
  | assertion (a : Assertion)
  | seq (ps : List Plan)
  | choice (ps : List Plan)
  | repeated (least : Nat) (most : Option Nat) (greedy : Bool) (p : Plan)
  | capture (p : Plan)

def total (ns : List Nat) : Nat :=
  ns.foldr (· + ·) 0

namespace Plan

mutual

/-- Whether two plans are the same. No two parts that are remembered are, since each of them has a
number of its own. -/
def same : Plan → Plan → Bool
  | nothing, nothing => true
  | text a, text b => a == b
  | chars a, chars b => a == b
  | assertion a, assertion b => a == b
  | seq ps, seq qs => sameAll ps qs
  | choice ps, choice qs => sameAll ps qs
  | repeated least most greedy p, repeated least' most' greedy' q =>
    least == least' && most == most' && greedy == greedy' && p.same q
  | _, _ => false

def sameAll : List Plan → List Plan → Bool
  | [], [] => true
  | p :: ps, q :: qs => p.same q && sameAll ps qs
  | _, _ => false

end

mutual

def matchesOnlyEmpty : Plan → Bool
  | nothing => true
  | text _ => false
  | chars _ => false
  | assertion _ => true
  | seq ps => allMatchOnlyEmpty ps
  | choice ps => allMatchOnlyEmpty ps
  | repeated _ _ _ p => p.matchesOnlyEmpty
  | capture p => p.matchesOnlyEmpty

def allMatchOnlyEmpty : List Plan → Bool
  | [] => true
  | p :: ps => p.matchesOnlyEmpty && allMatchOnlyEmpty ps

end

mutual

/-- The least number of characters that the plan matches, if it is known to match any text. -/
def leastLength : Plan → Option Nat
  | nothing => some 0
  | text codePoints => some codePoints.length
  | chars bounds => if bounds.isEmpty then none else some 1
  | assertion _ => some 0
  | seq ps => (leastLengths ps).map total
  | choice ps => (leastLengths ps).bind List.min?
  | repeated least _ _ p => p.leastLength.map (least * ·)
  | capture p => p.leastLength

def leastLengths : List Plan → Option (List Nat)
  | [] => some []
  | p :: ps => p.leastLength.bind fun n => (leastLengths ps).map (n :: ·)

end

def ofBounds : List Nat → Plan
  | [a, b] => if b = a + 1 then text [a] else chars [a, b]
  | bounds => chars bounds

def parts : Plan → List Plan
  | nothing => []
  | seq ps => ps
  | p => [p]

def joinTexts : List Plan → List Plan
  | text a :: ps =>
    match joinTexts ps with
    | text b :: qs => text (a ++ b) :: qs
    | qs => text a :: qs
  | p :: ps => p :: joinTexts ps
  | [] => []

def row (ps : List Plan) : Plan :=
  match joinTexts (ps.flatMap parts) with
  | [] => nothing
  | [p] => p
  | ps => seq ps

def arms : Plan → List Plan
  | choice ps => ps
  | p => [p]

/-- The bounds of the characters that a plan for one character matches. -/
def bounds? : Plan → Option (List Nat)
  | text [c] => some [c, c + 1]
  | chars bounds => some bounds
  | _ => none

def unionBounds? : List Plan → Option (List Nat)
  | [] => some []
  | p :: ps =>
    p.bounds?.bind fun b => (unionBounds? ps).map (combineBounds or false false b)

/-- A flat choice between plans, or the set of their characters. -/
def flatChoice (ps : List Plan) : Plan :=
  match ps.flatMap arms with
  | [p] => p
  | ps =>
    match unionBounds? ps with
    | some bounds => ofBounds bounds
    | none => choice ps

def commonStart : List Plan → List Plan → List Plan
  | p :: ps, q :: qs => if p.same q then p :: commonStart ps qs else []
  | _, _ => []

def rows? : List Plan → Option (List (List Plan))
  | [] => some []
  | seq ps :: rest => (rows? rest).map (ps :: ·)
  | _ => none

/-- A choice between plans. Rows that all begin alike share their beginning. -/
def among (ps : List Plan) : Plan :=
  match flatChoice ps with
  | choice ps =>
    match rows? ps with
    | some (first :: rest) =>
      match rest.foldl commonStart first with
      | [] => choice ps
      | start =>
        row (start ++ [flatChoice ((first :: rest).map fun ps => row (ps.drop start.length))])
    | _ => choice ps
  | p => p

def times (least : Nat) (most : Option Nat) (greedy : Bool) (p : Plan) : Plan :=
  let onlyEmpty := p.matchesOnlyEmpty
  let least := if onlyEmpty then min least 1 else least
  let most := if onlyEmpty then some (min (most.getD 1) 1) else most
  if most = some 0 then nothing
  else if least = 1 ∧ most = some 1 then p
  else repeated least most greedy p

/-- The row that a list of alternatives, each a list of parts, is a part of. -/
def asParts : List (List Plan) → List Plan
  | [ps] => ps
  | alternatives => [among (alternatives.map row)]

end Plan

namespace PatternBody

def alternatives : PatternBody → List (List Plan)
  | empty => [[]]
  | chars set => [[.ofBounds set.bounds]]
  | assertion a => [[.assertion a]]
  | seq p q => [Plan.asParts p.alternatives ++ Plan.asParts q.alternatives]
  | either p q => p.alternatives ++ q.alternatives
  | repeated least most greedy p =>
    [[.times least most greedy (.row (Plan.asParts p.alternatives))]]
  | group captures p =>
    let inner := Plan.row (Plan.asParts p.alternatives)
    [[if captures then .capture inner else inner]]

def plan (p : PatternBody) : Plan :=
  .row (Plan.asParts p.alternatives)

end PatternBody

end TreeQuery
