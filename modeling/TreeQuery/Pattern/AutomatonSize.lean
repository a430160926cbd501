import TreeQuery.Pattern.Plan

/-!
# Sizes of automata

A pattern runs as an automaton over bytes, once from the left and once from the right. A state
takes thirty-two bytes of memory. One that leads on by ranges of bytes takes eight more for each
range, and one that leads on without a byte takes four more for each way. Counted repetitions are
written out, so that sizes multiply.
-/

set_option autoImplicit false

namespace TreeQuery

def stateSize : Nat := 32

def rangesSize (count : Nat) : Nat :=
  stateSize + 8 * count

def waysSize (count : Nat) : Nat :=
  stateSize + 4 * count

/-- Rows of ranges by their first ranges; neighbours with the same one are put together. -/
def rowsByHead : List (List ByteRange) → List (ByteRange × List (List ByteRange))
  | [] => []
  | [] :: rows => rowsByHead rows
  | (b :: row) :: rows =>
    match rowsByHead rows with
    | (head, same) :: others =>
      if b = head then (head, row :: same) :: others else (b, [row]) :: (head, same) :: others
    | [] => [(b, [row])]

/-- What may follow at each state that reads one of some rows of at most `places` ranges. -/
def rowStates : Nat → List (List ByteRange) → List (List (List ByteRange))
  | 0, _ => []
  | places + 1, rows =>
    if rows.all List.isEmpty then []
    else rows :: (rowsByHead rows).flatMap fun (_, rest) => rowStates places rest

def newPlaces : List ByteRange → List ByteRange → Nat
  | a :: as, b :: bs => if a = b then newPlaces as bs else bs.length + 1
  | _, bs => bs.length

/-- The number of places of rows that are not shared with the row before. -/
def unsharedPlaces (before : List ByteRange) : List (List ByteRange) → Nat
  | [] => 0
  | row :: rows => newPlaces before row + unsharedPlaces row rows

/-- The memory for one character of a set. From the left, states that lead on alike are one; from
the right, characters whose bytes begin alike share these bytes. -/
def setSize (backward : Bool) (bounds : List Nat) : Nat :=
  let ranges := stretches bounds
  if ranges.all (·.2 < 0x80) then stateSize + rangesSize ranges.length
  else
    let rows := ranges.flatMap fun r => utf8Rows r.1 r.2
    if backward then
      waysSize rows.length + stateSize + stateSize * unsharedPlaces [] rows
    else
      let sizes := (rowStates 4 rows).eraseDups.map fun rows => rangesSize (rowsByHead rows).length
      stateSize + total sizes

def wordGroups : List (List Nat) → List (List (List Nat))
  | [] => [[]]
  | [] :: words => [] :: wordGroups words
  | word :: words =>
    match wordGroups words with
    | group :: groups => (word :: group) :: groups
    | [] => [[word]]

/-- The memory for one of some words of at most `n` bytes, without the state at their end. Words
that begin alike share these bytes, but not across a word that ends there. -/
def wordsSize : Nat → List (List Nat) → Nat
  | 0, _ => 0
  | n + 1, words =>
    if words.all List.isEmpty then 0
    else
      let words :=
        if words.head?.any List.isEmpty then [] :: words.dropWhile List.isEmpty else words
      let groups := wordGroups words
      let sizes := groups.map fun group =>
        let heads := (group.filterMap List.head?).eraseDups
        let below := heads.map fun head =>
          wordsSize n ((group.filter (·.head? == some head)).map List.tail)
        if heads.isEmpty then 0
        else (if heads.length = 1 then stateSize else rangesSize heads.length) + total below
      waysSize (groups.length - 1 + (groups.filter (! ·.isEmpty)).length) + total sizes

/-- Whether one of some parts is anchored that only parts matching the empty text stand before. Of
each part is told whether it is anchored, and whether it matches only the empty text. -/
def startsAnchored : List (Bool × Bool) → Bool
  | [] => false
  | (anchored, onlyEmpty) :: parts => anchored || (onlyEmpty && startsAnchored parts)

namespace Plan

def words? : List Plan → Option (List (List Nat))
  | [] => some []
  | text codePoints :: ps => (words? ps).map (codePoints.flatMap utf8Bytes :: ·)
  | _ => none

def choiceSize (backward : Bool) (ps : List Plan) (sizes : List Nat) : Nat :=
  match words? ps with
  | some words =>
    let words := if backward then words.map List.reverse else words
    stateSize + wordsSize ((words.map List.length).foldl max 0) words
  | none => waysSize sizes.length + stateSize + total sizes

def repeatedSize (least : Nat) (most : Option Nat) (p : Plan) (size : Nat) : Nat :=
  match least, most with
  | 0, some 1 => waysSize 2 + stateSize + size
  | 0, none =>
    if p.leastLength.any (0 < ·) then waysSize 2 + size
    else 2 * waysSize 2 + stateSize + size
  | _, none => least * size + waysSize 2
  | _, some most =>
    if least = most then least * size
    else
      (if least = 0 then stateSize else least * size) + stateSize
        + (most - least) * (waysSize 2 + size)

mutual

def size (backward : Bool) : Plan → Nat
  | nothing => stateSize
  | text codePoints => stateSize * (codePoints.flatMap utf8Bytes).length
  | chars bounds => setSize backward bounds
  | assertion _ => stateSize
  | seq ps => total (sizes backward ps)
  | choice ps => choiceSize backward ps (sizes backward ps)
  | repeated least most _ p => repeatedSize least most p (p.size backward)
  | capture p => (if backward then 0 else 2 * stateSize) + p.size backward

def sizes (backward : Bool) : List Plan → List Nat
  | [] => []
  | p :: ps => p.size backward :: sizes backward ps

end

mutual

/-- Whether every match has to begin where the text begins or, from the right, to end where the
text ends. -/
def isAnchored (backward : Bool) : Plan → Bool
  | nothing => false
  | text _ => false
  | chars _ => false
  | assertion a => a == if backward then .textEnd else .textStart
  | seq ps =>
    let parts := anchorings backward ps
    startsAnchored (if backward then parts.reverse else parts)
  | choice ps => (anchorings backward ps).all (·.1)
  | repeated least _ _ p => least != 0 && p.isAnchored backward
  | capture p => p.isAnchored backward

def anchorings (backward : Bool) : List Plan → List (Bool × Bool)
  | [] => []
  | p :: ps => (p.isAnchored backward, p.matchesOnlyEmpty) :: anchorings backward ps

end

/-- The memory for the automaton of a plan. Unless it is anchored it begins with a loop over any
bytes; it ends with a state of success; from the left it also remembers where the match lies. -/
def automatonSize (backward : Bool) (p : Plan) : Nat :=
  (if p.isAnchored backward then stateSize else waysSize 2 + stateSize + rangesSize 1)
    + stateSize + (if backward then 0 else 2 * stateSize) + p.size backward

end Plan

end TreeQuery
