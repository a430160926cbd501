import TreeQuery.Pattern.Escape

/-!
# Sets in brackets

A set in brackets lists characters, ranges, escapes, named sets and further sets in brackets. Its
items are united, and such unions may be intersected or subtracted from left to right.
-/

set_option autoImplicit false

namespace TreeQuery

namespace PatternReader

def folded (s : CharSet) : PatternReader CharSet := do
  let flags := (← get).flags
  if !flags.caseless then return s
  return if flags.unicode then .caseless s else .asciiCaseless s

def negatedIf (negated : Bool) (s : CharSet) : CharSet :=
  if negated then .compl s else s

def namedSet? : PatternReader (Option CharSet) := do
  let s ← get
  match s.rest with
  | '[' :: ':' :: rest =>
    let negated := rest.head? == some '^'
    let rest := if negated then rest.tail else rest
    let name := rest.takeWhile (· != ':')
    match rest.drop name.length, CharSet.named? (String.ofList name) with
    | ':' :: ']' :: rest, some named =>
      set { s with rest }
      return some (negatedIf negated (← folded named))
    | _, _ => return none
  | _ => return none

/-- A character or an escape inside brackets. A set of bytes has only characters of seven bits. -/
def setAtom : PatternReader Atom := do
  let c ← peek
  let atom ←
    if c == '\x5c' then escape
    else do
      advance
      pure (.char c)
  match atom with
  | .char c =>
    if !(← get).flags.unicode && 0x80 ≤ c.toNat then failure
    return atom
  | _ => return atom

def rangeEnd : Atom → PatternReader Char
  | .char c => return c
  | _ => failure

def setItem : PatternReader CharSet := do
  let first ← setAtom
  skipSpace
  let c ← peek
  let saved ← get
  advanceSpace
  let next ← peek?
  if c == '-' && next != some ']' && next != some '-' then
    let last ← setAtom
    let first ← rangeEnd first
    let last ← rangeEnd last
    if last < first then failure
    return .range first last
  set saved
  match first with
  | .char c => return .single c
  | .set s => return s
  | .assertion _ => failure

inductive SetOperator where
  | inter
  | diff
  | symmDiff

def joined : Option (SetOperator × Nested CharSet) → Nested CharSet → PatternReader (Nested CharSet)
  | none, s => return s
  | some (op, left), right => do
    let nesting := max left.nesting right.nesting + 1
    let left ← folded left.value
    let right ← folded right.value
    match op with
    | .inter => return { value := .inter left right, nesting }
    | .diff => return { value := .diff left right, nesting }
    | .symmDiff => return { value := .symmDiff left right, nesting }

def unionOf (items : List (Nested CharSet)) : Nested CharSet where
  value := CharSet.unions (items.map (·.value))
  nesting := rowNesting (items.map (·.nesting))

/-- The hyphens right after an opening bracket stand for themselves. -/
def leadingHyphens : Nat → PatternReader (List (Nested CharSet))
  | 0 => return []
  | n + 1 => do
    let c ← peek
    if c != '-' then return []
    advanceSpace
    return { value := .single '-' } :: (← leadingHyphens n)

mutual

def bracket : Nat → PatternReader (Nested CharSet)
  | 0 => failure
  | n + 1 => do
    advanceSpace
    let negated := (← peek) == '^'
    if negated then advanceSpace
    let hyphens ← leadingHyphens (← get).rest.length
    let c ← peek
    if hyphens.isEmpty && c == ']' then
      advanceSpace
      bracketItems n negated none [{ value := .single ']' }]
    else bracketItems n negated none hyphens

/-- The items of a set in brackets up to the closing one. `pending` is what stands before the last
operator, and `items` is what stands after it, in any order. -/
def bracketItems : Nat → Bool → Option (SetOperator × Nested CharSet) → List (Nested CharSet) →
    PatternReader (Nested CharSet)
  | 0, _, _, _ => failure
  | n + 1, negated, pending, items => do
    skipSpace
    let c ← peek
    if c == '[' then
      match ← namedSet? with
      | some named => bracketItems n negated pending ({ value := named } :: items)
      | none => bracketItems n negated pending ((← bracket n) :: items)
    else if c == ']' then
      advance
      let all ← joined pending (unionOf items)
      let set := negatedIf negated (← folded all.value)
      if !(← get).flags.unicode && !set.isSevenBit then failure
      return { value := set, nesting := all.nesting + 1 }
    else if ← tryText "&&" then
      bracketItems n negated (some (.inter, ← joined pending (unionOf items))) []
    else if ← tryText "--" then
      bracketItems n negated (some (.diff, ← joined pending (unionOf items))) []
    else if ← tryText "~~" then
      bracketItems n negated (some (.symmDiff, ← joined pending (unionOf items))) []
    else bracketItems n negated pending ({ value := ← setItem } :: items)

end

end PatternReader

end TreeQuery
