import TreeQuery.Pattern.Bracket
import TreeQuery.Text.NameCharacter

/-!
# Reading patterns

Patterns are written as regular expressions: alternatives, repetitions, groups, sets in brackets,
escapes and flags. Neither look-around, back-references nor classes by property exist.
-/

set_option autoImplicit false

namespace TreeQuery

namespace PatternReader

def primitive : PatternReader PatternBody := do
  let flags := (← get).flags
  let c ← peek
  if c == '\x5c' then
    match ← escape with
    | .char c => return .chars (← folded (.single c))
    | .set s => return .chars s
    | .assertion a => return .assertion a
  advance
  if c == '.' then
    if !flags.unicode then failure
    if flags.dotAll then return .chars .full
    if flags.crlf then return .chars (.compl (.union (.single '\n') (.single '\r')))
    return .chars (.compl (.single '\n'))
  if c == '^' then
    return .assertion
      (if !flags.multiLine then .textStart else if flags.crlf then .lineStartCrlf else .lineStart)
  if c == '$' then
    return .assertion
      (if !flags.multiLine then .textEnd else if flags.crlf then .lineEndCrlf else .lineEnd)
  return .chars (← folded (.single c))

/-- The name of a group up to its closing angle bracket. A name may be given only once. -/
def groupName : PatternReader Unit := do
  let s ← get
  let name := s.rest.takeWhile (· != '>')
  match name, s.rest.drop name.length with
  | c :: cs, _ :: rest =>
    if !opensName c || !cs.all continuesName || s.names.contains name then failure
    set { s with rest, names := name :: s.names }
  | _, _ => failure

def setFlag (on : Bool) (flags : PatternFlags) : Char → Option PatternFlags
  | 'i' => some { flags with caseless := on }
  | 'm' => some { flags with multiLine := on }
  | 's' => some { flags with dotAll := on }
  | 'R' => some { flags with crlf := on }
  | 'U' => some { flags with swapGreed := on }
  | 'u' => some { flags with unicode := on }
  | 'x' => some { flags with spaced := on }
  | _ => none

/-- The flags that letters set and, after a hyphen, unset. No letter and no hyphen may come twice,
and a letter must follow a hyphen. -/
def readFlags (on : Bool) (flags : PatternFlags) : List Char → List Char → Option PatternFlags
  | _, [] => some flags
  | seen, c :: cs =>
    if seen.contains c then none
    else if c == '-' then
      if cs.isEmpty then none else readFlags false flags (c :: seen) cs
    else (setFlag on flags c).bind fun flags => readFlags on flags (c :: seen) cs

/-- Items one after another. A place where flags are set matches nothing. -/
def sequence (items : List (Nested (Option PatternBody))) : Nested PatternBody where
  value :=
    match (items.map (·.value.getD .empty)).reverse with
    | [] => .empty
    | last :: before => before.foldl (fun rest p => .seq p rest) last
  nesting := rowNesting (items.map (·.nesting))

def alternatives (alts : List (Nested PatternBody)) (last : Nested PatternBody) :
    Nested PatternBody where
  value := alts.foldr (fun p rest => .either p.value rest) last.value
  nesting := rowNesting ((alts ++ [last]).map (·.nesting))

def countedBounds : PatternReader (Nat × Option Nat) := do
  advanceSpace
  let least ← decimal
  let c ← peek
  let bounds ←
    if c == ',' then do
      advanceSpace
      let c ← peek
      if c == '\x7d' then do
        let some least := least | failure
        pure (least, none)
      else do
        let some least := least | failure
        let some most ← decimal | failure
        pure (least, some most)
    else do
      let some least := least | failure
      pure (least, some least)
  let c ← peek
  if c != '\x7d' then failure
  advanceSpace
  if bounds.2.any (· < bounds.1) then failure
  return bounds

/-- The items read so far with the last one repeated. A question mark that follows makes a greedy
repetition lazy. -/
def repeatLast (items : List (Nested (Option PatternBody))) (least : Nat) (most : Option Nat) :
    PatternReader (List (Nested (Option PatternBody))) := do
  let isLazy ← tryText "?"
  let greedy := isLazy == (← get).flags.swapGreed
  match items with
  | { value := some p, nesting } :: items =>
    return { value := some (.repeated least most greedy p), nesting := nesting + 1 } :: items
  | _ => failure

inductive Opening where
  | group (captures : Bool)
  | flags

def opening : PatternReader Opening := do
  let rest := (← get).rest
  if ["?=", "?!", "?<=", "?<!"].any fun look => look.toList.isPrefixOf rest then failure
  if (← tryText "?P<") || (← tryText "?<") then
    groupName
    return .group true
  if !(← tryText "?") then return .group true
  let rest := (← get).rest
  let letters := rest.takeWhile fun c => c != ':' && c != ')'
  let some flags := readFlags true (← get).flags [] letters | failure
  match rest.drop letters.length with
  | ':' :: rest =>
    modify fun s => { s with rest, flags }
    return .group false
  | _ :: rest =>
    if letters.isEmpty then failure
    modify fun s => { s with rest, flags }
    return .flags
  | [] => failure

/-- A pattern up to the end of its group. `alts` are the alternatives before the present one and
`items` its items so far, the last one first. A place where flags are set is an item that cannot
be repeated. -/
def body : Nat → List (Nested PatternBody) → List (Nested (Option PatternBody)) →
    PatternReader (Nested PatternBody)
  | 0, _, _ => failure
  | n + 1, alts, items => do
    skipSpace
    match ← peek? with
    | none | some ')' => return alternatives alts.reverse (sequence items.reverse)
    | some '|' =>
      advance
      body n (sequence items.reverse :: alts) []
    | some '[' =>
      let set ← bracket (2 * (← get).rest.length + 2)
      body n alts ({ value := some (.chars set.value), nesting := set.nesting } :: items)
    | some '?' =>
      advance
      body n alts (← repeatLast items 0 (some 1))
    | some '*' =>
      advance
      body n alts (← repeatLast items 0 none)
    | some '+' =>
      advance
      body n alts (← repeatLast items 1 none)
    | some '\x7b' =>
      let (least, most) ← countedBounds
      body n alts (← repeatLast items least most)
    | some '(' =>
      let flags := (← get).flags
      advanceSpace
      match ← opening with
      | .flags => body n alts ({ value := none } :: items)
      | .group captures =>
        let inner ← body n [] []
        let c ← peek
        if c != ')' then failure
        advance
        modify fun s => { s with flags }
        let group := PatternBody.group captures inner.value
        body n alts ({ value := some group, nesting := inner.nesting + 1 } :: items)
    | some _ =>
      let p ← primitive
      body n alts ({ value := some p } :: items)

end PatternReader

def readPattern? (flags : PatternFlags) (source : String) : Option (Nested PatternBody) :=
  match (PatternReader.body (source.length + 1) [] []).run { rest := source.toList, flags } with
  | some (p, s) => if s.rest.isEmpty then some p else none
  | none => none

end TreeQuery
