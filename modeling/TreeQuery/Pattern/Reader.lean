import TreeQuery.Pattern.Basic
import TreeQuery.Text.Blank

/-!
# Readers of patterns

A reader of a pattern knows what is left of the pattern's text, the flags that hold there and the
names of groups so far. With each part it tells how deep its own parts are nested. Here are the
readers of single characters, of white space and of numbers.
-/

set_option autoImplicit false

namespace TreeQuery

structure PatternFlags where
  caseless : Bool := false
  multiLine : Bool := false
  dotAll : Bool := false
  crlf : Bool := false
  swapGreed : Bool := false
  unicode : Bool := true
  spaced : Bool := false
  deriving DecidableEq

/-- What is left of a pattern's text, and what is known at that point. -/
structure PatternState where
  rest : List Char
  flags : PatternFlags := {}
  names : List (List Char) := []

/-- A part of a pattern, and the number of levels below which its deepest part lies. -/
structure Nested (α : Type) where
  value : α
  nesting : Nat := 0

/-- The nesting of parts side by side: two or more of them make a level of their own. -/
def rowNesting : List Nat → Nat
  | [] => 0
  | [n] => n
  | ns => ns.foldl max 0 + 1

/-- Reading a pattern; a pattern that cannot be read gives no result. -/
abbrev PatternReader := StateT PatternState Option

namespace PatternReader

def peek? : PatternReader (Option Char) := do
  return (← get).rest.head?

def peek : PatternReader Char := do
  match (← get).rest with
  | c :: _ => return c
  | [] => failure

def advance : PatternReader Unit :=
  modify fun s => { s with rest := s.rest.tail }

def afterComment : List Char → List Char
  | [] => []
  | c :: cs => if c == '\n' then cs else afterComment cs

def afterSpace : Nat → List Char → List Char
  | 0, cs => cs
  | _, [] => []
  | n + 1, c :: cs =>
    if isSpace c then afterSpace n cs
    else if c == '#' then afterSpace n (afterComment cs)
    else c :: cs

/-- Where the flags allow it, move past white space and comments. -/
def skipSpace : PatternReader Unit :=
  modify fun s =>
    if s.flags.spaced then { s with rest := afterSpace s.rest.length s.rest } else s

def advanceSpace : PatternReader Unit := do
  advance
  skipSpace

def tryText (text : String) : PatternReader Bool :=
  modifyGet fun s =>
    if text.toList.isPrefixOf s.rest then
      (true, { s with rest := s.rest.drop text.length })
    else (false, s)

/-- The longest run of characters that satisfy `p`, with the space after each skipped. -/
def spacedRun (p : Char → Bool) : Nat → PatternReader (List Char)
  | 0 => return []
  | n + 1 => do
    match ← peek? with
    | some c =>
      if p c then
        advanceSpace
        return c :: (← spacedRun p n)
      return []
    | none => return []

/-- A decimal number of at most 32 bits, with white space around it. -/
def decimal : PatternReader (Option Nat) := do
  modify fun s => { s with rest := s.rest.dropWhile isSpace }
  let digits ← spacedRun Char.isDigit (← get).rest.length
  let _ ← spacedRun isSpace (← get).rest.length
  if digits.isEmpty then return none
  let n := digits.foldl (fun n c => 10 * n + (c.toNat - '0'.toNat)) 0
  if n < 0x100000000 then return some n
  failure

def isHex (c : Char) : Bool :=
  c.isDigit || ('a' ≤ c && c ≤ 'f') || ('A' ≤ c && c ≤ 'F')

def hexOf (digits : List Char) : Nat :=
  digits.foldl (fun n c =>
    16 * n + (if c.isDigit then c.toNat - 48 else c.toLower.toNat - 87)) 0

/-- Digits of base sixteen up to a closing brace, which stays. -/
def bracedHex : Nat → PatternReader (List Char)
  | 0 => failure
  | n + 1 => do
    let c ← peek
    if c == '\x7d' then return []
    if !isHex c then failure
    advanceSpace
    return c :: (← bracedHex n)

def fixedHex : Nat → PatternReader (List Char)
  | 0 => return []
  | n + 1 => do
    let c ← peek
    if !isHex c then failure
    advanceSpace
    return c :: (← fixedHex n)

/-- The character whose code point is written after `x`, `u` or `U`. Where texts are not taken as
Unicode, two digits stand for a byte, and one above the seven-bit range is part of no text. -/
def hexChar (digits : Nat) : PatternReader Char := do
  advanceSpace
  let c ← peek
  if c == '\x7b' then
    advanceSpace
    let ds ← bracedHex ((← get).rest.length + 1)
    advanceSpace
    if ds.isEmpty then failure
    let n := hexOf ds
    if n.isValidChar then return Char.ofNat n
    failure
  else
    let n := hexOf (← fixedHex digits)
    if digits == 2 && !(← get).flags.unicode && n ≥ 0x80 then failure
    if n.isValidChar then return Char.ofNat n
    failure

end PatternReader

end TreeQuery
