import TreeQuery.Text.Blank
import TreeQuery.Text.CaseFold
import TreeQuery.Text.WordCharacter

/-!
# Character sets of patterns

The sets that patterns write in brackets or by escapes, closed under the operations of sets and
under forgetting case.
-/

set_option autoImplicit false

namespace TreeQuery

inductive CharSet where
  | range (first last : Char)
  | word
  | digit
  | space
  | union (s t : CharSet)
  | inter (s t : CharSet)
  | compl (s : CharSet)
  /-- Characters that are equal up to case to one of the set. -/
  | caseless (s : CharSet)
  | asciiCaseless (s : CharSet)
  deriving DecidableEq

namespace CharSet

def isWord (c : Char) : Bool :=
  if c.toNat < 0x80 then c.isAlphanum || c == '_' else CharRanges.wordCharacters.contains c

def isDigit (c : Char) : Bool :=
  if c.toNat < 0x80 then c.isDigit else CharRanges.decimalDigits.contains c

def contains : CharSet → Char → Bool
  | range first last, c => first ≤ c && c ≤ last
  | word, c => isWord c
  | digit, c => isDigit c
  | space, c => isSpace c
  | union s t, c => s.contains c || t.contains c
  | inter s t, c => s.contains c && t.contains c
  | compl s, c => !s.contains c
  | caseless s, c => s.contains c || (caseVariants c).any s.contains
  | asciiCaseless s, c => s.contains c || s.contains c.toLower || s.contains c.toUpper

def single (c : Char) : CharSet := range c c

def full : CharSet := range '\x00' (Char.ofNat 0x10ffff)

def none : CharSet := compl full

def unions (sets : List CharSet) : CharSet :=
  sets.foldr union none

def diff (s t : CharSet) : CharSet := inter s (compl t)

def symmDiff (s t : CharSet) : CharSet := union (diff s t) (diff t s)

def asciiDigit : CharSet := range '0' '9'

def asciiLetter : CharSet := union (range 'A' 'Z') (range 'a' 'z')

def asciiWord : CharSet := unions [asciiLetter, asciiDigit, single '_']

/-- White space of ASCII, the vertical tab included. -/
def asciiSpace : CharSet := union (range '\t' '\r') (single ' ')

def named? : String → Option CharSet
  | "alnum" => some (union asciiLetter asciiDigit)
  | "alpha" => some asciiLetter
  | "ascii" => some (range '\x00' '\x7f')
  | "blank" => some (union (single '\t') (single ' '))
  | "cntrl" => some (union (range '\x00' '\x1f') (single '\x7f'))
  | "digit" => some asciiDigit
  | "graph" => some (range '!' '~')
  | "lower" => some (range 'a' 'z')
  | "print" => some (range ' ' '~')
  | "punct" => some (unions [range '!' '/', range ':' '@', range '[' '\x60', range '\x7b' '~'])
  | "space" => some asciiSpace
  | "upper" => some (range 'A' 'Z')
  | "word" => some asciiWord
  | "xdigit" => some (unions [asciiDigit, range 'A' 'F', range 'a' 'f'])
  | _ => Option.none

/-- Whether the set holds no character between the seven-bit and the eight-bit limit, as sets of
bytes of a text must. -/
def isSevenBit (s : CharSet) : Bool :=
  (List.range 0x80).all fun n => !s.contains (Char.ofNat (0x80 + n))

def bounds : CharSet → List Nat
  | range first last => if first ≤ last then [first.toNat, last.toNat + 1] else []
  | word => CharRanges.wordCharacters.bounds.toList
  | digit => CharRanges.decimalDigits.bounds.toList
  | space => CharRanges.whiteSpace.bounds.toList
  | union s t => combineBounds or false false s.bounds t.bounds
  | inter s t => combineBounds and false false s.bounds t.bounds
  | compl s => combineBounds (fun inside all => all && !inside) false false s.bounds [0, 0x110000]
  | caseless s => foldClosure foldPairs s.bounds
  | asciiCaseless s => foldClosure (FoldRun.pairs ⟨0x41, 0x5a, 1, 32⟩) s.bounds

end CharSet

end TreeQuery
