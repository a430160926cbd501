import TreeQuery.Pattern.Reader

/-!
# Escapes in patterns

A backslash takes its meaning from a sign or gives one to a letter: a character by its code point,
a set of characters, or a condition on a position.
-/

set_option autoImplicit false

namespace TreeQuery

namespace PatternReader

/-- What an escape or a plain character stands for. -/
inductive Atom where
  | char (c : Char)
  | set (s : CharSet)
  | assertion (a : Assertion)

def wordSet : PatternReader CharSet := do
  return if (← get).flags.unicode then .word else .asciiWord

/-- One of the sets that a letter after a backslash stands for. The complement of a set of bytes
holds bytes that are part of no text. -/
def letterSet (c : Char) : PatternReader CharSet := do
  let unicode := (← get).flags.unicode
  let set : CharSet :=
    match c.toLower with
    | 'd' => if unicode then .digit else .asciiDigit
    | 's' => if unicode then .space else .asciiSpace
    | _ => if unicode then .word else .asciiWord
  if c.isUpper then
    if unicode then return .compl set
    failure
  return set

/-- The kind of word boundary written between braces. Braces that hold no letter or hyphen are a
repetition and stay. -/
def braceBoundary (w : CharSet) : PatternReader Assertion := do
  let start ← get
  if start.rest.head? != some '\x7b' then return .boundary w
  advanceSpace
  let isPart := fun c : Char => c.isAlpha || c == '-'
  let c ← peek
  if !isPart c then
    set start
    return .boundary w
  let name ← spacedRun isPart (← get).rest.length
  let c ← peek
  if c != '\x7d' then failure
  advance
  match String.ofList name with
  | "start" => return .wordStart w
  | "end" => return .wordEnd w
  | "start-half" => return .halfStart w
  | "end-half" => return .halfEnd w
  | _ => failure

def isMeta (c : Char) : Bool :=
  "\\.+*?()|[]\x7b\x7d^$#&-~".toList.contains c

def isEscapable (c : Char) : Bool :=
  c.toNat < 0x80 && !c.isAlphanum && c != '<' && c != '>'

def escape : PatternReader Atom := do
  advance
  let c ← peek
  if c.isDigit then failure
  if c == 'x' then return .char (← hexChar 2)
  if c == 'u' then return .char (← hexChar 4)
  if c == 'U' then return .char (← hexChar 8)
  if "dswDSW".toList.contains c then
    advance
    return .set (← letterSet c)
  advance
  if isMeta c || isEscapable c then return .char c
  match c with
  | 'a' => return .char '\x07'
  | 'f' => return .char '\x0c'
  | 't' => return .char '\t'
  | 'n' => return .char '\n'
  | 'r' => return .char '\r'
  | 'v' => return .char '\x0b'
  | 'A' => return .assertion .textStart
  | 'z' => return .assertion .textEnd
  | 'b' => return .assertion (← braceBoundary (← wordSet))
  | 'B' => return .assertion (.noBoundary (← wordSet))
  | '<' => return .assertion (.wordStart (← wordSet))
  | '>' => return .assertion (.wordEnd (← wordSet))
  | _ => failure

end PatternReader

end TreeQuery
