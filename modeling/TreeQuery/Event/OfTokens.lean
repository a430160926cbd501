import TreeQuery.Event.Sink
import TreeQuery.Token.Reader
import TreeQuery.Text.Integer

/-!
# From tokens to events

Selector groups are read by recursive descent, with one token of lookahead and one of pushback:

    group       :=  '/'? alternative (',' blank? alternative)*
    alternative :=  compound (combinator compound)*
    combinator  :=  blank  |  ('+' | '>' | '~') blank?
    compound    :=  type-or-universal modifier*  |  modifier+
    modifier    :=  hash  |  '.' ident  |  '[' attribute ']'  |  ':' pseudo
    attribute   :=  blank? namespace? ident blank? (comparison blank? (ident | string) blank?)?
    pseudo      :=  ident  |  function blank? arguments ')'

A nested group is read from the same source and ends before the first token that it cannot use.
-/

set_option autoImplicit false

namespace TreeQuery

/-- What is read from, and who is told. -/
structure ParseState (R G : Type) where
  source : R
  sink : G

/-- Reading tokens from `R` while delivering events to `G`. A failure keeps the state in which it
happened. -/
abbrev Parse (R G : Type) := EStateM SelectorError (ParseState R G)

namespace Parse

variable {R G : Type} [TokenSource R] [EventSink G]

def peek : Parse R G Token := do
  return TokenSource.peek (← get).source

def read : Parse R G Token :=
  modifyGet fun s =>
    let (t, source) := TokenSource.read s.source
    (t, { s with source })

def unread (t : Token) : Parse R G Unit :=
  modify fun s => { s with source := TokenSource.unread t s.source }

def emit (e : Event) : Parse R G Unit := fun s =>
  match EventSink.handle e s.sink with
  | .ok _ sink => .ok () { s with sink }
  | .error err sink => .error err { s with sink }

def signature? (name : String) : Parse R G (Option (List ArgumentType)) := do
  return EventSink.signature? (← get).sink name

def repeatWhile (body : Parse R G Bool) : Nat → Parse R G Unit
  | 0 => pure ()
  | bound + 1 => do
    if ← body then repeatWhile body bound

/-- Consume the next token if one of `specs` accepts it. -/
def tryRead (specs : List TokenSpec) : Parse R G (Option Token) := do
  if specs.any (TokenSpec.accepts (← peek)) then return some (← read) else return none

/-- Consume the next token, which one of `specs` must accept. -/
def expect (specs : List TokenSpec) : Parse R G Token := do
  match ← tryRead specs with
  | some t => return t
  | none => throw (.unexpectedToken (← peek) specs)

def tryKinds (kinds : List Token.Kind) : Parse R G (Option Token) :=
  tryRead (kinds.map .kind)

def expectKinds (kinds : List Token.Kind) : Parse R G Token :=
  expect (kinds.map .kind)

def skip (k : Token.Kind) : Parse R G Bool := do
  return (← tryKinds [k]).isSome

/-- A combinator, if there is one. Blanks are a combinator of their own, and may also follow the
others. -/
def combinator : Parse R G Bool := do
  match ← tryKinds [.plus, .greater, .tilde, .whiteSpace] with
  | none => return false
  | some t =>
    match t.kind with
    | .whiteSpace => emit (.combinator .descendant)
    | .plus =>
      emit (.combinator .adjacent)
      let _ ← skip .whiteSpace
    | .greater =>
      emit (.combinator .child)
      let _ ← skip .whiteSpace
    | _ =>
      emit (.combinator .sibling)
      let _ ← skip .whiteSpace
    return true

/-- A namespace part. An identifier or star without a bar after it is given back. -/
def namespacePart : Parse R G Namespace := do
  match ← tryKinds [.ident, .star, .pipe] with
  | none => return .unstated
  | some t =>
    if t.kind = .pipe then return .empty
    if ← skip .pipe then
      return if t.kind = .ident then .named t.text else .any
    unread t
    return .unstated

def typeOrUniversal : Parse R G Unit := do
  let ns ← namespacePart
  let t ← expectKinds [.ident, .star]
  if t.kind = .ident then emit (.type ns t.text) else emit (.universal ns)

def attributeTest : Parse R G Unit := do
  let _ ← skip .whiteSpace
  let ns ← namespacePart
  let name ← expectKinds [.ident]
  let _ ← skip .whiteSpace
  match (← tryKinds (Comparison.all.map Comparison.kind)).bind (Comparison.ofKind? ·.kind) with
  | some comparison =>
    let _ ← skip .whiteSpace
    let value ← expectKinds [.string, .ident]
    let _ ← skip .whiteSpace
    emit (.compareAttribute ns name.text comparison value.text)
  | none => emit (.hasAttribute ns name.text)
  let _ ← expectKinds [.rightBracket]

def integerOf (t : Token) : Parse R G Int :=
  match int32OfText? t.text with
  | some n => return n
  | none => throw (.integerOutOfRange t.text)

def integer : Parse R G Int := do
  integerOf (← expectKinds [.integer])

/-- `odd`, `even`, or a text whose first letter after hyphens is an n: part of a position
formula. -/
def isFormulaTerm (text : String) : Bool :=
  text.toLower == "odd" || text.toLower == "even"
    || ((text.toList.dropWhile (· == '-')).head?.any fun c => c == 'n' || c == 'N')

def position (function : String) : Parse R G Int := do
  let _ ← skip .plus
  let t ← expectKinds [.integer, .ident]
  if t.kind = .ident then
    if isFormulaTerm t.text then throw (.positionFormula function t.text)
    throw (.unexpectedToken t [.kind .integer])
  let next ← peek
  if next.kind = .ident ∧ isFormulaTerm next.text then
    throw (.positionFormula function (t.text ++ next.text))
  integerOf t

def separator : Parse R G Unit := do
  let _ ← expectKinds [.semicolon]
  let _ ← expectKinds [.whiteSpace]

def openGroup (anchored : Bool) : Parse R G Unit := do
  emit .init
  if anchored then emit .anchor
  if ← skip .slash then
    emit .anchor
    let _ ← skip .whiteSpace

/-- The end of a group. Only an outermost group has to use all tokens. -/
def closeGroup (outermost : Bool) : Parse R G Unit := do
  if outermost then
    let _ ← expectKinds [.endOfInput]
  emit .close

/-! In what follows `nested` reads a nested group; its flag asks for an anchored one. -/

section Nested

variable (nested : Bool → Parse R G Unit)

def customArgument : ArgumentType → Parse R G EventArgument
  | .string => do return .string (← expectKinds [.string]).text
  | .integer => do return .integer (← integer)
  | .subSelector => do
    nested false
    return .group

def moreCustomArguments : List ArgumentType → Parse R G (List EventArgument)
  | [] => return []
  | type :: types => do
    separator
    let a ← customArgument nested type
    return a :: (← moreCustomArguments types)

def customArguments : List ArgumentType → Parse R G (List EventArgument)
  | [] => return []
  | type :: types => do
    let a ← customArgument nested type
    return a :: (← moreCustomArguments nested types)

/-- A custom selector. One that declares arguments must be written as a function. -/
def custom (name : String) (functional : Bool) : Parse R G Unit := do
  match ← signature? name with
  | none => throw (.unknownPseudo name)
  | some types =>
    if !functional && !types.isEmpty then throw (.missingArguments name types.length)
    emit (.custom name (← customArguments nested types))

def groupPseudo (pseudo : GroupPseudo) : Parse R G Unit := do
  nested pseudo.anchorsArgument
  if pseudo = .between then
    separator
    nested false
  emit (.grouped pseudo)

/-- The arguments of the function called `name`, up to its closing parenthesis. -/
def functionArguments (name : String) : Parse R G Unit := do
  if name = "eq" then emit (.index (← integer))
  else if name = "nth-child" then emit (.nthChild 1 (← position name))
  else if name = "nth-last-child" then emit (.nthLastChild 1 (← position name))
  else if name = "contains" then emit (.containsText (← expectKinds [.string]).text)
  else if name = "matches" then emit (.matchesText (← expectKinds [.string]).text)
  else
    match GroupPseudo.ofName? name with
    | some pseudo => groupPseudo nested pseudo
    | none => custom nested name true

def pseudoClass : Parse R G Unit := do
  match ← tryKinds [.function] with
  | some t =>
    let _ ← skip .whiteSpace
    functionArguments nested t.text
    let _ ← expectKinds [.rightParen]
  | none =>
    let t ← expectKinds [.ident]
    match PlainPseudo.ofName? t.text with
    | some pseudo => emit (.plain pseudo)
    | none => custom nested t.text false

def modifierStart : Parse R G (Option Token) :=
  tryKinds [.hash, .dot, .leftBracket, .colon]

def modifier (t : Token) : Parse R G Unit := do
  match t.kind with
  | .hash => emit (.id t.text)
  | .dot => emit (.className (← expectKinds [.ident]).text)
  | .leftBracket => attributeTest
  | _ => pseudoClass nested

def tryModifier : Parse R G Bool := do
  match ← modifierStart with
  | none => return false
  | some t =>
    modifier nested t
    return true

/-- A compound. One that starts with a modifier is short for one that starts with a star. -/
def compound (bound : Nat) : Parse R G Unit := do
  match ← modifierStart with
  | none => typeOrUniversal
  | some t =>
    emit (.universal .unstated)
    modifier nested t
  repeatWhile (tryModifier nested) bound

/-- One more compound after a combinator, if there is one. -/
def link (bound : Nat) : Parse R G Bool := do
  if ← combinator then
    compound nested bound
    return true
  return false

def alternative (bound : Nat) : Parse R G Unit := do
  emit .alternative
  compound nested bound
  repeatWhile (link nested bound) bound

def nextAlternative (bound : Nat) : Parse R G Bool := do
  if ← skip .comma then
    let _ ← skip .whiteSpace
    alternative nested bound
    return true
  return false

def alternatives (bound : Nat) : Parse R G Unit := do
  alternative nested bound
  repeatWhile (nextAlternative nested bound) bound

def groupBody (bound : Nat) (outermost anchored : Bool) : Parse R G Unit := do
  openGroup anchored
  alternatives nested bound
  closeGroup outermost

end Nested

/-- A group nested inside another, when groups may be nested `depth` deep. -/
def nestedGroup (bound : Nat) : Nat → Bool → Parse R G Unit
  | 0, _ => pure ()
  | depth + 1, anchored => do
    emit .nest
    groupBody (nestedGroup bound depth) bound false anchored

/-- An outermost group. Every repetition and every nesting uses up a token, so a bound above the
number of tokens is never reached. -/
def group (bound : Nat) : Parse R G Unit :=
  groupBody (nestedGroup bound bound) bound true false

end Parse

/-- Read `tokens` as a complete selector group and deliver its events. -/
def parseTokens {G : Type} [EventSink G] (tokens : List Token) : EStateM SelectorError G Unit :=
  fun sink =>
    match Parse.group (tokens.length + 1) ⟨TokenReader.ofList tokens, sink⟩ with
    | .ok _ s => .ok () s.sink
    | .error e s => .error e s.sink

end TreeQuery
