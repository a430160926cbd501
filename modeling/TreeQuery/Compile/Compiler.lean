import TreeQuery.Compile.Generator
import TreeQuery.Event.OfTokens
import TreeQuery.Token.Stream

/-!
# Compiling selectors

A compiler receives the events of a group and keeps one generator for it and one for each group
around it. Steps are registered with the memo, if there is one, as soon as they are read.
-/

set_option autoImplicit false

namespace TreeQuery

variable [PatternEngine]

/-- A compiler of selectors over one document. -/
structure Compiler where
  document : Document
  registry : Registry Place := {}
  memo : Option (StageMemo Place) := none
  generator : Generator := {}
  /-- The generators of the groups around it, innermost first. -/
  enclosing : List Generator := []

namespace Compiler

def update (f : Generator → Generator) (c : Compiler) : Compiler :=
  { c with generator := f c.generator }

def enter (c : Compiler) : Compiler :=
  { c with generator := {}, enclosing := c.generator :: c.enclosing }

def push (c : Compiler) (g : Generator) : Compiler :=
  { c with generator := g, enclosing := c.generator :: c.enclosing }

def leave (c : Compiler) : Compiler :=
  { c with generator := c.enclosing.headD {}, enclosing := c.enclosing.tail }

/-- Take the generators of the last `n` nested groups, in the order of the groups. -/
def takeNested : Nat → Compiler → List Generator × Compiler
  | 0, c => ([], c)
  | n + 1, c =>
    let (nested, outer) := takeNested n c.leave
    (nested ++ [c.generator], outer)

def memoize (s : Step) (c : Compiler) : Compiler :=
  { c with memo := c.memo.map fun m => m.memoize (s.keyed c.document) }

def groupedSelector : GroupPseudo → List Selector → Option Selector
  | .has, [s] => some (.has s)
  | .not, [s] => some (.not s)
  | .split mode, [s] => some (.split mode s)
  | .before, [s] => some (.before s)
  | .after, [s] => some (.after s)
  | .between, [s, t] => some (.between s t)
  | _, _ => none

def customArguments : List EventArgument → List Selector → List (CustomArgument Selector)
  | .string text :: arguments, nested => .string text :: customArguments arguments nested
  | .integer value :: arguments, nested => .integer value :: customArguments arguments nested
  | .group :: arguments, s :: nested => .subSelector s :: customArguments arguments nested
  | _, _ => []

end Compiler

def CustomSelector.invoke (c : CustomSelector Place) (name : String)
    (arguments : List (CustomArgument Selector)) : Except SelectorError Selector :=
  match Arguments.ofList? 0 c.types arguments with
  | some values => .ok (.custom (c.apply values) (arguments.filterMap (·.selector?)))
  | none => .error (.argumentTypes name c.types (arguments.map (·.type)))

namespace Compiler

def nestedSelector (registry : Registry Place) (nested : List Selector) :
    Event → Except SelectorError (Option Selector)
  | .grouped pseudo => .ok (groupedSelector pseudo nested)
  | .custom name arguments =>
    match registry.find? name with
    | some c => some <$> c.invoke name (customArguments arguments nested)
    | none => .error (.unknownPseudo name)
  | _ => .ok none

def addStep (s : Step) (c : Compiler) : Compiler :=
  (c.memoize s).update (·.add (.step s))

def chainStep : Except SelectorError Step → EStateM SelectorError Compiler Unit
  | .ok s => modify (addStep s)
  | .error err => throw err

def chainSelector : Option Selector → EStateM SelectorError Compiler Unit
  | some s => modify (update (·.add s))
  | none => pure ()

def handleNested (e : Event) : EStateM SelectorError Compiler Unit := do
  let nested ← modifyGet (takeNested e.groupCount)
  let selectors ← MonadExcept.ofExcept (nested.mapM Generator.selector)
  let c ← get
  chainSelector (← MonadExcept.ofExcept (nestedSelector c.registry selectors e))

def handle (e : Event) : EStateM SelectorError Compiler Unit := do
  match e with
  | .init => modify (update .init)
  | .anchor => modify (update .anchor)
  | .alternative => modify (update .beginAlternative)
  | .close => modify (update .close)
  | .nest => modify enter
  | e =>
    match Step.ofEvent? e with
    | some outcome => chainStep outcome
    | none => handleNested e

instance : EventSink Compiler where
  signature? c name := c.registry.signature? name
  handle := handle

/-- Leave nested groups until only `depth` groups are around the innermost. -/
def leaveTo (depth : Nat) (c : Compiler) : Compiler :=
  (c.enclosing.length - depth).repeat leave c

/-- Read tokens into the innermost generator. A failure abandons the groups nested in it. -/
def readTokens (tokens : List Token) : EStateM SelectorError Compiler Unit := fun c =>
  match parseTokens tokens c with
  | .ok _ c => .ok () c
  | .error e inner => .error e (inner.leaveTo c.enclosing.length)

def compileTokens (tokens : List Token) : EStateM SelectorError Compiler Selector := do
  readTokens tokens
  MonadExcept.ofExcept (← get).generator.selector

def compile (source : String) : EStateM SelectorError Compiler Selector := do
  if source = "" then throw .emptySelector
  let tokens ← MonadExcept.ofExcept (tokenize source)
  compileTokens tokens

theorem compile_of_tokenize {source : String} {tokens : List Token} (hsource : source ≠ "")
    (htokens : tokenize source = .ok tokens) (c : Compiler) :
    compile source c = compileTokens tokens c := by
  unfold compile
  rw [if_neg hsource, htokens]
  rfl

/-- Evaluate a selector, through the memo if there is one. -/
def evaluate (s : Selector) (input : List Place) :
    EStateM SelectorError Compiler (List Place) := fun c =>
  match c.memo with
  | some m =>
    match s.evalMemo c.document input m with
    | .ok output m => .ok output { c with memo := some m }
    | .error e m => .error e { c with memo := some m }
  | none =>
    match s.eval c.document input with
    | .ok output => .ok output c
    | .error e => .error e c

def select (source : String) (input : List Place) :
    EStateM SelectorError Compiler (List Place) := do
  evaluate (← compile source) input

def describe (c : Compiler) : String :=
  "Generator \x7b alternatives: " ++ toString c.generator.alternatives.length
    ++ ", building: " ++ toString c.generator.current.isSome
    ++ ", anchor_to_root: " ++ toString c.generator.anchored
    ++ ", compiled: " ++ toString c.generator.compiled.isSome
    ++ ", memoized: " ++ toString c.memo.isSome ++ ", .. \x7d"

end Compiler

namespace Document

def compile (d : Document) (registry : Registry Place) (source : String) :
    Except SelectorError Selector :=
  match Compiler.compile source { document := d, registry } with
  | .ok s _ => .ok s
  | .error e _ => .error e

def selectAll (d : Document) (source : String) : Except SelectorError (List Place) := do
  (← d.compile {} source).eval d [.node root]

def selectFirst? (d : Document) (source : String) : Except SelectorError (Option Place) := do
  return (← d.selectAll source).head?

end Document

end TreeQuery
