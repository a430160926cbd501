import TreeQuery.Event.OfTokens

/-!
# The grammar of selector groups

Syntax trees, the token lists that write them, and the events that tell them. Blanks are optional
tokens of their own, and tokens matter through their kinds and, where names and values are read,
their texts.
-/

set_option autoImplicit false

namespace TreeQuery

/-! ## Trees -/

/-- How a compound starts. -/
inductive CompoundHead where
  | type (ns : Namespace) (name : String)
  | universal (ns : Namespace)
  /-- Nothing is written. -/
  | implied

inductive SimpleTest where
  | id (value : String)
  | className (name : String)
  | hasAttribute (ns : Namespace) (name : String)
  | compareAttribute (ns : Namespace) (name : String) (comparison : Comparison) (value : String)
  | plain (pseudo : PlainPseudo)
  | nthChild (position : Int)
  | nthLastChild (position : Int)
  | index (value : Int)
  | containsText (text : String)
  | matchesText (pattern : String)

mutual

inductive ModifierTree where
  | test (test : SimpleTest)
  | grouped (pseudo : GroupPseudo) (single : pseudo ≠ .between) (argument : GroupTree)
  | between (start stop : GroupTree)
  | custom (name : String) (arguments : List ArgumentTree)

inductive ArgumentTree where
  | string (text : String)
  | integer (value : Int)
  | group (group : GroupTree)

inductive CompoundTree where
  | mk (head : CompoundHead) (modifiers : List ModifierTree)

inductive AlternativeTree where
  | last (compound : CompoundTree)
  | link (compound : CompoundTree) (combinator : Combinator) (rest : AlternativeTree)

inductive GroupTree where
  | mk (slashed : Bool) (alternatives : List AlternativeTree)

end

/-! ## Events -/

/-- A compound that starts with a modifier is told like one that starts with a star. -/
def CompoundHead.event : CompoundHead → Event
  | type ns name => .type ns name
  | universal ns => .universal ns
  | implied => .universal .unstated

def SimpleTest.event : SimpleTest → Event
  | id value => .id value
  | className name => .className name
  | hasAttribute ns name => .hasAttribute ns name
  | compareAttribute ns name comparison value => .compareAttribute ns name comparison value
  | plain pseudo => .plain pseudo
  | nthChild position => .nthChild 1 position
  | nthLastChild position => .nthLastChild 1 position
  | index value => .index value
  | containsText text => .containsText text
  | matchesText pattern => .matchesText pattern

def ArgumentTree.argument : ArgumentTree → EventArgument
  | string text => .string text
  | integer value => .integer value
  | group _ => .group

mutual

def ModifierTree.events : ModifierTree → List Event
  | .test test => [test.event]
  | .grouped pseudo _ argument =>
    .nest :: argument.events pseudo.anchorsArgument ++ [.grouped pseudo]
  | .between start stop =>
    .nest :: start.events false ++ .nest :: stop.events false ++ [.grouped .between]
  | .custom name arguments =>
    ArgumentTree.listEvents arguments ++ [.custom name (arguments.map ArgumentTree.argument)]

def ModifierTree.listEvents : List ModifierTree → List Event
  | [] => []
  | m :: ms => m.events ++ ModifierTree.listEvents ms

def ArgumentTree.events : ArgumentTree → List Event
  | .group group => .nest :: group.events false
  | _ => []

def ArgumentTree.listEvents : List ArgumentTree → List Event
  | [] => []
  | a :: as => a.events ++ ArgumentTree.listEvents as

def CompoundTree.events : CompoundTree → List Event
  | .mk head modifiers => head.event :: ModifierTree.listEvents modifiers

def AlternativeTree.events : AlternativeTree → List Event
  | .last c => c.events
  | .link c k rest => c.events ++ .combinator k :: rest.events

def AlternativeTree.listEvents : List AlternativeTree → List Event
  | [] => []
  | a :: as => .alternative :: a.events ++ AlternativeTree.listEvents as

/-- The events of a group. Its anchor may come from the group around it and from a slash. -/
def GroupTree.events (anchored : Bool) : GroupTree → List Event
  | .mk slashed alternatives =>
    .init :: ((if anchored then [.anchor] else []) ++ (if slashed then [.anchor] else [])
      ++ AlternativeTree.listEvents alternatives ++ [.close])

end

/-! ## Token lists -/

inductive Optional (k : Token.Kind) : List Token → Prop
  | absent : Optional k []
  | present {t : Token} : t.kind = k → Optional k [t]

abbrev Blank : List Token → Prop :=
  Optional .whiteSpace

inductive Namespace.Written : Namespace → List Token → Prop
  | unstated : Written .unstated []
  | empty {bar : Token} : bar.kind = .pipe → Written .empty [bar]
  | any {star bar : Token} : star.kind = .star → bar.kind = .pipe → Written .any [star, bar]
  | named {name bar : Token} : name.kind = .ident → bar.kind = .pipe →
      Written (.named name.text) [name, bar]

inductive CompoundHead.Written : CompoundHead → List Token → Prop
  | type {ns : Namespace} {part : List Token} {name : Token} : ns.Written part →
      name.kind = .ident → Written (.type ns name.text) (part ++ [name])
  | universal {ns : Namespace} {part : List Token} {star : Token} : ns.Written part →
      star.kind = .star → Written (.universal ns) (part ++ [star])
  | implied : Written .implied []

inductive Combinator.Written : Combinator → List Token → Prop
  | blank {t : Token} : t.kind = .whiteSpace → Written .descendant [t]
  | child {t : Token} {blank : List Token} : t.kind = .greater → Blank blank →
      Written .child (t :: blank)
  | adjacent {t : Token} {blank : List Token} : t.kind = .plus → Blank blank →
      Written .adjacent (t :: blank)
  | sibling {t : Token} {blank : List Token} : t.kind = .tilde → Blank blank →
      Written .sibling (t :: blank)

inductive Separator : List Token → Prop
  | mk {semicolon blank : Token} : semicolon.kind = .semicolon → blank.kind = .whiteSpace →
      Separator [semicolon, blank]

inductive FunctionCall (name : String) (body : List Token) : List Token → Prop
  | mk {colon function close : Token} {blank : List Token} : colon.kind = .colon →
      function.kind = .function → function.text = name → Blank blank →
      close.kind = .rightParen →
      FunctionCall name body (colon :: function :: (blank ++ body ++ [close]))

inductive IntegerWritten (n : Int) : List Token → Prop
  | mk {t : Token} : t.kind = .integer → int32OfText? t.text = some n → IntegerWritten n [t]

inductive StringWritten (text : String) : List Token → Prop
  | mk {t : Token} : t.kind = .string → t.text = text → StringWritten text [t]

/-- An attribute test, up to its closing bracket. -/
inductive AttributeWritten : SimpleTest → List Token → Prop
  | has {ns : Namespace} {part blank blank' : List Token} {name close : Token} : Blank blank →
      ns.Written part → name.kind = .ident → Blank blank' → close.kind = .rightBracket →
      AttributeWritten (.hasAttribute ns name.text) (blank ++ part ++ name :: (blank' ++ [close]))
  | compare {ns : Namespace} {part blank₁ blank₂ blank₃ blank₄ : List Token}
      {name sign value close : Token} {comparison : Comparison} : Blank blank₁ →
      ns.Written part → name.kind = .ident → Blank blank₂ → sign.kind = comparison.kind →
      Blank blank₃ → value.kind = .string ∨ value.kind = .ident → Blank blank₄ →
      close.kind = .rightBracket →
      AttributeWritten (.compareAttribute ns name.text comparison value.text)
        (blank₁ ++ part ++ name :: (blank₂ ++ sign :: (blank₃ ++ value :: (blank₄ ++ [close]))))

inductive SimpleTest.Written : SimpleTest → List Token → Prop
  | id {t : Token} : t.kind = .hash → Written (.id t.text) [t]
  | className {dot name : Token} : dot.kind = .dot → name.kind = .ident →
      Written (.className name.text) [dot, name]
  | bracketed {test : SimpleTest} {opening : Token} {rest : List Token} :
      opening.kind = .leftBracket → AttributeWritten test rest → Written test (opening :: rest)
  | plain {pseudo : PlainPseudo} {colon name : Token} : colon.kind = .colon →
      name.kind = .ident → PlainPseudo.ofName? name.text = some pseudo →
      Written (.plain pseudo) [colon, name]
  | nthChild {n : Int} {sign digits ts : List Token} : Optional .plus sign →
      IntegerWritten n digits → FunctionCall "nth-child" (sign ++ digits) ts →
      Written (.nthChild n) ts
  | nthLastChild {n : Int} {sign digits ts : List Token} : Optional .plus sign →
      IntegerWritten n digits → FunctionCall "nth-last-child" (sign ++ digits) ts →
      Written (.nthLastChild n) ts
  | index {n : Int} {digits ts : List Token} : IntegerWritten n digits →
      FunctionCall "eq" digits ts → Written (.index n) ts
  | containsText {text : String} {body ts : List Token} : StringWritten text body →
      FunctionCall "contains" body ts → Written (.containsText text) ts
  | matchesText {text : String} {body ts : List Token} : StringWritten text body →
      FunctionCall "matches" body ts → Written (.matchesText text) ts

/-- The functions that are not looked up among the custom selectors. -/
def builtinFunctions : List String :=
  ["eq", "nth-child", "nth-last-child", "contains", "matches"] ++ GroupPseudo.all.map (·.name)

section Trees

variable (signature? : String → Option (List ArgumentType))

mutual

/-- A modifier. A custom selector is written as a function of the arguments that it declares, or
as a plain name if it declares none. -/
inductive ModifierTree.Written : ModifierTree → List Token → Prop
  | test {test : SimpleTest} {ts : List Token} : test.Written ts →
      ModifierTree.Written (.test test) ts
  | grouped {pseudo : GroupPseudo} {single : pseudo ≠ .between} {g : GroupTree}
      {body ts : List Token} : g.Written body → FunctionCall pseudo.name body ts →
      ModifierTree.Written (.grouped pseudo single g) ts
  | between {g h : GroupTree} {start separator stop ts : List Token} : g.Written start →
      Separator separator → h.Written stop →
      FunctionCall "between" (start ++ separator ++ stop) ts →
      ModifierTree.Written (.between g h) ts
  | function {name : String} {types : List ArgumentType} {arguments : List ArgumentTree}
      {body ts : List Token} : name ∉ builtinFunctions → signature? name = some types →
      ArgumentsWritten types arguments body → FunctionCall name body ts →
      ModifierTree.Written (.custom name arguments) ts
  | name {colon name : Token} : colon.kind = .colon → name.kind = .ident →
      PlainPseudo.ofName? name.text = none → signature? name.text = some [] →
      ModifierTree.Written (.custom name.text []) [colon, name]

inductive ModifiersWritten : List ModifierTree → List Token → Prop
  | nil : ModifiersWritten [] []
  | cons {m : ModifierTree} {ms : List ModifierTree} {ts rest : List Token} : m.Written ts →
      ModifiersWritten ms rest → ModifiersWritten (m :: ms) (ts ++ rest)

inductive ArgumentTree.Written : ArgumentType → ArgumentTree → List Token → Prop
  | string {text : String} {ts : List Token} : StringWritten text ts →
      ArgumentTree.Written .string (.string text) ts
  | integer {n : Int} {ts : List Token} : IntegerWritten n ts →
      ArgumentTree.Written .integer (.integer n) ts
  | group {g : GroupTree} {ts : List Token} : g.Written ts →
      ArgumentTree.Written .subSelector (.group g) ts

inductive MoreArgumentsWritten : List ArgumentType → List ArgumentTree → List Token → Prop
  | nil : MoreArgumentsWritten [] [] []
  | cons {type : ArgumentType} {types : List ArgumentType} {a : ArgumentTree}
      {as : List ArgumentTree} {separator ts rest : List Token} : Separator separator →
      a.Written type ts → MoreArgumentsWritten types as rest →
      MoreArgumentsWritten (type :: types) (a :: as) (separator ++ ts ++ rest)

inductive ArgumentsWritten : List ArgumentType → List ArgumentTree → List Token → Prop
  | nil : ArgumentsWritten [] [] []
  | cons {type : ArgumentType} {types : List ArgumentType} {a : ArgumentTree}
      {as : List ArgumentTree} {ts rest : List Token} : a.Written type ts →
      MoreArgumentsWritten types as rest → ArgumentsWritten (type :: types) (a :: as) (ts ++ rest)

inductive CompoundTree.Written : CompoundTree → List Token → Prop
  | mk {head : CompoundHead} {modifiers : List ModifierTree} {ts rest : List Token} :
      head.Written ts → ModifiersWritten modifiers rest →
      (head = .implied → modifiers ≠ []) → CompoundTree.Written (.mk head modifiers) (ts ++ rest)

inductive AlternativeTree.Written : AlternativeTree → List Token → Prop
  | last {c : CompoundTree} {ts : List Token} : c.Written ts → AlternativeTree.Written (.last c) ts
  | link {c : CompoundTree} {k : Combinator} {a : AlternativeTree} {ts sign rest : List Token} :
      c.Written ts → k.Written sign → a.Written rest →
      AlternativeTree.Written (.link c k a) (ts ++ sign ++ rest)

inductive MoreAlternativesWritten : List AlternativeTree → List Token → Prop
  | nil : MoreAlternativesWritten [] []
  | cons {a : AlternativeTree} {as : List AlternativeTree} {comma : Token}
      {blank ts rest : List Token} : comma.kind = .comma → Blank blank → a.Written ts →
      MoreAlternativesWritten as rest →
      MoreAlternativesWritten (a :: as) (comma :: (blank ++ ts ++ rest))

inductive GroupTree.Written : GroupTree → List Token → Prop
  | plain {a : AlternativeTree} {as : List AlternativeTree} {ts rest : List Token} :
      a.Written ts → MoreAlternativesWritten as rest →
      GroupTree.Written (.mk false (a :: as)) (ts ++ rest)
  | slashed {a : AlternativeTree} {as : List AlternativeTree} {slash : Token}
      {blank ts rest : List Token} : slash.kind = .slash → Blank blank → a.Written ts →
      MoreAlternativesWritten as rest →
      GroupTree.Written (.mk true (a :: as)) (slash :: (blank ++ ts ++ rest))

end

end Trees

end TreeQuery
