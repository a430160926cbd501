import TreeQuery.Event.OfTokens

/-!
# Records of events

A record keeps the events of a group in the order of their delivery. It can be told to refuse the
events of one name. A finished record is shown as a list of texts, each nested group inside the
text of the event that uses it.
-/

set_option autoImplicit false

namespace TreeQuery

namespace Event

def texts (groups : List (List String)) : Event → List String
  | init => ["init"]
  | anchor => ["anchor"]
  | alternative => ["selector"]
  | close => ["close"]
  | type ns name => ["type(" ++ ns.written ++ name ++ ")"]
  | universal ns => ["universal(" ++ ns.written ++ ")"]
  | id value => ["id(" ++ value ++ ")"]
  | className name => ["class(" ++ name ++ ")"]
  | hasAttribute ns name => ["attr(" ++ ns.written ++ name ++ ")"]
  | compareAttribute ns name comparison value =>
    ["attr(" ++ ns.written ++ name ++ comparison.written ++ value ++ ")"]
  | plain pseudo => [pseudo.name]
  | nthChild step offset => ["nth-child(" ++ toString step ++ "n+" ++ toString offset ++ ")"]
  | nthLastChild step offset =>
    ["nth-last-child(" ++ toString step ++ "n+" ++ toString offset ++ ")"]
  | index value => ["eq(" ++ toString value ++ ")"]
  | combinator c => [c.sign]
  | containsText text => ["contains(" ++ text ++ ")"]
  | matchesText pattern => ["matches(" ++ pattern ++ ")"]
  | nest => []
  | grouped pseudo =>
    List.zipWith (fun name group => name ++ "[" ++ " ".intercalate group ++ "]")
      pseudo.groupNames groups
  | custom .. => ["custom"]

end Event

/-- The events delivered so far, the custom selectors known, and the name of the events to
refuse. -/
structure EventRecord where
  signatures : List (String × List ArgumentType)
  refused : Option String := none
  events : Array Event := #[]

namespace EventRecord

/-- Keep an event, and then refuse it if it has the refused name. -/
def handle (e : Event) : EStateM SelectorError EventRecord Unit := do
  modify fun r => { r with events := r.events.push e }
  match (← get).refused with
  | some name =>
    if name ∈ e.refusalNames then throw (.raised .notSupported ("generator refused " ++ name))
  | none => pure ()

instance : EventSink EventRecord where
  signature? r name := r.signatures.lookup name
  handle := handle

end EventRecord

/-- Show events. `open` groups hold the texts so far, innermost first and each in reverse. -/
def showEvents (groups : List (List String)) : List Event → List String
  | [] => (groups.headD []).reverse
  | .nest :: es => showEvents ([] :: groups) es
  | e :: es =>
    let nested := groups.take e.groupCount
    let texts := e.texts (nested.reverse.map List.reverse)
    match groups.drop e.groupCount with
    | [] => showEvents [texts.reverse] es
    | group :: outer => showEvents ((texts.reverse ++ group) :: outer) es

def eventTexts (record : EventRecord) (tokens : List Token) : Except SelectorError (List String) :=
  match parseTokens tokens record with
  | .ok _ r => .ok (showEvents [[]] r.events.toList)
  | .error e _ => .error e

end TreeQuery
