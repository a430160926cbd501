import TreeQuery.Event.Basic
import TreeQuery.Error

/-!
# Receivers of events

A sink takes the events of a group one by one, each in the state that the earlier ones left, and
may refuse one. It also knows the custom selectors and what arguments they declare.
-/

set_option autoImplicit false

namespace TreeQuery

/-- A receiver of events. A refused event may leave its mark on the state all the same. -/
class EventSink (G : Type) where
  signature? : G → String → Option (List ArgumentType)
  handle : Event → EStateM SelectorError G Unit

namespace EventSink

variable {G : Type} [EventSink G]

/-- Deliver a sequence of events up to the first that is refused. -/
def deliver : List Event → EStateM SelectorError G Unit
  | [] => pure ()
  | e :: es => do
    handle e
    deliver es

end EventSink

end TreeQuery
