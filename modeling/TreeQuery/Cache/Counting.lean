/-!
# A counting evaluator

An evaluator of texts that labels each result with the number of evaluations so far, so that a
result tells whether it was evaluated anew.
-/

set_option autoImplicit false

namespace TreeQuery

/-- Evaluate a key as the key and the count of evaluations. Where failures are possible, keys that
start with an exclamation mark fail, and the message tells the same. -/
def evaluateCounting (mayFail : Bool) (key : String) : StateM Nat (Except String String) :=
  modifyGet fun count =>
    let label := key ++ ":" ++ toString (count + 1)
    if mayFail && key.startsWith "!" then (.error ("cannot evaluate " ++ label), count + 1)
    else (.ok label, count + 1)

end TreeQuery
