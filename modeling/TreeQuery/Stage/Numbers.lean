import TreeQuery.Stage.Basic

/-!
# Stages over numbers

A small catalogue of stages over words of 64 bits.
-/

set_option autoImplicit false

namespace TreeQuery

inductive NumberStage where
  | identity
  | nothing
  | even
  | above (limit : Int64)
  | times (count : Nat)
  /-- Add to each number, wrapping around. -/
  | add (summand : Int64)
  | fail (message : String)
  deriving DecidableEq

namespace NumberStage

def stage : NumberStage → Stage Int64
  | identity => Stage.identity
  | nothing => Stage.nothing
  | even => Stage.keep fun n => n % 2 == 0
  | above limit => Stage.keep fun n => limit < n
  | times count => Stage.expand fun n => List.replicate count n
  | add summand => Stage.expand fun n => [n + summand]
  | fail message => Stage.fail (.raised .format message)

end NumberStage

end TreeQuery
