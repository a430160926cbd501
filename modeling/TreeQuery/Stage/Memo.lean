import TreeQuery.Cache.Lru
import TreeQuery.Stage.Basic

/-!
# Memoized stages

A memo keeps, for each key, the first stage that was given for it and a cache of that stage's
results. Later stages under the same key are not used.
-/

set_option autoImplicit false

namespace TreeQuery

/-- The identity of a stage: an operation and its literal operands, kept apart. -/
structure StageKey where
  operation : String
  operands : List String := []
  deriving DecidableEq, Inhabited

namespace StageKey

def describe (k : StageKey) : String :=
  k.operation ++ quoteList k.operands

end StageKey

/-- A stage with the results it gave. -/
structure MemoizedStage (E : Type) [BEq E] [Hashable E] where
  key : StageKey
  stage : Stage E
  cache : LruCache (List E) (List E)

structure StageMemo (E : Type) [BEq E] [Hashable E] where
  /-- Results kept for each stage. -/
  capacity : Nat
  stages : List (MemoizedStage E) := []

structure KeyedStage (E : Type) where
  key : StageKey
  stage : Stage E

namespace StageMemo

variable {E : Type} [BEq E] [Hashable E]

def ofCapacity (capacity : Nat) : Except SelectorError (StageMemo E) :=
  if capacity = 0 then .error .zeroMemoCapacity else .ok { capacity }

/-- Keep a stage under its key, unless there is one already. -/
def memoize (m : StageMemo E) (s : KeyedStage E) : StageMemo E :=
  if m.stages.any (·.key == s.key) then m
  else
    { m with stages := m.stages ++ [⟨s.key, s.stage, { capacity := m.capacity }⟩] }

def lookUp (key : StageKey) (input : List E) :
    List (MemoizedStage E) → Option (Except SelectorError (List E) × List (MemoizedStage E))
  | [] => none
  | s :: stages =>
    if s.key = key then
      let (answer, cache) := Id.run (s.cache.get (m := Id) s.stage input)
      some (answer, { s with cache } :: stages)
    else (lookUp key input stages).map fun (answer, stages) => (answer, s :: stages)

/-- Run the stage kept under a key. A stage whose key was never memoized runs by itself. -/
def run (s : KeyedStage E) (input : List E) : EStateM SelectorError (StageMemo E) (List E) :=
  fun m =>
    match lookUp s.key input m.stages with
    | some (.ok output, stages) => .ok output { m with stages }
    | some (.error e, stages) => .error e { m with stages }
    | none =>
      match s.stage input with
      | .ok output => .ok output m
      | .error e => .error e m

def size (m : StageMemo E) : Nat :=
  m.stages.length

/-- Forget all results; the stages stay. -/
def clear (m : StageMemo E) : StageMemo E :=
  { m with stages := m.stages.map fun s => { s with cache := s.cache.clear } }

def stats (m : StageMemo E) : CacheStats :=
  m.stages.foldl (fun total s => total.add s.cache.stats) {}

def describe (m : StageMemo E) : String :=
  "StageMemo \x7b stages: " ++ toString m.size ++ ", capacity: " ++ toString m.capacity ++ " \x7d"

end StageMemo

end TreeQuery
