import Std.Data.HashMap
import TreeQuery.Cache.RecencyList
import TreeQuery.Text.Decimal

/-!
# Caches that forget what was used least recently

A cache holds at most as many values as its capacity. Each value is stored together with the slot
of its key in a recency list, which tells what to forget first.
-/

set_option autoImplicit false

namespace TreeQuery

inductive CacheError where
  | invalidCapacity (capacity : Nat)
  deriving DecidableEq

namespace CacheError

def message : CacheError → String
  | invalidCapacity capacity => "cache capacity must be positive, got " ++ toString capacity

end CacheError

structure CacheStats where
  hits : Nat := 0
  misses : Nat := 0
  evictions : Nat := 0
  deriving DecidableEq, Inhabited

namespace CacheStats

def add (a b : CacheStats) : CacheStats where
  hits := a.hits + b.hits
  misses := a.misses + b.misses
  evictions := a.evictions + b.evictions

/-- The share of look-ups that found a value, with six decimal places. -/
def hitRate (s : CacheStats) : String :=
  if s.hits + s.misses = 0 then writeRate 0 1 else writeRate s.hits (s.hits + s.misses)

end CacheStats

structure LruCache (K V : Type) [BEq K] [Hashable K] where
  /-- The value of each key, and the slot of the key in `order`. -/
  entries : Std.HashMap K (V × Nat) := ∅
  order : RecencyList K := {}
  capacity : Nat
  stats : CacheStats := {}

namespace LruCache

variable {K V ε : Type} [BEq K] [Hashable K]

def ofCapacity (capacity : Nat) : Except CacheError (LruCache K V) :=
  if capacity = 0 then .error (.invalidCapacity capacity) else .ok { capacity }

/-- Forget what was used least recently until the capacity is kept, in at most `bound` steps. -/
def evict : Nat → LruCache K V → LruCache K V
  | 0, c => c
  | bound + 1, c =>
    if c.entries.size ≤ c.capacity then c
    else
      match c.order.popFront with
      | (some oldest, order) =>
        evict bound { c with
          entries := c.entries.erase oldest
          order
          stats := { c.stats with evictions := c.stats.evictions + 1 } }
      | (none, _) => c

def evictToCapacity (c : LruCache K V) : LruCache K V :=
  c.evict c.entries.size

/-- Store a value. A key that is there already becomes the most recently used one. -/
def insert (c : LruCache K V) (key : K) (value : V) : LruCache K V :=
  match c.entries[key]? with
  | some (_, slot) =>
    { c with entries := c.entries.insert key (value, slot), order := c.order.moveToBack slot }
  | none =>
    let (slot, order) := c.order.pushBack key
    evictToCapacity { c with entries := c.entries.insert key (value, slot), order }

/-- The value of a key. It is evaluated and stored if it is not there; an evaluation that fails
stores nothing. -/
def get {m : Type → Type} [Monad m] (evaluate : K → m (Except ε V)) (c : LruCache K V) (key : K) :
    m (Except ε V × LruCache K V) := do
  match c.entries[key]? with
  | some (value, slot) =>
    return (.ok value, { c with
      order := c.order.moveToBack slot
      stats := { c.stats with hits := c.stats.hits + 1 } })
  | none =>
    let c := { c with stats := { c.stats with misses := c.stats.misses + 1 } }
    match ← evaluate key with
    | .ok value => return (.ok value, c.insert key value)
    | .error e => return (.error e, c)

/-- The value of a key if it is there. Nothing is evaluated and the order stays. -/
def peek? (c : LruCache K V) (key : K) : Option V :=
  (c.entries[key]?).map Prod.fst

def contains (c : LruCache K V) (key : K) : Bool :=
  c.entries.contains key

def remove (c : LruCache K V) (key : K) : Option V × LruCache K V :=
  match c.entries[key]? with
  | some (value, slot) =>
    (some value, { c with entries := c.entries.erase key, order := (c.order.unlink slot).2 })
  | none => (none, c)

/-- Take out everything; the counters stay. -/
def clear (c : LruCache K V) : LruCache K V :=
  { c with entries := ∅, order := c.order.clear }

def size (c : LruCache K V) : Nat :=
  c.entries.size

def setCapacity (c : LruCache K V) (capacity : Nat) : Except CacheError (LruCache K V) :=
  if capacity = 0 then .error (.invalidCapacity capacity)
  else .ok (evictToCapacity { c with capacity })

def keys (c : LruCache K V) : List K :=
  c.order.toList

def describe (c : LruCache K V) : String :=
  "LruCache \x7b len: " ++ toString c.size ++ ", capacity: " ++ toString c.capacity ++ ", .. \x7d"

end LruCache

end TreeQuery
