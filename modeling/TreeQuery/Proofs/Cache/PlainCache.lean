import TreeQuery.Cache.Lru

/-!
# A cache as a plain list

The same uses as those of an LRU cache, on a list of keys with their values that stands in the
order of their last use. Nothing is linked and nothing is hashed: an entry that is used moves to
the back, and what is too much is dropped from the front.
-/

set_option autoImplicit false

namespace TreeQuery

inductive CacheCall (K V : Type) where
  | get (key : K)
  | insert (key : K) (value : V)
  | peek (key : K)
  | contains (key : K)
  | remove (key : K)
  | clear
  | size
  | capacity
  | setCapacity (capacity : Nat)
  | keys
  | stats

inductive CacheAnswer (K V ε : Type) where
  | evaluated (outcome : Except ε V)
  | found (value? : Option V)
  | whether (answer : Bool)
  | number (count : Nat)
  | resized (outcome : Except CacheError Unit)
  | listed (keys : List K)
  | counted (stats : CacheStats)
  | done

section Runs

variable {K V ε σ S : Type}

/-- Carry out calls one after another. After each, note its answer, the keys and the counters. -/
def runCalls (call : CacheCall K V → S → StateM σ (CacheAnswer K V ε × S)) (keys : S → List K)
    (stats : S → CacheStats) :
    List (CacheCall K V) → S → StateM σ (List (CacheAnswer K V ε × List K × CacheStats) × S)
  | [], s => return ([], s)
  | c :: calls, s => do
    let (answer, s) ← call c s
    let (log, last) ← runCalls call keys stats calls s
    return ((answer, keys s, stats s) :: log, last)

end Runs

/-- Keys with their values, from the least to the most recently used. -/
structure PlainCache (K V : Type) where
  entries : List (K × V) := []
  capacity : Nat
  stats : CacheStats := {}

namespace PlainCache

variable {K V ε σ : Type}

def keys (c : PlainCache K V) : List K :=
  c.entries.map Prod.fst

def lookup [BEq K] (c : PlainCache K V) (key : K) : Option V :=
  c.entries.lookup key

def others [BEq K] (c : PlainCache K V) (key : K) : List (K × V) :=
  c.entries.filter fun e => !(e.1 == key)

def fit (c : PlainCache K V) : PlainCache K V :=
  { c with
    entries := c.entries.drop (c.entries.length - c.capacity)
    stats := { c.stats with
      evictions := c.stats.evictions + (c.entries.length - c.capacity) } }

/-- A plain cache that is too large may drop its first entry before all that is too much. -/
theorem fit_tail {p : PlainCache K V}
    (hp : p.capacity < p.entries.length) :
    PlainCache.fit { p with
      entries := p.entries.tail
      stats := { p.stats with evictions := p.stats.evictions + 1 } } = p.fit := by
  obtain ⟨entries, capacity, stats⟩ := p
  cases entries with
  | nil => simp at hp
  | cons e entries =>
    simp only [List.length_cons] at hp
    have hlen : entries.length + 1 - capacity = (entries.length - capacity) + 1 := by omega
    simp only [PlainCache.fit, List.tail_cons, List.length_cons, hlen, List.drop_succ_cons,
      PlainCache.mk.injEq, CacheStats.mk.injEq, true_and]
    omega

theorem fit_eq_self {p : PlainCache K V}
    (hp : p.entries.length ≤ p.capacity) : p.fit = p := by
  have hlen : p.entries.length - p.capacity = 0 := by omega
  simp only [PlainCache.fit, hlen, List.drop_zero, Nat.add_zero]

variable [BEq K]

def insert (c : PlainCache K V) (key : K) (value : V) : PlainCache K V :=
  match c.lookup key with
  | some _ => { c with entries := c.others key ++ [(key, value)] }
  | none => fit { c with entries := c.entries ++ [(key, value)] }

def get (evaluate : K → StateM σ (Except ε V)) (c : PlainCache K V) (key : K) :
    StateM σ (Except ε V × PlainCache K V) := do
  match c.lookup key with
  | some value =>
    return (.ok value, { c with
      entries := c.others key ++ [(key, value)]
      stats := { c.stats with hits := c.stats.hits + 1 } })
  | none =>
    let c := { c with stats := { c.stats with misses := c.stats.misses + 1 } }
    match ← evaluate key with
    | .ok value => return (.ok value, c.insert key value)
    | .error e => return (.error e, c)

def setCapacity (c : PlainCache K V) (capacity : Nat) : Except CacheError (PlainCache K V) :=
  if capacity = 0 then .error (.invalidCapacity capacity) else .ok (fit { c with capacity })

def call (evaluate : K → StateM σ (Except ε V)) :
    CacheCall K V → PlainCache K V → StateM σ (CacheAnswer K V ε × PlainCache K V)
  | .get key, c => do
    let (outcome, c) ← c.get evaluate key
    return (.evaluated outcome, c)
  | .insert key value, c => return (.done, c.insert key value)
  | .peek key, c => return (.found (c.lookup key), c)
  | .contains key, c => return (.whether (c.lookup key).isSome, c)
  | .remove key, c => return (.found (c.lookup key), { c with entries := c.others key })
  | .clear, c => return (.done, { c with entries := [] })
  | .size, c => return (.number c.entries.length, c)
  | .capacity, c => return (.number c.capacity, c)
  | .setCapacity capacity, c =>
    match c.setCapacity capacity with
    | .ok c => return (.resized (.ok ()), c)
    | .error e => return (.resized (.error e), c)
  | .keys, c => return (.listed c.keys, c)
  | .stats, c => return (.counted c.stats, c)

end PlainCache

namespace LruCache

variable {K V ε σ : Type} [BEq K] [Hashable K]

def call (evaluate : K → StateM σ (Except ε V)) :
    CacheCall K V → LruCache K V → StateM σ (CacheAnswer K V ε × LruCache K V)
  | .get key, c => do
    let (outcome, c) ← c.get evaluate key
    return (.evaluated outcome, c)
  | .insert key value, c => return (.done, c.insert key value)
  | .peek key, c => return (.found (c.peek? key), c)
  | .contains key, c => return (.whether (c.contains key), c)
  | .remove key, c => return (.found (c.remove key).1, (c.remove key).2)
  | .clear, c => return (.done, c.clear)
  | .size, c => return (.number c.size, c)
  | .capacity, c => return (.number c.capacity, c)
  | .setCapacity capacity, c =>
    match c.setCapacity capacity with
    | .ok c => return (.resized (.ok ()), c)
    | .error e => return (.resized (.error e), c)
  | .keys, c => return (.listed c.keys, c)
  | .stats, c => return (.counted c.stats, c)

end LruCache

end TreeQuery
