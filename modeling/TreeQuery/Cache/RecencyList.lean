/-!
# Recency lists

Keys are kept in the order of their last use. Each key sits in a slot of an array and is linked to
its neighbours by slot number, so that whoever remembers the slot can unlink or promote the key
without a search. Vacated slots are used again, the last one first.
-/

set_option autoImplicit false

namespace TreeQuery

/-- A place for one key; a vacant slot holds none. -/
structure RecencySlot (K : Type) where
  key : Option K := none
  previous : Option Nat := none
  next : Option Nat := none

/-- Keys from the least to the most recently used. -/
structure RecencyList (K : Type) where
  slots : Array (RecencySlot K) := #[]
  /-- Vacant slots, the one vacated last first. -/
  vacant : List Nat := []
  head : Option Nat := none
  tail : Option Nat := none

namespace RecencyList

variable {K : Type}

def linkNext (slots : Array (RecencySlot K)) (i : Nat) (next : Option Nat) :
    Array (RecencySlot K) :=
  slots.modify i fun s => { s with next }

def linkPrevious (slots : Array (RecencySlot K)) (i : Nat) (previous : Option Nat) :
    Array (RecencySlot K) :=
  slots.modify i fun s => { s with previous }

/-- Add a key as the most recently used one, and answer its slot. -/
def pushBack (l : RecencyList K) (key : K) : Nat × RecencyList K :=
  let slot : RecencySlot K := { key := some key, previous := l.tail }
  let (i, slots, vacant) :=
    match l.vacant with
    | i :: vacant => (i, l.slots.setIfInBounds i slot, vacant)
    | [] => (l.slots.size, l.slots.push slot, [])
  match l.tail with
  | some t => (i, { slots := linkNext slots t (some i), vacant, head := l.head, tail := some i })
  | none => (i, { slots, vacant, head := some i, tail := some i })

/-- Take the key out of a slot and vacate it. A vacant slot is left as it is. -/
def unlink (l : RecencyList K) (i : Nat) : Option K × RecencyList K :=
  match l.slots[i]? with
  | some { key := some key, previous, next } =>
    let slots := l.slots.setIfInBounds i {}
    let (slots, head) :=
      match previous with
      | some p => (linkNext slots p next, l.head)
      | none => (slots, next)
    let (slots, tail) :=
      match next with
      | some n => (linkPrevious slots n previous, l.tail)
      | none => (slots, previous)
    (some key, { slots, vacant := i :: l.vacant, head, tail })
  | _ => (none, l)

def moveToBack (l : RecencyList K) (i : Nat) : RecencyList K :=
  if l.tail = some i then l
  else
    match l.unlink i with
    | (some key, l) => (l.pushBack key).2
    | (none, l) => l

def popFront (l : RecencyList K) : Option K × RecencyList K :=
  match l.head with
  | some h => l.unlink h
  | none => (none, l)

def clear (_ : RecencyList K) : RecencyList K := {}

/-- The keys from a slot on, following at most `bound` links. -/
def keysFrom (slots : Array (RecencySlot K)) : Nat → Option Nat → List K
  | 0, _ => []
  | _, none => []
  | bound + 1, some i =>
    match slots[i]? with
    | some { key := some key, next, .. } => key :: keysFrom slots bound next
    | _ => []

def toList (l : RecencyList K) : List K :=
  keysFrom l.slots l.slots.size l.head

end RecencyList

end TreeQuery
