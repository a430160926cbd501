import Mathlib.Data.List.Perm.Basic
import Mathlib.Data.List.Nodup
import TreeQuery.Cache.RecencyList

/-!
# What a recency list holds

`Threads l cells` says that the links of `l` run through the slots of `cells` in their order, with
the keys of `cells` in them, and that every other slot is vacant. Each operation is described by
what it does to the cells; slots that are not concerned keep their keys.
-/

set_option autoImplicit false

namespace TreeQuery

namespace RecencyList

variable {K : Type}

def firstSlot (cells : List (Nat × K)) : Option Nat :=
  cells.head?.map Prod.fst

def lastSlot (cells : List (Nat × K)) : Option Nat :=
  cells.getLast?.map Prod.fst

@[simp] theorem firstSlot_nil : firstSlot ([] : List (Nat × K)) = none := rfl

@[simp] theorem firstSlot_cons (c : Nat × K) (cells : List (Nat × K)) :
    firstSlot (c :: cells) = some c.1 := rfl

@[simp] theorem lastSlot_nil : lastSlot ([] : List (Nat × K)) = none := rfl

@[simp] theorem lastSlot_concat (cells : List (Nat × K)) (c : Nat × K) :
    lastSlot (cells ++ [c]) = some c.1 := by
  simp [lastSlot]

theorem lastSlot_append_cons (before after : List (Nat × K)) (c : Nat × K) :
    lastSlot (before ++ c :: after) = lastSlot (c :: after) := by
  simp [lastSlot, List.getLast?_append, List.getLast?_cons]

theorem mem_of_firstSlot {cells : List (Nat × K)} {i : Nat} (h : firstSlot cells = some i) :
    i ∈ cells.map Prod.fst := by
  obtain ⟨c, hc, rfl⟩ := Option.map_eq_some_iff.1 h
  exact List.mem_map_of_mem (List.mem_of_head? hc)

theorem mem_of_lastSlot {cells : List (Nat × K)} {i : Nat} (h : lastSlot cells = some i) :
    i ∈ cells.map Prod.fst := by
  obtain ⟨c, hc, rfl⟩ := Option.map_eq_some_iff.1 h
  exact List.mem_map_of_mem (List.mem_of_getLast? hc)

theorem firstSlot_append_append (cells more : List (Nat × K)) (c : Nat × K) :
    firstSlot (cells ++ [c] ++ more) = firstSlot (cells ++ [c]) := by
  cases cells <;> rfl

/-- A cell with another one behind it is not in the last slot. -/
theorem lastSlot_ne_of_cons {before after : List (Nat × K)} {c x : Nat × K}
    (hnd : ((before ++ c :: x :: after).map Prod.fst).Nodup) :
    lastSlot (before ++ c :: x :: after) ≠ some c.1 := by
  intro h
  have hmem : c.1 ∈ (x :: after).map Prod.fst := by
    rw [lastSlot_append_cons, ← List.singleton_append, lastSlot_append_cons] at h
    exact mem_of_lastSlot h
  rw [List.map_append, List.map_cons, List.nodup_append, List.nodup_cons] at hnd
  exact hnd.2.1.1 hmem

/-- A cell with another one before it is not in the first slot. -/
theorem firstSlot_ne_of_concat {before after : List (Nat × K)} {c x : Nat × K}
    (hnd : ((before ++ [x] ++ c :: after).map Prod.fst).Nodup) :
    firstSlot (before ++ [x] ++ c :: after) ≠ some c.1 := by
  intro h
  have hmem : c.1 ∈ (before ++ [x]).map Prod.fst := by
    rw [firstSlot_append_append] at h
    exact mem_of_firstSlot h
  rw [List.map_append, List.nodup_append] at hnd
  exact hnd.2.2 c.1 hmem c.1 (by simp) rfl

/-- A cell of two lists put together is a cell of one of them. -/
theorem split_of_append_eq {α : Type} {xs ys before after : List α} {x : α}
    (h : xs ++ ys = before ++ x :: after) :
    (∃ zs, before = xs ++ zs ∧ ys = zs ++ x :: after) ∨
      ∃ zs, xs = before ++ x :: zs ∧ after = zs ++ ys := by
  rcases List.append_eq_append_iff.1 h with ⟨zs, hb, hy⟩ | ⟨zs, hx, hz⟩
  · exact .inl ⟨zs, hb, hy⟩
  · rcases zs with _ | ⟨z, zs⟩
    · exact .inl ⟨[], by simpa using hx.symm, hz.symm⟩
    · obtain ⟨rfl, rfl⟩ := List.cons.inj hz
      exact .inr ⟨zs, hx, rfl⟩

/-- The links of a list run through these slots in this order, and no other slot is in use. -/
structure Threads (l : RecencyList K) (cells : List (Nat × K)) : Prop where
  head : l.head = firstSlot cells
  tail : l.tail = lastSlot cells
  /-- A slot in use holds its key and knows its neighbours. -/
  linked : ∀ {before after : List (Nat × K)} {i : Nat} {k : K}, cells = before ++ (i, k) :: after →
    l.slots[i]? = some { key := some k, previous := lastSlot before, next := firstSlot after }
  /-- Every slot is in use once or vacant once. -/
  slots : (cells.map Prod.fst ++ l.vacant).Perm (List.range l.slots.size)
  vacated : ∀ {i : Nat}, i ∈ l.vacant → l.slots[i]? = some {}

theorem getElem?_linkNext (slots : Array (RecencySlot K)) (i j : Nat) (next : Option Nat) :
    (linkNext slots i next)[j]? =
      if i = j then slots[j]?.map fun s => { s with next } else slots[j]? := by
  rw [linkNext, Array.getElem?_modify]

theorem getElem?_linkPrevious (slots : Array (RecencySlot K)) (i j : Nat)
    (previous : Option Nat) :
    (linkPrevious slots i previous)[j]? =
      if i = j then slots[j]?.map fun s => { s with previous } else slots[j]? := by
  rw [linkPrevious, Array.getElem?_modify]

@[simp] theorem size_linkNext (slots : Array (RecencySlot K)) (i : Nat) (next : Option Nat) :
    (linkNext slots i next).size = slots.size := by
  simp [linkNext]

@[simp] theorem size_linkPrevious (slots : Array (RecencySlot K)) (i : Nat)
    (previous : Option Nat) : (linkPrevious slots i previous).size = slots.size := by
  simp [linkPrevious]

namespace Threads

variable {l : RecencyList K} {cells : List (Nat × K)}

theorem empty : Threads ({} : RecencyList K) [] where
  head := rfl
  tail := rfl
  linked := by simp
  slots := by simp
  vacated := by simp

theorem nodup (h : Threads l cells) : (cells.map Prod.fst ++ l.vacant).Nodup :=
  h.slots.nodup_iff.2 List.nodup_range

theorem nodup_slots (h : Threads l cells) : (cells.map Prod.fst).Nodup :=
  (List.nodup_append.1 h.nodup).1

theorem not_mem_vacant (h : Threads l cells) {i : Nat} (hi : i ∈ cells.map Prod.fst) :
    i ∉ l.vacant :=
  fun hv => (List.nodup_append.1 h.nodup).2.2 i hi i hv rfl

theorem mem_of_tail (h : Threads l cells) {i : Nat} (ht : l.tail = some i) :
    i ∈ cells.map Prod.fst := by
  rw [h.tail] at ht
  exact mem_of_lastSlot ht

theorem mem_slots (h : Threads l cells) (i : Nat) :
    i < l.slots.size ↔ i ∈ cells.map Prod.fst ∨ i ∈ l.vacant := by
  rw [← List.mem_range, ← h.slots.mem_iff, List.mem_append]

theorem length_add_vacant (h : Threads l cells) :
    cells.length + l.vacant.length = l.slots.size := by
  have := h.slots.length_eq
  simpa using this

/-- A vacant slot, or one out of range, holds no key. -/
theorem key_eq_none (h : Threads l cells) {i : Nat} (hi : i ∉ cells.map Prod.fst) :
    l.slots[i]? = none ∨ l.slots[i]? = some {} := by
  by_cases hs : i < l.slots.size
  · have := (h.mem_slots i).1 hs
    exact .inr (h.vacated (this.resolve_left hi))
  · exact .inl (Array.getElem?_eq_none (by omega))

/-- Following the links lists the keys in the order of the cells. -/
theorem keysFrom_eq (h : Threads l cells) {before after : List (Nat × K)}
    (hcells : cells = before ++ after) {bound : Nat} (hb : after.length ≤ bound) :
    keysFrom l.slots bound (firstSlot after) = after.map Prod.snd := by
  induction after generalizing before bound with
  | nil => cases bound <;> rfl
  | cons c after ih =>
    obtain ⟨i, k⟩ := c
    cases bound with
    | zero => simp at hb
    | succ bound =>
      have hnext : cells = (before ++ [(i, k)]) ++ after := by simpa using hcells
      have hrest := ih hnext (Nat.le_of_succ_le_succ hb)
      simp only [firstSlot_cons, keysFrom, h.linked hcells, hrest, List.map_cons]

theorem toList_eq (h : Threads l cells) : l.toList = cells.map Prod.snd := by
  have hlen := h.length_add_vacant
  have hcells : cells = [] ++ cells := rfl
  rw [toList, h.head]
  exact h.keysFrom_eq hcells (by omega)

end Threads

/-! ## Adding a key -/

def nextSlot (l : RecencyList K) : Nat :=
  l.vacant.headD l.slots.size

/-- The slots with a key put behind the last one. -/
theorem pushBack_eq (l : RecencyList K) (key : K) :
    (l.pushBack key).1 = l.nextSlot ∧
      (l.pushBack key).2.head = (if l.tail = none then some l.nextSlot else l.head) ∧
      (l.pushBack key).2.tail = some l.nextSlot ∧
      (l.pushBack key).2.vacant = l.vacant.tail := by
  unfold pushBack nextSlot
  cases l.vacant <;> cases l.tail <;> simp

theorem size_slots_pushBack (l : RecencyList K) (key : K) :
    (l.pushBack key).2.slots.size = l.slots.size + (if l.vacant = [] then 1 else 0) := by
  unfold pushBack
  cases l.vacant <;> cases l.tail <;> simp

namespace Threads

variable {l : RecencyList K} {cells : List (Nat × K)}

theorem nextSlot_not_mem (h : Threads l cells) : l.nextSlot ∉ cells.map Prod.fst := by
  unfold nextSlot
  cases hv : l.vacant with
  | nil =>
    intro hm
    have := (h.mem_slots l.slots.size).2 (.inl hm)
    omega
  | cons i vacant =>
    intro hm
    exact h.not_mem_vacant hm (by simp [hv])

/-- The slot that receives a key holds it, the slot that was last knows the new one, and all other
slots are as before. -/
theorem getElem?_pushBack (h : Threads l cells) (key : K) (j : Nat) :
    (l.pushBack key).2.slots[j]? =
      if j = l.nextSlot then some { key := some key, previous := l.tail }
      else if l.tail = some j then l.slots[j]?.map fun s => { s with next := some l.nextSlot }
      else l.slots[j]? := by
  have hfresh : l.tail ≠ some l.nextSlot := by
    intro ht
    exact h.nextSlot_not_mem (h.mem_of_tail ht)
  have hin : ∀ i, l.vacant.head? = some i → i < l.slots.size := by
    intro i hi
    exact (h.mem_slots i).2 (.inr (List.mem_of_head? hi))
  unfold pushBack nextSlot at *
  cases hv : l.vacant <;> cases ht : l.tail <;>
    simp only [hv, ht, List.headD_nil, List.headD_cons, List.head?_cons, Option.some.injEq,
      forall_eq', ne_eq, getElem?_linkNext, Array.getElem?_push, Array.getElem?_setIfInBounds,
      reduceCtorEq, if_false] at hfresh hin ⊢ <;>
    grind

theorem linked_pushBack (h : Threads l cells) (key : K) {before after : List (Nat × K)} {i : Nat}
    {k : K} (hsplit : cells ++ [(l.nextSlot, key)] = before ++ (i, k) :: after) :
    (l.pushBack key).2.slots[i]? =
      some { key := some k, previous := lastSlot before, next := firstSlot after } := by
  rcases List.eq_nil_or_concat' after with rfl | ⟨after, c, rfl⟩
  · obtain ⟨rfl, hc⟩ := List.append_inj' hsplit rfl
    obtain ⟨rfl, rfl⟩ := Prod.mk.inj (List.singleton_inj.1 hc)
    rw [h.getElem?_pushBack, if_pos rfl, h.tail]
    rfl
  · have hsplit' : cells ++ [(l.nextSlot, key)] = (before ++ (i, k) :: after) ++ [c] := by
      simpa using hsplit
    obtain ⟨hcells, hc⟩ := List.append_inj' hsplit' rfl
    obtain rfl := List.singleton_inj.1 hc
    have hne : i ≠ l.nextSlot := by
      intro he
      apply h.nextSlot_not_mem
      simp [← he, hcells]
    have hnd := h.nodup_slots
    rw [h.getElem?_pushBack, if_neg hne, h.linked hcells, h.tail]
    rw [hcells] at hnd ⊢
    rcases after with _ | ⟨x, after⟩
    · rw [if_pos (lastSlot_concat before (i, k))]
      rfl
    · rw [if_neg (lastSlot_ne_of_cons hnd)]
      rfl

theorem slots_pushBack (h : Threads l cells) (key : K) :
    ((cells ++ [(l.nextSlot, key)]).map Prod.fst ++ (l.pushBack key).2.vacant).Perm
      (List.range (l.pushBack key).2.slots.size) := by
  have hs := h.slots
  rw [(pushBack_eq l key).2.2.2, size_slots_pushBack]
  unfold nextSlot
  cases hv : l.vacant with
  | nil =>
    rw [hv, List.append_nil] at hs
    simpa [List.range_succ] using hs.append_right [l.slots.size]
  | cons i vacant =>
    rw [hv] at hs
    simpa using hs

theorem vacated_pushBack (h : Threads l cells) (key : K) {i : Nat} (hi : i ∈ l.vacant.tail) :
    (l.pushBack key).2.slots[i]? = some {} := by
  have hmem : i ∈ l.vacant := List.mem_of_mem_tail hi
  have hne : i ≠ l.nextSlot := by
    intro he
    have hnd := (List.nodup_append.1 h.nodup).2.1
    unfold nextSlot at he
    cases hv : l.vacant with
    | nil => simp [hv] at hi
    | cons j vacant =>
      rw [hv] at hnd hi he
      obtain rfl : i = j := he
      exact (List.nodup_cons.1 hnd).1 hi
  have htail : l.tail ≠ some i := by
    intro ht
    exact h.not_mem_vacant (h.mem_of_tail ht) hmem
  rw [h.getElem?_pushBack, if_neg hne, if_neg htail, h.vacated hmem]

/-- A key is added behind all others, in a slot that was not in use. -/
theorem pushBack (h : Threads l cells) (key : K) :
    Threads (l.pushBack key).2 (cells ++ [((l.pushBack key).1, key)]) := by
  obtain ⟨hslot, hhead, htail, hvacant⟩ := pushBack_eq l key
  rw [hslot]
  refine ⟨?_, ?_, h.linked_pushBack key, h.slots_pushBack key, ?_⟩
  · rw [hhead, h.tail, h.head]
    rcases List.eq_nil_or_concat' cells with rfl | ⟨cells, c, rfl⟩
    · simp
    · rw [firstSlot_append_append]
      simp
  · rw [htail, lastSlot_concat]
  · intro i hi
    rw [hvacant] at hi
    exact h.vacated_pushBack key hi

end Threads

/-! ## Taking out a key -/

namespace Threads

variable {l : RecencyList K} {before after : List (Nat × K)} {i : Nat} {k : K}

/-- A slot that is not in use stays as it is. -/
theorem unlink_of_not_mem {cells : List (Nat × K)} (h : Threads l cells)
    (hi : i ∉ cells.map Prod.fst) : l.unlink i = (none, l) := by
  rcases h.key_eq_none hi with hs | hs <;> simp [RecencyList.unlink, hs]

theorem not_mem_split (h : Threads l (before ++ (i, k) :: after)) :
    i ∉ before.map Prod.fst ∧ i ∉ after.map Prod.fst := by
  have hnd := h.nodup_slots
  rw [List.map_append, List.map_cons, List.nodup_append, List.nodup_cons] at hnd
  obtain ⟨-, ⟨hia, -⟩, hba⟩ := hnd
  exact ⟨fun hib => hba i hib i (by simp) rfl, hia⟩

theorem unlink_eq (h : Threads l (before ++ (i, k) :: after)) :
    (l.unlink i).1 = some k ∧
      (l.unlink i).2.vacant = i :: l.vacant ∧
      (l.unlink i).2.slots.size = l.slots.size ∧
      (l.unlink i).2.head = firstSlot (before ++ after) ∧
      (l.unlink i).2.tail = lastSlot (before ++ after) := by
  have hs := h.linked rfl
  have hhead := h.head
  have htail := h.tail
  rw [lastSlot_append_cons] at htail
  unfold RecencyList.unlink
  rw [hs]
  rcases List.eq_nil_or_concat' before with rfl | ⟨before, b, rfl⟩ <;>
    rcases after with _ | ⟨a, after⟩
  · exact ⟨rfl, rfl, by simp, rfl, rfl⟩
  · refine ⟨rfl, rfl, by simp, rfl, ?_⟩
    exact htail.trans (lastSlot_append_cons [(i, k)] after a)
  · refine ⟨by simp, by simp, by simp, ?_, by simp⟩
    simp only [lastSlot_concat]
    rw [hhead, firstSlot_append_append, List.append_nil]
  · refine ⟨by simp, by simp, by simp, ?_, ?_⟩
    · simp only [lastSlot_concat, firstSlot_cons]
      rw [hhead, firstSlot_append_append, firstSlot_append_append]
    · simp only [lastSlot_concat, firstSlot_cons]
      rw [lastSlot_append_cons]
      exact htail.trans (lastSlot_append_cons [(i, k)] after a)

/-- The neighbours of the slot come to know each other, and all other slots are as before. -/
theorem getElem?_unlink (h : Threads l (before ++ (i, k) :: after)) {j : Nat} (hj : j ≠ i) :
    (l.unlink i).2.slots[j]? = l.slots[j]?.map fun s =>
      { key := s.key
        previous := if firstSlot after = some j then lastSlot before else s.previous
        next := if lastSlot before = some j then firstSlot after else s.next } := by
  have hs := h.linked rfl
  have hij : ¬ i = j := fun e => hj e.symm
  unfold RecencyList.unlink
  rw [hs]
  rcases List.eq_nil_or_concat' before with rfl | ⟨before, b, rfl⟩ <;>
    rcases after with _ | ⟨a, after⟩ <;>
    simp only [lastSlot_nil, lastSlot_concat, firstSlot_nil, firstSlot_cons, reduceCtorEq,
      if_false, Option.some.injEq, getElem?_linkNext, getElem?_linkPrevious,
      Array.getElem?_setIfInBounds, hij]
  · simp
  · split <;> simp
  · split <;> simp
  · split <;> split <;> simp [Function.comp_def]

theorem getElem?_unlink_self (h : Threads l (before ++ (i, k) :: after)) :
    (l.unlink i).2.slots[i]? = some {} := by
  have hs := h.linked rfl
  have hi : i < l.slots.size := (h.mem_slots i).2 (.inl (by simp))
  obtain ⟨hb, ha⟩ := h.not_mem_split
  unfold RecencyList.unlink
  rw [hs]
  rcases List.eq_nil_or_concat' before with rfl | ⟨before, b, rfl⟩ <;>
    rcases after with _ | ⟨a, after⟩ <;>
    simp only [lastSlot_nil, lastSlot_concat, firstSlot_nil, firstSlot_cons,
      getElem?_linkNext, getElem?_linkPrevious, Array.getElem?_setIfInBounds, if_true, hi]
  · rw [if_neg fun e => ha (by simp [← e])]
  · rw [if_neg fun e => hb (by simp [← e])]
  · rw [if_neg fun e => ha (by simp [← e]), if_neg fun e => hb (by simp [← e])]

theorem linked_unlink (h : Threads l (before ++ (i, k) :: after)) {b a : List (Nat × K)} {j : Nat}
    {q : K} (hsplit : before ++ after = b ++ (j, q) :: a) :
    (l.unlink i).2.slots[j]? =
      some { key := some q, previous := lastSlot b, next := firstSlot a } := by
  obtain ⟨hib, hia⟩ := h.not_mem_split
  have hnd := h.nodup_slots
  rw [List.map_append, List.map_cons, List.nodup_append, List.nodup_cons] at hnd
  obtain ⟨hb, ⟨-, ha⟩, hba⟩ := hnd
  rcases split_of_append_eq hsplit with ⟨c, rfl, rfl⟩ | ⟨c, rfl, rfl⟩
  · have hji : j ≠ i := fun e => hia (by simp [← e])
    have hcell : before ++ (i, k) :: (c ++ (j, q) :: a) =
        (before ++ (i, k) :: c) ++ (j, q) :: a := by simp
    have hlast : lastSlot before ≠ some j := by
      intro e
      exact hba j (mem_of_lastSlot e) j (by simp) rfl
    rw [h.getElem?_unlink hji, h.linked hcell, Option.map_some, if_neg hlast]
    rcases List.eq_nil_or_concat' c with rfl | ⟨c, x, rfl⟩
    · simp
    · rw [if_neg (firstSlot_ne_of_concat ha), lastSlot_append_cons, ← List.cons_append,
        lastSlot_concat, ← List.append_assoc, lastSlot_concat]
  · have hji : j ≠ i := fun e => hib (by simp [← e])
    have hcell : b ++ (j, q) :: c ++ (i, k) :: after =
        b ++ (j, q) :: (c ++ (i, k) :: after) := by simp
    have hfirst : firstSlot after ≠ some j := by
      intro e
      exact hba j (by simp) j (List.mem_cons_of_mem _ (mem_of_firstSlot e)) rfl
    rw [h.getElem?_unlink hji, h.linked hcell, Option.map_some, if_neg hfirst]
    rcases c with _ | ⟨x, c⟩
    · simp
    · rw [if_neg (lastSlot_ne_of_cons hb)]
      rfl

theorem vacated_unlink (h : Threads l (before ++ (i, k) :: after)) {j : Nat}
    (hj : j ∈ i :: l.vacant) : (l.unlink i).2.slots[j]? = some {} := by
  by_cases hji : j = i
  · rw [hji, h.getElem?_unlink_self]
  · have hv : j ∈ l.vacant := (List.mem_cons.1 hj).resolve_left hji
    have hfree : j ∉ (before ++ (i, k) :: after).map Prod.fst := fun hm => h.not_mem_vacant hm hv
    simp only [List.map_append, List.map_cons, List.mem_append, List.mem_cons, not_or] at hfree
    have hfirst : firstSlot after ≠ some j := fun e => hfree.2.2 (mem_of_firstSlot e)
    have hlast : lastSlot before ≠ some j := fun e => hfree.1 (mem_of_lastSlot e)
    rw [h.getElem?_unlink hji, h.vacated hv, Option.map_some, if_neg hfirst, if_neg hlast]

/-- A key is taken out of its slot, and the slot becomes vacant. -/
theorem unlink (h : Threads l (before ++ (i, k) :: after)) :
    Threads (l.unlink i).2 (before ++ after) := by
  obtain ⟨-, hvacant, hsize, hhead, htail⟩ := h.unlink_eq
  refine ⟨hhead, htail, h.linked_unlink, ?_, ?_⟩
  · rw [hvacant, hsize]
    refine List.Perm.trans ?_ h.slots
    simp only [List.map_append, List.map_cons, List.append_assoc, List.cons_append]
    exact List.Perm.append_left _ List.perm_middle
  · intro j hj
    rw [hvacant] at hj
    exact h.vacated_unlink hj

/-- The slot that was vacated last is the one that is used next. -/
theorem nextSlot_unlink (h : Threads l (before ++ (i, k) :: after)) :
    (l.unlink i).2.nextSlot = i := by
  simp [nextSlot, h.unlink_eq.2.1]

/-- A key that is used again moves behind all others and keeps its slot. -/
theorem moveToBack (h : Threads l (before ++ (i, k) :: after)) :
    Threads (l.moveToBack i) (before ++ after ++ [(i, k)]) := by
  unfold RecencyList.moveToBack
  split
  · rename_i ht
    rcases List.eq_nil_or_concat' after with rfl | ⟨after, c, rfl⟩
    · simpa using h
    · rw [h.tail, lastSlot_append_cons, ← List.cons_append, lastSlot_concat] at ht
      exact absurd (by simp [← Option.some.inj ht]) h.not_mem_split.2
  · have hkey := h.unlink_eq.1
    have hpush := h.unlink.pushBack k
    rw [(pushBack_eq _ k).1, h.nextSlot_unlink] at hpush
    split
    · rename_i q l' hu
      rw [hu] at hkey hpush
      obtain rfl := Option.some.inj hkey
      exact hpush
    · rename_i l' hu
      rw [hu] at hkey
      exact absurd hkey (by simp)

theorem popFront_nil (h : Threads l []) : l.popFront = (none, l) := by
  have hhead := h.head
  simp [RecencyList.popFront, hhead]

/-- The least recently used key is the one of the first cell. -/
theorem popFront_cons (h : Threads l ((i, k) :: after)) : l.popFront = l.unlink i := by
  have hhead := h.head
  simp only [RecencyList.popFront, hhead, firstSlot_cons]

end Threads

end RecencyList

end TreeQuery
