import Mathlib
import TreeQuery.Proofs.Cache.RecencyOrder

/-!
# Recency lists over runs of calls

Whatever is called on a recency list, with slots in use, vacant or out of range, the list looks like
an arrangement: keys in the order of their use, each with the slot that it was put into, and the
vacant slots. The links run through the keys in both directions, and a key keeps its slot for as
long as it is there.
-/

set_option autoImplicit false

namespace TreeQuery

/-- A call on a recency list. Any number may be given as a slot. -/
inductive RecencyCall (K : Type) where
  | pushBack (key : K)
  | moveToBack (slot : Nat)
  | popFront
  | remove (slot : Nat)
  | clear

inductive RecencyAnswer (K : Type) where
  | slot (i : Nat)
  | key (key? : Option K)
  | done
  deriving DecidableEq

def RecencyCall.run {K S : Type} (call : RecencyCall K → S → RecencyAnswer K × S) :
    List (RecencyCall K) → S → List (RecencyAnswer K) × S
  | [], s => ([], s)
  | c :: calls, s =>
    let (answer, s) := call c s
    let (answers, last) := run call calls s
    (answer :: answers, last)

/-! ## Arrangements -/

/-- Keys with their slots, from the least to the most recently used, and the slots without a key,
the one vacated last first. -/
structure Arrangement (K : Type) where
  cells : List (Nat × K) := []
  vacant : List Nat := []

namespace Arrangement

variable {K : Type}

def nextSlot (a : Arrangement K) : Nat :=
  a.vacant.headD a.cells.length

def others (a : Arrangement K) (i : Nat) : List (Nat × K) :=
  a.cells.filter fun c => c.1 ≠ i

def call : RecencyCall K → Arrangement K → RecencyAnswer K × Arrangement K
  | .pushBack key, a =>
    (.slot a.nextSlot, { cells := a.cells ++ [(a.nextSlot, key)], vacant := a.vacant.tail })
  | .moveToBack i, a =>
    match a.cells.lookup i with
    | some key => (.done, { a with cells := a.others i ++ [(i, key)] })
    | none => (.done, a)
  | .popFront, a =>
    match a.cells with
    | (i, key) :: cells => (.key (some key), { cells, vacant := i :: a.vacant })
    | [] => (.key none, a)
  | .remove i, a =>
    match a.cells.lookup i with
    | some key => (.key (some key), { cells := a.others i, vacant := i :: a.vacant })
    | none => (.key none, a)
  | .clear, _ => (.done, {})

end Arrangement

namespace RecencyList

variable {K : Type}

def call : RecencyCall K → RecencyList K → RecencyAnswer K × RecencyList K
  | .pushBack key, l => (.slot (l.pushBack key).1, (l.pushBack key).2)
  | .moveToBack i, l => (.done, l.moveToBack i)
  | .popFront, l => (.key l.popFront.1, l.popFront.2)
  | .remove i, l => (.key (l.unlink i).1, (l.unlink i).2)
  | .clear, l => (.done, l.clear)

def key? (l : RecencyList K) (i : Nat) : Option K :=
  l.slots[i]?.bind RecencySlot.key

/-- Links of one kind lead from a slot through these slots in this order, and end there. -/
inductive Visits (slots : Array (RecencySlot K)) (link : RecencySlot K → Option Nat) :
    Option Nat → List Nat → Prop
  | stop : Visits slots link none []
  | visit {i : Nat} {s : RecencySlot K} {is : List Nat} : slots[i]? = some s →
    Visits slots link (link s) is → Visits slots link (some i) (i :: is)

/-- The list is linked up as arranged. -/
structure Shows (l : RecencyList K) (a : Arrangement K) : Prop where
  forward : Visits l.slots RecencySlot.next l.head (a.cells.map Prod.fst)
  ends : (a.cells.map Prod.fst).getLast? = l.tail
  backward : Visits l.slots RecencySlot.previous l.tail (a.cells.map Prod.fst).reverse
  once : (a.cells.map Prod.fst).Nodup
  used : ∀ (i : Nat) (key : K), (i, key) ∈ a.cells ↔ l.key? i = some key
  vacant : l.vacant = a.vacant
  vacantOnce : l.vacant.Nodup
  unused : ∀ i : Nat, i ∈ l.vacant ↔ i < l.slots.size ∧ l.key? i = none
  size : l.slots.size = a.cells.length + l.vacant.length
  keys : l.toList = a.cells.map Prod.snd

namespace Threads

variable {l : RecencyList K} {cells before after : List (Nat × K)} {i : Nat} {key : K}

/-! ## What threads show -/

theorem visits_next (h : Threads l cells) (hcells : cells = before ++ after) :
    Visits l.slots RecencySlot.next (firstSlot after) (after.map Prod.fst) := by
  induction after generalizing before with
  | nil => exact .stop
  | cons c after ih =>
    obtain ⟨i, key⟩ := c
    have hrest : cells = (before ++ [(i, key)]) ++ after := by simpa using hcells
    exact .visit (h.linked hcells) (ih hrest)

theorem visits_previous (h : Threads l cells) (hcells : cells = before ++ after) :
    Visits l.slots RecencySlot.previous (lastSlot before) (before.map Prod.fst).reverse := by
  induction before using List.reverseRecOn generalizing after with
  | nil => exact .stop
  | append_singleton before c ih =>
    obtain ⟨i, key⟩ := c
    have hsplit : cells = before ++ (i, key) :: after := by simpa using hcells
    rw [lastSlot_concat, List.map_append, List.reverse_append]
    exact .visit (h.linked hsplit) (ih hsplit)

theorem key?_of_mem (h : Threads l cells) (hmem : (i, key) ∈ cells) :
    l.key? i = some key := by
  obtain ⟨before, after, hsplit⟩ := List.append_of_mem hmem
  rw [key?, h.linked hsplit]
  rfl

theorem key?_eq_none_iff (h : Threads l cells) :
    l.key? i = none ↔ i ∉ cells.map Prod.fst := by
  refine ⟨fun hkey hi => ?_, fun hi => ?_⟩
  · obtain ⟨⟨j, key⟩, hmem, rfl⟩ := List.mem_map.mp hi
    rw [h.key?_of_mem hmem] at hkey
    cases hkey
  · rcases h.key_eq_none hi with hs | hs <;> rw [key?, hs] <;> rfl

theorem mem_iff_key? (h : Threads l cells) (i : Nat) (key : K) :
    (i, key) ∈ cells ↔ l.key? i = some key := by
  refine ⟨h.key?_of_mem, fun hkey => ?_⟩
  by_cases hi : i ∈ cells.map Prod.fst
  · obtain ⟨⟨j, key'⟩, hmem, rfl⟩ := List.mem_map.mp hi
    rw [h.key?_of_mem hmem] at hkey
    rwa [← Option.some.inj hkey]
  · rw [h.key?_eq_none_iff.mpr hi] at hkey
    cases hkey

theorem mem_vacant_iff (h : Threads l cells) (i : Nat) :
    i ∈ l.vacant ↔ i < l.slots.size ∧ l.key? i = none := by
  rw [h.mem_slots, h.key?_eq_none_iff]
  exact ⟨fun hv => ⟨.inr hv, fun hi => h.not_mem_vacant hi hv⟩, fun h => h.1.resolve_left h.2⟩

theorem shows {a : Arrangement K} (h : Threads l a.cells) (hv : l.vacant = a.vacant) :
    l.Shows a where
  forward := by
    rw [h.head]
    exact h.visits_next (List.nil_append _).symm
  ends := by rw [h.tail, List.getLast?_map, lastSlot]
  backward := by
    rw [h.tail]
    exact h.visits_previous (List.append_nil _).symm
  once := h.nodup_slots
  used := h.mem_iff_key?
  vacant := hv
  vacantOnce := (List.nodup_append.1 h.nodup).2.1
  unused := h.mem_vacant_iff
  size := h.length_add_vacant.symm
  keys := h.toList_eq

theorem vacant_unlink (h : Threads l (before ++ (i, key) :: after)) :
    (l.unlink i).2.vacant = i :: l.vacant :=
  h.unlink_eq.2.1

theorem moveToBack_of_not_mem (h : Threads l cells) (hi : i ∉ cells.map Prod.fst) :
    l.moveToBack i = l := by
  rw [RecencyList.moveToBack, h.unlink_of_not_mem hi]
  split <;> rfl

/-- A key that moves is put back into the slot that it has just left. -/
theorem vacant_moveToBack (h : Threads l (before ++ (i, key) :: after)) :
    (l.moveToBack i).vacant = l.vacant := by
  unfold RecencyList.moveToBack
  split
  · rfl
  · split
    · next q l' hu =>
      have hvacant := h.vacant_unlink
      rw [hu] at hvacant
      rw [(pushBack_eq l' q).2.2.2, hvacant, List.tail_cons]
    · next l' hu =>
      have hkey := h.unlink_eq.1
      rw [hu] at hkey
      cases hkey

end Threads

/-! ## One call -/

/-- The links run as arranged, and slots are vacated in the same order. -/
structure Follows (l : RecencyList K) (a : Arrangement K) : Prop where
  threads : l.Threads a.cells
  vacant : l.vacant = a.vacant

namespace Follows

variable {l : RecencyList K} {a : Arrangement K}

theorem empty : Follows ({} : RecencyList K) {} :=
  ⟨.empty, rfl⟩

theorem nextSlot_eq (h : Follows l a) : a.nextSlot = l.nextSlot := by
  rw [Arrangement.nextSlot, nextSlot, ← h.vacant]
  have hsize := h.threads.length_add_vacant
  cases hv : l.vacant with
  | nil =>
    rw [hv] at hsize
    exact hsize
  | cons i vacant => rfl

theorem pushBack (h : Follows l a) (key : K) : (l.pushBack key).1 = a.nextSlot ∧
    Follows (l.pushBack key).2 ⟨a.cells ++ [(a.nextSlot, key)], a.vacant.tail⟩ := by
  obtain ⟨hslot, -, -, hvacant⟩ := pushBack_eq l key
  have hthreads := h.threads.pushBack key
  rw [hslot, ← h.nextSlot_eq] at hthreads
  refine ⟨hslot.trans h.nextSlot_eq.symm, hthreads, ?_⟩
  rw [hvacant, h.vacant]

/-- A slot is in use for one cell, and the other cells are those around it; or it is not in use. -/
theorem lookup_cases (h : Follows l a) (i : Nat) :
    (∃ key before after, a.cells.lookup i = some key ∧ a.cells = before ++ (i, key) :: after ∧
      a.others i = before ++ after) ∨
    (a.cells.lookup i = none ∧ i ∉ a.cells.map Prod.fst) := by
  cases hlookup : a.cells.lookup i with
  | none =>
    refine .inr ⟨rfl, fun hi => ?_⟩
    obtain ⟨c, hc, rfl⟩ := List.mem_map.mp hi
    have hne := List.lookup_eq_none_iff.mp hlookup c hc
    simp at hne
  | some key =>
    obtain ⟨before, after, hcells, -⟩ := List.lookup_eq_some_iff.mp hlookup
    refine .inl ⟨key, before, after, rfl, hcells, ?_⟩
    have hthreads := h.threads
    rw [hcells] at hthreads
    obtain ⟨hbefore, hafter⟩ := hthreads.not_mem_split
    have hkept {cells : List (Nat × K)} (hi : i ∉ cells.map Prod.fst) :
        cells.filter (fun c => c.1 ≠ i) = cells := by
      rw [List.filter_eq_self]
      rintro c hc
      have hne : c.1 ≠ i := fun heq => hi (heq ▸ List.mem_map_of_mem hc)
      simpa using hne
    rw [Arrangement.others, hcells, List.filter_append, List.filter_cons_of_neg (by simp),
      hkept hbefore, hkept hafter]

theorem call (h : Follows l a) (c : RecencyCall K) :
    (RecencyList.call c l).1 = (Arrangement.call c a).1 ∧
      Follows (RecencyList.call c l).2 (Arrangement.call c a).2 := by
  cases c with
  | pushBack key =>
    obtain ⟨hslot, hnext⟩ := h.pushBack key
    exact ⟨congrArg RecencyAnswer.slot hslot, hnext⟩
  | moveToBack i =>
    rcases h.lookup_cases i with ⟨key, before, after, hlookup, hcells, hothers⟩ | ⟨hlookup, hi⟩
    · have hthreads := h.threads
      rw [hcells] at hthreads
      simp only [RecencyList.call, Arrangement.call, hlookup, hothers]
      exact ⟨trivial, hthreads.moveToBack, hthreads.vacant_moveToBack.trans h.vacant⟩
    · simp only [RecencyList.call, Arrangement.call, hlookup]
      rw [h.threads.moveToBack_of_not_mem hi]
      exact ⟨trivial, h⟩
  | popFront =>
    obtain ⟨cells, vacant⟩ := a
    cases cells with
    | nil =>
      simp only [RecencyList.call, Arrangement.call]
      rw [h.threads.popFront_nil]
      exact ⟨rfl, h⟩
    | cons c cells =>
      obtain ⟨i, key⟩ := c
      have hthreads : l.Threads ([] ++ (i, key) :: cells) := h.threads
      simp only [RecencyList.call, Arrangement.call]
      rw [hthreads.popFront_cons, hthreads.unlink_eq.1]
      exact ⟨rfl, hthreads.unlink, hthreads.vacant_unlink.trans (congrArg (i :: ·) h.vacant)⟩
  | remove i =>
    rcases h.lookup_cases i with ⟨key, before, after, hlookup, hcells, hothers⟩ | ⟨hlookup, hi⟩
    · have hthreads := h.threads
      rw [hcells] at hthreads
      simp only [RecencyList.call, Arrangement.call, hlookup, hothers]
      rw [hthreads.unlink_eq.1]
      exact ⟨rfl, hthreads.unlink, hthreads.vacant_unlink.trans (congrArg (i :: ·) h.vacant)⟩
    · simp only [RecencyList.call, Arrangement.call, hlookup]
      rw [h.threads.unlink_of_not_mem hi]
      exact ⟨rfl, h⟩
  | clear => exact ⟨rfl, .empty⟩

theorem run (h : Follows l a) (calls : List (RecencyCall K)) :
    (RecencyCall.run RecencyList.call calls l).1 = (RecencyCall.run Arrangement.call calls a).1 ∧
      Follows (RecencyCall.run RecencyList.call calls l).2
        (RecencyCall.run Arrangement.call calls a).2 := by
  induction calls generalizing l a with
  | nil => exact ⟨rfl, h⟩
  | cons c calls ih =>
    obtain ⟨hanswer, hnext⟩ := h.call c
    obtain ⟨hanswers, hlast⟩ := ih hnext
    exact ⟨congrArg₂ List.cons hanswer hanswers, hlast⟩

theorem length_others {before after : List (Nat × K)} {i : Nat} {key : K}
    (hcells : a.cells = before ++ (i, key) :: after) (hothers : a.others i = before ++ after) :
    (a.others i).length + 1 = a.cells.length := by
  rw [hothers, hcells, List.length_append, List.length_append, List.length_cons, Nat.add_assoc]

/-- No slot is added while one is vacant. -/
theorem size_call (h : Follows l a) (c : RecencyCall K) (hv : l.vacant ≠ []) :
    (RecencyList.call c l).2.slots.size ≤ l.slots.size := by
  have hsize := (h.call c).2.threads.length_add_vacant
  rw [(h.call c).2.vacant] at hsize
  rw [← hsize, ← h.threads.length_add_vacant]
  rw [h.vacant] at hv ⊢
  cases c with
  | pushBack key =>
    have hpos := List.length_pos_of_ne_nil hv
    simp only [Arrangement.call, List.length_append, List.length_singleton, List.length_tail]
    omega
  | moveToBack i =>
    rcases h.lookup_cases i with ⟨key, before, after, hlookup, hcells, hothers⟩ | ⟨hlookup, -⟩
    · have hlength := length_others hcells hothers
      simp only [Arrangement.call, hlookup, List.length_append, List.length_singleton]
      omega
    · simp only [Arrangement.call, hlookup, Nat.le_refl]
  | popFront =>
    cases hcells : a.cells with
    | nil => simp only [Arrangement.call, hcells, Nat.le_refl]
    | cons c cells =>
      simp only [Arrangement.call, hcells, List.length_cons]
      omega
  | remove i =>
    rcases h.lookup_cases i with ⟨key, before, after, hlookup, hcells, hothers⟩ | ⟨hlookup, -⟩
    · have hlength := length_others hcells hothers
      simp only [Arrangement.call, hlookup, List.length_cons]
      omega
    · simp only [Arrangement.call, hlookup, Nat.le_refl]
  | clear => exact Nat.zero_le _

end Follows

/-! ## How long a key stays -/

/-- The call takes out the key in the slot `i`, if there is one. -/
def TakesOut (l : RecencyList K) (i : Nat) : RecencyCall K → Prop
  | .popFront => l.head = some i
  | .remove j => j = i
  | .clear => True
  | _ => False

/-- None of the calls takes out the key in the slot `i`. -/
def Spares (i : Nat) : RecencyList K → List (RecencyCall K) → Prop
  | _, [] => True
  | l, c :: calls => ¬ l.TakesOut i c ∧ Spares i (call c l).2 calls

namespace Follows

variable {l : RecencyList K} {a : Arrangement K} {i : Nat} {key : K}

theorem mem_others {j : Nat} (hmem : (i, key) ∈ a.cells) (hne : j ≠ i) : (i, key) ∈ a.others j :=
  List.mem_filter.mpr ⟨hmem, by simpa using hne.symm⟩

theorem mem_call (h : Follows l a) {c : RecencyCall K} (hc : ¬ l.TakesOut i c)
    (hmem : (i, key) ∈ a.cells) : (i, key) ∈ (Arrangement.call c a).2.cells := by
  cases c with
  | pushBack k => exact List.mem_append_left _ hmem
  | moveToBack j =>
    rcases h.lookup_cases j with ⟨k, before, after, hlookup, hcells, -⟩ | ⟨hlookup, -⟩
    · simp only [Arrangement.call, hlookup]
      by_cases hji : j = i
      · subst hji
        have hk : (j, k) ∈ a.cells := by simp [hcells]
        have hsame := (h.threads.key?_of_mem hmem).symm.trans (h.threads.key?_of_mem hk)
        rw [Option.some.inj hsame]
        exact List.mem_append_right _ (List.mem_singleton_self _)
      · exact List.mem_append_left _ (mem_others hmem hji)
    · simp only [Arrangement.call, hlookup]
      exact hmem
  | popFront =>
    have hhead := h.threads.head
    cases hcells : a.cells with
    | nil =>
      rw [hcells] at hmem
      cases hmem
    | cons x cells =>
      rw [hcells] at hmem hhead
      simp only [Arrangement.call, hcells]
      rcases List.mem_cons.mp hmem with rfl | hmem
      · exact absurd hhead hc
      · exact hmem
  | remove j =>
    rcases h.lookup_cases j with ⟨k, before, after, hlookup, -, -⟩ | ⟨hlookup, -⟩
    · simp only [Arrangement.call, hlookup]
      exact mem_others hmem hc
    · simp only [Arrangement.call, hlookup]
      exact hmem
  | clear => exact absurd trivial hc

theorem key?_run (h : Follows l a) {calls : List (RecencyCall K)} (hkey : l.key? i = some key)
    (hcalls : Spares i l calls) :
    (RecencyCall.run RecencyList.call calls l).2.key? i = some key := by
  induction calls generalizing l a with
  | nil => exact hkey
  | cons c calls ih =>
    obtain ⟨hc, hrest⟩ := hcalls
    have hnext := (h.call c).2
    have hmem := h.mem_call hc ((h.threads.mem_iff_key? i key).mpr hkey)
    exact ih hnext ((hnext.threads.mem_iff_key? i key).mp hmem) hrest

end Follows

/-! ## Main statement -/

/-- After any calls, the list has answered as an arrangement does and shows it. It gets a new slot
only when none is vacant. A key stays in its slot until a call takes it out, and is put back there
when it moves. A slot without a key stands for nothing to do. -/
theorem run_shows_arrangement (calls : List (RecencyCall K)) :
    let l := (RecencyCall.run call calls ({} : RecencyList K)).2
    let a := (RecencyCall.run Arrangement.call calls ({} : Arrangement K)).2
    (RecencyCall.run call calls ({} : RecencyList K)).1 =
      (RecencyCall.run Arrangement.call calls ({} : Arrangement K)).1 ∧
    l.Shows a ∧
    (∀ c, l.slots.size < (call c l).2.slots.size → l.vacant = []) ∧
    (∀ i key more, l.key? i = some key → Spares i l more →
      (RecencyCall.run call more l).2.key? i = some key) ∧
    (∀ i key l', l.unlink i = (some key, l') → (l'.pushBack key).1 = i) ∧
    ∀ i, l.key? i = none → l.moveToBack i = l ∧ l.unlink i = (none, l) := by
  intro l a
  obtain ⟨hanswers, h⟩ := Follows.run (Follows.empty (K := K)) calls
  refine ⟨hanswers, h.threads.shows h.vacant, ?grows, fun i key more => h.key?_run, ?slot, ?idle⟩
  case grows =>
    intro c hc
    by_contra hv
    exact Nat.not_lt.mpr (h.size_call c hv) hc
  case slot =>
    intro i key l' hu
    have hi : i ∈ a.cells.map Prod.fst := by
      by_contra hi
      rw [h.threads.unlink_of_not_mem hi] at hu
      cases hu
    obtain ⟨c, hc, rfl⟩ := List.mem_map.mp hi
    obtain ⟨before, after, hcells⟩ := List.append_of_mem hc
    have hthreads : l.Threads (before ++ c :: after) := hcells ▸ h.threads
    have hnext := hthreads.nextSlot_unlink
    rw [hu] at hnext
    rw [(pushBack_eq l' key).1, hnext]
  case idle =>
    intro i hkey
    have hi : i ∉ a.cells.map Prod.fst := h.threads.key?_eq_none_iff.mp hkey
    exact ⟨h.threads.moveToBack_of_not_mem hi, h.threads.unlink_of_not_mem hi⟩

/-- The slot of a removed key is used again; a slot out of range and a vacant one are passed over. -/
example : (RecencyCall.run call [.pushBack 'a', .pushBack 'b', .pushBack 'c', .moveToBack 0,
      .remove 1, .remove 1, .moveToBack 7, .pushBack 'd', .popFront, .popFront]
      ({} : RecencyList Char)).1 =
    [.slot 0, .slot 1, .slot 2, .done, .key (some 'b'), .key none, .done, .slot 1, .key (some 'c'),
      .key (some 'a')] := by
  decide

end RecencyList

end TreeQuery
