import Mathlib
import TreeQuery.Cache.Counting
import TreeQuery.Proofs.Cache.PlainCache
import TreeQuery.Proofs.Cache.RecencyOrder

/-!
# LRU caches are plain caches

The table and the recency list of an LRU cache are kept in step: there is one sequence of cells,
each with a slot, a key and a value, of which the recency list holds the slots and keys, the table
the values and slots by key, and the plain cache the keys and values. Every use of the cache keeps
such a sequence.
-/

set_option autoImplicit false

namespace TreeQuery

variable {K V ε σ : Type}

structure CacheCell (K V : Type) where
  slot : Nat
  key : K
  value : V

namespace CacheCell

def linked (c : CacheCell K V) : Nat × K := (c.slot, c.key)

def entry (c : CacheCell K V) : K × V := (c.key, c.value)

theorem mem_middle {before after : List (CacheCell K V)} {x y : CacheCell K V}
    (hne : x.key ≠ y.key) : y ∈ before ++ x :: after ↔ y ∈ before ++ after := by
  have hyx : y ≠ x := by
    rintro rfl
    exact hne rfl
  simp only [List.mem_append, List.mem_cons, hyx, false_or]

/-- The cells of a key after a cell of a new key has been put behind all others. -/
theorem mem_concat [BEq K] [LawfulBEq K] {cells : List (CacheCell K V)} {key : K}
    (hkey : key ∉ cells.map CacheCell.key) {slot s : Nat} {value v : V} {k : K} :
    ⟨s, k, v⟩ ∈ cells ++ [⟨slot, key, value⟩] ↔
      if key == k then (value, slot) = (v, s) else ⟨s, k, v⟩ ∈ cells := by
  rw [List.mem_append, List.mem_singleton]
  by_cases hk : key = k
  · subst hk
    have hno : ⟨s, key, v⟩ ∉ cells := fun hm => hkey (List.mem_map.2 ⟨_, hm, rfl⟩)
    simp only [hno, false_or, BEq.rfl, if_true, CacheCell.mk.injEq, Prod.mk.injEq, true_and]
    exact ⟨fun ⟨hs, hv⟩ => ⟨hv.symm, hs.symm⟩, fun ⟨hv, hs⟩ => ⟨hs.symm, hv.symm⟩⟩
  · have hne : (⟨s, k, v⟩ : CacheCell K V) ≠ ⟨slot, key, value⟩ := fun e =>
      hk (CacheCell.mk.inj e).2.1.symm
    rw [if_neg (by simpa using hk)]
    exact or_iff_left hne

end CacheCell

variable [BEq K] [Hashable K]

/-- The table, the recency list and the plain cache hold the same cells. -/
structure Mirrors (c : LruCache K V) (p : PlainCache K V) (cells : List (CacheCell K V)) :
    Prop where
  order : c.order.Threads (cells.map CacheCell.linked)
  entries : p.entries = cells.map CacheCell.entry
  stored : ∀ {key : K} {value : V} {slot : Nat},
    c.entries[key]? = some (value, slot) ↔ ⟨slot, key, value⟩ ∈ cells
  distinct : (cells.map CacheCell.key).Nodup
  size : c.entries.size = cells.length
  capacity : c.capacity = p.capacity
  stats : c.stats = p.stats

namespace Mirrors

variable {c : LruCache K V} {p : PlainCache K V} {cells : List (CacheCell K V)}

theorem keys_eq (h : Mirrors c p cells) : c.keys = p.keys := by
  rw [LruCache.keys, h.order.toList_eq, PlainCache.keys, h.entries, List.map_map, List.map_map]
  rfl

/-- A key that is not in the table is in no cell. -/
theorem not_mem_of_none (h : Mirrors c p cells) {key : K} (hk : c.entries[key]? = none) :
    key ∉ cells.map CacheCell.key := by
  intro hm
  obtain ⟨⟨slot, key, value⟩, hc, rfl⟩ := List.mem_map.1 hm
  rw [h.stored.2 hc] at hk
  exact absurd hk (by simp)

/-- The entry of a key that is there stands in one cell. -/
theorem exists_cell (h : Mirrors c p cells) {key : K} {value : V} {slot : Nat}
    (hk : c.entries[key]? = some (value, slot)) :
    ∃ before after, cells = before ++ ⟨slot, key, value⟩ :: after :=
  List.append_of_mem (h.stored.1 hk)

theorem key_not_mem {before after : List (CacheCell K V)} {x : CacheCell K V}
    (h : Mirrors c p (before ++ x :: after)) :
    x.key ∉ (before ++ after).map CacheCell.key ∧
      ((before ++ after).map CacheCell.key).Nodup := by
  have hd := h.distinct
  rw [List.map_append, List.map_cons, List.nodup_middle, List.nodup_cons, ← List.map_append] at hd
  exact hd

/-- The counters are changed alike. -/
theorem recount (h : Mirrors c p cells) (stats : CacheStats) :
    Mirrors { c with stats } { p with stats } cells :=
  ⟨h.order, h.entries, h.stored, h.distinct, h.size, h.capacity, rfl⟩

variable [LawfulBEq K]

theorem lookup_of_mem (h : Mirrors c p cells) {x : CacheCell K V} (hx : x ∈ cells) :
    p.lookup x.key = some x.value := by
  have hd := h.distinct
  rw [PlainCache.lookup, h.entries]
  clear h
  induction cells with
  | nil => exact absurd hx (by simp)
  | cons y cells ih =>
    rw [List.map_cons, List.nodup_cons] at hd
    rw [List.map_cons, CacheCell.entry, List.lookup_cons]
    rcases List.mem_cons.1 hx with rfl | hx
    · simp
    · have hne : (x.key == y.key) = false := by
        rw [beq_eq_false_iff_ne]
        intro e
        exact hd.1 (e ▸ List.mem_map_of_mem hx)
      rw [hne]
      exact ih hx hd.2

theorem lookup_of_not_mem (h : Mirrors c p cells) {key : K}
    (hk : key ∉ cells.map CacheCell.key) : p.lookup key = none := by
  rw [PlainCache.lookup, h.entries, List.lookup_eq_none_iff]
  intro e he
  obtain ⟨x, hx, rfl⟩ := List.mem_map.1 he
  rw [bne_iff_ne]
  rintro rfl
  exact hk (List.mem_map_of_mem hx)

/-- Both caches find the same value. -/
theorem lookup_eq (h : Mirrors c p cells) (key : K) :
    p.lookup key = (c.entries[key]?).map Prod.fst := by
  cases hk : c.entries[key]? with
  | none => exact h.lookup_of_not_mem (h.not_mem_of_none hk)
  | some e => exact h.lookup_of_mem (h.stored.1 hk)

section Single

variable {before after : List (CacheCell K V)} {x : CacheCell K V}

theorem others_eq (h : Mirrors c p (before ++ x :: after)) :
    p.others x.key = (before ++ after).map CacheCell.entry := by
  have keep : ∀ cells : List (CacheCell K V), (∀ y ∈ cells, y.key ≠ x.key) →
      (cells.map CacheCell.entry).filter (fun e => !(e.1 == x.key)) =
        cells.map CacheCell.entry := by
    intro cells hcells
    rw [List.filter_eq_self]
    intro e he
    obtain ⟨y, hy, rfl⟩ := List.mem_map.1 he
    have := hcells y hy
    simpa [CacheCell.entry] using this
  have hne : ∀ y ∈ before ++ after, y.key ≠ x.key := fun y hy e =>
    h.key_not_mem.1 (e ▸ List.mem_map_of_mem hy)
  have hb := keep before fun y hy => hne y (List.mem_append_left _ hy)
  have ha := keep after fun y hy => hne y (List.mem_append_right _ hy)
  rw [PlainCache.others, h.entries, List.map_append, List.map_cons, List.filter_append, hb,
    List.filter_cons_of_neg (by simp [CacheCell.entry]), ha, List.map_append]

/-- An entry that is used again, perhaps with a new value, moves behind all others. -/
theorem promote (h : Mirrors c p (before ++ x :: after)) (value : V)
    {entries : Std.HashMap K (V × Nat)} (hsize : entries.size = c.entries.size)
    (hget : ∀ k : K, entries[k]? =
      if x.key == k then some (value, x.slot) else c.entries[k]?) :
    Mirrors { c with entries, order := c.order.moveToBack x.slot }
      { p with entries := p.others x.key ++ [(x.key, value)] }
      (before ++ after ++ [⟨x.slot, x.key, value⟩]) where
  order := by
    have ho := h.order
    rw [List.map_append, List.map_cons] at ho
    simpa [CacheCell.linked] using ho.moveToBack
  entries := by
    simp only [h.others_eq]
    simp [CacheCell.entry]
  stored := by
    intro k v s
    rw [hget, CacheCell.mem_concat h.key_not_mem.1]
    split
    · exact Option.some_inj
    · rename_i hk
      rw [h.stored, CacheCell.mem_middle (by simpa using hk)]
  distinct := by
    rw [List.map_append, List.map_singleton, List.nodup_append_comm]
    exact List.nodup_cons.2 h.key_not_mem
  size := by
    have hs := h.size
    simp only [List.length_append, List.length_cons, List.length_nil] at hs ⊢
    omega
  capacity := h.capacity
  stats := h.stats

/-- An entry that is taken out leaves all others as they are. -/
theorem takeOut [LawfulHashable K] (h : Mirrors c p (before ++ x :: after)) :
    Mirrors { c with entries := c.entries.erase x.key, order := (c.order.unlink x.slot).2 }
      { p with entries := p.others x.key } (before ++ after) where
  order := by
    have ho := h.order
    rw [List.map_append, List.map_cons] at ho
    simpa [CacheCell.linked] using ho.unlink
  entries := h.others_eq
  stored := by
    intro k v s
    rw [Std.HashMap.getElem?_erase]
    split
    · rename_i hk
      obtain rfl := eq_of_beq hk
      have hno : ⟨s, x.key, v⟩ ∉ before ++ after := fun hm =>
        h.key_not_mem.1 (List.mem_map.2 ⟨_, hm, rfl⟩)
      simp only [hno, reduceCtorEq]
    · rename_i hk
      rw [h.stored, CacheCell.mem_middle (by simpa using hk)]
  distinct := h.key_not_mem.2
  size := by
    have hs := h.size
    have hx : x.key ∈ c.entries := by
      have := h.stored.2 (show x ∈ before ++ x :: after by simp)
      rw [Std.HashMap.mem_iff_isSome_getElem?, this]
      rfl
    rw [Std.HashMap.size_erase, if_pos hx, hs]
    simp
  capacity := h.capacity
  stats := h.stats

end Single

variable [LawfulHashable K]

/-- An entry of a new key comes behind all others. -/
theorem add (h : Mirrors c p cells) {key : K} (hkey : c.entries[key]? = none) (value : V) :
    Mirrors
      { c with
        entries := c.entries.insert key (value, (c.order.pushBack key).1)
        order := (c.order.pushBack key).2 }
      { p with entries := p.entries ++ [(key, value)] }
      (cells ++ [⟨(c.order.pushBack key).1, key, value⟩]) where
  order := by
    rw [List.map_append]
    exact h.order.pushBack key
  entries := by
    simp only [h.entries, List.map_append]
    rfl
  stored := by
    intro k v s
    rw [Std.HashMap.getElem?_insert, CacheCell.mem_concat (h.not_mem_of_none hkey)]
    split
    · exact Option.some_inj
    · exact h.stored
  distinct := by
    rw [List.map_append, List.map_singleton, List.nodup_append_comm]
    exact List.nodup_cons.2 ⟨h.not_mem_of_none hkey, h.distinct⟩
  size := by
    have hno : key ∉ c.entries := by
      rw [Std.HashMap.mem_iff_isSome_getElem?, hkey]
      simp
    rw [Std.HashMap.size_insert, if_neg hno, h.size, List.length_append]
    rfl
  capacity := h.capacity
  stats := h.stats

/-- What is too much is dropped from the front, one by one. -/
theorem evict (h : Mirrors c p cells) {bound : Nat} (hb : cells.length ≤ p.capacity + bound) :
    ∃ left, Mirrors (c.evict bound) p.fit left := by
  induction bound generalizing c p cells with
  | zero =>
    refine ⟨cells, ?_⟩
    rwa [LruCache.evict, PlainCache.fit_eq_self]
    simpa [h.entries] using hb
  | succ bound ih =>
    unfold LruCache.evict
    split
    · rename_i hsize
      refine ⟨cells, ?_⟩
      rwa [PlainCache.fit_eq_self]
      rw [h.size, h.capacity] at hsize
      simpa [h.entries] using hsize
    · rename_i hsize
      rw [h.size, h.capacity] at hsize
      cases cells with
      | nil => simp at hsize
      | cons x cells =>
        have horder : c.order.Threads
            ([] ++ (x.slot, x.key) :: cells.map CacheCell.linked) := h.order
        have hpop := horder.popFront_cons
        have hkey := horder.unlink_eq.1
        have hcells : Mirrors c p ([] ++ x :: cells) := h
        have hnext := hcells.takeOut
        have htail : p.others x.key = p.entries.tail := by
          rw [hcells.others_eq, h.entries]
          rfl
        rw [htail, List.nil_append] at hnext
        have hlong : p.capacity < p.entries.length := by
          simpa [h.entries] using hsize
        rw [hpop]
        split
        · rename_i oldest order hu
          rw [hu] at hkey hnext
          obtain rfl := Option.some.inj hkey
          have hb' : cells.length ≤ p.capacity + bound := by
            simp only [List.length_cons] at hb
            omega
          rw [← PlainCache.fit_tail hlong, h.stats]
          exact ih (hnext.recount _) hb'
        · rename_i order hu
          rw [hu] at hkey
          exact absurd hkey (by simp)

end Mirrors

/-! ## Uses of the two caches -/

def Agree (c : LruCache K V) (p : PlainCache K V) : Prop :=
  (∃ cells, Mirrors c p cells) ∧ p.entries.length ≤ p.capacity

namespace Agree

variable {c : LruCache K V} {p : PlainCache K V}

theorem keys_eq (h : Agree c p) : c.keys = p.keys := by
  obtain ⟨⟨cells, hm⟩, -⟩ := h
  exact hm.keys_eq

theorem keys_nodup (h : Agree c p) : c.keys.Nodup := by
  have hkeys := h.keys_eq
  obtain ⟨⟨cells, hm⟩, -⟩ := h
  rw [hkeys, PlainCache.keys, hm.entries, List.map_map]
  exact hm.distinct

theorem stats_eq (h : Agree c p) : c.stats = p.stats := by
  obtain ⟨⟨cells, hm⟩, -⟩ := h
  exact hm.stats

theorem size_eq (h : Agree c p) : c.size = p.entries.length := by
  obtain ⟨⟨cells, hm⟩, -⟩ := h
  rw [LruCache.size, hm.size, hm.entries, List.length_map]

theorem capacity_eq (h : Agree c p) : c.capacity = p.capacity := by
  obtain ⟨⟨cells, hm⟩, -⟩ := h
  exact hm.capacity

theorem size_le_capacity (h : Agree c p) : c.size ≤ c.capacity := by
  rw [h.size_eq, h.capacity_eq]
  exact h.2

theorem recount (h : Agree c p) (stats : CacheStats) :
    Agree { c with stats } { p with stats } := by
  obtain ⟨⟨cells, hm⟩, hle⟩ := h
  exact ⟨⟨cells, hm.recount stats⟩, hle⟩

theorem empty (capacity : Nat) (stats : CacheStats) :
    Agree ({ capacity, stats } : LruCache K V) { capacity, stats } := by
  refine ⟨⟨[], ?_⟩, Nat.zero_le _⟩
  refine ⟨RecencyList.Threads.empty, rfl, ?_, List.nodup_nil, rfl, rfl, rfl⟩
  simp

theorem clear (h : Agree c p) : Agree c.clear { p with entries := [] } := by
  have he := empty (K := K) (V := V) p.capacity p.stats
  rw [LruCache.clear, h.capacity_eq, h.stats_eq]
  exact he

variable [LawfulBEq K]

theorem lookup_eq (h : Agree c p) (key : K) : p.lookup key = (c.entries[key]?).map Prod.fst := by
  obtain ⟨⟨cells, hm⟩, -⟩ := h
  exact hm.lookup_eq key

theorem peek_eq (h : Agree c p) (key : K) : c.peek? key = p.lookup key :=
  (h.lookup_eq key).symm

/-- An entry that is used again moves to the back of both. -/
theorem promote (h : Agree c p) {key : K} {old : V} {slot : Nat}
    (hk : c.entries[key]? = some (old, slot)) (value : V) {entries : Std.HashMap K (V × Nat)}
    (hsize : entries.size = c.entries.size)
    (hget : ∀ k : K, entries[k]? = if key == k then some (value, slot) else c.entries[k]?) :
    Agree { c with entries, order := c.order.moveToBack slot }
      { p with entries := p.others key ++ [(key, value)] } := by
  obtain ⟨⟨cells, hm⟩, hle⟩ := h
  obtain ⟨before, after, rfl⟩ := hm.exists_cell hk
  have hmoved := hm.promote value hsize hget
  refine ⟨⟨_, hmoved⟩, ?_⟩
  have hlen := congrArg List.length hm.entries
  have hlen' := congrArg List.length hmoved.entries
  simp only [List.length_map, List.length_append, List.length_cons, List.length_nil] at hlen hlen' ⊢
  omega

variable [LawfulHashable K]

theorem contains_eq (h : Agree c p) (key : K) : c.contains key = (p.lookup key).isSome := by
  rw [LruCache.contains, Std.HashMap.contains_eq_isSome_getElem?, h.lookup_eq, Option.isSome_map]

theorem mem_keys (h : Agree c p) (key : K) : key ∈ c.keys ↔ c.contains key = true := by
  rw [h.contains_eq, h.keys_eq, PlainCache.keys, PlainCache.lookup, ← not_iff_not,
    Bool.not_eq_true, Option.isSome_eq_false_iff, Option.isNone_iff_eq_none,
    List.lookup_eq_none_iff]
  simp only [List.mem_map, not_exists, not_and, bne_iff_ne, ne_eq]
  exact ⟨fun h e he hk => h e he hk.symm, fun h e he hk => h e he hk.symm⟩

/-- What is too much is dropped from both. -/
theorem evict {cells : List (CacheCell K V)} (h : Mirrors c p cells) :
    Agree c.evictToCapacity p.fit := by
  refine ⟨h.evict (by rw [h.size]; omega), ?_⟩
  simp only [PlainCache.fit, List.length_drop]
  omega

theorem insert (h : Agree c p) (key : K) (value : V) :
    Agree (c.insert key value) (p.insert key value) := by
  unfold LruCache.insert PlainCache.insert
  rw [h.lookup_eq]
  cases hk : c.entries[key]? with
  | none =>
    obtain ⟨⟨cells, hm⟩, -⟩ := h
    exact evict (hm.add hk value)
  | some e =>
    obtain ⟨old, slot⟩ := e
    refine h.promote hk value ?_ ?_
    · rw [Std.HashMap.size_insert, if_pos]
      simp [Std.HashMap.mem_iff_isSome_getElem?, hk]
    · intro k
      rw [Std.HashMap.getElem?_insert]

/-- Looking up a key asks the evaluator in both or in neither. -/
theorem get (h : Agree c p) (evaluate : K → StateM σ (Except ε V)) (key : K) (s : σ) :
    ∃ outcome c' p' s', c.get evaluate key s = ((outcome, c'), s') ∧
      p.get evaluate key s = ((outcome, p'), s') ∧ Agree c' p' := by
  have hlookup := h.lookup_eq key
  unfold LruCache.get PlainCache.get
  rw [hlookup]
  cases hk : c.entries[key]? with
  | none =>
    have hmiss := h.recount { p.stats with misses := p.stats.misses + 1 }
    rcases he : evaluate key s with ⟨e | value, s'⟩
    · refine ⟨.error e, _, _, s', ?_, ?_, hmiss⟩
      · simp only [bind, StateT.bind, he, h.stats_eq]
        rfl
      · simp only [Option.map_none, bind, StateT.bind, he]
        rfl
    · refine ⟨.ok value, _, _, s', ?_, ?_, hmiss.insert key value⟩
      · simp only [bind, StateT.bind, he, h.stats_eq]
        rfl
      · simp only [Option.map_none, bind, StateT.bind, he]
        rfl
  | some e =>
    obtain ⟨value, slot⟩ := e
    refine ⟨.ok value, _, _, s, rfl, rfl, ?_⟩
    rw [h.stats_eq]
    have hmoved : Agree { c with order := c.order.moveToBack slot } _ :=
      h.promote hk value rfl (by
      intro k
      split
      · rename_i he
        rw [← eq_of_beq he, hk]
      · rfl)
    exact hmoved.recount _

theorem remove (h : Agree c p) (key : K) :
    (c.remove key).1 = p.lookup key ∧
      Agree (c.remove key).2 { p with entries := p.others key } := by
  have hlookup := h.lookup_eq key
  obtain ⟨⟨cells, hm⟩, hle⟩ := h
  unfold LruCache.remove
  rw [hlookup]
  cases hk : c.entries[key]? with
  | none =>
    have hsame : p.others key = p.entries := by
      rw [PlainCache.others, List.filter_eq_self, hm.entries]
      intro e he
      obtain ⟨x, hx, rfl⟩ := List.mem_map.1 he
      have hne : x.key ≠ key := by
        rintro rfl
        exact hm.not_mem_of_none hk (List.mem_map_of_mem hx)
      simpa [CacheCell.entry] using hne
    rw [hsame]
    exact ⟨rfl, ⟨cells, hm⟩, hle⟩
  | some e =>
    obtain ⟨value, slot⟩ := e
    obtain ⟨before, after, rfl⟩ := hm.exists_cell hk
    refine ⟨rfl, ⟨_, hm.takeOut⟩, ?_⟩
    exact Nat.le_trans (List.length_filter_le _ _) hle

/-- Both refuse the same capacities and shrink alike to the others. -/
theorem setCapacity (h : Agree c p) (capacity : Nat) :
    (∃ e, c.setCapacity capacity = .error e ∧ p.setCapacity capacity = .error e) ∨
      ∃ c' p', c.setCapacity capacity = .ok c' ∧ p.setCapacity capacity = .ok p' ∧
        Agree c' p' := by
  unfold LruCache.setCapacity PlainCache.setCapacity
  split
  · exact .inl ⟨_, rfl, rfl⟩
  · obtain ⟨⟨cells, hm⟩, -⟩ := h
    have hm' : Mirrors { c with capacity } { p with capacity } cells :=
      ⟨hm.order, hm.entries, hm.stored, hm.distinct, hm.size, rfl, hm.stats⟩
    exact .inr ⟨_, _, rfl, rfl, evict hm'⟩

/-- One use answers the same of both and keeps them alike. -/
theorem call (h : Agree c p) (evaluate : K → StateM σ (Except ε V)) (x : CacheCall K V) (s : σ) :
    ∃ answer c' p' s', LruCache.call evaluate x c s = ((answer, c'), s') ∧
      PlainCache.call evaluate x p s = ((answer, p'), s') ∧ Agree c' p' := by
  cases x with
  | get key =>
    obtain ⟨outcome, c', p', s', hc, hp, h'⟩ := h.get evaluate key s
    refine ⟨.evaluated outcome, c', p', s', ?_, ?_, h'⟩
    · simp only [LruCache.call, bind, StateT.bind, hc]
      rfl
    · simp only [PlainCache.call, bind, StateT.bind, hp]
      rfl
  | insert key value => exact ⟨.done, _, _, s, rfl, rfl, h.insert key value⟩
  | peek key =>
    refine ⟨.found (p.lookup key), c, p, s, ?_, rfl, h⟩
    rw [← h.peek_eq]
    rfl
  | contains key =>
    refine ⟨.whether (p.lookup key).isSome, c, p, s, ?_, rfl, h⟩
    rw [← h.contains_eq]
    rfl
  | remove key =>
    obtain ⟨hanswer, h'⟩ := h.remove key
    refine ⟨.found (p.lookup key), _, _, s, ?_, rfl, h'⟩
    rw [← hanswer]
    rfl
  | clear => exact ⟨.done, _, _, s, rfl, rfl, h.clear⟩
  | size =>
    refine ⟨.number p.entries.length, c, p, s, ?_, rfl, h⟩
    rw [← h.size_eq]
    rfl
  | capacity =>
    refine ⟨.number p.capacity, c, p, s, ?_, rfl, h⟩
    rw [← h.capacity_eq]
    rfl
  | setCapacity capacity =>
    rcases h.setCapacity capacity with ⟨e, hc, hp⟩ | ⟨c', p', hc, hp, h'⟩
    · refine ⟨.resized (.error e), c, p, s, ?_, ?_, h⟩
      · simp only [LruCache.call, hc]
        rfl
      · simp only [PlainCache.call, hp]
        rfl
    · refine ⟨.resized (.ok ()), c', p', s, ?_, ?_, h'⟩
      · simp only [LruCache.call, hc]
        rfl
      · simp only [PlainCache.call, hp]
        rfl
  | keys =>
    refine ⟨.listed p.keys, c, p, s, ?_, rfl, h⟩
    rw [← h.keys_eq]
    rfl
  | stats =>
    refine ⟨.counted p.stats, c, p, s, ?_, rfl, h⟩
    rw [← h.stats_eq]
    rfl

/-- A sequence of uses leaves the same log on both, and keeps them alike. -/
theorem runCalls (h : Agree c p) (evaluate : K → StateM σ (Except ε V))
    (calls : List (CacheCall K V)) (s : σ) :
    ∃ log c' p' s',
      TreeQuery.runCalls (LruCache.call evaluate) LruCache.keys LruCache.stats calls c s =
        ((log, c'), s') ∧
      TreeQuery.runCalls (PlainCache.call evaluate) PlainCache.keys PlainCache.stats calls p s =
        ((log, p'), s') ∧
      Agree c' p' := by
  induction calls generalizing c p s with
  | nil => exact ⟨[], c, p, s, rfl, rfl, h⟩
  | cons x calls ih =>
    obtain ⟨answer, c₁, p₁, s₁, hc, hp, h₁⟩ := h.call evaluate x s
    obtain ⟨log, c₂, p₂, s₂, hc₂, hp₂, h₂⟩ := ih h₁ s₁
    refine ⟨(answer, p₁.keys, p₁.stats) :: log, c₂, p₂, s₂, ?_, ?_, h₂⟩
    · simp only [TreeQuery.runCalls, bind, StateT.bind, hc, hc₂, ← h₁.keys_eq, ← h₁.stats_eq]
      rfl
    · simp only [TreeQuery.runCalls, bind, StateT.bind, hp, hp₂]
      rfl

end Agree

/-! ## Main statement -/

section Statement

variable [LawfulBEq K] [LawfulHashable K]

/-- An LRU cache answers as a plain list does, and leaves the same keys and counters after each
use. It never holds more than its capacity, and its keys are the ones it holds, each once. -/
theorem runCalls_eq_plain (capacity : Nat) (hcapacity : 0 < capacity)
    (evaluate : K → StateM σ (Except ε V)) (calls : List (CacheCall K V)) (s : σ) :
    ∃ c : LruCache K V, LruCache.ofCapacity capacity = .ok c ∧
      ∃ log c' p' s',
        runCalls (LruCache.call evaluate) LruCache.keys LruCache.stats calls c s =
          ((log, c'), s') ∧
        runCalls (PlainCache.call evaluate) PlainCache.keys PlainCache.stats calls { capacity } s =
          ((log, p'), s') ∧
        c'.keys = p'.keys ∧ c'.stats = p'.stats ∧ c'.size ≤ c'.capacity ∧
        c'.keys.Nodup ∧ (∀ key, key ∈ c'.keys ↔ c'.contains key = true) ∧
        c'.size = c'.keys.length := by
  have hnew : LruCache.ofCapacity capacity = .ok ({ capacity } : LruCache K V) := by
    rw [LruCache.ofCapacity, if_neg (Nat.ne_of_gt hcapacity)]
  obtain ⟨log, c', p', s', hc, hp, h⟩ :=
    (Agree.empty capacity {} : Agree (_ : LruCache K V) _).runCalls evaluate calls s
  refine ⟨_, hnew, log, c', p', s', hc, hp, h.keys_eq, h.stats_eq, h.size_le_capacity,
    h.keys_nodup, h.mem_keys, ?_⟩
  rw [h.size_eq, h.keys_eq, PlainCache.keys, List.length_map]

end Statement

/-- Two entries, an evaluation that fails, a refused capacity and an eviction. -/
theorem runCalls_counting : 0 < 2 ∧ ∃ c : LruCache String String, LruCache.ofCapacity 2 = .ok c ∧
    (runCalls (LruCache.call (evaluateCounting true)) LruCache.keys LruCache.stats
      [.get "a", .get "!b", .insert "c" "x", .setCapacity 0, .get "a", .insert "d" "y"] c 0).1.1 =
    [(.evaluated (.ok "a:1"), ["a"], ⟨0, 1, 0⟩),
      (.evaluated (.error "cannot evaluate !b:2"), ["a"], ⟨0, 2, 0⟩),
      (.done, ["a", "c"], ⟨0, 2, 0⟩),
      (.resized (.error (.invalidCapacity 0)), ["a", "c"], ⟨0, 2, 0⟩),
      (.evaluated (.ok "a:1"), ["c", "a"], ⟨1, 2, 0⟩),
      (.done, ["a", "d"], ⟨1, 2, 1⟩)] := by
  refine ⟨by decide, ?_⟩
  obtain ⟨c, hc, log, c', p', s', hlru, hplain, -⟩ :=
    runCalls_eq_plain 2 (by decide) (evaluateCounting true)
      [.get "a", .get "!b", .insert "c" "x", .setCapacity 0, .get "a", .insert "d" "y"] 0
  refine ⟨c, hc, ?_⟩
  rw [hlru, ← congrArg (·.1.1) hplain]
  cbv

end TreeQuery
