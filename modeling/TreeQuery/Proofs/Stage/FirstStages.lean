import Mathlib.Data.Finset.Card
import TreeQuery.Proofs.Stage.Memo

/-!
# A memo is a table of first stages

What a memo answers to its users is what a table answers that keeps the first stage for each key and
no results at all. Its size is the number of keys, and its counters together count the runs.
-/

set_option autoImplicit false

namespace TreeQuery

/-! ## Counted look-ups -/

def CacheStats.lookups (s : CacheStats) : Nat :=
  s.hits + s.misses

theorem CacheStats.lookups_add (a b : CacheStats) : (a.add b).lookups = a.lookups + b.lookups := by
  simp only [lookups, add]
  omega

namespace LruCache

variable {K V ε : Type} [BEq K] [Hashable K]

theorem lookups_evict (bound : Nat) (c : LruCache K V) :
    (c.evict bound).stats.lookups = c.stats.lookups := by
  induction bound generalizing c with
  | zero => rfl
  | succ bound ih =>
    unfold evict
    split
    · rfl
    · split
      · exact ih _
      · rfl

theorem lookups_insert (c : LruCache K V) (key : K) (value : V) :
    (c.insert key value).stats.lookups = c.stats.lookups := by
  unfold insert
  split
  · rfl
  · exact lookups_evict _ _

/-- A look-up is counted once, whatever comes of it. -/
theorem lookups_get (f : K → Except ε V) (c : LruCache K V) (key : K) :
    (Id.run (c.get (m := Id) f key)).2.stats.lookups = c.stats.lookups + 1 := by
  unfold get
  cases c.entries[key]? with
  | some e => exact Nat.add_right_comm _ _ _
  | none =>
    cases hf : f key with
    | error e =>
      simp only [bind, pure, Id.run]
      rfl
    | ok value =>
      simp only [bind, pure, Id.run, lookups_insert]
      rfl

end LruCache

namespace StageMemo

variable {E : Type} [BEq E] [Hashable E] {m : StageMemo E}

def lookupsOf (stages : List (MemoizedStage E)) : Nat :=
  stages.foldr (fun s n => s.cache.stats.lookups + n) 0

theorem lookupsOf_cons (s : MemoizedStage E) (stages : List (MemoizedStage E)) :
    lookupsOf (s :: stages) = s.cache.stats.lookups + lookupsOf stages :=
  rfl

theorem lookups_stats (m : StageMemo E) : m.stats.lookups = lookupsOf m.stages := by
  have hfold (stages : List (MemoizedStage E)) (total : CacheStats) :
      (stages.foldl (fun total s => total.add s.cache.stats) total).lookups =
        total.lookups + lookupsOf stages := by
    induction stages generalizing total with
    | nil => rfl
    | cons s stages ih =>
      rw [List.foldl_cons, ih, CacheStats.lookups_add, lookupsOf_cons, Nat.add_assoc]
  rw [stats, hfold, CacheStats.lookups, Nat.zero_add, Nat.zero_add]

theorem size_eq (m : StageMemo E) : m.size = (m.table.map Prod.fst).length := by
  rw [size, table, List.length_map, List.length_map]

theorem mem_keys_iff (m : StageMemo E) (key : StageKey) :
    key ∈ m.table.map Prod.fst ↔ m.table.lookup key ≠ none := by
  simp [List.lookup_eq_none_iff]

theorem lookup_memoize (m : StageMemo E) (s : KeyedStage E) (key : StageKey) :
    (m.memoize s).table.lookup key =
      (m.table.lookup key).or (if s.key = key then some s.stage else none) := by
  rw [table_memoize]
  by_cases hkept : s.key ∈ m.table.map Prod.fst
  · rw [if_pos hkept]
    split
    · next hkey =>
      rw [hkey, mem_keys_iff] at hkept
      exact (Option.or_of_isSome (Option.isSome_iff_ne_none.mpr hkept)).symm
    · exact Option.or_none.symm
  · rw [if_neg hkept, List.lookup_append, List.lookup_cons, List.lookup_nil]
    by_cases hkey : s.key = key
    · simp [hkey]
    · simp [hkey, beq_eq_false_iff_ne.mpr (Ne.symm hkey)]

theorem lookups_memoize (m : StageMemo E) (s : KeyedStage E) :
    (m.memoize s).stats.lookups = m.stats.lookups := by
  rw [lookups_stats, lookups_stats]
  unfold memoize
  split
  · rfl
  · rw [lookupsOf, List.foldr_append]
    rfl

theorem lookups_clear (m : StageMemo E) : m.clear.stats.lookups = m.stats.lookups := by
  rw [lookups_stats, lookups_stats, clear, lookupsOf, List.foldr_map]
  rfl

theorem lookups_lookUp {key : StageKey} {input : List E} {stages stages' : List (MemoizedStage E)}
    {answer : Except SelectorError (List E)}
    (h : lookUp key input stages = some (answer, stages')) :
    lookupsOf stages' = lookupsOf stages + 1 := by
  induction stages generalizing stages' with
  | nil => cases h
  | cons s stages ih =>
    rw [lookUp] at h
    split at h
    · obtain ⟨-, hstages⟩ := Prod.mk.inj (Option.some.inj h)
      have hcount (rest : Nat) :
          (Id.run (s.cache.get (m := Id) s.stage input)).2.stats.lookups + rest =
            s.cache.stats.lookups + rest + 1 := by
        rw [LruCache.lookups_get, Nat.add_right_comm]
      rw [← hstages, lookupsOf_cons, lookupsOf_cons]
      exact hcount _
    · obtain ⟨⟨found, after⟩, hfound, heq⟩ := Option.map_eq_some_iff.mp h
      obtain ⟨rfl, rfl⟩ := Prod.mk.inj heq
      rw [lookupsOf_cons, lookupsOf_cons, ih hfound, Nat.add_assoc]

/-- A run of a stage that is kept is counted as one look-up. -/
theorem lookups_run {s : KeyedStage E} {input : List E} {outcome : Except SelectorError (List E)}
    {m' : StageMemo E} (hkept : m.table.lookup s.key ≠ none)
    (h : StageMemo.run s input m = Except.within outcome m') :
    m'.stats.lookups = m.stats.lookups + 1 := by
  unfold StageMemo.run at h
  cases hlook : lookUp s.key input m.stages with
  | none => exact absurd (lookUp_eq_none.mp hlook) hkept
  | some found =>
    obtain ⟨answer, stages⟩ := found
    have hm : m' = { m with stages } := by
      rw [hlook] at h
      cases answer <;> cases outcome <;> cases h <;> rfl
    rw [hm, lookups_stats, lookups_stats]
    exact lookups_lookUp hlook

end StageMemo

/-! ## Memos in use -/

/-- A use of a memo. The stages that it has wrapped are counted in the order of the calls. -/
inductive MemoCall (E : Type) where
  | memoize (key : StageKey) (stage : Stage E)
  | run (wrapped : Nat) (input : List E)
  | clear

inductive MemoAnswer (E : Type) where
  | done
  | answered (outcome : Except SelectorError (List E))
  | unknown

/-- Carry out calls one after another. After each, note its answer and what can be counted. -/
def logCalls {C S A N : Type} (call : C → S → A × S) (counts : S → N) : List C → S → List (A × N)
  | [], _ => []
  | c :: calls, s =>
    let (answer, s) := call c s
    (answer, counts s) :: logCalls call counts calls s

/-- A memo and the stages that it has wrapped. -/
structure MemoUser (E : Type) [BEq E] [Hashable E] where
  memo : StageMemo E
  wrapped : List (KeyedStage E) := []

/-- All stages that have been memoized, the first one first, and how many runs there were. -/
structure FirstStages (E : Type) where
  memoized : List (KeyedStage E) := []
  runs : Nat := 0

section Calls

variable {E : Type}

namespace FirstStages

def first? (t : FirstStages E) (key : StageKey) : Option (Stage E) :=
  (t.memoized.find? (·.key == key)).map (·.stage)

def call : MemoCall E → FirstStages E → MemoAnswer E × FirstStages E
  | .memoize key stage, t => (.done, { t with memoized := t.memoized ++ [⟨key, stage⟩] })
  | .run i input, t =>
    match (t.memoized[i]?).bind fun s => t.first? s.key with
    | some stage => (.answered (stage input), { t with runs := t.runs + 1 })
    | none => (.unknown, t)
  | .clear, t => (.done, t)

def counts (t : FirstStages E) : Nat × Nat :=
  ((t.memoized.map (·.key)).toFinset.card, t.runs)

theorem first?_memoize (t : FirstStages E) (key : StageKey) (stage : Stage E) (k : StageKey) :
    (call (.memoize key stage) t).2.first? k =
      (t.first? k).or (if key = k then some stage else none) := by
  rw [call, first?, first?, List.find?_append, Option.map_or, List.find?_singleton]
  by_cases hkey : key = k <;> simp [hkey]

theorem mem_keys_iff (t : FirstStages E) (key : StageKey) :
    key ∈ t.memoized.map (·.key) ↔ t.first? key ≠ none := by
  simp [first?]

end FirstStages

namespace MemoUser

variable [BEq E] [Hashable E]

def call : MemoCall E → MemoUser E → MemoAnswer E × MemoUser E
  | .memoize key stage, u =>
    (.done, { memo := u.memo.memoize ⟨key, stage⟩, wrapped := u.wrapped ++ [⟨key, stage⟩] })
  | .run i input, u =>
    match u.wrapped[i]? with
    | some s =>
      match StageMemo.run s input u.memo with
      | .ok output memo => (.answered (.ok output), { u with memo })
      | .error e memo => (.answered (.error e), { u with memo })
    | none => (.unknown, u)
  | .clear, u => (.done, { u with memo := u.memo.clear })

def counts (u : MemoUser E) : Nat × Nat :=
  (u.memo.size, u.memo.stats.hits + u.memo.stats.misses)

end MemoUser

end Calls

/-! ## What a memo stands for -/

/-- A memo keeps the first stage of each key, once, and has counted each run. -/
structure Represents {E : Type} [BEq E] [Hashable E] (u : MemoUser E) (t : FirstStages E) :
    Prop where
  sound : u.memo.Sound
  wrapped : u.wrapped = t.memoized
  first : ∀ key, u.memo.table.lookup key = t.first? key
  distinct : (u.memo.table.map Prod.fst).Nodup
  runs : u.memo.stats.lookups = t.runs

namespace Represents

variable {E : Type} [BEq E] [Hashable E] {u : MemoUser E} {t : FirstStages E}

theorem empty (capacity : Nat) : Represents { memo := { capacity } } ({} : FirstStages E) where
  sound := fun _ hs => absurd hs List.not_mem_nil
  wrapped := rfl
  first := fun _ => rfl
  distinct := List.nodup_nil
  runs := rfl

theorem mem_keys (h : Represents u t) (key : StageKey) :
    key ∈ u.memo.table.map Prod.fst ↔ key ∈ t.memoized.map (·.key) := by
  rw [StageMemo.mem_keys_iff, FirstStages.mem_keys_iff, h.first]

theorem counts_eq (h : Represents u t) : MemoUser.counts u = FirstStages.counts t := by
  have hsize : u.memo.size = (t.memoized.map (·.key)).toFinset.card := by
    rw [StageMemo.size_eq, ← List.toFinset_card_of_nodup h.distinct]
    congr 1
    ext key
    rw [List.mem_toFinset, List.mem_toFinset, h.mem_keys]
  exact Prod.ext hsize h.runs

variable [LawfulBEq E]

theorem memoize (h : Represents u t) (key : StageKey) (stage : Stage E) :
    Represents (MemoUser.call (.memoize key stage) u).2
      (FirstStages.call (.memoize key stage) t).2 where
  sound := h.sound.memoize _
  wrapped := by
    rw [MemoUser.call, FirstStages.call, h.wrapped]
  first := fun k => by
    rw [MemoUser.call, StageMemo.lookup_memoize, h.first, FirstStages.first?_memoize]
  distinct := by
    rw [MemoUser.call, StageMemo.table_memoize]
    split
    · exact h.distinct
    · next hkey =>
      rw [List.map_append, List.map_singleton, ← List.concat_eq_append]
      exact h.distinct.concat hkey
  runs := (StageMemo.lookups_memoize _ _).trans h.runs

theorem clear (h : Represents u t) :
    Represents (MemoUser.call .clear u).2 (FirstStages.call .clear t).2 where
  sound := .clear _
  wrapped := h.wrapped
  first := fun key => by
    rw [MemoUser.call, StageMemo.table_clear]
    exact h.first key
  distinct := by
    rw [MemoUser.call, StageMemo.table_clear]
    exact h.distinct
  runs := (StageMemo.lookups_clear _).trans h.runs

/-- A run answers as the first stage of its key, which is kept. -/
theorem run (h : Represents u t) (i : Nat) (input : List E) :
    ∃ answer u' t', MemoUser.call (.run i input) u = (answer, u') ∧
      FirstStages.call (.run i input) t = (answer, t') ∧ Represents u' t' := by
  rw [MemoUser.call, FirstStages.call, h.wrapped]
  cases hi : t.memoized[i]? with
  | none => exact ⟨.unknown, u, t, rfl, rfl, h⟩
  | some s =>
    have hfirst : t.first? s.key ≠ none :=
      (t.mem_keys_iff s.key).mp (List.mem_map_of_mem (List.mem_of_getElem? hi))
    obtain ⟨stage, hstage⟩ := Option.ne_none_iff_exists'.mp hfirst
    have hkept : u.memo.table.lookup s.key = some stage := (h.first s.key).trans hstage
    obtain ⟨memo, hrun, hsound, htable⟩ := h.sound.run s input
    have hlookups : memo.stats.lookups = u.memo.stats.lookups + 1 :=
      StageMemo.lookups_run (by simp [hkept]) hrun
    rw [StageMemo.stageFor, hkept, Option.getD_some] at hrun
    refine ⟨.answered (stage input), { u with memo }, { t with runs := t.runs + 1 }, ?_, ?_, {
      sound := hsound
      wrapped := h.wrapped
      first := fun key => by
        rw [htable]
        exact h.first key
      distinct := by
        rw [htable]
        exact h.distinct
      runs := by rw [hlookups, h.runs] }⟩
    · simp only [hrun, h.wrapped]
      cases stage input <;> rfl
    · rw [Option.bind_some, hstage]

/-- A memo and the table that it stands for answer alike. -/
theorem call (h : Represents u t) (c : MemoCall E) :
    ∃ answer u' t', MemoUser.call c u = (answer, u') ∧ FirstStages.call c t = (answer, t') ∧
      Represents u' t' := by
  cases c with
  | memoize key stage => exact ⟨.done, _, _, rfl, rfl, h.memoize key stage⟩
  | run i input => exact h.run i input
  | clear => exact ⟨.done, _, _, rfl, rfl, h.clear⟩

theorem logCalls (h : Represents u t) (calls : List (MemoCall E)) :
    TreeQuery.logCalls MemoUser.call MemoUser.counts calls u =
      TreeQuery.logCalls FirstStages.call FirstStages.counts calls t := by
  induction calls generalizing u t with
  | nil => rfl
  | cons c calls ih =>
    obtain ⟨answer, u', t', hcall, hcall', h'⟩ := h.call c
    simp only [TreeQuery.logCalls, hcall, hcall', h'.counts_eq, ih h']

end Represents

/-- A memo answers as a table of first stages, which has no results and forgets nothing. Its size is
the number of keys, and each run was either a hit or a miss. -/
theorem logCalls_memo {E : Type} [BEq E] [Hashable E] [LawfulBEq E] (capacity : Nat)
    (hcapacity : 0 < capacity) (calls : List (MemoCall E)) :
    ∃ memo : StageMemo E, StageMemo.ofCapacity capacity = .ok memo ∧
      logCalls MemoUser.call MemoUser.counts calls { memo } =
        logCalls FirstStages.call FirstStages.counts calls {} :=
  ⟨_, if_neg (Nat.ne_of_gt hcapacity), (Represents.empty capacity).logCalls calls⟩

/-- Two stages under one key, and one that fails under another. -/
def keepCalls : List (MemoCall Nat) :=
  [.memoize ⟨"keep", []⟩ fun input => .ok (input.filter (1 < ·)),
    .memoize ⟨"keep", []⟩ fun _ => .ok [],
    .run 1 [1, 2, 3],
    .memoize ⟨"fail", []⟩ fun _ => .error .emptySelector,
    .run 2 [1],
    .clear,
    .run 0 [1, 2, 3]]

/-- The second stage under `"keep"` never runs. A failure and `clear` change neither the answers nor
what is counted. -/
theorem logCalls_memo_keep : 0 < 1 ∧ ∃ memo : StageMemo Nat, StageMemo.ofCapacity 1 = .ok memo ∧
    logCalls MemoUser.call MemoUser.counts keepCalls { memo } =
      [(.done, 1, 0), (.done, 1, 0), (.answered (.ok [2, 3]), 1, 1), (.done, 2, 1),
        (.answered (.error .emptySelector), 2, 2), (.done, 2, 2),
        (.answered (.ok [2, 3]), 2, 3)] := by
  refine ⟨by decide, ?_⟩
  obtain ⟨memo, hmemo, hlog⟩ := logCalls_memo 1 (by decide) keepCalls
  exact ⟨memo, hmemo, hlog.trans (by cbv)⟩

end TreeQuery
