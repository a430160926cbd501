import TreeQuery.Stage.Memo

/-!
# A memo answers as its stages do

The cache of a memoized stage holds nothing but answers of that stage. Running a stage through a
memo therefore gives what the stage kept under its key gives, whatever is found in a cache and
whatever has been forgotten.
-/

set_option autoImplicit false

namespace TreeQuery

namespace LruCache

variable {K V ε : Type} [BEq K] [Hashable K] [LawfulBEq K] [LawfulHashable K]

def Holds (f : K → Except ε V) (c : LruCache K V) : Prop :=
  ∀ (key : K) (value : V) (slot : Nat), c.entries[key]? = some (value, slot) → f key = .ok value

variable {f : K → Except ε V} {c : LruCache K V}

theorem Holds.evict (h : c.Holds f) (bound : Nat) : (LruCache.evict bound c).Holds f := by
  induction bound generalizing c with
  | zero => exact h
  | succ bound ih =>
    rw [LruCache.evict]
    split
    · exact h
    · split
      · next oldest order _ =>
        refine ih ?_
        intro key value slot hk
        simp only [Std.HashMap.getElem?_erase] at hk
        split at hk
        · exact absurd hk (by simp)
        · exact h key value slot hk
      · exact h

/-- Another value of `f` may be put in. -/
theorem Holds.insert (h : c.Holds f) {key : K} {value : V} (hvalue : f key = .ok value) :
    (c.insert key value).Holds f := by
  have hstore (slot : Nat) {k : K} {v : V} {s : Nat}
      (hk : (c.entries.insert key (value, slot))[k]? = some (v, s)) : f k = .ok v := by
    rw [Std.HashMap.getElem?_insert] at hk
    split at hk
    · next he =>
      obtain ⟨rfl, -⟩ := Prod.mk.inj (Option.some.inj hk)
      rw [← eq_of_beq he]
      exact hvalue
    · exact h k v s hk
  unfold LruCache.insert
  split
  · intro k v s hk
    exact hstore _ hk
  · refine Holds.evict (f := f) ?_ _
    intro k v s hk
    exact hstore _ hk

theorem Holds.get (h : c.Holds f) (key : K) :
    (Id.run (c.get (m := Id) f key)).1 = f key ∧ (Id.run (c.get (m := Id) f key)).2.Holds f := by
  unfold LruCache.get
  cases hk : c.entries[key]? with
  | some e =>
    obtain ⟨value, slot⟩ := e
    exact ⟨(h key value slot hk).symm, h⟩
  | none =>
    cases hf : f key with
    | error e =>
      simp only [bind, pure, Id.run]
      exact ⟨trivial, h⟩
    | ok value =>
      simp only [bind, pure, Id.run]
      refine ⟨trivial, ?_⟩
      have hcounted : ({ c with stats := { c.stats with misses := c.stats.misses + 1 } } :
          LruCache K V).Holds f := h
      exact hcounted.insert hf

theorem Holds.clear (f : K → Except ε V) (c : LruCache K V) : c.clear.Holds f := by
  intro key value slot hk
  simp [LruCache.clear] at hk

end LruCache

def Except.within {ε σ α : Type} (outcome : Except ε α) (s : σ) : EStateM.Result ε σ α :=
  match outcome with
  | .ok a => .ok a s
  | .error e => .error e s

theorem Except.eq_of_within {ε σ α : Type} {x y : Except ε α} {s t : σ}
    (h : Except.within x s = Except.within y t) : x = y := by
  cases x <;> cases y <;> simp_all [within]

namespace StageMemo

variable {E : Type} [BEq E] [Hashable E]

/-- The caches hold answers of their stages. -/
def Sound (m : StageMemo E) : Prop :=
  ∀ s ∈ m.stages, s.cache.Holds s.stage

def table (m : StageMemo E) : List (StageKey × Stage E) :=
  m.stages.map fun s => (s.key, s.stage)

/-- The stage that runs for `s`: the one kept under its key, or else `s` itself. -/
def stageFor (m : StageMemo E) (s : KeyedStage E) : Stage E :=
  (m.table.lookup s.key).getD s.stage

variable {m : StageMemo E}

@[simp] theorem table_clear (m : StageMemo E) : m.clear.table = m.table := by
  simp [table, StageMemo.clear, Function.comp_def]

theorem any_key_iff (m : StageMemo E) (key : StageKey) :
    m.stages.any (·.key == key) = true ↔ key ∈ m.table.map Prod.fst := by
  simp only [table, List.any_eq_true, beq_iff_eq, List.map_map, List.mem_map, Function.comp_apply]

/-- A stage is kept unless there is one under its key. -/
theorem table_memoize (m : StageMemo E) (s : KeyedStage E) : (m.memoize s).table =
    if s.key ∈ m.table.map Prod.fst then m.table else m.table ++ [(s.key, s.stage)] := by
  unfold StageMemo.memoize
  by_cases h : s.key ∈ m.table.map Prod.fst
  · rw [if_pos h, if_pos ((m.any_key_iff s.key).mpr h)]
  · rw [if_neg h, if_neg (mt (m.any_key_iff s.key).mp h)]
    simp [table]

theorem lookUp_eq_none {key : StageKey} {input : List E} {stages : List (MemoizedStage E)} :
    lookUp key input stages = none ↔ (stages.map fun s => (s.key, s.stage)).lookup key = none := by
  induction stages with
  | nil => simp [lookUp]
  | cons s stages ih =>
    rw [lookUp, List.map_cons, List.lookup_cons]
    by_cases hkey : s.key = key
    · simp [hkey]
    · have hne : (key == s.key) = false := by
        rw [beq_eq_false_iff_ne]
        exact Ne.symm hkey
      rw [if_neg hkey, hne, Option.map_eq_none_iff, ih]

variable [LawfulBEq E]

/-- A look-up answers as the first stage of its key, and changes caches only. -/
theorem lookUp_eq_some {key : StageKey} {input : List E} {stages stages' : List (MemoizedStage E)}
    {answer : Except SelectorError (List E)} (hsound : ∀ s ∈ stages, s.cache.Holds s.stage)
    (h : lookUp key input stages = some (answer, stages')) :
    (∃ stage, (stages.map fun s => (s.key, s.stage)).lookup key = some stage ∧
      answer = stage input) ∧
      (∀ s ∈ stages', s.cache.Holds s.stage) ∧
      (stages'.map fun s => (s.key, s.stage)) = stages.map fun s => (s.key, s.stage) := by
  induction stages generalizing stages' with
  | nil => simp [lookUp] at h
  | cons s stages ih =>
    have hs := hsound s List.mem_cons_self
    have hrest : ∀ t ∈ stages, t.cache.Holds t.stage := fun t ht =>
      hsound t (List.mem_cons_of_mem _ ht)
    rw [lookUp] at h
    by_cases hkey : s.key = key
    · rw [if_pos hkey] at h
      obtain ⟨hanswer, hcache⟩ := hs.get input
      obtain ⟨rfl, rfl⟩ := Prod.mk.inj (Option.some.inj h)
      refine ⟨⟨s.stage, by simp [hkey], hanswer⟩, ?_, by simp⟩
      simp only [List.forall_mem_cons]
      exact ⟨hcache, hrest⟩
    · rw [if_neg hkey] at h
      have hne : (key == s.key) = false := by
        rw [beq_eq_false_iff_ne]
        exact Ne.symm hkey
      obtain ⟨⟨found, after⟩, hfound, heq⟩ := Option.map_eq_some_iff.1 h
      obtain ⟨rfl, rfl⟩ := Prod.mk.inj heq
      obtain ⟨⟨stage, hstage, hanswer⟩, hafter, htable⟩ := ih hrest hfound
      refine ⟨⟨stage, by simpa [List.lookup_cons, hne] using hstage, hanswer⟩, ?_, ?_⟩
      · simp only [List.forall_mem_cons]
        exact ⟨hs, hafter⟩
      · rw [List.map_cons, List.map_cons, htable]

theorem Sound.memoize (h : m.Sound) (s : KeyedStage E) : (m.memoize s).Sound := by
  unfold StageMemo.memoize
  split
  · exact h
  · intro t ht
    rcases List.mem_append.1 ht with ht | ht
    · exact h t ht
    · obtain rfl := List.mem_singleton.1 ht
      intro key value slot hk
      simp at hk

theorem Sound.clear (m : StageMemo E) : m.clear.Sound := by
  intro s hs
  obtain ⟨t, -, rfl⟩ := List.mem_map.1 hs
  exact LruCache.Holds.clear _ _

/-- A run answers as the stage that is kept, and keeps the memo sound. -/
theorem Sound.run (h : m.Sound) (s : KeyedStage E) (input : List E) :
    ∃ m', StageMemo.run s input m = Except.within (m.stageFor s input) m' ∧ m'.Sound ∧
      m'.table = m.table := by
  unfold StageMemo.run stageFor
  cases hlook : lookUp s.key input m.stages with
  | none =>
    have htable : m.table.lookup s.key = none := lookUp_eq_none.1 hlook
    refine ⟨m, ?_, h, rfl⟩
    rw [htable, Option.getD_none]
    cases s.stage input <;> rfl
  | some found =>
    obtain ⟨answer, stages⟩ := found
    obtain ⟨⟨stage, hstage, rfl⟩, hsound, htable⟩ := lookUp_eq_some h hlook
    have hkept : m.table.lookup s.key = some stage := hstage
    refine ⟨{ m with stages }, ?_, hsound, htable⟩
    rw [hkept, Option.getD_some]
    cases stage input <;> rfl

end StageMemo

end TreeQuery
