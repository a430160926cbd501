import TreeQuery.Proofs.Cache.Refinement

/-!
# A larger cache finds what a smaller one finds

Which keys a cache holds, and whether a look-up finds one, depends on the calls and on the capacity
alone as long as evaluation does not fail. Of two caches that see the same calls, the smaller one
holds the keys that the larger one has used last.
-/

set_option autoImplicit false

namespace TreeQuery

variable {K V ε σ : Type}

/-! ## Keys alone -/

section Ends

variable {keys keys' : List K} {capacity capacity' : Nat}

theorem length_rtake_le (keys : List K) (capacity : Nat) :
    (keys.rtake capacity).length ≤ capacity := by
  rw [List.rtake, List.length_drop]
  omega

theorem rtake_of_length_le (h : keys.length ≤ capacity) : keys.rtake capacity = keys := by
  rw [List.rtake, Nat.sub_eq_zero_of_le h, List.drop_zero]

theorem rtake_suffix (h : keys <:+ keys') (hle : capacity ≤ capacity') :
    keys.rtake capacity <:+ keys'.rtake capacity' := by
  have hkeys : keys.rtake capacity <:+ keys' := (List.drop_suffix _ _).trans h
  refine List.suffix_of_suffix_length_le hkeys (List.drop_suffix _ _) ?_
  have hlength := h.length_le
  rw [List.rtake, List.rtake, List.length_drop, List.length_drop]
  omega

end Ends

namespace CacheCall

variable [BEq K]

/-- The keys after a key has been used, where there is room for `capacity` of them. -/
def useKey (capacity : Nat) (keys : List K) (key : K) : List K :=
  ((keys.filter fun k => !(k == key)) ++ [key]).rtake capacity

def keysAfter (capacity : Nat) (keys : List K) : CacheCall K V → List K
  | get key | insert key _ => useKey capacity keys key
  | remove key => keys.filter fun k => !(k == key)
  | clear => []
  | _ => keys

def hits (keys : List K) : CacheCall K V → Nat
  | get key => if keys.contains key then 1 else 0
  | _ => 0

def misses (keys : List K) : CacheCall K V → Nat
  | get key => if keys.contains key then 0 else 1
  | _ => 0

variable {keys keys' : List K} {capacity capacity' : Nat}

theorem length_keysAfter_le (h : keys.length ≤ capacity) (x : CacheCall K V) :
    (x.keysAfter capacity keys).length ≤ capacity := by
  cases x
  case get => exact length_rtake_le _ _
  case insert => exact length_rtake_le _ _
  case remove => exact (List.length_filter_le _ _).trans h
  case clear => exact Nat.zero_le _
  all_goals exact h

theorem keysAfter_suffix (h : keys <:+ keys') (hle : capacity ≤ capacity') (x : CacheCall K V) :
    x.keysAfter capacity keys <:+ x.keysAfter capacity' keys' := by
  have huse (key : K) : useKey capacity keys key <:+ useKey capacity' keys' key :=
    rtake_suffix ((List.suffix_append_inj_of_length_eq rfl).mpr ⟨h.filter _, rfl⟩) hle
  cases x
  case get => exact huse _
  case insert => exact huse _
  case remove => exact h.filter _
  case clear => exact List.suffix_refl _
  all_goals exact h

variable [LawfulBEq K]

/-- What is found among the last keys is found among all of them. -/
theorem contains_of_suffix (h : keys <:+ keys') {key : K} (hkey : keys.contains key) :
    keys'.contains key :=
  List.contains_iff_mem.mpr (h.mem (List.contains_iff_mem.mp hkey))

theorem hits_le (h : keys <:+ keys') (x : CacheCall K V) : x.hits keys ≤ x.hits keys' := by
  cases x
  case get key =>
    simp only [hits]
    split
    · next hkey => rw [if_pos (contains_of_suffix h hkey)]
    · exact Nat.zero_le _
  all_goals exact Nat.le_refl _

theorem misses_le (h : keys <:+ keys') (x : CacheCall K V) : x.misses keys' ≤ x.misses keys := by
  cases x
  case get key =>
    simp only [misses]
    split
    · exact Nat.zero_le _
    · next hkey => rw [if_neg fun hkey' => hkey (contains_of_suffix h hkey')]
  all_goals exact Nat.le_refl _

end CacheCall

/-! ## Calls of plain caches -/

namespace PlainCache

section Keys

variable {p : PlainCache K V}

theorem keys_fit (p : PlainCache K V) : p.fit.keys = p.keys.rtake p.capacity := by
  rw [keys, fit, List.map_drop, List.rtake, keys, List.length_map]

variable [BEq K]

theorem keys_others (p : PlainCache K V) (key : K) :
    (p.others key).map Prod.fst = p.keys.filter fun k => !(k == key) := by
  rw [others, keys, List.filter_map]
  rfl

theorem isSome_lookup (p : PlainCache K V) (key : K) :
    (p.lookup key).isSome = p.keys.contains key := by
  rw [Bool.eq_iff_iff, lookup, List.lookup_isSome_iff, keys, List.contains_map]
  simp

theorem stats_insert (p : PlainCache K V) (key : K) (value : V) :
    (p.insert key value).stats.hits = p.stats.hits ∧
      (p.insert key value).stats.misses = p.stats.misses := by
  unfold insert
  split <;> exact ⟨rfl, rfl⟩

theorem capacity_insert (p : PlainCache K V) (key : K) (value : V) :
    (p.insert key value).capacity = p.capacity := by
  unfold insert
  split <;> rfl

def countMiss (p : PlainCache K V) : PlainCache K V :=
  { p with stats := { p.stats with misses := p.stats.misses + 1 } }

/-- What is not there is evaluated and stored. -/
theorem get_of_missing {evaluate : K → StateM σ (Except ε V)} {key : K} {s : σ} {value : V}
    (hlookup : p.lookup key = none) (hvalue : (evaluate key s).1 = .ok value) :
    p.get evaluate key s = ((.ok value, p.countMiss.insert key value), (evaluate key s).2) := by
  rcases hrun : evaluate key s with ⟨outcome, s'⟩
  rw [hrun] at hvalue
  obtain rfl : outcome = .ok value := hvalue
  unfold get
  simp only [hlookup, bind, StateT.bind, hrun]
  rfl

variable [LawfulBEq K]

theorem keys_promote (hp : p.keys.length ≤ p.capacity) {key : K} (hkey : p.keys.contains key)
    (value : V) : (p.others key ++ [(key, value)]).map Prod.fst =
      CacheCall.useKey p.capacity p.keys key := by
  have hmem : key ∈ p.keys := List.contains_iff_mem.mp hkey
  have hlength : (p.keys.filter fun k => !(k == key)).length < p.keys.length :=
    List.length_filter_lt_length_iff_exists.mpr ⟨key, hmem, by simp⟩
  rw [List.map_append, keys_others, CacheCall.useKey, rtake_of_length_le]
  · rfl
  · rw [List.length_append, List.length_singleton]
    omega

theorem keys_insert (hp : p.keys.length ≤ p.capacity) (key : K) (value : V) :
    (p.insert key value).keys = CacheCall.useKey p.capacity p.keys key := by
  have hsome := p.isSome_lookup key
  unfold insert
  cases hlookup : p.lookup key with
  | some old =>
    rw [hlookup] at hsome
    exact keys_promote hp hsome.symm value
  | none =>
    rw [hlookup] at hsome
    have hothers : (p.keys.filter fun k => !(k == key)) = p.keys := by
      rw [List.filter_eq_self]
      intro k hk
      have hne : k ≠ key := by
        rintro rfl
        rw [List.contains_iff_mem.mpr hk] at hsome
        cases hsome
      simpa using hne
    rw [keys_fit, CacheCall.useKey, hothers, keys, List.map_append]
    rfl

end Keys

/-- What a call leaves of a cache, as far as keys and look-ups are concerned. -/
structure After [BEq K] (x : CacheCall K V) (p p' : PlainCache K V) : Prop where
  keys : p'.keys = x.keysAfter p.capacity p.keys
  capacity : p'.capacity = p.capacity
  hits : p'.stats.hits = p.stats.hits + x.hits p.keys
  misses : p'.stats.misses = p.stats.misses + x.misses p.keys

section Calls

variable [BEq K] [LawfulBEq K] {p : PlainCache K V} {evaluate : K → StateM σ (Except ε V)}

theorem after_get (hp : p.keys.length ≤ p.capacity)
    (hevaluate : ∀ key s, ∃ value, (evaluate key s).1 = .ok value) (key : K) (s : σ) :
    After (.get key) p (p.get evaluate key s).1.2 := by
  have hsome := p.isSome_lookup key
  cases hlookup : p.lookup key with
  | some value =>
    rw [hlookup] at hsome
    have hkey : p.keys.contains key = true := hsome.symm
    unfold get
    rw [hlookup]
    exact {
      keys := keys_promote hp hkey value
      capacity := rfl
      hits := by simp only [CacheCall.hits, hkey]; rfl
      misses := by simp only [CacheCall.misses, hkey]; rfl }
  | none =>
    rw [hlookup] at hsome
    have hkey : p.keys.contains key = false := hsome.symm
    obtain ⟨value, hvalue⟩ := hevaluate key s
    rw [get_of_missing hlookup hvalue]
    obtain ⟨hhits, hmisses⟩ := p.countMiss.stats_insert key value
    exact {
      keys := keys_insert (p := p.countMiss) hp key value
      capacity := capacity_insert _ key value
      hits := by simp only [hhits, CacheCall.hits, hkey]; rfl
      misses := by simp only [hmisses, CacheCall.misses, hkey]; rfl }

theorem after_call (hp : p.keys.length ≤ p.capacity)
    (hevaluate : ∀ key s, ∃ value, (evaluate key s).1 = .ok value) {x : CacheCall K V}
    (hx : ∀ n, x ≠ .setCapacity n) (s : σ) : After x p (call evaluate x p s).1.2 := by
  cases x
  case get key => exact after_get hp hevaluate key s
  case insert key value =>
    obtain ⟨hhits, hmisses⟩ := p.stats_insert key value
    exact ⟨keys_insert hp key value, capacity_insert p key value, hhits, hmisses⟩
  case remove key => exact ⟨keys_others p key, rfl, rfl, rfl⟩
  case setCapacity n => exact absurd rfl (hx n)
  all_goals exact ⟨rfl, rfl, rfl, rfl⟩

end Calls

/-- The smaller cache holds the last keys of the larger one, and has found keys less often. -/
structure Within (p q : PlainCache K V) : Prop where
  capacity : p.capacity ≤ q.capacity
  keys : p.keys <:+ q.keys
  fits : p.keys.length ≤ p.capacity
  fits' : q.keys.length ≤ q.capacity
  hits : p.stats.hits ≤ q.stats.hits
  misses : q.stats.misses ≤ p.stats.misses

theorem Within.empty {small large : Nat} (h : small ≤ large) :
    Within ({ capacity := small } : PlainCache K V) { capacity := large } :=
  ⟨h, List.suffix_refl _, Nat.zero_le _, Nat.zero_le _, Nat.le_refl _, Nat.le_refl _⟩

section Runs

variable [BEq K] [LawfulBEq K] {p q : PlainCache K V} {evaluate : K → StateM σ (Except ε V)}

/-- One call keeps the smaller cache within the larger one. -/
theorem Within.after (h : Within p q) {x : CacheCall K V} {p' q' : PlainCache K V}
    (hp : After x p p') (hq : After x q q') : Within p' q' where
  capacity := by
    rw [hp.capacity, hq.capacity]
    exact h.capacity
  keys := by
    rw [hp.keys, hq.keys]
    exact CacheCall.keysAfter_suffix h.keys h.capacity x
  fits := by
    rw [hp.keys, hp.capacity]
    exact CacheCall.length_keysAfter_le h.fits x
  fits' := by
    rw [hq.keys, hq.capacity]
    exact CacheCall.length_keysAfter_le h.fits' x
  hits := by
    rw [hp.hits, hq.hits]
    exact Nat.add_le_add h.hits (CacheCall.hits_le h.keys x)
  misses := by
    rw [hp.misses, hq.misses]
    exact Nat.add_le_add h.misses (CacheCall.misses_le h.keys x)

/-- So does a sequence of calls. The two runs ask the evaluator at different times, so that it may
be in different states. -/
theorem Within.runCalls (h : Within p q)
    (hevaluate : ∀ key s, ∃ value, (evaluate key s).1 = .ok value) {calls : List (CacheCall K V)}
    (hcalls : ∀ n, .setCapacity n ∉ calls) (s t : σ) :
    ∃ log p' s' log' q' t',
      TreeQuery.runCalls (call evaluate) PlainCache.keys PlainCache.stats calls p s =
        ((log, p'), s') ∧
      TreeQuery.runCalls (call evaluate) PlainCache.keys PlainCache.stats calls q t =
        ((log', q'), t') ∧
      List.Forall₂ (fun (_, keys, stats) (_, keys', stats') => keys <:+ keys' ∧
        stats.hits ≤ stats'.hits ∧ stats'.misses ≤ stats.misses) log log' ∧
      Within p' q' := by
  induction calls generalizing p q s t with
  | nil => exact ⟨[], p, s, [], q, t, rfl, rfl, .nil, h⟩
  | cons x calls ih =>
    have hx : ∀ n, x ≠ .setCapacity n := fun n hx => hcalls n (hx ▸ List.mem_cons_self)
    have hp := after_call h.fits hevaluate hx s
    have hq := after_call h.fits' hevaluate hx t
    rcases hcall : call evaluate x p s with ⟨⟨answer, p₁⟩, s₁⟩
    rcases hcall' : call evaluate x q t with ⟨⟨answer', q₁⟩, t₁⟩
    rw [hcall] at hp
    rw [hcall'] at hq
    have h₁ : Within p₁ q₁ := h.after hp hq
    obtain ⟨log, p₂, s₂, log', q₂, t₂, hrun, hrun', hlogs, h₂⟩ :=
      ih h₁ (fun n hn => hcalls n (List.mem_cons_of_mem _ hn)) s₁ t₁
    refine ⟨(answer, p₁.keys, p₁.stats) :: log, p₂, s₂, (answer', q₁.keys, q₁.stats) :: log', q₂,
      t₂, ?_, ?_, .cons ⟨h₁.keys, h₁.hits, h₁.misses⟩ hlogs, h₂⟩
    · simp only [TreeQuery.runCalls, bind, StateT.bind, hcall, hrun]
      rfl
    · simp only [TreeQuery.runCalls, bind, StateT.bind, hcall', hrun']
      rfl

end Runs

end PlainCache

/-! ## LRU caches -/

section Statement

variable [BEq K] [Hashable K] [LawfulBEq K] [LawfulHashable K]

/-- Looking up a key counts as a hit. -/
def LruCache.Finds (evaluate : K → StateM σ (Except ε V)) (c : LruCache K V) (key : K) (s : σ) :
    Prop :=
  (c.get evaluate key s).1.2.stats.hits = c.stats.hits + 1

theorem Agree.finds_iff {c : LruCache K V} {p : PlainCache K V} (h : Agree c p)
    {evaluate : K → StateM σ (Except ε V)}
    (hevaluate : ∀ key s, ∃ value, (evaluate key s).1 = .ok value) (key : K) (s : σ) :
    c.Finds evaluate key s ↔ p.keys.contains key := by
  have hp : p.keys.length ≤ p.capacity := by
    rw [PlainCache.keys, List.length_map]
    exact h.2
  obtain ⟨outcome, c', p', s', hc, hget, h'⟩ := h.get evaluate key s
  have hhits := (PlainCache.after_get hp hevaluate key s).hits
  rw [hget] at hhits
  rw [LruCache.Finds, hc, h.stats_eq, h'.stats_eq, hhits, CacheCall.hits]
  split <;> simp_all

theorem log_eq_plain (capacity : Nat) (evaluate : K → StateM σ (Except ε V))
    (calls : List (CacheCall K V)) (s : σ) :
    (runCalls (LruCache.call evaluate) LruCache.keys LruCache.stats calls { capacity } s).1.1 =
      (runCalls (PlainCache.call evaluate) PlainCache.keys PlainCache.stats calls { capacity }
        s).1.1 := by
  obtain ⟨log, c, p, s', hc, hp, -⟩ :=
    (Agree.empty capacity {} : Agree (_ : LruCache K V) _).runCalls evaluate calls s
  rw [hc, hp]

/-- A larger cache that sees the same calls as a smaller one finds what that one finds. After each
call, the smaller one holds the keys that the larger one has used last. -/
theorem runCalls_inclusion (small large : Nat) (hsmall : 0 < small) (hle : small ≤ large)
    (evaluate : K → StateM σ (Except ε V))
    (hevaluate : ∀ key s, ∃ value, (evaluate key s).1 = .ok value) (calls : List (CacheCall K V))
    (hcalls : ∀ n, .setCapacity n ∉ calls) (s : σ) :
    ∃ c d : LruCache K V, LruCache.ofCapacity small = .ok c ∧ LruCache.ofCapacity large = .ok d ∧
      ∃ log c' s' log' d' t',
        runCalls (LruCache.call evaluate) LruCache.keys LruCache.stats calls c s =
          ((log, c'), s') ∧
        runCalls (LruCache.call evaluate) LruCache.keys LruCache.stats calls d s =
          ((log', d'), t') ∧
        List.Forall₂ (fun (_, keys, stats) (_, keys', stats') => keys <:+ keys' ∧
          stats.hits ≤ stats'.hits ∧ stats'.misses ≤ stats.misses) log log' ∧
        ∀ key, c'.Finds evaluate key s' → d'.Finds evaluate key t' := by
  have hlarge : 0 < large := Nat.lt_of_lt_of_le hsmall hle
  obtain ⟨log, p', s', log', q', t', hp, hq, hlogs, hwithin⟩ :=
    (PlainCache.Within.empty hle).runCalls hevaluate hcalls s s
  obtain ⟨_, c', _, _, hc, hp', hagree⟩ :=
    (Agree.empty small {} : Agree (_ : LruCache K V) _).runCalls evaluate calls s
  obtain ⟨_, d', _, _, hd, hq', hagree'⟩ :=
    (Agree.empty large {} : Agree (_ : LruCache K V) _).runCalls evaluate calls s
  rw [hp] at hp'
  cases hp'
  rw [hq] at hq'
  cases hq'
  refine ⟨_, _, if_neg (Nat.ne_of_gt hsmall), if_neg (Nat.ne_of_gt hlarge), log, c', s', log', d',
    t', hc, hd, hlogs, fun key hfinds => ?_⟩
  rw [hagree.finds_iff hevaluate] at hfinds
  rw [hagree'.finds_iff hevaluate]
  exact CacheCall.contains_of_suffix hwithin.keys hfinds

end Statement

/-- With room for one key and for two. The larger cache finds `a` again, the smaller one does
not. -/
theorem runCalls_inclusion_counting : 0 < 1 ∧ 1 ≤ 2 ∧
    (∀ key s, ∃ value, (evaluateCounting false key s).1 = .ok value) ∧
    ∃ c d : LruCache String String, LruCache.ofCapacity 1 = .ok c ∧ LruCache.ofCapacity 2 = .ok d ∧
      ∃ log c' s' log' d' t',
        runCalls (LruCache.call (evaluateCounting false)) LruCache.keys LruCache.stats
          [.get "a", .insert "b" "x", .get "a", .remove "c"] c 0 = ((log, c'), s') ∧
        runCalls (LruCache.call (evaluateCounting false)) LruCache.keys LruCache.stats
          [.get "a", .insert "b" "x", .get "a", .remove "c"] d 0 = ((log', d'), t') ∧
        List.Forall₂ (fun x y => x.2.1 <:+ y.2.1) log log' ∧
        log.map (fun x => (x.2.1, x.2.2.hits)) = [(["a"], 0), (["b"], 0), (["a"], 0), (["a"], 0)] ∧
        log'.map (fun x => (x.2.1, x.2.2.hits)) =
          [(["a"], 0), (["a", "b"], 0), (["b", "a"], 1), (["b", "a"], 1)] := by
  have htotal : ∀ key s, ∃ value, (evaluateCounting false key s).1 = .ok value :=
    fun key s => ⟨_, rfl⟩
  refine ⟨by decide, by decide, htotal, ?_⟩
  obtain ⟨c, d, hc, hd, log, c', s', log', d', t', hrun, hrun', hlogs, -⟩ :=
    runCalls_inclusion 1 2 (by decide) (by decide) (evaluateCounting false) htotal
      [.get "a", .insert "b" "x", .get "a", .remove "c"] (by simp) 0
  refine ⟨c, d, hc, hd, log, c', s', log', d', t', hrun, hrun', hlogs.imp fun x y h => h.1, ?_, ?_⟩
  · cases hc
    have hlog := congrArg (·.1.1) hrun
    simp only [log_eq_plain] at hlog
    rw [← hlog]
    cbv
  · cases hd
    have hlog := congrArg (·.1.1) hrun'
    simp only [log_eq_plain] at hlog
    rw [← hlog]
    cbv

end TreeQuery
