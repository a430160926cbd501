import TreeQuery.Document.Builder
import TreeQuery.Pattern.OfText
import TreeQuery.Proofs.Compile.TreeEvaluation
import TreeQuery.Proofs.Document.Siblings
import TreeQuery.Proofs.Region.Cuts

/-!
# Splitting a place

A splitter is evaluated on a place alone, and what it finds is looked up among the children. The
regions that result have the children which the runs of the mode hold, whether the place is a node
or a region itself.
-/

set_option autoImplicit false

namespace TreeQuery

/-! ## Positions of splitters -/

section Positions

variable {children found : List Place} {e : SelectorError}

theorem locate_ok (hnodup : children.Nodup) {q : Place} (hq : q ∈ children) :
    ∃ i, locate children e q = .ok i ∧ ∀ j, children[j]? = some q ↔ j = i := by
  obtain ⟨i, hi⟩ := Option.isSome_iff_exists.mp (List.isSome_idxOf?.mpr hq)
  obtain ⟨hlt, hget, -⟩ := List.idxOf?_eq_some_iff.mp hi
  have hat : children[i]? = some q := by rw [List.getElem?_eq_getElem hlt, hget]
  refine ⟨i, by rw [locate, hi], ?_⟩
  intro j
  constructor
  · intro hj
    exact (List.getElem?_inj (List.getElem?_eq_some_iff.mp hj).1 hnodup).mp (hj.trans hat.symm)
  · rintro rfl
    exact hat

theorem locate_error {q : Place} (hq : q ∉ children) : locate children e q = .error e := by
  rw [locate, List.idxOf?_eq_none_iff.mpr hq]

theorem mapM_locate_ok (hnodup : children.Nodup) (h : ∀ q ∈ found, q ∈ children) :
    ∃ positions, found.mapM (locate children e) = .ok positions ∧
      ∀ i, i ∈ positions ↔ ∃ q ∈ found, children[i]? = some q := by
  induction found with
  | nil => exact ⟨[], rfl, by simp⟩
  | cons q found ih =>
    obtain ⟨i, hi, hat⟩ := locate_ok (e := e) hnodup (h q List.mem_cons_self)
    obtain ⟨positions, hrest, hmem⟩ := ih fun q hq => h q (List.mem_cons_of_mem _ hq)
    refine ⟨i :: positions, ?_, ?_⟩
    · rw [List.mapM_cons, hi, hrest]
      rfl
    · intro j
      rw [List.mem_cons, hmem, ← hat j]
      simp

theorem mapM_locate_error (h : ∃ q ∈ found, q ∉ children) :
    found.mapM (locate children e) = .error e := by
  induction found with
  | nil =>
    obtain ⟨q, hq, -⟩ := h
    cases hq
  | cons q found ih =>
    rw [List.mapM_cons]
    by_cases hq : q ∈ children
    · have hrest : ∃ q ∈ found, q ∉ children := by
        obtain ⟨r, hr, hnot⟩ := h
        rcases List.mem_cons.mp hr with rfl | hr
        · exact absurd hq hnot
        · exact ⟨r, hr, hnot⟩
      rw [ih hrest]
      unfold locate
      cases children.idxOf? q <;> rfl
    · rw [locate_error hq]
      rfl

theorem mem_increasing {n : Nat} {positions : List Nat} {i : Nat} :
    i ∈ increasing n positions ↔ i < n ∧ i ∈ positions := by
  simp [increasing]

end Positions

/-! ## Regions -/

section Places

variable {d : Document}

theorem Place.nodup_children (d : Document) (p : Place) : (p.children d).Nodup := by
  rw [Place.children]
  refine List.Nodup.map (fun m n h => Place.node.inj h) ?_
  cases p with
  | node n => exact d.nodup_children n
  | region r =>
    have hsub : (r.children d).Sublist (d.children r.parent) :=
      (List.take_sublist _ _).trans (List.drop_sublist _ _)
    exact (d.nodup_children r.parent).sublist hsub

theorem filterMap_getElem?_range' {α : Type} (xs : List α) (start count : Nat) :
    (List.range' start count).filterMap (xs[·]?) = (xs.drop start).take count := by
  induction count generalizing start with
  | zero => rfl
  | succ count ih =>
    rw [List.range'_succ, List.filterMap_cons, ih]
    by_cases hstart : start < xs.length
    · rw [List.drop_eq_getElem_cons hstart, List.take_succ_cons,
        List.getElem?_eq_getElem hstart]
    · rw [List.getElem?_eq_none (by omega), List.drop_eq_nil_of_le (by omega),
        List.drop_eq_nil_of_le (by omega)]
      simp

/-- The children of a region over a run are those at the positions of the run. -/
theorem Place.children_regionOf (p : Place) {r : Run} (h : r.stop ≤ (p.children d).length)
    (direction : Option Direction) :
    (p.regionOf r direction).children d = r.positions.filterMap ((p.children d)[·]?) := by
  rw [Run.positions, filterMap_getElem?_range']
  cases p with
  | node n =>
    simp only [Place.regionOf, Place.regionOfBy, Place.children, Place.childIds, Region.children, Region.length,
      List.map_drop, List.map_take]
  | region outer =>
    simp only [Place.regionOf, Place.regionOfBy, Place.children, Place.childIds, Region.children, Region.length,
      List.map_drop, List.map_take, List.drop_take, List.take_take, List.drop_drop] at h ⊢
    simp only [List.length_map, List.length_take, List.length_drop] at h
    congr 1
    omega

theorem SplitMode.Cuts.congr {mode : SplitMode} {n : Nat} {P Q : Nat → Prop} [DecidablePred P]
    [hQ : DecidablePred Q] {runs : List Run} (h : mode.Cuts n P runs) (hPQ : ∀ i, P i ↔ Q i) :
    mode.Cuts n Q runs := by
  obtain rfl : P = Q := funext fun i => propext (hPQ i)
  convert h

theorem splitAt_error {mode : SplitMode} {p : Place} {found : List Place}
    (h : ∃ q ∈ found, q ∉ p.children d) :
    p.splitAt d mode found = .error .splitterNotChild := by
  rw [Place.splitAt, Place.splitAtBy, mapM_locate_error h]
  rfl

theorem splitAt_nil (d : Document) (mode : SplitMode) (p : Place) :
    p.splitAt d mode [] = .ok (if mode = .all then [p] else []) := by
  cases mode <;> rfl

theorem splitAt_ok (mode : SplitMode) {p : Place} {found : List Place} (hne : found ≠ [])
    (h : ∀ q ∈ found, q ∈ p.children d) :
    ∃ runs, p.splitAt d mode found = .ok (runs.map fun r => p.regionOf r mode.direction?) ∧
      mode.Cuts (p.children d).length (fun i => ∃ q ∈ found, (p.children d)[i]? = some q)
        runs := by
  obtain ⟨positions, hpositions, hmem⟩ :=
    mapM_locate_ok (e := .splitterNotChild) (p.nodup_children d) h
  have hbound : ∀ i ∈ positions, i < (p.children d).length := by
    intro i hi
    obtain ⟨q, -, hq⟩ := (hmem i).mp hi
    exact (List.getElem?_eq_some_iff.mp hq).1
  have hmem' : ∀ i, i ∈ increasing (p.children d).length positions ↔
      ∃ q ∈ found, (p.children d)[i]? = some q := by
    intro i
    rw [mem_increasing, ← hmem]
    exact ⟨fun hi => hi.2, fun hi => ⟨hbound i hi, hi⟩⟩
  obtain ⟨i, hi⟩ : ∃ i, i ∈ positions := by
    obtain ⟨q, hq⟩ := List.exists_mem_of_ne_nil found hne
    obtain ⟨i, hi⟩ := List.mem_iff_getElem?.mp (h q hq)
    exact ⟨i, (hmem i).mpr ⟨q, hq, hi⟩⟩
  have hpositions_ne : positions.isEmpty = false := by
    rw [List.isEmpty_eq_false_iff_exists_mem]
    exact ⟨i, hi⟩
  have hcuts : mode.Cuts (p.children d).length
      (· ∈ increasing (p.children d).length positions)
      (Run.split mode (increasing (p.children d).length positions) (p.children d).length) :=
    Run.cuts_split mode (List.pairwise_lt_range.filter _)
      (fun j hj => (mem_increasing.mp hj).1)
      (List.ne_nil_of_mem (mem_increasing.mpr ⟨hbound i hi, hi⟩))
  refine ⟨_, ?_, hcuts.congr hmem'⟩
  rw [Place.splitAt, Place.splitAtBy, hpositions]
  show (if positions.isEmpty then _ else _) = _
  rw [hpositions_ne]
  rfl

theorem splitAt_error_iff {mode : SplitMode} {p : Place} {found : List Place} {e : SelectorError} :
    p.splitAt d mode found = .error e ↔
      e = .splitterNotChild ∧ ∃ q ∈ found, q ∉ p.children d := by
  constructor
  · intro h
    by_cases hnot : ∃ q ∈ found, q ∉ p.children d
    · rw [splitAt_error hnot] at h
      exact ⟨(Except.error.inj h).symm, hnot⟩
    · have hchildren : ∀ q ∈ found, q ∈ p.children d := by
        intro q hq
        by_contra hmem
        exact hnot ⟨q, hq, hmem⟩
      by_cases hne : found = []
      · subst hne
        rw [splitAt_nil] at h
        cases h
      · obtain ⟨runs, hsplit, -⟩ := splitAt_ok mode hne hchildren
        rw [hsplit] at h
        cases h
  · rintro ⟨rfl, hnot⟩
    exact splitAt_error hnot

/-- Runs that hold each position once and in order give the children back. -/
theorem flatMap_children_regionOf {mode : SplitMode} {p : Place} {isCut : Nat → Prop}
    [DecidablePred isCut] {runs : List Run}
    (hcuts : mode.Cuts (p.children d).length isCut runs) (hmode : mode = .before ∨ mode = .after)
    (direction? : Option Direction) :
    (runs.flatMap fun r => (p.regionOf r direction?).children d) = p.children d := by
  have hcopies : ∀ i, mode.copies (p.children d).length isCut i = 1 := by
    rcases hmode with rfl | rfl <;> exact fun i => rfl
  have hpositions := hcuts.positions
  simp only [hcopies, List.replicate_one, List.flatMap_singleton'] at hpositions
  have hregion : ∀ r ∈ runs, (p.regionOf r direction?).children d =
      r.positions.filterMap ((p.children d)[·]?) :=
    fun r hr => p.children_regionOf (hcuts.inside r hr).2 direction?
  have hall : (List.range (p.children d).length).filterMap ((p.children d)[·]?) =
      p.children d := by
    rw [List.range_eq_range', filterMap_getElem?_range', List.drop_zero, List.take_length]
  rw [List.flatMap_congr hregion, ← List.filterMap_flatMap, hpositions, hall]

end Places

/-! ## Main statement -/

section Engine

variable [PatternEngine]

theorem eval_split_singleton (d : Document) (mode : SplitMode) (splitter : Selector) (p : Place) :
    (Selector.split mode splitter).eval d [p] = splitter.eval d [p] >>= p.splitAt d mode := by
  have hsingle : GroupPseudo.split mode ≠ .between := nofun
  rw [eval_of_groupedSelector d hsingle rfl, GroupPseudo.eval, List.mapM_cons, List.mapM_nil]
  cases hrun : splitter.eval d [p] with
  | error e => rfl
  | ok found => cases p.splitAt d mode found <;> simp

/-- The stage fails exactly where its splitter fails or finds a place that is no child. Otherwise
the splitters cut the child list as the mode says, and each region has the children of its run; a
place without splitters is kept whole, or dropped. -/
theorem split_cuts_children (d : Document) (mode : SplitMode) (splitter : Selector) (p : Place) :
    (∀ e, (Selector.split mode splitter).eval d [p] = .error e ↔
      splitter.eval d [p] = .error e ∨ e = .splitterNotChild ∧
        ∃ found, splitter.eval d [p] = .ok found ∧ ∃ q ∈ found, q ∉ p.children d) ∧
    ∀ found, splitter.eval d [p] = .ok found → (∀ q ∈ found, q ∈ p.children d) →
      (found = [] → (Selector.split mode splitter).eval d [p] =
        .ok (if mode = .all then [p] else [])) ∧
      (found ≠ [] → ∃ runs,
        (Selector.split mode splitter).eval d [p] =
          .ok (runs.map fun r => p.regionOf r mode.direction?) ∧
        mode.Cuts (p.children d).length (fun i => ∃ q ∈ found, (p.children d)[i]? = some q) runs ∧
        (∀ r ∈ runs, (p.regionOf r mode.direction?).children d =
          r.positions.filterMap ((p.children d)[·]?)) ∧
        (mode = .before ∨ mode = .after →
          (runs.flatMap fun r => (p.regionOf r mode.direction?).children d) = p.children d)) := by
  rw [eval_split_singleton]
  constructor
  · intro e
    cases hrun : splitter.eval d [p] with
    | error err =>
      constructor
      · intro h
        exact .inl h
      · rintro (h | ⟨-, found, hfound, -⟩)
        · exact h
        · cases hfound
    | ok found =>
      have hiff : p.splitAt d mode found = .error e ↔
          e = .splitterNotChild ∧ ∃ q ∈ found, q ∉ p.children d := splitAt_error_iff
      constructor
      · intro h
        obtain ⟨he, hnot⟩ := hiff.mp h
        exact .inr ⟨he, found, rfl, hnot⟩
      · rintro (h | ⟨he, found', hfound, hnot⟩)
        · cases h
        · obtain rfl := Except.ok.inj hfound
          exact hiff.mpr ⟨he, hnot⟩
  · intro found hrun hchildren
    rw [hrun]
    refine ⟨?_, ?_⟩
    · rintro rfl
      exact splitAt_nil d mode p
    · intro hne
      obtain ⟨runs, hsplit, hcuts⟩ := splitAt_ok mode hne hchildren
      have hregion : ∀ r ∈ runs, (p.regionOf r mode.direction?).children d =
          r.positions.filterMap ((p.children d)[·]?) :=
        fun r hr => p.children_regionOf (hcuts.inside r hr).2 mode.direction?
      exact ⟨runs, hsplit, hcuts, hregion,
        fun hmode => flatMap_children_regionOf hcuts hmode mode.direction?⟩

end Engine

/-- A list item in the middle belongs to both regions around it. -/
theorem split_cuts_children_middle :
    let d : Document := .build [.element "ul", .leaf "li", .leaf "li", .leaf "li", .close]
    let second : Selector := .andThen (.step (.combinator .child)) (.step (.nthChild 2))
    ∃ runs : List Run, (Selector.split .all second).eval d [.node 1] =
        .ok (runs.map fun r => (Place.node 1).regionOf r none) ∧
      runs.flatMap Run.positions = [0, 1, 1, 2] := by
  intro d second
  have hchildren : (Place.node 1).children d = [.node 2, .node 3, .node 4] := by rfl
  have hfound : second.eval d [.node 1] = .ok [.node 3] := by rfl
  have hmem : ∀ q ∈ [Place.node 3], q ∈ (Place.node 1).children d := by simp [hchildren]
  obtain ⟨runs, hrun, hcuts, -⟩ :=
    ((split_cuts_children d .all second (.node 1)).2 [.node 3] hfound hmem).2 (by simp)
  refine ⟨runs, hrun, ?_⟩
  rw [hcuts.positions, hchildren]
  decide

end TreeQuery
