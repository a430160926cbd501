import Mathlib
import TreeQuery.Pattern.OfText
import TreeQuery.Proofs.Region.Slice

/-!
# Limits

The region before a limit, the one after it and the one between two limits are told by positions
among the children of a place. What a limit selector finds is looked at in the order in which it
was found, up to the first place that stands late enough. That one decides, even where another one
found stands before it, and what was found after it may be no child at all.
-/

set_option autoImplicit false

namespace TreeQuery

/-! ## The deciding place -/

section Search

variable {children found : List Place} {start : Nat}

theorem locate_of_getElem? (hnodup : children.Nodup) {e : SelectorError} {q : Place} {i : Nat}
    (h : children[i]? = some q) : locate children e q = .ok i := by
  obtain ⟨j, hj, hat⟩ := locate_ok (e := e) hnodup (List.mem_of_getElem? h)
  obtain rfl := (hat i).mp h
  exact hj

theorem getElem?_of_locate {e : SelectorError} {q : Place} {i : Nat}
    (h : locate children e q = .ok i) : children[i]? = some q := by
  unfold locate at h
  split at h
  · next j hj =>
    obtain rfl := Except.ok.inj h
    obtain ⟨hlt, hget, -⟩ := List.idxOf?_eq_some_iff.mp hj
    rw [List.getElem?_eq_getElem hlt, hget]
  · cases h

theorem exists_positions (h : ∀ q ∈ found, q ∈ children) :
    ∃ positions : List Nat, positions.map (children[·]?) = found.map some := by
  induction found with
  | nil => exact ⟨[], rfl⟩
  | cons q found ih =>
    obtain ⟨i, hi⟩ := List.mem_iff_getElem?.mp (h q List.mem_cons_self)
    obtain ⟨positions, hpositions⟩ := ih fun r hr => h r (List.mem_cons_of_mem q hr)
    refine ⟨i :: positions, ?_⟩
    rw [List.map_cons, List.map_cons, hi, hpositions]

theorem lt_length_of_position {positions : List Nat}
    (h : positions.map (children[·]?) = found.map some) {i : Nat} (hi : i ∈ positions) :
    i < children.length := by
  have hmem : children[i]? ∈ found.map some := by
    rw [← h]
    exact List.mem_map_of_mem hi
  obtain ⟨q, -, hq⟩ := List.mem_map.mp hmem
  exact (List.getElem?_eq_some_iff.mp hq.symm).1

theorem limitFrom_cons (q : Place) :
    Place.limitFrom children start (q :: found) = locate children .limitNotChild q >>= fun i =>
      if start ≤ i then .ok (some i) else Place.limitFrom children start found := by
  rw [Place.limitFrom]
  cases locate children .limitNotChild q with
  | error e => rfl
  | ok i => rfl

/-- Where all that was found are children, the first position that is late enough decides. -/
theorem limitFrom_ok (hnodup : children.Nodup) {positions : List Nat}
    (h : positions.map (children[·]?) = found.map some) :
    Place.limitFrom children start found = .ok (positions.filter (start ≤ ·)).head? := by
  rw [List.head?_filter]
  induction found generalizing positions with
  | nil =>
    rw [List.map_nil, List.map_eq_nil_iff] at h
    rw [h]
    rfl
  | cons q found ih =>
    cases positions with
    | nil => cases h
    | cons i positions =>
      obtain ⟨hi, hrest⟩ := List.cons.inj h
      rw [limitFrom_cons, locate_of_getElem? hnodup hi]
      show (if start ≤ i then _ else _) = _
      by_cases hstart : start ≤ i
      · rw [if_pos hstart, List.find?_cons_of_pos (by simpa using hstart)]
      · rw [if_neg hstart, List.find?_cons_of_neg (by simpa using hstart)]
        exact ih hrest

theorem limitFrom_eq_some {i : Nat} (h : Place.limitFrom children start found = .ok (some i)) :
    start ≤ i ∧ i < children.length := by
  induction found with
  | nil => cases h
  | cons q found ih =>
    rw [limitFrom_cons] at h
    obtain ⟨j, hj, h⟩ := except_bind_ok h
    split at h
    · next hstart =>
      obtain rfl := Option.some.inj (Except.ok.inj h)
      exact ⟨hstart, (List.getElem?_eq_some_iff.mp (getElem?_of_locate hj)).1⟩
    · exact ih h

end Search

/-! ## One place -/

section Places

variable {d : Document} {p : Place} {found : List Place}

theorem limitOf_nil : p.limitOf d 0 [] = .ok none := rfl

/-- With no position to reach, the first place found decides, be it a child or not. -/
theorem limitOf_cons (q : Place) :
    p.limitOf d 0 (q :: found) = locate (p.children d) .limitNotChild q >>= fun i =>
      .ok (some i) := by
  rw [Place.limitOf, limitFrom_cons]
  simp only [Nat.zero_le, if_true]

theorem limitOf_eq_error_iff {e : SelectorError} :
    p.limitOf d 0 found = .error e ↔
      e = .limitNotChild ∧ ∃ q ∈ found.head?, q ∉ p.children d := by
  cases found with
  | nil => simp [limitOf_nil]
  | cons q found =>
    rw [limitOf_cons]
    by_cases hq : q ∈ p.children d
    · obtain ⟨i, hi, -⟩ := locate_ok (e := .limitNotChild) (p.nodup_children d) hq
      rw [hi]
      constructor
      · intro h
        cases h
      · intro h
        obtain ⟨-, r, hr, hnot⟩ := h
        obtain rfl := Option.some.inj hr
        exact absurd hq hnot
    · rw [locate_error hq]
      constructor
      · intro h
        exact ⟨(Except.error.inj h).symm, q, rfl, hq⟩
      · intro h
        rw [h.1]
        rfl

theorem mapM_reduceOption_singleton (f : Place → Except SelectorError (Option Place)) :
    ([p].mapM f >>= fun regions => pure regions.reduceOption) =
      f p >>= fun region? => .ok region?.toList := by
  rw [List.mapM_cons, List.mapM_nil]
  cases f p with
  | error e => rfl
  | ok region? => cases region? <;> rfl

theorem mapM_limit_singleton (call : List Place → Except SelectorError (List Place))
    (region : Place → Nat → Place) :
    (do
      let regions ← [p].mapM fun x => do return (← x.limitOf d 0 (← call [x])).map (region x)
      return regions.reduceOption) =
      call [p] >>= fun found => p.limitOf d 0 found >>= fun i =>
        .ok (i.map (region p)).toList := by
  rw [mapM_reduceOption_singleton, bind_assoc]
  congr 1
  funext found
  cases p.limitOf d 0 found <;> rfl

theorem children_regionBefore {i : Nat} (hi : i < (p.children d).length) :
    (p.regionBefore i).children d = (p.children d).take i := by
  rw [Place.regionBefore_eq, Place.children_slice (Nat.le_of_lt hi)]
  rfl

theorem children_regionAfter {i : Nat} (hi : i < (p.children d).length) :
    (p.regionAfter d i).children d = (p.children d).drop (i + 1) := by
  have hstart : min (i + 1) (p.children d).length = i + 1 := Nat.min_eq_left hi
  rw [Place.regionAfter_eq, Place.children_slice (Nat.le_refl _)]
  simp only [Run.after, Run.afterBy, hstart]
  rw [← List.length_drop, List.take_length]

theorem children_regionBetween {i j : Nat} (hij : i ≤ j) (hj : j < (p.children d).length) :
    (p.regionBetween i j).children d = ((p.children d).take j).drop (i + 1) := by
  have hstop : max j (i + 1) - (i + 1) = j - (i + 1) := by omega
  have hbound : max j (i + 1) ≤ (p.children d).length := by omega
  rw [Place.regionBetween_eq, Place.children_slice hbound]
  simp only [Run.between, Run.betweenBy, hstop, List.drop_take]

variable [PatternEngine] {limit : Selector}

theorem eval_before_singleton (d : Document) (limit : Selector) (p : Place) :
    (Selector.before limit).eval d [p] = limit.eval d [p] >>= fun found =>
      p.limitOf d 0 found >>= fun i => .ok (i.map p.regionBefore).toList := by
  have hsingle : GroupPseudo.before ≠ .between := nofun
  rw [eval_of_groupedSelector d hsingle rfl]
  exact mapM_limit_singleton (limit.eval d) Place.regionBefore

theorem eval_after_singleton (d : Document) (limit : Selector) (p : Place) :
    (Selector.after limit).eval d [p] = limit.eval d [p] >>= fun found =>
      p.limitOf d 0 found >>= fun i => .ok (i.map (p.regionAfter d)).toList := by
  have hsingle : GroupPseudo.after ≠ .between := nofun
  rw [eval_of_groupedSelector d hsingle rfl]
  exact mapM_limit_singleton (limit.eval d) (Place.regionAfter d)

theorem eval_between_singleton (d : Document) (first last : Selector) (p : Place) :
    (Selector.between first last).eval d [p] = first.eval d [p] >>= fun found =>
      p.limitOf d 0 found >>= fun start? =>
        match start? with
        | none => .ok []
        | some start => last.eval d [p] >>= fun found =>
            p.limitOf d start found >>= fun i => .ok (i.map (p.regionBetween start)).toList := by
  rw [eval_between, evalBetween, mapM_reduceOption_singleton, bind_assoc]
  congr 1
  funext found
  cases p.limitOf d 0 found with
  | error e => rfl
  | ok start? =>
    cases start? with
    | none => rfl
    | some start =>
      show (last.eval d [p] >>= _) >>= _ = last.eval d [p] >>= _
      rw [bind_assoc]
      congr 1
      funext found
      cases p.limitOf d start found <;> rfl

theorem eval_limit_of_ok (hrun : limit.eval d [p] = .ok found) {i : Option Nat}
    (hi : p.limitOf d 0 found = .ok i) :
    (Selector.before limit).eval d [p] = .ok (i.map p.regionBefore).toList ∧
      (Selector.after limit).eval d [p] = .ok (i.map (p.regionAfter d)).toList := by
  rw [eval_before_singleton, eval_after_singleton, hrun]
  show (p.limitOf d 0 found >>= _ = _) ∧ (p.limitOf d 0 found >>= _ = _)
  rw [hi]
  exact ⟨rfl, rfl⟩

/-- A child that is found first delimits one region on either side. -/
theorem exists_limit {q : Place} (hrun : limit.eval d [p] = .ok (q :: found))
    (hq : q ∈ p.children d) :
    ∃ i, (p.children d)[i]? = some q ∧
      (Selector.before limit).eval d [p] = .ok [p.regionBefore i] ∧
      (Selector.after limit).eval d [p] = .ok [p.regionAfter d i] := by
  obtain ⟨i, hi, hat⟩ := locate_ok (e := .limitNotChild) (p.nodup_children d) hq
  have hlimit : p.limitOf d 0 (q :: found) = .ok (some i) := by
    rw [limitOf_cons, hi]
    rfl
  exact ⟨i, (hat i).mpr rfl, eval_limit_of_ok hrun hlimit⟩

theorem eval_limit_error_iff (hrun : limit.eval d [p] = .ok found) {e : SelectorError} :
    ((Selector.before limit).eval d [p] = .error e ↔
      e = .limitNotChild ∧ ∃ q ∈ found.head?, q ∉ p.children d) ∧
    ((Selector.after limit).eval d [p] = .error e ↔
      e = .limitNotChild ∧ ∃ q ∈ found.head?, q ∉ p.children d) := by
  rw [eval_before_singleton, eval_after_singleton, hrun, ← limitOf_eq_error_iff]
  show (p.limitOf d 0 found >>= _ = _ ↔ _) ∧ (p.limitOf d 0 found >>= _ = _ ↔ _)
  cases p.limitOf d 0 found with
  | error err =>
    have hsame : ∀ α β : Type, (Except.error err : Except SelectorError α) = .error e ↔
        (Except.error err : Except SelectorError β) = .error e := by simp
    exact ⟨hsame _ _, hsame _ _⟩
  | ok i =>
    constructor
    · exact ⟨nofun, nofun⟩
    · exact ⟨nofun, nofun⟩

end Places

/-! ## Both sides of a limit -/

/-- The two regions of a limit fail alike, are both missing, or stand side by side with one child
between them, which the limit selector found. -/
theorem before_after_complementary [PatternEngine] (d : Document) (limit : Selector) (p : Place) :
    (∃ e, (Selector.before limit).eval d [p] = .error e ∧
      (Selector.after limit).eval d [p] = .error e) ∨
    ((Selector.before limit).eval d [p] = .ok [] ∧ (Selector.after limit).eval d [p] = .ok []) ∨
    ∃ front back : Region,
      (Selector.before limit).eval d [p] = .ok [.region front] ∧
      (Selector.after limit).eval d [p] = .ok [.region back] ∧
      ∃! m, (∃ found, limit.eval d [p] = .ok found ∧ m ∈ found) ∧
        (Place.region front).children d ++ m :: (Place.region back).children d =
          p.children d := by
  cases hrun : limit.eval d [p] with
  | error e =>
    refine .inl ⟨e, ?_, ?_⟩
    · rw [eval_before_singleton, hrun]
      rfl
    · rw [eval_after_singleton, hrun]
      rfl
  | ok found =>
    cases found with
    | nil => exact .inr (.inl (eval_limit_of_ok hrun limitOf_nil))
    | cons q found =>
      by_cases hq : q ∈ p.children d
      · obtain ⟨i, hi, hbefore, hafter⟩ := exists_limit hrun hq
        obtain ⟨hlt, hget⟩ := List.getElem?_eq_some_iff.mp hi
        have hsides : (p.regionBefore i).children d ++ q :: (p.regionAfter d i).children d =
            p.children d := by
          rw [children_regionBefore hlt, children_regionAfter hlt, ← hget,
            List.getElem_cons_drop, List.take_append_drop]
        rw [Place.regionBefore_eq, Place.regionOf_eq] at hbefore hsides
        rw [Place.regionAfter_eq, Place.regionOf_eq] at hafter hsides
        refine .inr (.inr ⟨_, _, hbefore, hafter, q, ?_, ?_⟩)
        · exact ⟨⟨_, rfl, List.mem_cons_self⟩, hsides⟩
        · intro m hm
          have heq := List.append_cancel_left (hm.2.trans hsides.symm)
          exact (List.cons.inj heq).1
      · have herror := eval_limit_error_iff hrun (e := .limitNotChild)
        have hfirst : ∃ r ∈ (q :: found).head?, r ∉ p.children d := ⟨q, rfl, hq⟩
        exact .inl ⟨_, herror.1.mpr ⟨rfl, hfirst⟩, herror.2.mpr ⟨rfl, hfirst⟩⟩

/-! ## Limits that are no children -/

/-- A limit that is no child is reported if it was found first. Hence every one is reported just
where the first place found is no child either. -/
theorem limit_not_child_reported [PatternEngine] {d : Document} {limit : Selector} {p : Place}
    {found : List Place} (hrun : limit.eval d [p] = .ok found) :
    (∀ e, (Selector.before limit).eval d [p] = .error e ↔
      e = .limitNotChild ∧ ∃ q ∈ found.head?, q ∉ p.children d) ∧
    (∀ e, (Selector.after limit).eval d [p] = .error e ↔
      e = .limitNotChild ∧ ∃ q ∈ found.head?, q ∉ p.children d) ∧
    (((Selector.before limit).eval d [p] = .error .limitNotChild ↔
        ∃ q ∈ found, q ∉ p.children d) ∧
      ((Selector.after limit).eval d [p] = .error .limitNotChild ↔
        ∃ q ∈ found, q ∉ p.children d) ↔
      ((∃ q ∈ found, q ∉ p.children d) → ∃ q ∈ found.head?, q ∉ p.children d)) := by
  have herror := fun e => eval_limit_error_iff hrun (e := e)
  refine ⟨fun e => (herror e).1, fun e => (herror e).2, ?_⟩
  rw [(herror _).1, (herror _).2]
  simp only [true_and, and_self]
  constructor
  · intro h
    exact h.mpr
  · intro h
    constructor
    · intro hfirst
      obtain ⟨q, hq, hnot⟩ := hfirst
      exact ⟨q, List.mem_of_head? hq, hnot⟩
    · exact h

/-- An element inside the child that was found after it is reported. -/
theorem limit_not_child_reported_first :
    let d : Document := .build [.element "div", .element "p", .leaf "b", .close, .close]
    let limit : Selector := .group false [.step (.type .unstated "b"), .step (.type .unstated "p")]
    limit.eval d [.node 1] = .ok [.node 3, .node 2] ∧
      (Selector.before limit).eval d [.node 1] = .error .limitNotChild ∧
      (Selector.after limit).eval d [.node 1] = .error .limitNotChild := by
  intro d limit
  have hfound : limit.eval d [.node 1] = .ok [.node 3, .node 2] := by cbv
  have hchildren : (Place.node 1).children d = [.node 2] := by rfl
  have hfirst : ∃ q ∈ [Place.node 3, .node 2].head?, q ∉ (Place.node 1).children d :=
    ⟨.node 3, rfl, by simp [hchildren]⟩
  have hreported := limit_not_child_reported hfound
  exact ⟨hfound, (hreported.1 _).mpr ⟨rfl, hfirst⟩, (hreported.2.1 _).mpr ⟨rfl, hfirst⟩⟩

/-- A paragraph inside the first one is no child. A splitter is reported for it, but a limit is
found too early. -/
theorem nested_limit_unreported :
    let d : Document := .build [.element "div", .element "p", .leaf "p", .close, .close]
    let paragraphs : Selector := .group false [.step (.type .unstated "p")]
    paragraphs.eval d [.node 1] = .ok [.node 2, .node 3] ∧
      Place.node 3 ∉ (Place.node 1).children d ∧
      (Selector.before paragraphs).eval d [.node 1] = .ok [.region ⟨1, 0, 0, some .left⟩] ∧
      (Selector.split .before paragraphs).eval d [.node 1] = .error .splitterNotChild ∧
      ¬ ∀ (d : Document) (limit : Selector) (p : Place) (found : List Place),
        limit.eval d [p] = .ok found →
          ((Selector.before limit).eval d [p] = .error .limitNotChild ↔
            ∃ q ∈ found, q ∉ p.children d) := by
  intro d paragraphs
  have hfound : paragraphs.eval d [.node 1] = .ok [.node 2, .node 3] := by cbv
  have hchildren : (Place.node 1).children d = [.node 2] := by rfl
  have hnot : Place.node 3 ∉ (Place.node 1).children d := by simp [hchildren]
  have hbefore : (Selector.before paragraphs).eval d [.node 1] =
      .ok [.region ⟨1, 0, 0, some .left⟩] := by cbv
  have hsplit : (Selector.split .before paragraphs).eval d [.node 1] =
      .error .splitterNotChild := by cbv
  refine ⟨hfound, hnot, hbefore, hsplit, ?_⟩
  intro h
  have hreported := (h d paragraphs (.node 1) _ hfound).mpr ⟨.node 3, by simp, hnot⟩
  rw [hbefore] at hreported
  cases hreported

/-! ## Limits out of order -/

/-- The regions that two limit selectors delimit when they find children at `starts` and at `stops`
and `choose` takes one of several positions. -/
structure Place.Delimits [PatternEngine] (d : Document) (p : Place) (first last : Selector)
    (starts stops : List Nat) (choose : List Nat → Option Nat) : Prop where
  before : (Selector.before first).eval d [p] = .ok ((choose starts).map p.regionBefore).toList
  after : (Selector.after first).eval d [p] = .ok ((choose starts).map (p.regionAfter d)).toList
  between : (Selector.between first last).eval d [p] =
    .ok ((choose starts).bind fun i =>
      (choose (stops.filter (i ≤ ·))).map (p.regionBetween i)).toList

section Order

theorem head?_eq_min? {xs : List Nat} (h : xs.Pairwise (· ≤ ·)) : xs.head? = xs.min? := by
  cases xs with
  | nil => rfl
  | cons x xs =>
    symm
    apply List.min?_eq_some_iff.mpr
    refine ⟨List.mem_cons_self, ?_⟩
    intro y hy
    rcases List.mem_cons.mp hy with rfl | hy
    · exact Nat.le_refl y
    · exact (List.pairwise_cons.mp h).1 y hy

variable {d : Document} {p : Place}

theorem regionBefore_injective : Function.Injective p.regionBefore := by
  intro i j h
  simp only [Place.regionBefore_eq, Place.regionOf_eq, Run.before] at h
  simp at h
  exact h

/-- The region between two limits depends on the second one only if it stands behind the first. -/
theorem map_regionBetween_eq_iff {i : Nat} {a b : Option Nat} :
    a.map (p.regionBetween i) = b.map (p.regionBetween i) ↔
      a.map (max · (i + 1)) = b.map (max · (i + 1)) := by
  have hregion : p.regionBetween i =
      (fun stop => .region ⟨p.host, p.offset + (i + 1), p.offset + stop, none⟩) ∘
        (max · (i + 1)) := by
    funext j
    exact p.regionOf_eq (Run.between i j) none
  have hinjective : Function.Injective fun stop =>
      Place.region ⟨p.host, p.offset + (i + 1), p.offset + stop, none⟩ := by
    intro m n h
    simp at h
    exact h
  rw [hregion, ← Option.map_map, ← Option.map_map]
  exact (Option.map_injective hinjective).eq_iff

variable [PatternEngine] {first last : Selector} {found found' : List Place}
  {starts stops : List Nat}

theorem Place.delimits_head? (hfirst : first.eval d [p] = .ok found)
    (hstarts : starts.map ((p.children d)[·]?) = found.map some)
    (hlast : last.eval d [p] = .ok found')
    (hstops : stops.map ((p.children d)[·]?) = found'.map some) :
    p.Delimits d first last starts stops List.head? := by
  have hstart : p.limitOf d 0 found = .ok starts.head? := by
    rw [limitOf, limitFrom_ok (p.nodup_children d) hstarts, List.filter_eq_self.mpr (by simp)]
  have hstop : ∀ i, p.limitOf d i found' = .ok (stops.filter (i ≤ ·)).head? :=
    fun i => limitFrom_ok (p.nodup_children d) hstops
  obtain ⟨hbefore, hafter⟩ := eval_limit_of_ok hfirst hstart
  refine ⟨hbefore, hafter, ?_⟩
  rw [eval_between_singleton, hfirst]
  show p.limitOf d 0 found >>= _ = _
  rw [hstart]
  cases starts.head? with
  | none => rfl
  | some i =>
    show last.eval d [p] >>= _ = _
    rw [hlast]
    show p.limitOf d i found' >>= _ = _
    rw [hstop]
    rfl

/-- The earliest positions delimit the same regions as the first ones just where they are the same,
apart from second limits that leave nothing between. -/
theorem Place.delimits_min?_iff (h : p.Delimits d first last starts stops List.head?) :
    p.Delimits d first last starts stops List.min? ↔
      starts.head? = starts.min? ∧ ∀ i ∈ starts.head?,
        (stops.filter (i ≤ ·)).head?.map (max · (i + 1)) =
          (stops.filter (i ≤ ·)).min?.map (max · (i + 1)) := by
  constructor
  · intro hmin
    have hbefore := toList_injective (Except.ok.inj (h.before.symm.trans hmin.before))
    have hstarts := Option.map_injective regionBefore_injective hbefore
    refine ⟨hstarts, ?_⟩
    intro i hi
    have hi' : starts.head? = some i := hi
    have hbetween := toList_injective (Except.ok.inj (h.between.symm.trans hmin.between))
    rw [← hstarts, hi'] at hbetween
    exact map_regionBetween_eq_iff.mp hbetween
  · intro hsame
    obtain ⟨hstarts, hstops⟩ := hsame
    refine ⟨?_, ?_, ?_⟩
    · rw [← hstarts]
      exact h.before
    · rw [← hstarts]
      exact h.after
    · rw [h.between, ← hstarts]
      cases hi : starts.head? with
      | none => rfl
      | some i =>
        rw [Option.bind_some, Option.bind_some, map_regionBetween_eq_iff.mpr (hstops i hi)]

/-- Among the children that the limit selectors find, the one that was found first decides, and for
the second limit the first one found that is not before it. This is the earliest child just where
it comes to the same, and so wherever the selectors find children in order. -/
theorem limits_in_order_found (hfirst : first.eval d [p] = .ok found)
    (hfound : ∀ q ∈ found, q ∈ p.children d) (hlast : last.eval d [p] = .ok found')
    (hfound' : ∀ q ∈ found', q ∈ p.children d) :
    ∃ starts stops : List Nat,
      starts.map ((p.children d)[·]?) = found.map some ∧
      stops.map ((p.children d)[·]?) = found'.map some ∧
      p.Delimits d first last starts stops List.head? ∧
      (∀ i ∈ starts, (p.regionBefore i).children d = (p.children d).take i ∧
        (p.regionAfter d i).children d = (p.children d).drop (i + 1) ∧
        ∀ j ∈ stops, i ≤ j →
          (p.regionBetween i j).children d = ((p.children d).take j).drop (i + 1)) ∧
      (p.Delimits d first last starts stops List.min? ↔
        starts.head? = starts.min? ∧ ∀ i ∈ starts.head?,
          (stops.filter (i ≤ ·)).head?.map (max · (i + 1)) =
            (stops.filter (i ≤ ·)).min?.map (max · (i + 1))) ∧
      (starts.Pairwise (· ≤ ·) → stops.Pairwise (· ≤ ·) →
        p.Delimits d first last starts stops List.min?) := by
  obtain ⟨starts, hstarts⟩ := exists_positions hfound
  obtain ⟨stops, hstops⟩ := exists_positions hfound'
  have hhead := Place.delimits_head? hfirst hstarts hlast hstops
  have hiff := Place.delimits_min?_iff hhead
  refine ⟨starts, stops, hstarts, hstops, hhead, ?_, hiff, ?_⟩
  · intro i hi
    have hi' := lt_length_of_position hstarts hi
    refine ⟨children_regionBefore hi', children_regionAfter hi', ?_⟩
    intro j hj hij
    exact children_regionBetween hij (lt_length_of_position hstops hj)
  · intro hsorted hsorted'
    apply hiff.mpr
    refine ⟨head?_eq_min? hsorted, ?_⟩
    intro i _
    rw [head?_eq_min? (hsorted'.filter _)]

end Order

/-- The second child decides, since it was found first. -/
theorem limits_in_order_found_reversed :
    let d : Document := .build [.element "div", .leaf "a", .leaf "b", .close]
    let named (first second : String) : Selector :=
      .group false [.step (.type .unstated first), .step (.type .unstated second)]
    (named "b" "a").eval d [.node 1] = .ok [.node 3, .node 2] ∧
      (named "a" "b").eval d [.node 1] = .ok [.node 2, .node 3] ∧
      ∃ starts stops : List Nat,
        starts.map (((Place.node 1).children d)[·]?) = [some (.node 3), some (.node 2)] ∧
        stops.map (((Place.node 1).children d)[·]?) = [some (.node 2), some (.node 3)] ∧
        (Place.node 1).Delimits d (named "b" "a") (named "a" "b") starts stops List.head? := by
  intro d named
  have hfirst : (named "b" "a").eval d [.node 1] = .ok [.node 3, .node 2] := by cbv
  have hlast : (named "a" "b").eval d [.node 1] = .ok [.node 2, .node 3] := by cbv
  have hchildren : (Place.node 1).children d = [.node 2, .node 3] := by rfl
  obtain ⟨starts, stops, hstarts, hstops, hdelimits, -⟩ :=
    limits_in_order_found hfirst (by simp [hchildren]) hlast (by simp [hchildren])
  exact ⟨hfirst, hlast, starts, stops, hstarts, hstops, hdelimits⟩

/-- What was found earlier counts more than what stands earlier, and so the order of alternatives
counts as well. -/
theorem earliest_limit_overlooked :
    let d : Document := .build [.element "div", .leaf "a", .leaf "b", .close]
    let a : Selector := .step (.type .unstated "a")
    let b : Selector := .step (.type .unstated "b")
    (Selector.group false [b, a]).eval d [.node 1] = .ok [.node 3, .node 2] ∧
      (Place.node 1).children d = [.node 2, .node 3] ∧
      (Selector.before (.group false [b, a])).eval d [.node 1] =
        .ok [.region ⟨1, 0, 1, some .left⟩] ∧
      (Selector.before (.group false [a, b])).eval d [.node 1] =
        .ok [.region ⟨1, 0, 0, some .left⟩] ∧
      ¬ ∀ (d : Document) (p : Place) (limit : Selector) (found : List Place)
          (positions : List Nat), limit.eval d [p] = .ok found →
            positions.map ((p.children d)[·]?) = found.map some →
            (Selector.before limit).eval d [p] =
              .ok (positions.min?.map p.regionBefore).toList := by
  intro d a b
  have hfound : (Selector.group false [b, a]).eval d [.node 1] = .ok [.node 3, .node 2] := by cbv
  have hlate : (Selector.before (.group false [b, a])).eval d [.node 1] =
      .ok [.region ⟨1, 0, 1, some .left⟩] := by cbv
  have hearly : (Selector.before (.group false [a, b])).eval d [.node 1] =
      .ok [.region ⟨1, 0, 0, some .left⟩] := by cbv
  refine ⟨hfound, by rfl, hlate, hearly, ?_⟩
  intro h
  have hmin := h d (.node 1) _ _ [1, 0] hfound (by rfl)
  rw [hlate] at hmin
  cases hmin

end TreeQuery
