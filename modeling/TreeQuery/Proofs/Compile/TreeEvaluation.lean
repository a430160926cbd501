import TreeQuery.Proofs.Selector.Evaluation
import TreeQuery.Proofs.Selector.Repetition

/-!
# Evaluation of syntax trees

A syntax tree is evaluated by recursion: the stages of an alternative from left to right, the
alternatives one after another, and nested groups as the pseudo-classes around them call them. The
selector of a tree is evaluated to the same.
-/

set_option autoImplicit false

namespace TreeQuery

/-! ## Pseudo-classes over nested groups -/

section Calls

variable (d : Document)

/-- What a pseudo-class over one nested group makes of a working set. A negation calls the group on
the whole set, the others call it on each member alone. -/
def GroupPseudo.eval (call : List Place → Except SelectorError (List Place)) (xs : List Place) :
    (pseudo : GroupPseudo) → pseudo ≠ .between → Except SelectorError (List Place)
  | .has, _ => xs.filterM fun x => do return !(← call [x]).isEmpty
  | .not, _ => do
    let ys ← call xs
    return xs.filter fun x => x ∉ ys
  | .split mode, _ => do
    let regions ← xs.mapM fun x => do x.splitAt d mode (← call [x])
    return regions.flatten
  | .before, _ => do
    let regions ← xs.mapM fun x => do return (← x.limitOf d 0 (← call [x])).map x.regionBefore
    return regions.reduceOption
  | .after, _ => do
    let regions ← xs.mapM fun x => do return (← x.limitOf d 0 (← call [x])).map (x.regionAfter d)
    return regions.reduceOption
  | .between, h => absurd rfl h

/-- The last limit is looked for only where the first one has been found. -/
def evalBetween (first last : List Place → Except SelectorError (List Place)) (xs : List Place) :
    Except SelectorError (List Place) := do
  let regions ← xs.mapM fun x => do
    match ← x.limitOf d 0 (← first [x]) with
    | none => return none
    | some start => return (← x.limitOf d start (← last [x])).map (x.regionBetween start)
  return regions.reduceOption

theorem ofExcept_eq {α : Type} (x : Except SelectorError α) :
    (MonadExcept.ofExcept x : Except SelectorError α) = x := by
  cases x <;> rfl

theorem delimited_eq (region : Place → Nat → Place)
    (limit : List Place → Except SelectorError (List Place)) :
    Place.delimited d region limit = fun x => do
      return (← x.limitOf d 0 (← limit [x])).map (region x) := by
  funext x
  simp only [Place.delimited, ofExcept_eq]

theorem delimitedTwice_eq (region : Place → Nat → Nat → Place)
    (first last : List Place → Except SelectorError (List Place)) :
    Place.delimitedTwice d region first last = fun x => do
      match ← x.limitOf d 0 (← first [x]) with
      | none => return none
      | some start => return (← x.limitOf d start (← last [x])).map (region x start) := by
  funext x
  refine bind_congr fun found => ?_
  rw [ofExcept_eq]
  refine bind_congr fun start? => ?_
  cases start? with
  | none => rfl
  | some start => exact bind_congr fun found => congrArg (· >>= _) (ofExcept_eq _)

theorem without_eq (xs excluded : List Place) :
    without xs excluded = xs.filter fun x => x ∉ excluded := by
  unfold without
  refine List.filter_congr fun x _ => ?_
  simp

theorem except_bind_ok {α β : Type} {x : Except SelectorError α} {f : α → Except SelectorError β}
    {b : β} (h : x >>= f = .ok b) : ∃ a, x = .ok a ∧ f a = .ok b := by
  cases x with
  | error e => cases h
  | ok a => exact ⟨a, rfl, h⟩

theorem foldl_firstOccurrences_eq (xs before : List Place) (seen : Std.HashSet Place)
    (h : ∀ p, seen.contains p = true ↔ p ∈ before) :
    (xs.foldl
      (fun (seen, kept) x =>
        if seen.contains x then (seen, kept) else (seen.insert x, kept.push x))
      (seen, before.eraseDups.toArray)).2.toList = (before ++ xs).eraseDups := by
  induction xs generalizing before seen with
  | nil => simp
  | cons x xs ih =>
    have hnext : before ++ x :: xs = before ++ [x] ++ xs := by simp
    rw [List.foldl_cons, hnext]
    by_cases hx : x ∈ before
    · have hkept : (before ++ [x]).eraseDups = before.eraseDups := by
        rw [eraseDups_concat, if_pos hx]
      have hseen : ∀ p, seen.contains p = true ↔ p ∈ before ++ [x] := by
        intro p
        rw [h p, List.mem_append, List.mem_singleton]
        refine ⟨.inl, ?_⟩
        rintro (hp | rfl)
        · exact hp
        · exact hx
      rw [← ih _ _ hseen, hkept]
      simp only [(h x).mpr hx, if_true]
    · have hkept : (before ++ [x]).eraseDups = before.eraseDups ++ [x] := by
        rw [eraseDups_concat, if_neg hx]
      have hseen : ∀ p, (seen.insert x).contains p = true ↔ p ∈ before ++ [x] := by
        intro p
        rw [Std.HashSet.contains_insert, Bool.or_eq_true, beq_iff_eq, h p, List.mem_append,
          List.mem_singleton, or_comm, eq_comm]
      rw [← ih _ _ hseen, hkept]
      simp only [mt (h x).mp hx, Bool.false_eq_true, if_false, List.push_toArray]

theorem firstOccurrences_eq (xs : List Place) : firstOccurrences xs = xs.eraseDups :=
  foldl_firstOccurrences_eq xs [] ∅ (by simp)

variable [PatternEngine]

theorem eval_groupedSelector {pseudo : GroupPseudo} (single : pseudo ≠ .between) (s : Selector) :
    ∃ t, Compiler.groupedSelector pseudo [s] = some t ∧
      ∀ xs, t.eval d xs = pseudo.eval d (s.eval d) xs single := by
  cases pseudo with
  | has => exact ⟨_, rfl, fun xs => rfl⟩
  | not =>
    refine ⟨_, rfl, fun xs => ?_⟩
    rw [Selector.eval_not, map_eq_pure_bind]
    simp only [without_eq]
    rfl
  | split mode =>
    refine ⟨_, rfl, fun xs => ?_⟩
    simp only [Selector.eval, Selector.evalWith, ofExcept_eq]
    rfl
  | before =>
    refine ⟨_, rfl, fun xs => ?_⟩
    simp only [Selector.eval, Selector.evalWith, delimited_eq]
    rfl
  | after =>
    refine ⟨_, rfl, fun xs => ?_⟩
    simp only [Selector.eval, Selector.evalWith, delimited_eq]
    rfl
  | between => exact absurd rfl single

theorem eval_of_groupedSelector {pseudo : GroupPseudo} (single : pseudo ≠ .between)
    {s t : Selector} (ht : Compiler.groupedSelector pseudo [s] = some t) (xs : List Place) :
    t.eval d xs = pseudo.eval d (s.eval d) xs single := by
  obtain ⟨u, hu, heval⟩ := eval_groupedSelector d single s
  obtain rfl := Option.some.inj (hu.symm.trans ht)
  exact heval xs

theorem eval_between (s t : Selector) (xs : List Place) :
    (Selector.between s t).eval d xs = evalBetween d (s.eval d) (t.eval d) xs := by
  have hregions : (Selector.between s t).eval d xs = (do
      let regions ← xs.mapM
        (Place.delimitedTwice d Place.regionBetween (s.eval d) (t.eval d))
      return regions.reduceOption) := rfl
  rw [hregions, delimitedTwice_eq]
  rfl

end Calls

variable [PatternEngine]

/-! ## Trees -/

def ArgumentTree.value : ArgumentTree → CustomArgument GroupTree
  | string text => .string text
  | integer value => .integer value
  | group g => .subSelector g

section Trees

variable (d : Document) (registry : Registry Place)

mutual

def ModifierTree.eval : ModifierTree → List Place → Except SelectorError (List Place)
  | .test test, xs => do return (← test.step).apply d xs
  | .grouped pseudo single argument, xs =>
    pseudo.eval d (argument.eval pseudo.anchorsArgument) xs single
  | .between start stop, xs => evalBetween d (start.eval false) (stop.eval false) xs
  | .custom name arguments, xs =>
    match registry.find? name with
    | none => throw (.unknownPseudo name)
    | some c =>
      match Arguments.ofList? 0 c.types (arguments.map ArgumentTree.value) with
      | none => throw (.argumentTypes name c.types (arguments.map (·.value.type)))
      | some values => (c.apply values xs).run fun i ys =>
        match (ArgumentTree.calls arguments)[i]? with
        | some call => call ys
        | none => return []

def ModifierTree.listEval : List ModifierTree → List Place → Except SelectorError (List Place)
  | [], xs => return xs
  | m :: ms, xs => do ModifierTree.listEval ms (← m.eval xs)

/-- The arguments of a custom selector that are groups, in their order, as it can call them. -/
def ArgumentTree.calls : List ArgumentTree → List (List Place → Except SelectorError (List Place))
  | [] => []
  | a :: as => a.call?.toList ++ ArgumentTree.calls as

def ArgumentTree.call? : ArgumentTree → Option (List Place → Except SelectorError (List Place))
  | .group g => some (g.eval false)
  | _ => none

def CompoundTree.eval : CompoundTree → List Place → Except SelectorError (List Place)
  | .mk head modifiers, xs => ModifierTree.listEval modifiers (head.step.apply d xs)

def AlternativeTree.eval : AlternativeTree → List Place → Except SelectorError (List Place)
  | .last c, xs => c.eval xs
  | .link c k rest, xs => do rest.eval ((Step.combinator k).apply d (← c.eval xs))

def AlternativeTree.listEval :
    List AlternativeTree → List Place → Except SelectorError (List Place)
  | [], _ => return []
  | a :: as, xs => do
    let ys ← a.eval xs
    return ys ++ (← AlternativeTree.listEval as xs)

def GroupTree.eval (anchored : Bool) : GroupTree → List Place → Except SelectorError (List Place)
  | .mk slashed alternatives, xs => do
    let base := if anchored || slashed then xs else xs.flatMap (Place.descendants d)
    return (← AlternativeTree.listEval alternatives base).eraseDups

end

end Trees

/-! ## Custom selectors -/

theorem length_selectors {registry : Registry Place} {as : List ArgumentTree}
    {nested : List Selector} (h : ArgumentTree.selectors registry as = .ok nested) :
    nested.length = (as.map ArgumentTree.argument).count .group := by
  induction as generalizing nested with
  | nil =>
    cases h
    rfl
  | cons a as ih =>
    obtain ⟨first, hfirst, h⟩ := except_bind_ok h
    obtain ⟨more, hmore, h⟩ := except_bind_ok h
    cases h
    rw [List.length_append, ih hmore]
    cases a with
    | string text =>
      cases hfirst
      simp [ArgumentTree.argument]
    | integer value =>
      cases hfirst
      simp [ArgumentTree.argument]
    | group g =>
      rw [ArgumentTree.nested] at hfirst
      obtain ⟨s, -, hs⟩ := except_bind_ok hfirst
      cases hs
      simp [ArgumentTree.argument, Nat.add_comm]

section Arguments

variable {as : List ArgumentTree} {nested : List Selector}

/-- The values of arguments are told from their types alone, whatever stands for the groups. -/
theorem ofList?_customArguments
    (h : nested.length = (as.map ArgumentTree.argument).count .group) (next : Nat)
    (types : List ArgumentType) :
    Arguments.ofList? next types
        (Compiler.customArguments (as.map ArgumentTree.argument) nested) =
      Arguments.ofList? next types (as.map ArgumentTree.value) := by
  induction as generalizing nested next types with
  | nil => cases types with
    | nil => rfl
    | cons type types => cases type <;> rfl
  | cons a as ih =>
    cases a with
    | string text =>
      have hmore := @ih nested (by simpa [ArgumentTree.argument] using h)
      cases types with
      | nil => rfl
      | cons type types =>
        cases type with
        | string => exact congrArg (Option.map _) (hmore next types)
        | _ => rfl
    | integer value =>
      have hmore := @ih nested (by simpa [ArgumentTree.argument] using h)
      cases types with
      | nil => rfl
      | cons type types =>
        cases type with
        | integer => exact congrArg (Option.map _) (hmore next types)
        | _ => rfl
    | group g =>
      cases nested with
      | nil => simp [ArgumentTree.argument] at h
      | cons s nested =>
        have hmore := @ih nested (by simpa [ArgumentTree.argument] using h)
        cases types with
        | nil => rfl
        | cons type types =>
          cases type with
          | subSelector => exact congrArg (Option.map _) (hmore (next + 1) types)
          | _ => rfl

theorem selectors_customArguments
    (h : nested.length = (as.map ArgumentTree.argument).count .group) :
    (Compiler.customArguments (as.map ArgumentTree.argument) nested).filterMap (·.selector?) =
      nested := by
  induction as generalizing nested with
  | nil => exact (List.eq_nil_of_length_eq_zero h).symm
  | cons a as ih =>
    cases a with
    | string text => exact ih (by simpa [ArgumentTree.argument] using h)
    | integer value => exact ih (by simpa [ArgumentTree.argument] using h)
    | group g =>
      cases nested with
      | nil => simp [ArgumentTree.argument] at h
      | cons s nested =>
        exact congrArg (s :: ·) (ih (by simpa [ArgumentTree.argument] using h))

end Arguments

/-! ## Selectors of trees -/

theorem evalStages_singleton (d : Document) (s : Selector) (xs : List Place) :
    Selector.evalStages d [s] xs = s.eval d xs := by
  show s.eval d xs >>= Pure.pure = _
  rw [bind_pure]

def groupBase (d : Document) (anchored : Bool) (xs : List Place) : List Place :=
  if anchored then xs else xs.flatMap (Place.descendants d)

/-- A group with one alternative. -/
theorem Selector.eval_group_single (d : Document) (anchored : Bool) (s : Selector)
    (xs : List Place) : (Selector.group anchored [s]).eval d xs =
      List.eraseDups <$> s.eval d (groupBase d anchored xs) := by
  rw [Selector.eval_group, Selector.evalAlternatives_cons]
  simp only [Selector.evalAlternatives, Selector.evalEach, firstOccurrences_eq, map_eq_pure_bind,
    bind_assoc, pure_bind, List.append_nil, groupBase]

theorem evalNth_eq (d : Document) (selectors : List Selector) (i : Nat) (xs : List Place) :
    Selector.evalNth d (fun step xs => (step.keyed d).stage xs) selectors i xs =
      match (selectors.map (Selector.eval d))[i]? with
      | some call => call xs
      | none => return [] := by
  induction selectors generalizing i with
  | nil => rfl
  | cons s selectors ih =>
    cases i with
    | zero => rfl
    | succ i => exact ih i

theorem CompoundTree.stages_ne_nil {registry : Registry Place} {c : CompoundTree}
    {stages : List Selector} (h : c.stages registry = .ok stages) : stages ≠ [] := by
  cases c with
  | mk head modifiers =>
    rw [CompoundTree.stages] at h
    obtain ⟨more, -, h⟩ := except_bind_ok h
    cases h
    exact List.cons_ne_nil _ _

theorem AlternativeTree.stages_ne_nil {registry : Registry Place} {a : AlternativeTree}
    {stages : List Selector} (h : a.stages registry = .ok stages) : stages ≠ [] := by
  cases a with
  | last c => exact c.stages_ne_nil h
  | link c k rest =>
    rw [AlternativeTree.stages] at h
    obtain ⟨first, -, h⟩ := except_bind_ok h
    obtain ⟨more, -, h⟩ := except_bind_ok h
    cases h
    exact List.append_ne_nil_of_right_ne_nil _ (List.cons_ne_nil _ _)

theorem AlternativeTree.exists_chain {registry : Registry Place} {a : AlternativeTree}
    {stages : List Selector} (h : a.stages registry = .ok stages) :
    ∃ s, Selector.chain? stages = some s := by
  cases stages with
  | nil => exact absurd rfl (a.stages_ne_nil h)
  | cons s stages => exact ⟨_, rfl⟩

section Agreement

variable {d : Document} {registry : Registry Place}

mutual

theorem modifier_eval : ∀ (m : ModifierTree) {stages : List Selector},
    m.stages registry = .ok stages → ∀ xs : List Place,
      Selector.evalStages d stages xs = m.eval d registry xs
  | .test test, stages, h, xs => by
    rw [ModifierTree.stages] at h
    obtain ⟨step, hstep, h⟩ := except_bind_ok h
    cases h
    rw [ModifierTree.eval, hstep, evalStages_singleton]
    rfl
  | .grouped pseudo single argument, stages, h, xs => by
    rw [ModifierTree.stages] at h
    obtain ⟨s, hs, h⟩ := except_bind_ok h
    obtain ⟨t, ht, heval⟩ := eval_groupedSelector d single s
    rw [ht] at h
    cases h
    have hcall : s.eval d = argument.eval d registry pseudo.anchorsArgument :=
      funext (group_eval argument hs)
    rw [ModifierTree.eval, Option.toList_some, evalStages_singleton, heval, hcall]
  | .between start stop, stages, h, xs => by
    rw [ModifierTree.stages] at h
    obtain ⟨s, hs, h⟩ := except_bind_ok h
    obtain ⟨t, ht, h⟩ := except_bind_ok h
    cases h
    have hstart : s.eval d = start.eval d registry false := funext (group_eval start hs)
    have hstop : t.eval d = stop.eval d registry false := funext (group_eval stop ht)
    rw [ModifierTree.eval, evalStages_singleton, eval_between, hstart, hstop]
  | .custom name arguments, stages, h, xs => by
    rw [ModifierTree.stages] at h
    obtain ⟨nested, hnested, h⟩ := except_bind_ok h
    have hlength := length_selectors hnested
    rw [ModifierTree.eval]
    cases hfind : registry.find? name with
    | none =>
      rw [hfind] at h
      cases h
    | some c =>
      rw [hfind] at h
      obtain ⟨s, hs, h⟩ := except_bind_ok h
      cases h
      rw [CustomSelector.invoke, ofList?_customArguments hlength,
        selectors_customArguments hlength] at hs
      dsimp only
      split at hs
      · next values hvalues =>
        cases hs
        rw [hvalues, evalStages_singleton]
        dsimp only
        rw [← arguments_eval arguments hnested]
        have hanswer : Selector.evalNth d (fun step xs => (step.keyed d).stage xs) nested = _ :=
          funext fun i => funext fun ys => evalNth_eq d nested i ys
        exact congrArg (fun answer => (c.apply values xs).run answer) hanswer
      · cases hs

theorem modifiers_eval : ∀ (ms : List ModifierTree) {stages : List Selector},
    ModifierTree.listStages registry ms = .ok stages → ∀ xs : List Place,
      Selector.evalStages d stages xs = ModifierTree.listEval d registry ms xs
  | [], stages, h, xs => by
    cases h
    rfl
  | m :: ms, stages, h, xs => by
    rw [ModifierTree.listStages] at h
    obtain ⟨first, hfirst, h⟩ := except_bind_ok h
    obtain ⟨more, hmore, h⟩ := except_bind_ok h
    cases h
    rw [Selector.evalStages_append, modifier_eval m hfirst, ModifierTree.listEval]
    exact bind_congr fun ys => modifiers_eval ms hmore ys

theorem arguments_eval : ∀ (as : List ArgumentTree) {nested : List Selector},
    ArgumentTree.selectors registry as = .ok nested →
      nested.map (Selector.eval d) = ArgumentTree.calls d registry as
  | [], nested, h => by
    cases h
    rfl
  | a :: as, nested, h => by
    rw [ArgumentTree.selectors] at h
    obtain ⟨first, hfirst, h⟩ := except_bind_ok h
    obtain ⟨more, hmore, h⟩ := except_bind_ok h
    cases h
    rw [List.map_append, argument_eval a hfirst, arguments_eval as hmore, ArgumentTree.calls]

theorem argument_eval : ∀ (a : ArgumentTree) {nested : List Selector},
    a.nested registry = .ok nested →
      nested.map (Selector.eval d) = (a.call? d registry).toList
  | .string text, nested, h => by
    cases h
    rfl
  | .integer value, nested, h => by
    cases h
    rfl
  | .group g, nested, h => by
    rw [ArgumentTree.nested] at h
    obtain ⟨s, hs, h⟩ := except_bind_ok h
    cases h
    have hcall : s.eval d = g.eval d registry false := funext (group_eval g hs)
    rw [List.map_singleton, hcall]
    rfl

theorem compound_eval : ∀ (c : CompoundTree) {stages : List Selector},
    c.stages registry = .ok stages → ∀ xs : List Place,
      Selector.evalStages d stages xs = c.eval d registry xs
  | .mk head modifiers, stages, h, xs => by
    rw [CompoundTree.stages] at h
    obtain ⟨more, hmore, h⟩ := except_bind_ok h
    cases h
    rw [CompoundTree.eval, ← modifiers_eval modifiers hmore]
    rfl

theorem alternative_eval : ∀ (a : AlternativeTree) {stages : List Selector},
    a.stages registry = .ok stages → ∀ xs : List Place,
      Selector.evalStages d stages xs = a.eval d registry xs
  | .last c, stages, h, xs => by
    rw [AlternativeTree.eval]
    exact compound_eval c h xs
  | .link c k rest, stages, h, xs => by
    rw [AlternativeTree.stages] at h
    obtain ⟨first, hfirst, h⟩ := except_bind_ok h
    obtain ⟨more, hmore, h⟩ := except_bind_ok h
    cases h
    rw [Selector.evalStages_append, compound_eval c hfirst, AlternativeTree.eval]
    exact bind_congr fun ys => alternative_eval rest hmore _

theorem alternatives_eval : ∀ (as : List AlternativeTree) {stages : List (List Selector)},
    AlternativeTree.listStages registry as = .ok stages → ∀ xs : List Place,
      Selector.evalAlternatives d (stages.filterMap Selector.chain?) xs =
        AlternativeTree.listEval d registry as xs
  | [], stages, h, xs => by
    cases h
    rfl
  | a :: as, stages, h, xs => by
    rw [AlternativeTree.listStages] at h
    obtain ⟨first, hfirst, h⟩ := except_bind_ok h
    obtain ⟨more, hmore, h⟩ := except_bind_ok h
    cases h
    obtain ⟨s, hs⟩ := a.exists_chain hfirst
    rw [List.filterMap_cons_some hs, Selector.evalAlternatives_cons, Selector.eval_chain d hs,
      alternative_eval a hfirst, alternatives_eval as hmore, AlternativeTree.listEval]

theorem group_eval : ∀ (g : GroupTree) {anchored : Bool} {s : Selector},
    g.selector registry anchored = .ok s → ∀ xs : List Place,
      s.eval d xs = g.eval d registry anchored xs
  | .mk slashed alternatives, anchored, s, h, xs => by
    rw [GroupTree.selector] at h
    obtain ⟨stages, hstages, h⟩ := except_bind_ok h
    cases h
    rw [Selector.eval_group, alternatives_eval alternatives hstages, GroupTree.eval,
      map_eq_pure_bind]
    simp only [firstOccurrences_eq]

end

end Agreement

end TreeQuery
