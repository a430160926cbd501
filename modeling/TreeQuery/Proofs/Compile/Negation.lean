import TreeQuery.Document.Builder
import TreeQuery.Pattern.OfText
import TreeQuery.Proofs.Compile.Nesting
import TreeQuery.Proofs.Selector.Repetition

/-!
# Negation

A negation calls its argument on the whole working set, and drops the places that the argument
gives. Its argument is anchored, so that a negation of a negation is one on the same working set,
and keeps what the inner one drops.
-/

set_option autoImplicit false

namespace TreeQuery

/-! ## Texts that start with a pseudo-class -/

def GroupTree.bare (m : ModifierTree) : GroupTree :=
  .mk false [.last (.mk .implied [m])]

theorem GroupTree.Spells.bare {sig : String → Option (List ArgumentType)} {g : GroupTree}
    {s : String} (h : g.Spells sig s) {pseudo : GroupPseudo} (single : pseudo ≠ .between) :
    (GroupTree.bare (.grouped pseudo single g)).Spells sig
      (":" ++ pseudo.name ++ "(" ++ s ++ ")") := by
  obtain ⟨tokens, htokens, hg⟩ := h
  have hend : Token.SequenceScan true [] [] [.endOfInput] := .nil
  obtain ⟨blank, hblank, hscan, -⟩ := (tokenize_iff.mp htokens).nested (k := .rightParen)
    (by decide) (x := ')') rfl hend
  have hrun := hscan.call pseudo.name_chars.1 pseudo.name_chars.2 false
  rw [String.ofList_toList] at hrun
  have hcall : FunctionCall pseudo.name (beforeEnd tokens) (.ofKind .colon ::
      ⟨.function, pseudo.name⟩ :: (blank ++ beforeEnd tokens ++ [.ofKind .rightParen])) :=
    .mk rfl rfl rfl hblank rfl
  exact .of_scan (by simpa using hrun) (GroupTree.written_single .implied (.grouped hg hcall))

section Engine

variable [PatternEngine]

/-! ## Evaluation -/

/-- What stands in a negation when the argument of its negation has these alternatives. -/
def Selector.negated (alternatives : List Selector) : Selector :=
  .group true [.andThen (.step (.universal .unstated)) (.not (.group true alternatives))]

section Evaluation

variable {d : Document} {xs ys : List Place}

theorem Selector.eval_not_ok {s : Selector} (h : s.eval d xs = .ok ys) :
    (Selector.not s).eval d xs = .ok (xs.filter fun x => x ∉ ys) := by
  rw [Selector.eval_not, h, ← without_eq]
  rfl

theorem Selector.eval_not_error {s : Selector} {e : SelectorError} (h : s.eval d xs = .error e) :
    (Selector.not s).eval d xs = .error e := by
  rw [Selector.eval_not, h]
  rfl

/-- On elements, a star in front of a negation changes nothing. -/
theorem Selector.eval_negated (alternatives : List Selector)
    (hxs : ∀ x ∈ xs, x.isElement d = true) : (Selector.negated alternatives).eval d xs =
      List.eraseDups <$> (Selector.not (.group true alternatives)).eval d xs := by
  rw [Selector.negated, Selector.eval_group_single, Selector.eval_andThen, Selector.eval_step]
  show List.eraseDups <$> ((Selector.not (.group true alternatives)).eval d
    ((Step.universal .unstated).apply d xs)) = _
  rw [Step.universal_elements hxs]

theorem Selector.eval_not_negated {alternatives : List Selector}
    (hxs : ∀ x ∈ xs, x.isElement d = true)
    (h : (Selector.group true alternatives).eval d xs = .ok ys) :
    (Selector.not (.negated alternatives)).eval d xs = .ok (xs.filter fun x => x ∈ ys) := by
  have hinner : (Selector.negated alternatives).eval d xs =
      .ok (xs.filter fun x => x ∉ ys).eraseDups := by
    rw [Selector.eval_negated alternatives hxs, Selector.eval_not_ok h]
    rfl
  rw [Selector.eval_not_ok hinner]
  congr 1
  refine List.filter_congr fun x hx => ?_
  simp [hx]

end Evaluation

/-! ## Compounds of element tests -/

/-- The step tests each place on its own. -/
def Step.elementwise : Step → Bool
  | id _ | index _ | combinator _ | plain .last | plain .selectParent => false
  | _ => true

section Elementwise

variable (d : Document)

theorem Step.exists_filter {t : Step} (h : t.elementwise = true) :
    ∃ p : Place → Bool, ∀ xs, t.apply d xs = xs.filter p := by
  cases t with
  | universal ns =>
    cases hns : ns.isNamed with
    | true => exact ⟨fun _ => false, fun xs => by simp [Step.apply, hns]⟩
    | false => exact ⟨_, fun xs => by rw [Step.apply, hns]; rfl⟩
  | plain pseudo =>
    cases pseudo with
    | last | selectParent => cases h
    | _ => exact ⟨_, fun xs => rfl⟩
  | id _ | index _ | combinator _ => cases h
  | _ => exact ⟨_, fun xs => rfl⟩

/-- Element tests one after another are a single test. -/
theorem Selector.exists_filter {steps : List Step} (h : ∀ t ∈ steps, t.elementwise = true) :
    ∃ p : Place → Bool, ∀ xs,
      Selector.evalStages d (steps.map Selector.step) xs = .ok (xs.filter p) := by
  induction steps with
  | nil => exact ⟨fun _ => true, fun xs => by simp [Selector.evalStages]; rfl⟩
  | cons t steps ih =>
    obtain ⟨p, hp⟩ := Step.exists_filter d (h t List.mem_cons_self)
    obtain ⟨q, hq⟩ := ih fun u hu => h u (List.mem_cons_of_mem _ hu)
    refine ⟨fun x => q x && p x, fun xs => ?_⟩
    rw [← List.filter_filter, ← hp, ← hq]
    rfl

/-- A compound of element tests keeps some of the members of a list without repetitions. -/
theorem Selector.eval_elementwise {steps : List Step} (h : ∀ t ∈ steps, t.elementwise = true)
    {xs : List Place} (hxs : xs.Nodup) : ∃ p : Place → Bool,
      (Selector.group true (Selector.chain? (steps.map Selector.step)).toList).eval d xs =
        .ok (xs.filter p) := by
  cases hchain : Selector.chain? (steps.map Selector.step) with
  | none =>
    refine ⟨fun _ => false, ?_⟩
    rw [List.filter_false]
    rfl
  | some c =>
    obtain ⟨p, hp⟩ := Selector.exists_filter d h
    refine ⟨p, ?_⟩
    rw [Option.toList_some, Selector.eval_group_single, Selector.eval_chain d hchain, groupBase,
      if_pos rfl, hp]
    show Except.ok (xs.filter p).eraseDups = _
    rw [eraseDups_of_nodup (hxs.filter p)]

end Elementwise

/-! ## Texts -/

section Texts

variable {d : Document} {registry : Registry Place} {s : String} {sel : Selector}

/-- Compiling a text gives a group, and anchoring it from around keeps its alternatives. -/
theorem GroupTree.selector_eq_group {g : GroupTree} {anchored : Bool}
    (h : g.selector registry anchored = .ok sel) : ∃ slashed alternatives,
      sel = .group slashed alternatives ∧
        g.selector registry true = .ok (.group true alternatives) := by
  cases g with
  | mk slashed as =>
    rw [GroupTree.selector] at h ⊢
    obtain ⟨stages, hstages, h⟩ := except_bind_ok h
    cases h
    rw [hstages]
    exact ⟨_, _, rfl, rfl⟩

theorem ModifierTree.stages_not {g : GroupTree} {t : Selector}
    (h : g.selector registry true = .ok t) (single : GroupPseudo.not ≠ .between) :
    (ModifierTree.grouped .not single g).stages registry = .ok [.not t] := by
  rw [ModifierTree.stages]
  show (do let s ← g.selector registry true; return (Compiler.groupedSelector .not [s]).toList) = _
  rw [h]
  rfl

/-- What a text is negated to, once and twice: on a working set of elements and regions, the two
negations divide it among them, each in its order. The second one keeps the places that the text
gives when it starts from that working set, and is the text again if it tests each place on its
own. -/
theorem compile_negations (hs : d.compile registry s = .ok sel) :
    ∃ anchored alternatives, sel = .group anchored alternatives ∧
      d.compile registry (":not(" ++ s ++ ")") = .ok (.group false
        [.andThen (.step (.universal .unstated)) (.not (.group true alternatives))]) ∧
      d.compile registry (":not(:not(" ++ s ++ "))") = .ok (.group false
        [.andThen (.step (.universal .unstated)) (.not (.negated alternatives))]) ∧
      ∀ (d' : Document) (xs : List Place), (∀ x ∈ xs, x.isElement d' = true) →
        (∀ e, (Selector.group true alternatives).eval d' xs = .error e →
          (Selector.not (.group true alternatives)).eval d' xs = .error e ∧
          (Selector.not (.negated alternatives)).eval d' xs = .error e) ∧
        (∀ ys, (Selector.group true alternatives).eval d' xs = .ok ys →
          (Selector.not (.group true alternatives)).eval d' xs =
            .ok (xs.filter fun x => x ∉ ys) ∧
          (Selector.not (.negated alternatives)).eval d' xs = .ok (xs.filter fun x => x ∈ ys)) ∧
        ∀ steps : List Step, (∀ t ∈ steps, t.elementwise = true) →
          alternatives = (Selector.chain? (steps.map .step)).toList → xs.Nodup →
            (Selector.not (.negated alternatives)).eval d' xs =
              (Selector.group true alternatives).eval d' xs := by
  obtain ⟨g, hspells, hsel⟩ := Document.exists_spells hs
  obtain ⟨anchored, alternatives, rfl, harg⟩ := GroupTree.selector_eq_group hsel
  have single : GroupPseudo.not ≠ .between := by decide
  have hnot := ModifierTree.stages_not harg single
  have hnegated : (ModifierTree.grouped .not single
      (.bare (.grouped .not single g))).stages registry = .ok [.not (.negated alternatives)] :=
    ModifierTree.stages_not (GroupTree.selector_single hnot true) single
  refine ⟨anchored, alternatives, rfl, ?_, ?_, fun d' xs hxs => ⟨fun e he => ?_, fun ys hys => ?_,
    fun steps hsteps halternatives hnodup => ?_⟩⟩
  · exact (hspells.bare single).compile_eq.trans (GroupTree.selector_single hnot false)
  · have htext : ":not(:not(" ++ s ++ "))" = ":" ++ GroupPseudo.not.name ++ "(" ++
        (":" ++ GroupPseudo.not.name ++ "(" ++ s ++ ")") ++ ")" := by
      apply String.ext
      simp [GroupPseudo.name]
    rw [htext]
    exact ((hspells.bare single).bare single).compile_eq.trans
      (GroupTree.selector_single hnegated false)
  · have hinner := Selector.eval_not_error he
    refine ⟨hinner, Selector.eval_not_error ?_⟩
    rw [Selector.eval_negated alternatives hxs, hinner]
    rfl
  · exact ⟨Selector.eval_not_ok hys, Selector.eval_not_negated hxs hys⟩
  · obtain ⟨p, hp⟩ := Selector.eval_elementwise d' hsteps hnodup
    rw [← halternatives] at hp
    rw [Selector.eval_not_negated hxs hp, hp]
    congr 1
    refine List.filter_congr fun x hx => ?_
    simp [hx]

end Texts

end Engine

/-- A text that leaves its working set through a combinator and gives places in another order. -/
theorem compile_negations_mixed :
    let d : Document := .build [.element "div", .leaf "p", .leaf "q"]
    let alternatives : List Selector := [.andThen (.andThen (.step (.type .unstated "div"))
      (.step (.combinator .child))) (.step (.type .unstated "p")), .step (.type .unstated "q")]
    d.compile {} "div>p,q" = .ok (.group false alternatives) ∧
      (Selector.group true alternatives).eval d [.node 3, .node 1, .node 2] =
        .ok [.node 2, .node 3] ∧
      (Selector.not (.group true alternatives)).eval d [.node 3, .node 1, .node 2] =
        .ok [.node 1] ∧
      (Selector.not (.negated alternatives)).eval d [.node 3, .node 1, .node 2] =
        .ok [.node 3, .node 2] := by
  intro d alternatives
  have htokens : tokenize "div>p,q" = .ok [⟨.ident, "div"⟩, .ofKind .greater, ⟨.ident, "p"⟩,
      .ofKind .comma, ⟨.ident, "q"⟩, .endOfInput] := tokenize_of_scanWithin (by cbv)
  have hs : d.compile {} "div>p,q" = .ok (.group false alternatives) := by
    rw [Document.compile, Compiler.compile_of_tokenize (by decide) htokens]
    rfl
  have hgiven : (Selector.group true alternatives).eval d [.node 3, .node 1, .node 2] =
      .ok [.node 2, .node 3] := by cbv
  have helements : ∀ x ∈ ([.node 3, .node 1, .node 2] : List Place), x.isElement d = true := by
    decide
  obtain ⟨anchored, alternatives', hgroup, -, -, hnot⟩ := compile_negations hs
  cases hgroup
  obtain ⟨hkept, hkept'⟩ := (hnot d _ helements).2.1 _ hgiven
  exact ⟨hs, hgiven, hkept, hkept'⟩

end TreeQuery
