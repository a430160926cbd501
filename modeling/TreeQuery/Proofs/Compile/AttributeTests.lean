import TreeQuery.Pattern.OfText
import TreeQuery.Proofs.Compile.Negation
import TreeQuery.Proofs.Selector.Words

/-!
# Attribute tests

The comparisons of an attribute value with an operand are ordered by what they keep. A value that
is equal to the operand starts and ends with it; where one starts or ends with it, or has it for a
part, the operand occurs. All but inequality ask for the attribute.
-/

set_option autoImplicit false

namespace TreeQuery

theorem Step.keep_sublist {d : Document} {test test' : Place → Bool} (h : ∀ p, test p = true → test' p = true)
    (xs : List Place) : (keep d test xs).Sublist (keep d test' xs) := by
  apply List.monotone_filter_right
  intro p hp
  rw [Bool.and_eq_true] at hp ⊢
  exact ⟨hp.1, h p hp.2⟩

section Engine

variable [PatternEngine]

/-! ## Tests of values -/

namespace ValueTest

def Implies (t u : ValueTest) : Prop :=
  ∀ value, t.holds value = true → u.holds value = true

variable {v : String}

theorem equals_implies_prefixMatch (hv : v ≠ "") : (equals v).Implies (prefixMatch v) := by
  intro value h
  obtain rfl : value = v := by simpa [holds] using h
  simp [holds, hv]

theorem equals_implies_suffixMatch (hv : v ≠ "") : (equals v).Implies (suffixMatch v) := by
  intro value h
  obtain rfl : value = v := by simpa [holds] using h
  simp [holds, hv]

theorem substringMatch_holds_iff {value : String} :
    (substringMatch v).holds value = true ↔ v ≠ "" ∧ v.toList <:+: value.toList := by
  simp [holds, occursIn_iff]

/-- An operand occurs in what starts with it, ends with it, or has it for a word or a part. -/
theorem implies_substringMatch {test : ValueTest}
    (h : test ∈ [prefixMatch v, suffixMatch v, includes v, dashMatch v]) :
    test.Implies (substringMatch v) := by
  intro value hholds
  rw [substringMatch_holds_iff]
  simp only [List.mem_cons, List.not_mem_nil, or_false] at h
  rcases h with rfl | rfl | rfl | rfl
  · have hstart : v ≠ "" ∧ v.toList <+: value.toList := by simpa [holds] using hholds
    exact ⟨hstart.1, hstart.2.isInfix⟩
  · have hend : v ≠ "" ∧ v.toList <:+ value.toList := by simpa [holds] using hholds
    exact ⟨hend.1, hend.2.isInfix⟩
  · have hword : v ∈ words value := by
      simp only [holds, Bool.and_eq_true, List.contains_iff_mem] at hholds
      exact hholds.2
    obtain ⟨hne, hpiece⟩ := mem_words.mp hword
    exact ⟨hne, isInfix_of_mem_pieces hpiece⟩
  · have hpart : v ≠ "" ∧ v.toList ∈ pieces (· == '-') value.toList := by
      simpa [holds] using hholds
    exact ⟨hpart.1, isInfix_of_mem_pieces hpart.2⟩

theorem holds_empty {test : ValueTest} (h : test ∈ [includes "", dashMatch "", prefixMatch "",
    suffixMatch "", substringMatch ""]) (value : String) : test.holds value = false := by
  simp only [List.mem_cons, List.not_mem_nil, or_false] at h
  rcases h with rfl | rfl | rfl | rfl | rfl <;> rfl

/-- A missing value passes no test but inequality. -/
theorem holdsOf_eq {test : ValueTest} (h : ∀ w, test ≠ notEqual w) (value? : Option String) :
    test.holdsOf value? = value?.any test.holds := by
  cases test with
  | notEqual w => exact absurd rfl (h w)
  | _ => rfl

theorem holdsOf_notEqual (v : String) (value? : Option String) :
    (notEqual v).holdsOf value? = !(equals v).holdsOf value? := by
  cases value? <;> simp [holdsOf, holds, bne]

end ValueTest

/-! ## Steps -/

namespace Step

variable {d : Document} {ns : Namespace} {name : String}

theorem compareAttribute_sublist {t u : ValueTest} (ht : ∀ w, t ≠ .notEqual w)
    (hu : ∀ w, u ≠ .notEqual w) (h : t.Implies u) (xs : List Place) :
    ((compareAttribute ns name t).apply d xs).Sublist
      ((compareAttribute ns name u).apply d xs) := by
  apply keep_sublist
  intro p hp
  rw [ValueTest.holdsOf_eq ht, Option.any_eq_true] at hp
  rw [ValueTest.holdsOf_eq hu, Option.any_eq_true]
  obtain ⟨value, hvalue, hholds⟩ := hp
  exact ⟨value, hvalue, h value hholds⟩

theorem compareAttribute_sublist_hasAttribute {t : ValueTest} (ht : ∀ w, t ≠ .notEqual w)
    (xs : List Place) :
    ((compareAttribute ns name t).apply d xs).Sublist ((hasAttribute ns name).apply d xs) := by
  apply keep_sublist
  intro p hp
  rw [ValueTest.holdsOf_eq ht, Option.any_eq_true] at hp
  obtain ⟨value, hvalue, -⟩ := hp
  rw [hvalue]
  rfl

theorem compareAttribute_eq_nil {t : ValueTest} (ht : ∀ w, t ≠ .notEqual w)
    (h : ∀ value, t.holds value = false) (xs : List Place) :
    (compareAttribute ns name t).apply d xs = [] := by
  rw [apply, keep, List.filter_eq_nil_iff]
  intro p _
  rw [ValueTest.holdsOf_eq ht]
  cases p.attribute? d (ns.qualify name) with
  | none => simp
  | some value => simp [h]

/-- Inequality keeps the elements that equality drops. -/
theorem notEqual_eq (v : String) (xs : List Place) :
    (compareAttribute ns name (.notEqual v)).apply d xs = xs.filter fun p =>
      p.isElement d && decide (p ∉ (compareAttribute ns name (.equals v)).apply d xs) := by
  refine List.filter_congr fun p hp => ?_
  cases hp' : p.isElement d with
  | false => rfl
  | true =>
    simp only [ValueTest.holdsOf_notEqual]
    simp [apply, mem_keep, hp, hp']

theorem id_eq (v : String) (xs : List Place) : (Step.id v).apply d xs =
    (index 0).apply d ((compareAttribute .unstated "id" (.equals v)).apply d xs) := by
  have hqualify : Namespace.unstated.qualify "id" = "id" := by cbv
  have hkeep : ∀ ys : List Place, (index 0).apply d ys = ys.take 1 := by
    intro ys
    cases ys <;> rfl
  rw [hkeep]
  show (keep d _ xs).take 1 = (keep d _ xs).take 1
  congr 2
  funext p
  rw [hqualify]
  cases p.attribute? d "id" <;> rfl

end Step

/-! ## Inequality and negation -/

section Negation

variable {d : Document} {ns : Namespace} {name v : String} {xs : List Place}

/-- On elements, inequality is the negation of equality. -/
theorem eval_not_equals (hxs : ∀ x ∈ xs, x.isElement d = true) :
    (Selector.not (.group true [.andThen (.step (.universal .unstated))
      (.step (.compareAttribute ns name (.equals v)))])).eval d xs =
        (Selector.step (.compareAttribute ns name (.notEqual v))).eval d xs := by
  have hequals : (Selector.group true [.andThen (.step (.universal .unstated))
      (.step (.compareAttribute ns name (.equals v)))]).eval d xs =
        .ok ((Step.compareAttribute ns name (.equals v)).apply d xs).eraseDups := by
    rw [Selector.eval_group_single, groupBase, if_pos rfl, Selector.eval_andThen,
      Selector.eval_step]
    show List.eraseDups <$> (Selector.step _).eval d ((Step.universal .unstated).apply d xs) = _
    rw [Step.universal_elements hxs]
    rfl
  rw [Selector.eval_not_ok hequals, Selector.eval_step, Step.notEqual_eq]
  congr 1
  refine List.filter_congr fun p hp => ?_
  simp [hxs p hp]

end Negation

section Texts

variable {d : Document} {registry : Registry Place} {ns : Namespace} {name v : String}
  {source source' : String}

abbrev GroupTree.comparing (ns : Namespace) (name : String) (comparison : Comparison)
    (v : String) : GroupTree :=
  .bare (.test (.compareAttribute ns name comparison v))

/-- Written as texts, inequality and the negation of equality give the same on every working set,
as both start from the elements below. -/
theorem compile_not_equals
    (h : (GroupTree.comparing ns name .equals v).Spells registry.signature? source)
    (h' : (GroupTree.comparing ns name .notEqual v).Spells registry.signature? source') :
    ∃ s s', d.compile registry (":not(" ++ source ++ ")") = .ok s ∧
      d.compile registry source' = .ok s' ∧
      ∀ (d' : Document) (xs : List Place), s.eval d' xs = s'.eval d' xs := by
  have single : GroupPseudo.not ≠ .between := by decide
  have hargument : (GroupTree.comparing ns name .equals v).selector registry true =
      .ok (.group true [.andThen (.step (.universal .unstated))
        (.step (.compareAttribute ns name (.equals v)))]) :=
    GroupTree.selector_single rfl true
  refine ⟨_, _, (h.bare single).compile_eq.trans
      (GroupTree.selector_single (ModifierTree.stages_not hargument single) false),
    h'.compile_eq.trans (GroupTree.selector_single rfl false), fun d' xs => ?_⟩
  rw [Selector.eval_group_single, Selector.eval_group_single, Selector.eval_andThen,
    Selector.eval_andThen]
  congr 1
  refine eval_not_equals fun x hx => ?_
  exact (Step.mem_keep.mp hx).2.1

end Texts

/-! ## Main statement -/

abbrev keptBy (d : Document) (ns : Namespace) (name : String) (xs : List Place)
    (test : ValueTest) : List Place :=
  (Step.compareAttribute ns name test).apply d xs

/-- The order of the attribute tests. All but inequality keep only what has the attribute. What is
equal to an operand that is not empty starts and ends with it, and the operand occurs in whatever
passes another test; the empty operand passes none of the tests of parts. Inequality is the negation
of equality, and the identifier selects the first place whose attribute `id` is equal to it. -/
theorem attribute_tests_ordered (d : Document) (ns : Namespace) (name v : String)
    (xs : List Place) :
    (∀ test : ValueTest, (∀ w, test ≠ .notEqual w) →
      (keptBy d ns name xs test).Sublist ((Step.hasAttribute ns name).apply d xs)) ∧
    (v ≠ "" → ∀ test ∈ [ValueTest.prefixMatch v, .suffixMatch v],
      (keptBy d ns name xs (.equals v)).Sublist (keptBy d ns name xs test)) ∧
    (∀ test ∈ [ValueTest.prefixMatch v, .suffixMatch v, .includes v, .dashMatch v],
      (keptBy d ns name xs test).Sublist (keptBy d ns name xs (.substringMatch v))) ∧
    (∀ test ∈ [ValueTest.includes "", .dashMatch "", .prefixMatch "", .suffixMatch "",
        .substringMatch ""], keptBy d ns name xs test = []) ∧
    (∀ p, p ∈ keptBy d ns name xs (.notEqual v) ↔
      p ∈ xs ∧ p.isElement d = true ∧ p ∉ keptBy d ns name xs (.equals v)) ∧
    ((∀ x ∈ xs, x.isElement d = true) →
      (Selector.not (.group true [.andThen (.step (.universal .unstated))
        (.step (.compareAttribute ns name (.equals v)))])).eval d xs =
          .ok (keptBy d ns name xs (.notEqual v))) ∧
    (∀ (registry : Registry Place) (source source' : String),
      (GroupTree.comparing ns name .equals v).Spells registry.signature? source →
      (GroupTree.comparing ns name .notEqual v).Spells registry.signature? source' →
        ∃ s s', d.compile registry (":not(" ++ source ++ ")") = .ok s ∧
          d.compile registry source' = .ok s' ∧ s.eval d xs = s'.eval d xs) ∧
    (Step.id v).apply d xs =
      (Step.index 0).apply d (keptBy d .unstated "id" xs (.equals v)) := by
  refine ⟨fun test htest => Step.compareAttribute_sublist_hasAttribute htest xs, ?_, ?_, ?_, ?_,
    eval_not_equals, ?_, Step.id_eq v xs⟩
  · intro hv test htest
    simp only [List.mem_cons, List.not_mem_nil, or_false] at htest
    rcases htest with rfl | rfl
    · exact Step.compareAttribute_sublist (by simp) (by simp)
        (ValueTest.equals_implies_prefixMatch hv) xs
    · exact Step.compareAttribute_sublist (by simp) (by simp)
        (ValueTest.equals_implies_suffixMatch hv) xs
  · intro test htest
    have hne : ∀ w, test ≠ .notEqual w := by
      rintro w rfl
      simp at htest
    exact Step.compareAttribute_sublist hne (by simp)
      (ValueTest.implies_substringMatch htest) xs
  · intro test htest
    have hne : ∀ w, test ≠ .notEqual w := by
      rintro w rfl
      simp at htest
    exact Step.compareAttribute_eq_nil hne (ValueTest.holds_empty htest) xs
  · intro p
    simp [keptBy, Step.notEqual_eq]
  · intro registry source source' h h'
    obtain ⟨s, s', hs, hs', heval⟩ := compile_not_equals (d := d) h h'
    exact ⟨s, s', hs, hs', heval d xs⟩

end Engine

/-- A language with a region, and a place that has no language. -/
theorem attribute_tests_ordered_language :
    let d : Document := .build [.element "p", .setAttribute "lang" "en-us", .leaf "b"]
    let xs : List Place := [.node 1, .node 2]
    keptBy d .unstated "lang" xs (.dashMatch "en") = [.node 1] ∧
      .node 1 ∈ keptBy d .unstated "lang" xs (.substringMatch "en") ∧
      .node 1 ∈ (Step.hasAttribute .unstated "lang").apply d xs ∧
      keptBy d .unstated "lang" xs (.equals "en-us") = [.node 1] ∧
      .node 1 ∈ keptBy d .unstated "lang" xs (.suffixMatch "en-us") ∧
      keptBy d .unstated "lang" xs (.prefixMatch "") = [] ∧
      (Selector.not (.group true [.andThen (.step (.universal .unstated))
        (.step (.compareAttribute .unstated "lang" (.equals "en-us")))])).eval d xs =
          .ok [.node 2] ∧
      ∃ s s', d.compile {} ":not([lang=en])" = .ok s ∧ d.compile {} "[lang!=en]" = .ok s' ∧
        s.eval d xs = s'.eval d xs := by
  intro d xs
  have hdash : keptBy d .unstated "lang" xs (.dashMatch "en") = [.node 1] := by cbv
  have hequals : keptBy d .unstated "lang" xs (.equals "en-us") = [.node 1] := by cbv
  have hnotEqual : keptBy d .unstated "lang" xs (.notEqual "en-us") = [.node 2] := by cbv
  have helements : ∀ x ∈ xs, x.isElement d = true := by decide
  have hspells (comparison : Comparison) {source : String}
      (hsource : tokenize source = .ok [.ofKind .leftBracket, ⟨.ident, "lang"⟩,
        .ofKind comparison.kind, ⟨.ident, "en"⟩, .ofKind .rightBracket, .endOfInput]) :
      (GroupTree.comparing .unstated "lang" comparison "en").Spells
        (Registry.signature? (E := Place) {}) source := by
    have hwritten : AttributeWritten (.compareAttribute .unstated "lang" comparison "en")
        [⟨.ident, "lang"⟩, .ofKind comparison.kind, ⟨.ident, "en"⟩, .ofKind .rightBracket] :=
      @AttributeWritten.compare .unstated [] [] [] [] [] ⟨.ident, "lang"⟩
        (.ofKind comparison.kind) ⟨.ident, "en"⟩ (.ofKind .rightBracket) comparison .absent
        .unstated rfl .absent rfl .absent (.inr rfl) .absent rfl
    have hgroup : (GroupTree.comparing .unstated "lang" comparison "en").Written
        (Registry.signature? (E := Place) {}) [.ofKind .leftBracket, ⟨.ident, "lang"⟩,
          .ofKind comparison.kind, ⟨.ident, "en"⟩, .ofKind .rightBracket] :=
      GroupTree.written_single .implied
        (.test (@SimpleTest.Written.bracketed _ (.ofKind .leftBracket) _ rfl hwritten))
    refine ⟨_, hsource, ?_⟩
    cases comparison <;> exact hgroup
  obtain ⟨hpresent, hequal, hoccurs, hempty, -, hnot, htexts, -⟩ :=
    attribute_tests_ordered d .unstated "lang" "en-us" xs
  obtain ⟨-, -, hoccurs', -, -, -, htexts, -⟩ :=
    attribute_tests_ordered d .unstated "lang" "en" xs
  refine ⟨hdash, (hoccurs' (.dashMatch "en") (by simp)).subset (by simp [hdash]),
    (hpresent (.dashMatch "en") (by simp)).subset (by simp [hdash]), hequals,
    (hequal (by decide) (.suffixMatch "en-us") (by simp)).subset (by simp [hequals]),
    hempty (.prefixMatch "") (by simp), hnotEqual ▸ hnot helements, ?_⟩
  exact htexts {} "[lang=en]" "[lang!=en]"
    (hspells .equals (tokenize_of_scanWithin (by cbv)))
    (hspells .notEqual (tokenize_of_scanWithin (by cbv)))

end TreeQuery
