import TreeQuery.Proofs.Compile.Translation
import TreeQuery.Proofs.Matching.Relation

/-!
# Steps as sets of nodes

A list of nodes is taken for the set of its members. On such sets the test of an element is an
intersection, and a combinator is the image under its relation.
-/

set_option autoImplicit false

namespace TreeQuery

/-- The list holds exactly the nodes that satisfy `P`, and nothing but nodes. -/
def Denotes (xs : List Place) (P : Nat → Prop) : Prop :=
  ∀ p, p ∈ xs ↔ ∃ n, p = .node n ∧ P n

namespace Denotes

variable {xs : List Place} {P Q : Nat → Prop}

theorem congr (h : Denotes xs P) (hPQ : ∀ n, P n ↔ Q n) : Denotes xs Q := by
  intro p
  rw [h p]
  simp only [hPQ]

theorem map_node (ns : List Nat) : Denotes (ns.map .node) (· ∈ ns) := by
  intro p
  rw [List.mem_map]
  constructor
  · rintro ⟨n, hn, rfl⟩
    exact ⟨n, rfl, hn⟩
  · rintro ⟨n, rfl, hn⟩
    exact ⟨n, hn, rfl⟩

theorem singleton (n : Nat) : Denotes [.node n] (· = n) := by
  intro p
  simp

theorem filter (h : Denotes xs P) {f : Place → Bool}
    (hf : ∀ n, P n → (f (.node n) = true ↔ Q n)) :
    Denotes (xs.filter f) fun n => P n ∧ Q n := by
  intro p
  rw [List.mem_filter, h p]
  constructor
  · rintro ⟨⟨n, rfl, hn⟩, hfn⟩
    exact ⟨n, rfl, hn, (hf n hn).1 hfn⟩
  · rintro ⟨n, rfl, hn, hq⟩
    exact ⟨⟨n, rfl, hn⟩, (hf n hn).2 hq⟩

theorem append {ys : List Place} (h : Denotes xs P) (h' : Denotes ys Q) :
    Denotes (xs ++ ys) fun n => P n ∨ Q n := by
  intro p
  rw [List.mem_append, h p, h' p]
  simp only [← exists_or, ← and_or_left]

theorem flatMap (h : Denotes xs P) {f : Place → List Place} {R : Nat → Nat → Prop}
    (hf : ∀ m, Denotes (f (.node m)) (R m)) :
    Denotes (xs.flatMap f) fun n => ∃ m, P m ∧ R m n := by
  intro p
  rw [List.mem_flatMap]
  constructor
  · rintro ⟨q, hq, hp⟩
    obtain ⟨m, rfl, hm⟩ := (h q).1 hq
    obtain ⟨n, rfl, hn⟩ := (hf m p).1 hp
    exact ⟨n, rfl, m, hm, hn⟩
  · rintro ⟨n, rfl, m, hm, hn⟩
    exact ⟨.node m, (h _).2 ⟨m, rfl, hm⟩, (hf m _).2 ⟨n, rfl, hn⟩⟩

end Denotes

variable {d : Document}

/-! ## Combinators -/

namespace Document

theorem pairwise_siblingsAfter (d : Document) (n : Nat) : (d.siblingsAfter n).Pairwise (· < ·) := by
  have hsub : (d.siblingsAfter n).Sublist (d.brood n) :=
    (List.tail_sublist _).trans (List.dropWhile_sublist _)
  refine List.Pairwise.sublist hsub ?_
  unfold brood
  cases d.parent? n with
  | none => exact List.Pairwise.nil
  | some p => exact d.pairwise_children p

/-- The head of an ascending list is its least member. -/
theorem head?_eq_some_iff_least {ns : List Nat} (h : ns.Pairwise (· < ·)) {n : Nat} :
    ns.head? = some n ↔ n ∈ ns ∧ ∀ m ∈ ns, n ≤ m := by
  cases ns with
  | nil => simp
  | cons first ns =>
    rw [List.pairwise_cons] at h
    rw [List.head?_cons, Option.some.injEq]
    constructor
    · rintro rfl
      refine ⟨List.mem_cons_self, ?_⟩
      intro m hm
      rcases List.mem_cons.1 hm with rfl | hm
      · exact Nat.le_refl m
      · exact Nat.le_of_lt (h.1 m hm)
    · rintro ⟨hn, hle⟩
      rcases List.mem_cons.1 hn with rfl | hn
      · rfl
      · have hlt := h.1 n hn
        have hge := hle first List.mem_cons_self
        omega

/-- Of two siblings after a node, the first in the document precedes the other. -/
theorem Precedes.of_lt {m e n : Nat} (he : d.Precedes m e) (hn : d.Precedes m n) (hlt : e < n) :
    d.Precedes e n := by
  obtain ⟨-, p, hm, hp⟩ := precedes_iff.1 he
  obtain ⟨-, q, hm', hq⟩ := precedes_iff.1 hn
  obtain rfl := Option.some.inj (hm.symm.trans hm')
  exact precedes_iff.2 ⟨hlt, p, hp, hq⟩

/-- The head of the element siblings after a node is the nearest one. -/
theorem head?_following {m n : Nat} :
    ((d.siblingsAfter m).filter d.isElement).head? = some n ↔
      d.isElement n = true ∧ Combinator.Relates d m n .adjacent := by
  rw [head?_eq_some_iff_least ((d.pairwise_siblingsAfter m).filter d.isElement)]
  simp only [List.mem_filter, mem_siblingsAfter, Combinator.Relates]
  constructor
  · rintro ⟨⟨hmn, hn⟩, hleast⟩
    refine ⟨hn, hmn, ?_⟩
    intro e hme hen
    by_contra he
    have hle := hleast e ⟨hme, by simpa using he⟩
    have hlt := (precedes_iff.1 hen).1
    omega
  · rintro ⟨hn, hmn, hbetween⟩
    refine ⟨⟨hmn, hn⟩, ?_⟩
    rintro e ⟨hme, he⟩
    by_contra hlt
    have hnone := hbetween e hme (hme.of_lt hmn (by omega))
    rw [he] at hnone
    cases hnone

end Document

/-- Combinators lead to elements only. -/
theorem Step.denotes_move (m : Nat) (k : Combinator) :
    Denotes (Step.move d (.node m) k) fun n => d.isElement n = true ∧ k.Relates d m n := by
  have hmap (ns : List Nat) {R : Nat → Prop} (hR : ∀ n, n ∈ ns ↔ R n) :
      Denotes ((ns.filter d.isElement).map .node) fun n => d.isElement n = true ∧ R n :=
    (Denotes.map_node _).congr fun n => by rw [List.mem_filter, hR, and_comm]
  cases k with
  | descendant => exact hmap _ fun n => Document.mem_preorder_children
  | child => exact hmap _ fun n => Document.mem_children
  | sibling => exact hmap _ fun n => Document.mem_siblingsAfter
  | adjacent =>
    have htake : Step.move d (.node m) .adjacent =
        (((d.siblingsAfter m).filter d.isElement).take 1).map .node := by
      rw [List.map_take]
      rfl
    rw [htake]
    refine (Denotes.map_node _).congr fun n => ?_
    rw [← Document.head?_following, List.take_one, Option.mem_toList]

/-! ## Tests -/

section Structural

variable {n : Nat}

theorem parent?_isSome (d : Document) (n : Nat) :
    ((Place.node n).parent? d).isSome = (d.parent? n).isSome := by
  simp [Place.parent?]

theorem length_preceding (d : Document) (n : Nat) :
    ((Place.node n).preceding d).length = ((d.siblingsBefore n).filter d.isElement).length :=
  List.length_map _

theorem length_following (d : Document) (n : Nat) :
    ((Place.node n).following d).length = ((d.siblingsAfter n).filter d.isElement).length :=
  List.length_map _

theorem firstChild_iff (hn : d.isElement n = true) :
    Step.plainHolds d (.node n) .firstChild = true ↔ PlainPseudo.Describes d n .firstChild := by
  simp only [PlainPseudo.Describes, List.head?_eq_getElem?]
  rw [Document.getElem?_elementChildren_iff hn, ← length_preceding, ← parent?_isSome]
  simp [Step.plainHolds, List.isEmpty_iff]

theorem lastChild_iff (hn : d.isElement n = true) :
    Step.plainHolds d (.node n) .lastChild = true ↔ PlainPseudo.Describes d n .lastChild := by
  simp only [PlainPseudo.Describes, ← List.head?_reverse, List.head?_eq_getElem?]
  rw [Document.getElem?_reverse_elementChildren_iff hn, ← length_following, ← parent?_isSome]
  simp [Step.plainHolds, List.isEmpty_iff]

theorem position_iff {position : Int} {P : Prop} {count : Nat} :
    P ∧ (count : Int) + 1 = position ↔ ∃ k : Nat, position = k + 1 ∧ P ∧ count = k := by
  constructor
  · rintro ⟨h, hposition⟩
    exact ⟨count, hposition.symm, h, rfl⟩
  · rintro ⟨k, rfl, h, rfl⟩
    exact ⟨h, rfl⟩

/-- The only element child is both the first and the last one. -/
theorem onlyChild_iff (hn : d.isElement n = true) :
    Step.plainHolds d (.node n) .onlyChild = true ↔ PlainPseudo.Describes d n .onlyChild := by
  have hboth : Step.plainHolds d (.node n) .onlyChild =
      (Step.plainHolds d (.node n) .firstChild && Step.plainHolds d (.node n) .lastChild) := by
    simp only [Step.plainHolds]
    cases ((Place.node n).parent? d).isSome <;> simp
  rw [hboth, Bool.and_eq_true, firstChild_iff hn, lastChild_iff hn]
  simp only [PlainPseudo.Describes]
  constructor
  · rintro ⟨⟨p, hfirst⟩, q, hlast⟩
    have hp := Document.mem_children.1 (List.mem_filter.1 (List.mem_of_head? hfirst)).1
    have hq := Document.mem_children.1 (List.mem_filter.1 (List.mem_of_getLast? hlast)).1
    obtain rfl := Option.some.inj (hp.symm.trans hq)
    obtain ⟨before, after, hcut⟩ := Document.exists_cut hp
    have hnodup := hcut.nodup_elementChildren hn
    rw [List.head?_eq_getElem?, hcut.elementChildren hn,
      Document.getElem?_append_cons_iff hnodup] at hfirst
    refine ⟨p, ?_⟩
    rw [hcut.elementChildren hn] at hlast ⊢
    rw [List.length_eq_zero_iff.1 hfirst.symm, List.nil_append] at hlast hnodup ⊢
    cases hafter : after.filter d.isElement with
    | nil => rfl
    | cons m rest =>
      rw [hafter, List.getLast?_cons_cons] at hlast
      rw [hafter] at hnodup
      exact absurd (List.mem_of_getLast? hlast) (List.nodup_cons.1 hnodup).1
  · rintro ⟨p, honly⟩
    exact ⟨⟨p, by rw [honly]; rfl⟩, p, by rw [honly]; rfl⟩

end Structural

variable [PatternEngine]

theorem ValueTest.exists_holdsOf_iff (operand : String) {comparison : Comparison}
    (h : comparison ≠ .regexMatch) :
    ∃ test : ValueTest, ofComparison operand comparison = .ok test ∧
      ∀ value? : Option String, test.holdsOf value? = true ↔ comparison.Accepts operand value? := by
  cases comparison with
  | regexMatch => exact absurd rfl h
  | _ =>
    refine ⟨_, rfl, fun value? => ?_⟩
    cases value? <;> simp [holdsOf, holds, Comparison.Accepts, occursIn_iff, and_assoc]

/-- A declarative test keeps the elements that it describes. -/
theorem SimpleTest.apply_step (d : Document) {test : SimpleTest} (h : test.Declarative) :
    ∃ (s : Step) (f : Place → Bool), test.step = .ok s ∧
      (∀ xs, s.apply d xs = Step.keep d f xs) ∧
      ∀ n, d.isElement n = true → (f (.node n) = true ↔ test.Describes d n) := by
  cases test with
  | className name =>
    refine ⟨_, _, rfl, fun xs => rfl, fun n hn => ?_⟩
    simp only [Place.hasClass, Document.hasClass, SimpleTest.Describes]
    cases d.attribute? n "class" <;> simp
  | hasAttribute ns name => exact ⟨_, _, rfl, fun xs => rfl, fun n hn => Iff.rfl⟩
  | compareAttribute ns name comparison value =>
    obtain ⟨t, ht, hholds⟩ := ValueTest.exists_holdsOf_iff value h
    refine ⟨.compareAttribute ns name t, _, ?_, fun xs => rfl, fun n hn => hholds _⟩
    rw [SimpleTest.step, ht]
    rfl
  | plain pseudo =>
    cases pseudo with
    | firstChild => exact ⟨_, _, rfl, fun xs => rfl, fun n hn => firstChild_iff hn⟩
    | lastChild => exact ⟨_, _, rfl, fun xs => rfl, fun n hn => lastChild_iff hn⟩
    | onlyChild => exact ⟨_, _, rfl, fun xs => rfl, fun n hn => onlyChild_iff hn⟩
    | empty =>
      refine ⟨_, _, rfl, fun xs => rfl, fun n hn => ?_⟩
      exact List.isEmpty_iff
    | last => simp [SimpleTest.Declarative] at h
    | selectParent => simp [SimpleTest.Declarative] at h
  | nthChild position =>
    refine ⟨_, _, rfl, fun xs => rfl, fun n hn => ?_⟩
    simp only [SimpleTest.Describes, Document.getElem?_elementChildren_iff hn,
      ← length_preceding, ← parent?_isSome, Bool.and_eq_true, beq_iff_eq]
    exact position_iff
  | nthLastChild position =>
    refine ⟨_, _, rfl, fun xs => rfl, fun n hn => ?_⟩
    simp only [SimpleTest.Describes, Document.getElem?_reverse_elementChildren_iff hn,
      ← length_following, ← parent?_isSome, Bool.and_eq_true, beq_iff_eq]
    exact position_iff
  | containsText text =>
    refine ⟨_, _, rfl, fun xs => rfl, fun n hn => ?_⟩
    exact occursIn_iff
  | id value => exact h.elim
  | index value => exact h.elim
  | matchesText pattern => exact h.elim

end TreeQuery
