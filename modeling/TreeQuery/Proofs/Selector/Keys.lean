import Std.Data.String.ToInt
import TreeQuery.Proofs.Text.Quoted
import TreeQuery.Selector.Step

/-!
# Keys tell steps apart

Two steps with the same key are the same step.
-/

set_option autoImplicit false

namespace TreeQuery

theorem Namespace.label_injective {ns ns' : Namespace} (h : ns.label = ns'.label) : ns = ns' := by
  have hnamed {a b : String} (h : "Specific(" ++ quote a ++ ")" = "Specific(" ++ quote b ++ ")") :
      a = b := by
    have hchars := congrArg String.toList h
    simp only [String.toList_append, List.append_cancel_right_eq, List.append_cancel_left_eq]
      at hchars
    exact quote_injective (String.toList_inj.1 hchars)
  have hconstant {a s : String} (h : "Specific(" ++ quote a ++ ")" = s)
      (hs : s.toList.head? ≠ some 'S') : False := by
    subst h
    exact hs (by simp)
  cases ns <;> cases ns'
  all_goals first | rfl | exact absurd h (by decide) | skip
  · exact (hconstant h.symm (by decide)).elim
  · exact (hconstant h.symm (by decide)).elim
  · exact (hconstant h.symm (by decide)).elim
  · exact (hconstant h (by decide)).elim
  · exact (hconstant h (by decide)).elim
  · exact (hconstant h (by decide)).elim
  · rw [hnamed h]

theorem Step.plainLabel_injective {a b : PlainPseudo} (h : plainLabel a = plainLabel b) :
    a = b := by
  cases a <;> cases b <;> first | rfl | exact absurd h (by decide)

theorem Step.combinatorLabel_injective {a b : Combinator}
    (h : combinatorLabel a = combinatorLabel b) : a = b := by
  cases a <;> cases b <;> first | rfl | exact absurd h (by decide)

variable [PatternEngine]

theorem ValueTest.label_injective {a b : ValueTest} (h : a.label = b.label) : a = b := by
  cases a <;> cases b <;> simp only [label, Prod.mk.injEq] at h
  all_goals first | exact absurd h.1 (by decide) | skip
  case regexMatch.regexMatch => rw [Pattern.eq_of_source_eq h.2]
  all_goals rw [h.2]

namespace Step

/-- Steps of one family are made by the same constructor. -/
def family : Step → Nat
  | type .. => 0
  | universal _ => 1
  | id _ => 2
  | className _ => 3
  | hasAttribute .. => 4
  | compareAttribute .. => 5
  | plain _ => 6
  | nthChild _ => 7
  | nthLastChild _ => 8
  | index _ => 9
  | combinator _ => 10
  | containsText _ => 11
  | matchesText _ => 12

def familyOf : String → Nat
  | "Type" => 0
  | "Universal" => 1
  | "Id" => 2
  | "Class" => 3
  | "AttributeExists" => 4
  | "FirstChild" | "LastChild" | "OnlyChild" | "Empty" | "Last" | "SelectParent" => 6
  | "NthChild" => 7
  | "NthLastChild" => 8
  | "Eq" => 9
  | "Descendant" | "Child" | "Adjacent" | "GeneralSibling" => 10
  | "Contains" => 11
  | "Matches" => 12
  | _ => 5

theorem familyOf_key (s : Step) : familyOf s.key.operation = s.family := by
  cases s with
  | compareAttribute ns name test => cases test <;> rfl
  | plain pseudo => cases pseudo <;> rfl
  | combinator c => cases c <;> rfl
  | _ => rfl

theorem key_injective {s t : Step} (h : s.key = t.key) : s = t := by
  have hfamily : s.family = t.family := by
    rw [← familyOf_key s, h, familyOf_key]
  cases s <;> cases t <;> simp only [family, reduceCtorEq, Nat.reduceEqDiff] at hfamily
  all_goals simp only [key, StageKey.mk.injEq, List.cons.injEq, and_true, true_and] at h
  case type ns name ns' name' => rw [Namespace.label_injective h.1, h.2]
  case universal => rw [Namespace.label_injective h]
  case id => rw [h]
  case className => rw [h]
  case hasAttribute => rw [Namespace.label_injective h.1, h.2]
  case compareAttribute =>
    obtain ⟨hop, hns, hname, hoperand⟩ := h
    rw [Namespace.label_injective hns, hname, ValueTest.label_injective (Prod.ext hop hoperand)]
  case plain => rw [plainLabel_injective h]
  case nthChild => rw [Int.repr_injective h]
  case nthLastChild => rw [Int.repr_injective h]
  case index => rw [Int.repr_injective h]
  case combinator => rw [combinatorLabel_injective h]
  case containsText => rw [h]
  case matchesText => rw [Pattern.eq_of_source_eq h]

end Step

end TreeQuery
