import Mathlib.Data.List.Nodup
import Mathlib.Data.List.TakeWhile

/-!
# Lists without repetitions

The alternatives of a group give one list, of which first occurrences are kept. A list after another
one adds what is new in it.
-/

set_option autoImplicit false

namespace TreeQuery

variable {α : Type}

theorem getLast?_cons_self_iff {x : α} {xs : List α} (hx : x ∉ xs) :
    (x :: xs).getLast? = some x ↔ xs = [] := by
  constructor
  · intro h
    by_contra hne
    rw [List.getLast?_cons_of_ne_nil hne] at h
    exact hx (List.mem_of_getLast? h)
  · rintro rfl
    rfl

variable [BEq α]

/-- What follows the first element matters only as far as it differs from it. -/
theorem eraseDups_induction {motive : List α → Prop} (nil : motive [])
    (cons : ∀ x xs, motive (xs.filter fun y => !y == x) → motive (x :: xs)) :
    ∀ xs, motive xs
  | [] => nil
  | x :: xs => cons x xs (eraseDups_induction nil cons _)
termination_by xs => xs.length
decreasing_by
  rw [List.length_cons]
  exact Nat.lt_succ_of_le (List.length_filter_le _ xs)

variable [LawfulBEq α]

theorem nodup_eraseDups (xs : List α) : xs.eraseDups.Nodup := by
  induction xs using eraseDups_induction with
  | nil => exact List.nodup_nil
  | cons x xs ih =>
    rw [List.eraseDups_cons, List.nodup_cons]
    refine ⟨?_, ih⟩
    simp

theorem eraseDups_filter (p : α → Bool) (xs : List α) :
    (xs.filter p).eraseDups = xs.eraseDups.filter p := by
  induction xs using eraseDups_induction with
  | nil => rfl
  | cons x xs ih =>
    rw [List.eraseDups_cons]
    by_cases hx : p x = true
    · rw [List.filter_cons_of_pos hx, List.filter_cons_of_pos hx, List.eraseDups_cons, ← ih,
        List.filter_filter, List.filter_filter]
      simp only [Bool.and_comm]
    · rw [List.filter_cons_of_neg hx, List.filter_cons_of_neg hx, ← ih, List.filter_filter]
      congr 1
      apply List.filter_congr
      intro y _
      by_cases hy : y = x
      · subst hy
        simp [hx]
      · simp [hy]

theorem eraseDups_append (xs ys : List α) :
    (xs ++ ys).eraseDups = xs.eraseDups ++ ys.eraseDups.filter fun y => !xs.contains y := by
  rw [List.eraseDups_append, List.removeAll, eraseDups_filter]

/-- One more element counts if it is new. -/
theorem eraseDups_concat (xs : List α) (x : α) :
    (xs ++ [x]).eraseDups = if x ∈ xs then xs.eraseDups else xs.eraseDups ++ [x] := by
  rw [eraseDups_append, List.eraseDups_cons, List.filter_nil, List.eraseDups_nil]
  split
  · next h => rw [List.filter_cons_of_neg (by simpa using h), List.filter_nil, List.append_nil]
  · next h => rw [List.filter_cons_of_pos (by simpa using h), List.filter_nil]

theorem perm_eraseDups {xs ys : List α} (h : xs.Perm ys) : xs.eraseDups.Perm ys.eraseDups := by
  rw [List.perm_ext_iff_of_nodup (nodup_eraseDups xs) (nodup_eraseDups ys)]
  intro x
  rw [List.mem_eraseDups, List.mem_eraseDups]
  exact h.mem_iff

/-! ## Positions -/

theorem eraseDups_of_nodup {xs : List α} (h : xs.Nodup) : xs.eraseDups = xs := by
  induction xs using eraseDups_induction with
  | nil => rfl
  | cons x xs ih =>
    obtain ⟨hx, hxs⟩ := List.nodup_cons.mp h
    have hkept : (xs.filter fun y => !y == x) = xs := by
      rw [List.filter_eq_self]
      intro y hy
      have hne : y ≠ x := ne_of_mem_of_not_mem hy hx
      simpa using hne
    rw [hkept] at ih
    rw [List.eraseDups_cons, hkept, ih hxs]

/-- Up to a position, a list and its first occurrences are the same when nothing is repeated before
that position. -/
theorem getElem?_eraseDups_iff (xs : List α) (n : Nat) :
    (∀ i < n, xs.eraseDups[i]? = xs[i]?) ↔ (xs.take n).Nodup := by
  have htake : (∀ i < n, xs.eraseDups[i]? = xs[i]?) ↔ xs.eraseDups.take n = xs.take n := by
    constructor
    · intro h
      apply List.ext_getElem?
      intro i
      rw [List.getElem?_take, List.getElem?_take]
      split
      · next hi => exact h i hi
      · rfl
    · intro h i hi
      rw [← List.getElem?_take_of_lt hi, h, List.getElem?_take_of_lt hi]
  rw [htake]
  constructor
  · intro h
    rw [← h]
    exact (nodup_eraseDups xs).sublist (List.take_sublist n _)
  · intro h
    by_cases hn : n ≤ xs.length
    · have hfront : (xs.take n).length = n := by rw [List.length_take, Nat.min_eq_left hn]
      conv_lhs => rw [← List.take_append_drop n xs, eraseDups_append, eraseDups_of_nodup h]
      exact List.take_left' hfront
    · rw [List.take_of_length_le (by omega)] at h
      rw [eraseDups_of_nodup h]

/-- The first occurrences of a list that is cut where an element occurs first. -/
theorem eraseDups_cut {front back : List α} {x : α} (hx : x ∉ front) :
    (front ++ x :: back).eraseDups = front.eraseDups ++ x ::
      (back.filter fun y => !front.contains y && !y == x).eraseDups := by
  rw [eraseDups_append, List.eraseDups_cons, List.filter_cons_of_pos (by simpa using hx),
    ← eraseDups_filter, List.filter_filter]

/-- The last element is the last first occurrence when all others occur before it. -/
theorem getLast?_eraseDups_iff (xs : List α) : xs.eraseDups.getLast? = xs.getLast? ↔
    ∀ x ∈ xs.getLast?, ∀ y ∈ xs, y ≠ x → y ∈ xs.takeWhile (· != x) := by
  cases hlast : xs.getLast? with
  | none =>
    obtain rfl := List.getLast?_eq_none_iff.mp hlast
    simp
  | some x =>
    obtain ⟨front, back, rfl, hx⟩ := List.eq_append_cons_of_mem (List.mem_of_getLast? hlast)
    have hfront : (front ++ x :: back).takeWhile (· != x) = front := by
      rw [List.takeWhile_append_of_pos fun y hy => by simpa using ne_of_mem_of_not_mem hy hx,
        List.takeWhile_cons_of_neg (by simp), List.append_nil]
    rw [eraseDups_cut hx, List.getLast?_append_cons, getLast?_cons_self_iff (by simp)]
    simp only [Option.mem_some_iff, forall_eq', hfront]
    rw [List.eq_nil_iff_forall_not_mem]
    simp only [List.mem_eraseDups, List.mem_filter, Bool.and_eq_true, Bool.not_eq_true',
      List.contains_eq_mem, decide_eq_false_iff_not, beq_eq_false_iff_ne, not_and, not_not]
    constructor
    · intro h y hy hne
      by_contra hnew
      rcases List.mem_append.mp hy with hy | hy
      · exact hnew hy
      · rcases List.mem_cons.mp hy with rfl | hy
        · exact hne rfl
        · exact hne (h y hy hnew)
    · intro h y hy hnew
      by_contra hne
      exact hnew (h y (List.mem_append_right _ (List.mem_cons_of_mem _ hy)) hne)

end TreeQuery
