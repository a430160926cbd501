import Mathlib
import TreeQuery.Text.Integer

/-!
# Integers are read from their texts

The text of an integer has digits, after a hyphen if it is negative. An integer of 32 bits is read
back from its text, and no other one is read.
-/

set_option autoImplicit false

namespace TreeQuery

def Digits (cs : List Char) : Prop :=
  cs ≠ [] ∧ ∀ c ∈ cs, c.isDigit = true

theorem digits_toDigits (n : Nat) : Digits (Nat.toDigits 10 n) :=
  ⟨Nat.toDigits_ne_nil, fun _ hc => Nat.isDigit_of_mem_toDigits (by decide) (by decide) hc⟩

theorem naturalOfDigits?_toDigits (n : Nat) :
    naturalOfDigits? (Nat.toDigits 10 n) = some n := by
  obtain ⟨hne, hdigits⟩ := digits_toDigits n
  rw [naturalOfDigits?, if_pos (by simpa [hne] using hdigits), ← Nat.ofDigitChars_eq_foldl,
    Nat.ofDigitChars_ten_toDigits]

/-- What starts with a digit has no sign. -/
theorem integerOfChars?_digits {cs : List Char} (h : Digits cs) :
    integerOfChars? cs = (naturalOfDigits? cs).map Int.ofNat := by
  obtain ⟨-, hdigits⟩ := h
  unfold integerOfChars?
  split
  · exact absurd (hdigits '-' List.mem_cons_self) (by decide)
  · exact absurd (hdigits '+' List.mem_cons_self) (by decide)
  · rfl

theorem toList_toString (k : Int) : (toString k).toList =
    if 0 ≤ k then Nat.toDigits 10 k.toNat else '-' :: Nat.toDigits 10 (-k).toNat := by
  rw [Int.toString_eq_repr, Int.repr_eq_if]
  split
  · exact Nat.toList_repr
  · rw [String.toList_append, Nat.toList_repr]
    rfl

theorem integerOfChars?_toString (k : Int) : integerOfChars? (toString k).toList = some k := by
  rw [toList_toString]
  split
  · next hk =>
    rw [integerOfChars?_digits (digits_toDigits _), naturalOfDigits?_toDigits]
    exact congrArg some (Int.toNat_of_nonneg hk)
  · next hk =>
    rw [integerOfChars?, naturalOfDigits?_toDigits]
    show some (-((-k).toNat : Int)) = some k
    rw [Int.toNat_of_nonneg (by omega), neg_neg]

def Int32 (k : Int) : Prop :=
  -0x80000000 ≤ k ∧ k < 0x80000000

theorem int32OfText?_toString (k n : Int) :
    int32OfText? (toString k) = some n ↔ n = k ∧ Int32 k := by
  rw [int32OfText?, integerOfChars?_toString, Option.filter_some, Int32]
  split
  · next hk =>
    simp only [Bool.and_eq_true, decide_eq_true_eq] at hk
    simp [hk, eq_comm]
  · next hk =>
    simp only [Bool.and_eq_true, decide_eq_true_eq] at hk
    simp [hk]

/-- The text of an integer has a first character, and digits after it. -/
theorem exists_toList_toString (k : Int) : ∃ c cs, (toString k).toList = c :: cs ∧
    (c.isDigit = true ∨ c = '-' ∧ cs.head?.any Char.isDigit = true) ∧
      ∀ x ∈ cs, x.isDigit = true := by
  rw [toList_toString]
  split
  · obtain ⟨hne, hdigits⟩ := digits_toDigits k.toNat
    obtain ⟨c, cs, hcs⟩ := List.exists_cons_of_ne_nil hne
    rw [hcs] at hdigits ⊢
    exact ⟨c, cs, rfl, .inl (hdigits c List.mem_cons_self),
      fun x hx => hdigits x (List.mem_cons_of_mem _ hx)⟩
  · obtain ⟨hne, hdigits⟩ := digits_toDigits (-k).toNat
    obtain ⟨c, cs, hcs⟩ := List.exists_cons_of_ne_nil hne
    rw [hcs] at hdigits ⊢
    exact ⟨'-', c :: cs, rfl, .inr ⟨rfl, hdigits c List.mem_cons_self⟩, hdigits⟩

end TreeQuery
