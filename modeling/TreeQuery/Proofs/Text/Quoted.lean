import TreeQuery.Text.Quoted

/-!
# Quoted text can be read back

No quoted character starts another one. Hence a quoted text determines the text.
-/

set_option autoImplicit false

namespace TreeQuery

/-! ## Hexadecimal digits -/

theorem digitChar_injective {m n : Nat} (hm : m < 16) (hn : n < 16)
    (h : m.digitChar = n.digitChar) : m = n := by
  have hall : ∀ m < 16, ∀ n < 16, m.digitChar = n.digitChar → m = n := by decide
  exact hall m hm n hn h

theorem digitChar_ne_brace {n : Nat} (hn : n < 16) : n.digitChar ≠ '\x7d' := by
  have hall : ∀ n < 16, n.digitChar ≠ '\x7d' := by decide
  exact hall n hn

theorem toDigits_injective {m n : Nat} (h : Nat.toDigits 16 m = Nat.toDigits 16 n) : m = n := by
  induction m using Nat.strongRecOn generalizing n with
  | ind m ih =>
    rw [Nat.toDigits_eq_if (by decide), Nat.toDigits_eq_if (n := n) (by decide)] at h
    by_cases hm : m < 16 <;> by_cases hn : n < 16
    · rw [if_pos hm, if_pos hn] at h
      exact digitChar_injective hm hn (List.cons.inj h).1
    · rw [if_pos hm, if_neg hn] at h
      have hlen := congrArg List.length h
      have hpos : 0 < (Nat.toDigits 16 (n / 16)).length := Nat.length_toDigits_pos
      simp only [List.length_append, List.length_cons, List.length_nil] at hlen
      omega
    · rw [if_neg hm, if_pos hn] at h
      have hlen := congrArg List.length h
      have hpos : 0 < (Nat.toDigits 16 (m / 16)).length := Nat.length_toDigits_pos
      simp only [List.length_append, List.length_cons, List.length_nil] at hlen
      omega
    · rw [if_neg hm, if_neg hn] at h
      obtain ⟨hinit, hlast⟩ := List.append_inj' h rfl
      have hdiv := ih (m / 16) (by omega) hinit
      have hmod := digitChar_injective (Nat.mod_lt _ (by decide)) (Nat.mod_lt _ (by decide))
        (List.cons.inj hlast).1
      omega

theorem brace_not_mem_toDigits (n : Nat) : '\x7d' ∉ Nat.toDigits 16 n := by
  induction n using Nat.strongRecOn with
  | ind n ih =>
    rw [Nat.toDigits_eq_if (by decide)]
    by_cases hn : n < 16
    · rw [if_pos hn, List.mem_singleton]
      exact (digitChar_ne_brace hn).symm
    · rw [if_neg hn, List.mem_append, List.mem_singleton, not_or]
      exact ⟨ih (n / 16) (by omega), (digitChar_ne_brace (Nat.mod_lt _ (by decide))).symm⟩

/-- What stands before the first occurrence of a character is determined. -/
theorem append_cons_inj {c : Char} {xs ys us vs : List Char} (hxs : c ∉ xs) (hys : c ∉ ys)
    (h : xs ++ c :: us = ys ++ c :: vs) : xs = ys ∧ us = vs := by
  induction xs generalizing ys with
  | nil =>
    cases ys with
    | nil => exact ⟨rfl, (List.cons.inj h).2⟩
    | cons y ys =>
      have := (List.cons.inj h).1
      subst this
      exact absurd List.mem_cons_self hys
  | cons x xs ih =>
    cases ys with
    | nil =>
      have := (List.cons.inj h).1
      subst this
      exact absurd List.mem_cons_self hxs
    | cons y ys =>
      obtain ⟨rfl, htail⟩ := List.cons.inj h
      obtain ⟨rfl, rfl⟩ := ih (fun hmem => hxs (List.mem_cons_of_mem _ hmem))
        (fun hmem => hys (List.mem_cons_of_mem _ hmem)) htail
      exact ⟨rfl, rfl⟩

/-! ## Quoted characters -/

def unescaped? : Char → Option Char
  | '\x5c' => some '\x5c'
  | '\x22' => some '\x22'
  | 't' => some '\t'
  | 'r' => some '\r'
  | 'n' => some '\n'
  | '0' => some '\x00'
  | _ => none

theorem quoteChar_cases (c : Char) :
    (c ≠ '\x5c' ∧ quoteChar c = [c]) ∨
      (∃ e, unescaped? e = some c ∧ quoteChar c = ['\x5c', e]) ∨
      quoteChar c = spellCodePoint c := by
  unfold quoteChar
  split
  · next h => exact .inr (.inl ⟨'\x5c', by rw [h]; rfl, rfl⟩)
  split
  · next h => exact .inr (.inl ⟨'\x22', by rw [h]; rfl, rfl⟩)
  split
  · next h => exact .inr (.inl ⟨'t', by rw [h]; rfl, rfl⟩)
  split
  · next h => exact .inr (.inl ⟨'r', by rw [h]; rfl, rfl⟩)
  split
  · next h => exact .inr (.inl ⟨'n', by rw [h]; rfl, rfl⟩)
  split
  · next h => exact .inr (.inl ⟨'0', by rw [h]; rfl, rfl⟩)
  split
  · exact .inr (.inr rfl)
  · next hbackslash _ _ _ _ _ _ => exact .inl ⟨hbackslash, rfl⟩

theorem spellCodePoint_append_inj {c d : Char} {xs ys : List Char}
    (h : spellCodePoint c ++ xs = spellCodePoint d ++ ys) : c = d ∧ xs = ys := by
  unfold spellCodePoint at h
  simp only [List.cons_append, List.append_assoc, List.cons.injEq, true_and,
    List.nil_append] at h
  obtain ⟨hdigits, rfl⟩ :=
    append_cons_inj (brace_not_mem_toDigits _) (brace_not_mem_toDigits _) h
  exact ⟨Char.toNat_inj.1 (toDigits_injective hdigits), rfl⟩

theorem quoteChar_append_inj {c d : Char} {xs ys : List Char}
    (h : quoteChar c ++ xs = quoteChar d ++ ys) : c = d ∧ xs = ys := by
  have hspelled {e : Char} {us vs : List Char} {a : Char}
      (h : '\x5c' :: e :: us = spellCodePoint a ++ vs) (he : (unescaped? e).isSome) : False := by
    simp only [spellCodePoint, List.cons_append, List.cons.injEq, true_and] at h
    rw [h.1] at he
    exact absurd he (by decide)
  rcases quoteChar_cases c with ⟨hc, hcq⟩ | ⟨e, he, hcq⟩ | hcq <;>
    rcases quoteChar_cases d with ⟨hd, hdq⟩ | ⟨e', he', hdq⟩ | hdq <;> rw [hcq, hdq] at h
  · exact List.cons.inj h
  · exact absurd (List.cons.inj h).1 hc
  · exact absurd (List.cons.inj h).1 hc
  · exact absurd (List.cons.inj h).1.symm hd
  · simp only [List.cons_append, List.nil_append, List.cons.injEq, true_and] at h
    obtain ⟨rfl, rfl⟩ := h
    exact ⟨Option.some.inj (he.symm.trans he'), rfl⟩
  · exact absurd h fun h => hspelled h (by simp [he])
  · exact absurd (List.cons.inj h).1.symm hd
  · exact absurd h.symm fun h => hspelled h (by simp [he'])
  · exact spellCodePoint_append_inj h

theorem quoteChar_ne_nil (c : Char) : quoteChar c ≠ [] := by
  rcases quoteChar_cases c with ⟨-, hc⟩ | ⟨e, -, hc⟩ | hc <;> rw [hc]
  · exact List.cons_ne_nil _ _
  · exact List.cons_ne_nil _ _
  · exact List.cons_ne_nil _ _

theorem flatMap_quoteChar_injective {cs ds : List Char}
    (h : cs.flatMap quoteChar = ds.flatMap quoteChar) : cs = ds := by
  induction cs generalizing ds with
  | nil =>
    cases ds with
    | nil => rfl
    | cons d ds =>
      rw [List.flatMap_nil, List.flatMap_cons, eq_comm, List.append_eq_nil_iff] at h
      exact absurd h.1 (quoteChar_ne_nil d)
  | cons c cs ih =>
    cases ds with
    | nil =>
      rw [List.flatMap_nil, List.flatMap_cons, List.append_eq_nil_iff] at h
      exact absurd h.1 (quoteChar_ne_nil c)
    | cons d ds =>
      rw [List.flatMap_cons, List.flatMap_cons] at h
      obtain ⟨rfl, htail⟩ := quoteChar_append_inj h
      rw [ih htail]

theorem quote_injective {s t : String} (h : quote s = quote t) : s = t := by
  have hchars := congrArg String.toList h
  simp only [quote, String.toList_ofList, List.cons.injEq, true_and,
    List.append_cancel_right_eq] at hchars
  exact String.toList_inj.1 (flatMap_quoteChar_injective hchars)

end TreeQuery
