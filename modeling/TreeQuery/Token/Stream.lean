import TreeQuery.Token.Scan

/-!
# Token streams

A text is read token by token up to the end of input. A run of blanks is kept as one token where
it can stand for the descendant combinator, and dropped elsewhere.
-/

set_option autoImplicit false

namespace TreeQuery

namespace Token

theorem length_scanIdentLike {c : Char} {cs rest : List Char} {t : Token}
    (hc : startsIdent c cs) (h : scanIdentLike (c :: cs) = .ok (t, rest)) :
    rest.length ≤ cs.length := by
  have key : ∀ {name r}, scanName (c :: cs) = .ok (name, r) → r.length ≤ cs.length := by
    intro name r hn
    rw [scanName] at hn
    split at hn
    · split at hn
      · simp at hn
      · next e r' he =>
        cases hr : scanName r' with
        | error => simp [hr, Except.map] at hn
        | ok p =>
          simp only [hr, Except.map, Except.ok.injEq, Prod.mk.injEq] at hn
          obtain ⟨-, rfl⟩ := hn
          have := length_scanEscape he
          have := length_scanName hr
          omega
    · next hb =>
      have : isNameChar c = true := by
        unfold startsIdent at hc
        split at hc
        · next hm => subst hm; decide
        · simp only [Bool.or_eq_true, beq_iff_eq, hb, or_false] at hc
          simp [isNameChar, hc]
      rw [if_pos this] at hn
      cases hr : scanName cs with
      | error => simp [hr, Except.map] at hn
      | ok p =>
        simp only [hr, Except.map, Except.ok.injEq, Prod.mk.injEq] at hn
        obtain ⟨-, rfl⟩ := hn
        exact length_scanName hr
  unfold scanIdentLike at h
  split at h
  · simp at h
  · next hn =>
    simp only [Except.ok.injEq, Prod.mk.injEq] at h
    obtain ⟨-, rfl⟩ := h
    have := key hn
    simp only [List.length_cons] at this
    omega
  · next hn =>
    simp only [Except.ok.injEq, Prod.mk.injEq] at h
    obtain ⟨-, rfl⟩ := h
    exact key hn

theorem length_scanOperator (alone withEquals : Kind) (cs : List Char) :
    (scanOperator alone withEquals cs).2.length ≤ cs.length := by
  unfold scanOperator
  split <;> simp

theorem length_scanToken {c : Char} {cs rest : List Char} {t : Token}
    (h : scanToken c cs = .ok (t, rest)) : rest.length ≤ cs.length := by
  unfold scanToken at h
  split at h
  · split at h
    · simp at h
    · simp at h
    · next hn =>
      simp only [Except.ok.injEq, Prod.mk.injEq] at h
      obtain ⟨-, rfl⟩ := h
      exact length_scanName hn
  split at h
  · split at h
    · simp at h
    · next hs =>
      simp only [Except.ok.injEq, Prod.mk.injEq] at h
      obtain ⟨-, rfl⟩ := h
      exact length_scanString hs
  split at h
  · simp only [Except.ok.injEq, Prod.mk.injEq] at h
    obtain ⟨-, rfl⟩ := h
    exact (List.dropWhile_sublist _).length_le
  split at h
  · next hc => exact length_scanIdentLike hc h
  split at h
  · have := length_scanOperator .tilde .includes cs
    simp only [Except.ok.injEq] at h
    simpa [h] using this
  split at h
  · have := length_scanOperator .pipe .dashMatch cs
    simp only [Except.ok.injEq] at h
    simpa [h] using this
  split at h
  · have := length_scanOperator .star .substringMatch cs
    simp only [Except.ok.injEq] at h
    simpa [h] using this
  split at h
  · simp only [Except.ok.injEq, Prod.mk.injEq] at h
    simp [h.2]
  · simp at h
  · split at h
    · simp only [Except.ok.injEq, Prod.mk.injEq] at h
      simp [h.2]
    · simp at h

/-- What a token adds to the stream: itself, after the blanks that stand before it unless the
stream is just starting or the token absorbs them. -/
def withBlanks (started : Bool) (blanks : List Char) (t : Token) : List Token :=
  if started && !blanks.isEmpty && !t.kind.absorbsBlank then
    [⟨.whiteSpace, String.ofList blanks⟩, t]
  else [t]

/-- Reads all tokens of a text. `started` tells whether a token has been read before, and `blanks`
is the run of blanks just passed. -/
def scan (started : Bool) (blanks : List Char) (cs : List Char) : Except Misread (List Token) :=
  match cs with
  | [] => .ok (withBlanks started blanks endOfInput)
  | c :: cs =>
    if isBlank c then
      scan started (c :: cs.takeWhile isBlank) (cs.dropWhile isBlank)
    else
      match _h : scanToken c cs with
      | .error e => .error e
      | .ok (t, rest) =>
        match scan true [] rest with
        | .error e => .error e
        | .ok ts => .ok (withBlanks started blanks t ++ ts)
termination_by cs.length
decreasing_by
  · have := (List.dropWhile_sublist isBlank (l := cs)).length_le
    simp only [List.length_cons]
    omega
  · have := length_scanToken ‹_›
    simp only [List.length_cons]
    omega

end Token

open Token in
/-- Reads a text as tokens, the end of input last. A fault is reported with its position, counted
in characters. -/
def tokenize (source : String) : Except SelectorError (List Token) :=
  match scan false [] source.toList with
  | .ok tokens => .ok tokens
  | .error e => .error (.lexical e.fault (source.length - e.rest.length) source)

end TreeQuery
