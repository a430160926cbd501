import TreeQuery.Proofs.Token.Render

/-!
# Texts with blanks between them

Two texts with at least two blanks between them are read one after the other. An escape of digits at
the end of the first text takes in one of the blanks, and the other one still ends its last token.
-/

set_option autoImplicit false

namespace TreeQuery

namespace Token

/-- Blanks before a character that is not blank end there, whatever follows. -/
theorem blanks_append {cs : List Char} (h : cs.dropWhile isBlank ≠ []) (more : List Char) :
    (cs ++ more).takeWhile isBlank = cs.takeWhile isBlank ∧
      (cs ++ more).dropWhile isBlank = cs.dropWhile isBlank ++ more := by
  have hsplit := congrArg List.length (List.takeWhile_append_dropWhile (p := isBlank) (l := cs))
  have hpos := List.length_pos_of_ne_nil h
  rw [List.length_append] at hsplit
  constructor
  · rw [List.takeWhile_append, if_neg (by omega)]
  · rw [List.dropWhile_append, if_neg (by simpa using h)]

/-- Before two blanks a token is read as at the end of a text. If it ends with an escape, the escape
may take in the first of them. -/
theorem TokenScan.extend_blanks {c b b' : Char} {cs rest : List Char} {t : Token}
    (h : TokenScan c cs t rest) (hb : isBlank b = true) (hb' : isBlank b' = true)
    (more : List Char) : TokenScan c (cs ++ b :: b' :: more) t (rest ++ b :: b' :: more) ∨
      rest = [] ∧ TokenScan c (cs ++ b :: b' :: more) t (b' :: more) := by
  have hafter : afterBlank (b :: b' :: more) = b' :: more := by simp [afterBlank, hb]
  have hends : EndsVisible (afterBlank (b :: b' :: more)) := by
    rw [hafter]
    exact endsVisible_blank hb' more
  obtain ⟨left, hrun, hleft⟩ := h.extend (endsVisible_blank hb (b' :: more)) hends
  rcases hleft with rfl | ⟨hnil, rfl⟩
  · exact .inl hrun
  · rw [hafter] at hrun
    exact .inr ⟨hnil, hrun⟩

/-- Reading `cs` gives `body` and passes some blanks, and goes on with the text `more` after the
blanks that `more` starts with. -/
def ReadsUpTo (more : List Char) (started : Bool) (blanks cs : List Char) (body : List Token) :
    Prop :=
  ∃ passed, passed ≠ [] ∧ ∀ us,
    SequenceScan (started || !body.isEmpty) passed (more.dropWhile isBlank) us →
      SequenceScan started blanks cs (body ++ us)

section Scan

variable {started : Bool} {blanks cs w more : List Char} {body ts : List Token}

theorem SequenceScan.eq_of_nil (h : SequenceScan started blanks [] ts) : ts = [endOfInput] := by
  cases h
  exact withBlanks_absorbed rfl _ _

theorem ReadsUpTo.run (hw : ∀ c ∈ w, isBlank c = true) (hne : w ≠ []) :
    ReadsUpTo more started blanks (w ++ more) [] := by
  cases w with
  | nil => exact absurd rfl hne
  | cons b w =>
    obtain ⟨hb, hrest⟩ := List.forall_mem_cons.mp hw
    refine ⟨b :: (w ++ more.takeWhile isBlank), List.cons_ne_nil _ _, fun us hus => .blank hb ?_⟩
    rw [List.isEmpty_nil, Bool.not_true, Bool.or_false] at hus
    rw [List.append_eq, List.takeWhile_append_of_pos hrest, List.dropWhile_append_of_pos hrest]
    exact hus

theorem ReadsUpTo.blank {c : Char} (hblank : isBlank c = true)
    (h : ReadsUpTo more started (c :: cs.takeWhile isBlank) (cs.dropWhile isBlank) body) :
    ReadsUpTo more started blanks (c :: cs) body := by
  obtain ⟨passed, hne, hrun⟩ := h
  exact ⟨passed, hne, fun us hus => .blank hblank (hrun us hus)⟩

theorem ReadsUpTo.token {c : Char} {rest : List Char} {t : Token} (hblank : isBlank c = false)
    (ht : TokenScan c cs t rest) (h : ReadsUpTo more true [] rest body) :
    ReadsUpTo more started blanks (c :: cs) (withBlanks started blanks t ++ body) := by
  obtain ⟨passed, hne, hrun⟩ := h
  refine ⟨passed, hne, fun us hus => ?_⟩
  have hnonempty : withBlanks started blanks t ++ body ≠ [] := by
    unfold withBlanks
    split <;> simp
  rw [List.isEmpty_eq_false_iff.mpr hnonempty, Bool.not_false, Bool.or_true] at hus
  rw [List.append_assoc]
  exact .token hblank ht (hrun us (by rwa [Bool.true_or]))

/-- Where a text ends before two blanks or more, its tokens are read as they are alone. -/
theorem SequenceScan.extend_blanks (h : SequenceScan started blanks cs ts)
    (hw : ∀ c ∈ w, isBlank c = true) (hlength : 2 ≤ w.length) : ∃ body, ts = body ++ [endOfInput] ∧
      ∀ more, ReadsUpTo more started blanks (cs ++ (w ++ more)) body := by
  have hne : w ≠ [] := by
    rintro rfl
    cases hlength
  induction h with
  | nil => exact ⟨[], withBlanks_absorbed rfl _ _, fun more => .run hw hne⟩
  | @blank started blanks c cs ts hblank hrest ih =>
    obtain ⟨body, hts, hbody⟩ := ih
    by_cases hnil : cs.dropWhile isBlank = []
    · rw [hnil] at hrest
      have hrun : ∀ x ∈ c :: cs ++ w, isBlank x = true := by
        rw [List.forall_mem_append, List.forall_mem_cons]
        exact ⟨⟨hblank, List.dropWhile_eq_nil_iff.mp hnil⟩, hw⟩
      refine ⟨[], hrest.eq_of_nil, fun more => ?_⟩
      rw [← List.append_assoc]
      exact .run hrun (by simp)
    · refine ⟨body, hts, fun more => .blank hblank ?_⟩
      obtain ⟨htake, hdrop⟩ := blanks_append hnil (w ++ more)
      rw [List.append_eq, htake, hdrop]
      exact hbody more
  | @token started blanks c cs rest t ts hblank ht hts ih =>
    obtain ⟨body, rfl, hbody⟩ := ih
    refine ⟨withBlanks started blanks t ++ body, by simp, fun more => ?_⟩
    match w, hlength with
    | b :: b' :: run, _ =>
      obtain ⟨hb, hw'⟩ := List.forall_mem_cons.mp hw
      rcases ht.extend_blanks hb (hw' b' List.mem_cons_self) (run ++ more) with hrun | ⟨rfl, hrun⟩
      · exact .token hblank hrun (hbody more)
      · obtain rfl : body = [] := by simpa using hts.eq_of_nil
        exact .token hblank hrun (.run hw' (List.cons_ne_nil _ _))

theorem SequenceScan.pass (hw : ∀ c ∈ w, isBlank c = true)
    (h : SequenceScan false blanks cs ts) : SequenceScan false blanks (w ++ cs) ts := by
  induction w with
  | nil => exact h
  | cons b w ih =>
    obtain ⟨hb, hrest⟩ := List.forall_mem_cons.mp hw
    exact (ih hrest).cons_blank hb

/-- A text before two blanks or more, at the end and in front of another text. -/
theorem SequenceScan.around {vs : List Token} {v : List Char} (h : SequenceScan false [] cs ts)
    (hv : SequenceScan false [] v vs) (hw : ∀ c ∈ w, isBlank c = true) (hlength : 2 ≤ w.length) :
    SequenceScan false [] (cs ++ w) ts ∧
      ∃ body first rest passed, ts = body ++ [endOfInput] ∧ vs = first :: rest ∧ passed ≠ [] ∧
        SequenceScan false [] (cs ++ (w ++ v))
          (body ++ (withBlanks (!body.isEmpty) passed first ++ rest)) := by
  obtain ⟨body, rfl, hbody⟩ := h.extend_blanks hw hlength
  constructor
  · obtain ⟨passed, -, hrun⟩ := hbody []
    have hend := hrun _ .nil
    rwa [withBlanks_absorbed rfl, List.append_nil] at hend
  · obtain ⟨first, rest, rfl, hfirst⟩ := hv.first
    obtain ⟨passed, hpassed, hrun⟩ := hbody v
    exact ⟨body, first, rest, passed, rfl, rfl, hpassed, hrun _ (hfirst _ passed)⟩

end Scan

theorem isBlank_iff {c : Char} : isBlank c = true ↔ c ∈ [' ', '\t', '\n', '\r', '\x0c'] := by
  simp [isBlank, or_assoc]

theorem Kind.absorbsBlank_iff {k : Kind} (hk : k ≠ .endOfInput) : k.absorbsBlank = true ↔
    k ∈ [Kind.comma, .plus, .greater, .tilde, .rightParen, .rightBracket, .semicolon] := by
  cases k <;> first | exact absurd rfl hk | simp [absorbsBlank]

end Token

open Token

/-- Two blanks or more between two texts that are not empty are one token of blanks, unless the
second text starts with a sign that absorbs them. At either end of a text they do not matter. -/
theorem tokenize_blanks {u v w : String} {us vs : List Token} {first : Token}
    (hu : tokenize u = .ok us) (hus : ∃ t ∈ us, t ≠ endOfInput)
    (hv : tokenize v = .ok (first :: vs)) (hvs : ∃ t ∈ first :: vs, t ≠ endOfInput)
    (hw : ∀ c ∈ w.toList, c ∈ [' ', '\t', '\n', '\r', '\x0c']) (hlength : 2 ≤ w.length) :
    (∃ body gap, us = body ++ [endOfInput] ∧
      tokenize (u ++ w ++ v) = .ok (body ++ gap ++ first :: vs) ∧
      if first.kind ∈ [Kind.comma, .plus, .greater, .tilde, .rightParen, .rightBracket, .semicolon]
      then gap = [] else ∃ blank : Token, blank.kind = .whiteSpace ∧ gap = [blank]) ∧
      tokenize (w ++ v) = tokenize v ∧ tokenize (u ++ w) = tokenize u := by
  have hblanks : ∀ c ∈ w.toList, isBlank c = true := fun c hc => isBlank_iff.mpr (hw c hc)
  have hscan := tokenize_iff.mp hv
  obtain ⟨htrailing, body, first', rest, passed, rfl, hvs', hpassed, hrun⟩ :=
    (tokenize_iff.mp hu).around hscan hblanks hlength
  obtain ⟨rfl, rfl⟩ := List.cons.inj hvs'
  refine ⟨⟨body, ?_⟩, ?_, ?_⟩
  · have hbody : (!body.isEmpty) = true := by
      obtain ⟨t, ht, hne⟩ := hus
      cases body with
      | nil => exact absurd (List.mem_singleton.mp ht) hne
      | cons => rfl
    have hfirst : first.kind ≠ .endOfInput := by
      rcases (readable_of_tokenize hv).cases_head with ⟨rfl, rfl⟩ | hvisible
      · obtain ⟨t, ht, hne⟩ := hvs
        exact absurd (List.mem_singleton.mp ht) hne
      · exact hvisible.not_end
    have hall : tokenize (u ++ w ++ v) = .ok (body ++ (withBlanks true passed first ++ vs)) := by
      rw [tokenize_iff, String.toList_append, String.toList_append, List.append_assoc, ← hbody]
      exact hrun
    cases hkind : first.kind.absorbsBlank with
    | true =>
      rw [withBlanks_absorbed hkind] at hall
      refine ⟨[], rfl, by simpa using hall, ?_⟩
      rw [if_pos ((Kind.absorbsBlank_iff hfirst).mp hkind)]
    | false =>
      rw [withBlanks_kept hkind hpassed] at hall
      refine ⟨[⟨.whiteSpace, String.ofList passed⟩], rfl, by simpa using hall, ?_⟩
      rw [if_neg (by simp [← Kind.absorbsBlank_iff hfirst, hkind])]
      exact ⟨_, rfl, rfl⟩
  · rw [hv, tokenize_iff, String.toList_append]
    exact hscan.pass hblanks
  · rw [hu, tokenize_iff, String.toList_append]
    exact htrailing

/-- One blank is not enough after an escape of digits, which takes it in. -/
example : tokenize ("\\41" ++ " " ++ "b") = .ok [⟨.ident, "Ab"⟩, endOfInput] :=
  tokenize_of_scanWithin (by cbv)

/-- Of two blanks after an escape of digits, the second one is left to stand between the texts. -/
theorem tokenize_blanks_escape :
    ∃ blank : Token, blank.kind = .whiteSpace ∧ tokenize ("p \\41" ++ " \n" ++ " b,c") = .ok
      ([⟨.ident, "p"⟩, ⟨.whiteSpace, " "⟩, ⟨.ident, "A"⟩] ++ [blank] ++
        [⟨.ident, "b"⟩, ofKind .comma, ⟨.ident, "c"⟩, endOfInput]) := by
  have hu : tokenize "p \\41" = .ok ([⟨.ident, "p"⟩, ⟨.whiteSpace, " "⟩, ⟨.ident, "A"⟩] ++
      [endOfInput]) := tokenize_of_scanWithin (by cbv)
  have hv : tokenize " b,c" = .ok [⟨.ident, "b"⟩, ofKind .comma, ⟨.ident, "c"⟩, endOfInput] :=
    tokenize_of_scanWithin (by cbv)
  obtain ⟨⟨body, gap, hbody, hrun, hgap⟩, -⟩ := tokenize_blanks hu
    ⟨⟨.ident, "p"⟩, by simp, by decide⟩ hv ⟨⟨.ident, "b"⟩, by simp, by decide⟩
    (by simp : ∀ c ∈ " \n".toList, c ∈ [' ', '\t', '\n', '\r', '\x0c']) (by decide)
  obtain ⟨blank, hblank, rfl⟩ := hgap
  obtain rfl := List.append_cancel_right hbody
  exact ⟨blank, hblank, hrun⟩

end TreeQuery
