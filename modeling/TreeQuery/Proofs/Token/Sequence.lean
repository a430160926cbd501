import TreeQuery.Proofs.Token.Lexeme

/-!
# Sequences of tokens

How a whole text is read, as a relation. Reading can be taken up in the middle of a text: after a
token that has been read before, and up to a sign that no token reads into.
-/

set_option autoImplicit false

namespace TreeQuery

namespace Token

/-- Reading `cs`, after the blanks just passed, gives the tokens `ts`. -/
inductive SequenceScan : Bool → List Char → List Char → List Token → Prop
  | nil {started : Bool} {blanks : List Char} :
      SequenceScan started blanks [] (withBlanks started blanks endOfInput)
  | blank {started : Bool} {blanks : List Char} {c : Char} {cs : List Char} {ts : List Token} :
      isBlank c = true →
      SequenceScan started (c :: cs.takeWhile isBlank) (cs.dropWhile isBlank) ts →
      SequenceScan started blanks (c :: cs) ts
  | token {started : Bool} {blanks : List Char} {c : Char} {cs rest : List Char} {t : Token}
      {ts : List Token} : isBlank c = false → TokenScan c cs t rest →
      SequenceScan true [] rest ts →
      SequenceScan started blanks (c :: cs) (withBlanks started blanks t ++ ts)

theorem scan_iff {started : Bool} {blanks cs : List Char} {ts : List Token} :
    scan started blanks cs = .ok ts ↔ SequenceScan started blanks cs ts := by
  constructor
  · intro h
    fun_induction scan started blanks cs generalizing ts with
    | case1 =>
      cases h
      exact .nil
    | case2 started blanks c cs hblank ih => exact .blank hblank (ih h)
    | case3 => cases h
    | case4 => cases h
    | case5 started blanks c cs hblank t rest ht ts' hts ih =>
      cases h
      exact .token (by simpa using hblank) (scanToken_iff.mp ht) (ih hts)
  · intro h
    induction h with
    | nil => rw [scan]
    | blank hblank _ ih => rw [scan, if_pos hblank, ih]
    | token hblank ht _ ih =>
      rw [scan, if_neg (by simp [hblank])]
      split
      · next hrun =>
        rw [scanToken_iff.mpr ht] at hrun
        cases hrun
      · next hrun =>
        rw [scanToken_iff.mpr ht] at hrun
        cases hrun
        rw [ih]

section Scan

variable {started : Bool} {blanks cs more : List Char} {ts us : List Token}

/-! ## Blanks before the first token -/

theorem withBlanks_absorbed {t : Token} (h : t.kind.absorbsBlank = true) (started : Bool)
    (blanks : List Char) : withBlanks started blanks t = [t] := by
  rw [withBlanks, if_neg (by simp [h])]

theorem withBlanks_kept {t : Token} (h : t.kind.absorbsBlank = false) {blanks : List Char}
    (hblanks : blanks ≠ []) :
    withBlanks true blanks t = [⟨.whiteSpace, String.ofList blanks⟩, t] := by
  rw [withBlanks, if_pos (by simp [h, hblanks])]

theorem withBlanks_nil (started : Bool) (t : Token) : withBlanks started [] t = [t] := by
  rw [withBlanks, if_neg (by simp)]

/-- At the start of a text, blanks do not matter. -/
theorem SequenceScan.first (h : SequenceScan false blanks cs ts) : ∃ t us, ts = t :: us ∧
    ∀ started blanks, SequenceScan started blanks (cs.dropWhile isBlank)
      (withBlanks started blanks t ++ us) := by
  generalize hstart : false = started at h
  induction h with
  | nil =>
    subst hstart
    refine ⟨endOfInput, [], rfl, fun started blanks => ?_⟩
    rw [List.append_nil]
    exact .nil
  | @blank _ _ c cs ts hblank _ ih =>
    obtain ⟨t, us, rfl, hrest⟩ := ih hstart
    refine ⟨t, us, rfl, fun started blanks => ?_⟩
    rw [List.dropWhile_cons_of_pos hblank]
    rw [← List.dropWhile_idempotent isBlank cs]
    exact hrest started blanks
  | @token _ _ c cs rest t ts hblank ht hts _ =>
    subst hstart
    refine ⟨t, ts, rfl, fun started blanks => ?_⟩
    rw [List.dropWhile_cons_of_neg (by simp [hblank])]
    exact .token hblank ht hts

/-- After another token, the blanks at the start of a text become a token in front of its first
token. -/
theorem SequenceScan.restart (h : SequenceScan false blanks cs ts) : ∃ t us, ts = t :: us ∧
    SequenceScan true [] cs (withBlanks true (cs.takeWhile isBlank) t ++ us) := by
  obtain ⟨t, us, hts, hrest⟩ := h.first
  refine ⟨t, us, hts, ?_⟩
  have hrun := hrest true (cs.takeWhile isBlank)
  cases cs with
  | nil => exact hrun
  | cons c cs =>
    cases hblank : isBlank c with
    | false =>
      rw [List.takeWhile_cons_of_neg (by simp [hblank])] at hrun ⊢
      rw [List.dropWhile_cons_of_neg (by simp [hblank])] at hrun
      exact hrun
    | true =>
      rw [List.takeWhile_cons_of_pos hblank] at hrun ⊢
      rw [List.dropWhile_cons_of_pos hblank] at hrun
      exact .blank hblank hrun

theorem SequenceScan.cons_blank {c : Char} (hblank : isBlank c = true)
    (h : SequenceScan false blanks cs ts) : SequenceScan false blanks (c :: cs) ts := by
  obtain ⟨t, us, rfl, hrest⟩ := h.first
  exact .blank hblank (hrest false _)

/-! ## What follows the last token -/

theorem getLast?_of_suffix {xs ys : List Char} (h : xs <:+ ys) {x : Char}
    (hx : xs.getLast? = some x) : ys.getLast? = some x := by
  rw [← List.singleton_suffix_iff_getLast?_eq_some] at hx ⊢
  exact hx.trans h

/-- Signs of one character that absorb blanks and into which no token reads. -/
def closingKinds : List Kind := [.comma, .semicolon, .rightParen]

theorem endsToken_closing {k : Kind} (hk : k ∈ closingKinds) {x : Char} (hx : k.written = [x])
    (more : List Char) : EndsToken (x :: more) := by
  have hchar : x = ',' ∨ x = ';' ∨ x = ')' := by
    simp only [closingKinds, List.mem_cons, List.not_mem_nil, or_false] at hk
    rcases hk with rfl | rfl | rfl
    · exact .inl (List.cons.inj hx).1.symm
    · exact .inr (.inl (List.cons.inj hx).1.symm)
    · exact .inr (.inr (List.cons.inj hx).1.symm)
  intro y hy
  obtain rfl := Option.some.inj hy
  rcases hchar with rfl | rfl | rfl
  · exact ⟨rfl, fun k => by cases k <;> rfl⟩
  · exact ⟨rfl, fun k => by cases k <;> rfl⟩
  · exact ⟨rfl, fun k => by cases k <;> rfl⟩

theorem SequenceScan.closing {k : Kind} (hk : k ∈ closingKinds) {x : Char} (hx : k.written = [x])
    (hmore : SequenceScan true [] more us) (started : Bool) (blanks : List Char) :
    SequenceScan started blanks (x :: more) (ofKind k :: us) := by
  have hkind : k.absorbsBlank = true ∧ ∀ y, k.extendedBy y = false := by
    simp only [closingKinds, List.mem_cons, List.not_mem_nil, or_false] at hk
    rcases hk with rfl | rfl | rfl <;> exact ⟨rfl, fun y => rfl⟩
  have hblank : isBlank x = false := (endsToken_closing hk hx more x rfl).1
  have ht : TokenScan x more (ofKind k) more := .fixed hx fun y _ => hkind.2 y
  have hrun :
      SequenceScan started blanks (x :: more) (withBlanks started blanks (ofKind k) ++ us) :=
    .token hblank ht hmore
  rw [withBlanks_absorbed hkind.1] at hrun
  exact hrun

/-- Where a text ends, reading goes on in any text into which no token reads on. Unless the text ends
with blanks, it goes on right after a token. -/
theorem SequenceScan.extend (h : SequenceScan started blanks cs ts) (hmore : EndsToken more) :
    ∃ body started' blanks', ts = body ++ [endOfInput] ∧
      (∀ us, SequenceScan started' blanks' more us →
        SequenceScan started blanks (cs ++ more) (body ++ us)) ∧
      ((cs = [] → started = true ∧ blanks = []) → (∀ x ∈ cs.getLast?, isBlank x = false) →
        started' = true ∧ blanks' = []) := by
  induction h with
  | nil =>
    exact ⟨[], _, _, withBlanks_absorbed rfl _ _, fun us hus => hus, fun hnil _ => hnil rfl⟩
  | @blank _ blanks c cs ts hblank _ ih =>
    obtain ⟨body, started', blanks', rfl, hrun, hafter⟩ := ih
    refine ⟨body, started', blanks', rfl, fun us hus => ?_, fun _ hlast => hafter ?_ ?_⟩
    · have hstop : ∀ y ∈ more.head?, isBlank y = false := fun y hy => (hmore y hy).1
      have hrest := hrun us hus
      rw [← takeWhile_append_of_ends hstop, ← dropWhile_append_of_ends hstop] at hrest
      exact .blank hblank hrest
    · intro hnil
      have hall : ∀ y ∈ c :: cs, isBlank y = true := by
        intro y hy
        rcases List.mem_cons.mp hy with rfl | hy
        · exact hblank
        · exact List.dropWhile_eq_nil_iff.mp hnil y hy
      obtain ⟨x, hx⟩ := Option.isSome_iff_exists.mp (List.getLast?_isSome.mpr (List.cons_ne_nil c cs))
      have hkept := hlast x hx
      rw [hall x (List.mem_of_getLast? hx)] at hkept
      cases hkept
    · exact fun x hx => hlast x (getLast?_of_suffix
        ((List.dropWhile_suffix _).trans (List.suffix_cons _ _)) hx)
  | @token started blanks c cs rest t ts hblank ht _ ih =>
    obtain ⟨body, started', blanks', rfl, hrun, hafter⟩ := ih
    refine ⟨withBlanks started blanks t ++ body, started', blanks', by simp, fun us hus => ?_,
      fun _ hlast => hafter (fun _ => ⟨rfl, rfl⟩) ?_⟩
    · rw [List.append_assoc]
      exact .token hblank (ht.append hmore) (hrun us hus)
    · exact fun x hx => hlast x (getLast?_of_suffix ht.suffix hx)

/-- A text in front of a closing sign is read as it is read alone, but for the end of input. -/
theorem SequenceScan.append (h : SequenceScan started blanks cs ts) {k : Kind}
    (hk : k ∈ closingKinds) {x : Char} (hx : k.written = [x])
    (hmore : SequenceScan true [] more us) : ∃ body, ts = body ++ [endOfInput] ∧
      SequenceScan started blanks (cs ++ x :: more) (body ++ ofKind k :: us) := by
  obtain ⟨body, _, _, hts, hrun, -⟩ := h.extend (endsToken_closing hk hx more)
  exact ⟨body, hts, hrun _ (.closing hk hx hmore _ _)⟩

/-- A text that does not end with a blank is read as it is read alone, and what follows it as after
a token. -/
theorem SequenceScan.resume (h : SequenceScan false [] cs ts) (hne : cs ≠ [])
    (hlast : ∀ x ∈ cs.getLast?, isBlank x = false) (hends : EndsToken more)
    (hmore : SequenceScan true [] more us) : ∃ body, ts = body ++ [endOfInput] ∧
      SequenceScan false [] (cs ++ more) (body ++ us) := by
  obtain ⟨body, started', blanks', hts, hrun, hafter⟩ := h.extend hends
  obtain ⟨rfl, rfl⟩ := hafter (fun hnil => absurd hnil hne) hlast
  exact ⟨body, hts, hrun us hmore⟩

end Scan

end Token

theorem tokenize_iff {source : String} {tokens : List Token} :
    tokenize source = .ok tokens ↔ Token.SequenceScan false [] source.toList tokens := by
  rw [← Token.scan_iff, tokenize]
  cases Token.scan false [] source.toList with
  | error e => simp
  | ok ts => simp

end TreeQuery
