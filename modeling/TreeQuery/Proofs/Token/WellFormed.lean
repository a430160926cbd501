import TreeQuery.Proofs.Token.Render

/-!
# Well-formed token streams

Which sequences of tokens are the stream of some text, said of the tokens and of the pairs of
neighbours alone. What `Readable` says of written forms is said here of kinds.
-/

set_option autoImplicit false

namespace TreeQuery

namespace Token

/-- `u` may be the next token of a stream after `t`. Blanks stand before tokens that do not absorb
them, and a token that would have been read on into `u` does not stand before it. -/
def MayPrecede (t u : Token) : Prop :=
  match t.kind with
  | .whiteSpace => u.kind ∉ [Kind.whiteSpace, .comma, .plus, .greater, .tilde, .rightParen,
      .rightBracket, .semicolon, .endOfInput]
  | .ident => u.kind ∉ [Kind.ident, .function, .integer, .leftParen]
  | .hash => u.kind ∉ [Kind.ident, .function, .integer]
  | .integer => u.kind = .integer → u.text.toList.head? = some '-'
  | .tilde | .pipe | .star => u.kind ∉ [Kind.equals]
  | _ => True

/-- The stream ends with its only end of input and does not start with blanks, each token has a text
of its kind, and each may stand before the next one. -/
structure WellFormed (ts : List Token) : Prop where
  last : ts.getLast? = some endOfInput
  single : ∀ t ∈ ts.dropLast, t.kind ≠ .endOfInput
  first : ∀ t ∈ ts.head?, t.kind ≠ .whiteSpace
  proper : ∀ t ∈ ts, t.Proper
  neighbours : ts.IsChain MayPrecede

/-! ## Neighbours without blanks between them -/

section Neighbours

variable {t u : Token}

def start? : Kind → Option Char
  | .ident | .function => some '\x5c'
  | .hash => some '#'
  | .string => some '\x22'
  | k => k.written.head?

theorem head?_spell (h : u.Proper) (hinteger : u.kind ≠ .integer) (hblank : u.kind ≠ .whiteSpace) :
    u.spell.head? = start? u.kind := by
  obtain ⟨kind, text⟩ := u
  cases kind
  case ident => exact spelledName_head h
  case function =>
    rw [spell, List.head?_append, spelledName_head h]
    rfl
  case integer => exact absurd rfl hinteger
  case whiteSpace => exact absurd rfl hblank
  all_goals rfl

/-- The first character of an integer. -/
theorem Proper.head?_integer (h : u.Proper) (hkind : u.kind = .integer) :
    ∃ c, u.text.toList.head? = some c ∧ u.spell.head? = some c ∧ (c.isDigit = true ∨ c = '-') := by
  obtain ⟨kind, text⟩ := u
  obtain rfl : kind = .integer := hkind
  obtain ⟨c, digits, htext, hstart, -⟩ := h
  have hhead : text.toList.head? = some c := by rw [htext, List.head?_cons]
  exact ⟨c, hhead, hhead, hstart.imp_right And.left⟩

theorem isNameChar_of_isDigit {c : Char} (h : c.isDigit = true ∨ c = '-') :
    isNameChar c = true := by
  simpa [isNameChar, or_assoc] using Or.inr h

variable (hu : u.Proper) (hkind : u.kind ≠ .whiteSpace)
include hu hkind

/-- Which kinds extend a token can be read off their first characters. All integers count alike. -/
theorem endsBefore_iff {k : Kind} {kinds : List Kind}
    (hinteger : ∀ c : Char, c.isDigit = true ∨ c = '-' →
      (k.extendedBy c = false ↔ .integer ∉ kinds))
    (hothers : ∀ other ≠ .integer, (∀ c ∈ start? other, k.extendedBy c = false) ↔ other ∉ kinds) :
    k.EndsBefore u.spell ↔ u.kind ∉ kinds := by
  unfold Kind.EndsBefore
  by_cases hk : u.kind = .integer
  · obtain ⟨c, -, hc, hdigit⟩ := hu.head?_integer hk
    simpa [hc, hk] using hinteger c hdigit
  · rw [head?_spell hu hk hkind]
    exact hothers u.kind hk

theorem endsBefore_ident :
    Kind.ident.EndsBefore u.spell ↔ u.kind ∉ [Kind.ident, .function, .integer, .leftParen] := by
  refine endsBefore_iff hu hkind (fun c hc => ?_) fun other hne => ?_
  · simp [Kind.extendedBy, isNameChar_of_isDigit hc]
  · cases other
    case integer => exact absurd rfl hne
    all_goals simp [start?, Kind.written, Kind.fixedText?] <;> rfl

theorem endsBefore_hash :
    Kind.hash.EndsBefore u.spell ↔ u.kind ∉ [Kind.ident, .function, .integer] := by
  refine endsBefore_iff hu hkind (fun c hc => ?_) fun other hne => ?_
  · simp [Kind.extendedBy, isNameChar_of_isDigit hc]
  · cases other
    case integer => exact absurd rfl hne
    all_goals simp [start?, Kind.written, Kind.fixedText?] <;> rfl

theorem endsBefore_sign {k : Kind} (hk : ∀ x, k.extendedBy x = (x == '=')) :
    k.EndsBefore u.spell ↔ u.kind ∉ [Kind.equals] := by
  refine endsBefore_iff hu hkind (fun c hc => ?_) fun other _ => ?_
  · have hne : c ≠ '=' := by
      rintro rfl
      exact absurd hc (by decide)
    simp [hk, hne]
  · cases other <;> simp [hk, start?, Kind.written, Kind.fixedText?]

/-- An integer without a sign extends an integer. -/
theorem endsBefore_integer :
    Kind.integer.EndsBefore u.spell ↔ (u.kind = .integer → u.text.toList.head? = some '-') := by
  unfold Kind.EndsBefore
  by_cases hk : u.kind = .integer
  · obtain ⟨c, htext, hc, hdigit⟩ := hu.head?_integer hk
    simp only [hc, htext, hk, Option.mem_def, Option.some.injEq, forall_eq', forall_const]
    constructor
    · intro hends
      exact hdigit.resolve_left (by simpa [Kind.extendedBy] using hends)
    · rintro rfl
      rfl
  · rw [head?_spell hu hk hkind]
    refine iff_of_true ?_ fun h => absurd h hk
    cases u.kind <;> simp [start?, Kind.written, Kind.fixedText?] <;> rfl

/-- Without blanks between them, `u` may follow `t` if its written form does not extend `t`. -/
theorem mayPrecede_iff (ht : t.kind ≠ .whiteSpace) :
    t.MayPrecede u ↔ t.kind.EndsBefore u.spell := by
  unfold MayPrecede
  cases hk : t.kind
  case ident => exact (endsBefore_ident hu hkind).symm
  case hash => exact (endsBefore_hash hu hkind).symm
  case integer => exact (endsBefore_integer hu hkind).symm
  case tilde | pipe | star =>
    exact (endsBefore_sign hu hkind fun x => rfl).symm
  case whiteSpace => exact absurd hk ht
  all_goals exact ⟨fun _ x _ => rfl, fun _ => trivial⟩

end Neighbours

/-! ## Neighbours with blanks between them -/

section Blanks

variable {b t u : Token} {us : List Token}

theorem mayPrecede_blank (hb : b.kind = .whiteSpace) (ht : t.kind ≠ .whiteSpace) :
    t.MayPrecede b := by
  unfold MayPrecede
  rw [hb]
  split <;> simp_all

theorem blank_mayPrecede_iff (hb : b.kind = .whiteSpace) :
    b.MayPrecede u ↔ u.kind ≠ .whiteSpace ∧ u.kind.absorbsBlank = false := by
  unfold MayPrecede
  rw [hb]
  cases u.kind <;> simp [Kind.absorbsBlank]

theorem WellFormed.head_not_blank (h : WellFormed (u :: us)) : u.kind ≠ .whiteSpace :=
  h.first u rfl

theorem wellFormed_endOfInput : WellFormed [endOfInput] where
  last := rfl
  single t ht := by cases ht
  first t ht := by
    obtain rfl := Option.some.inj ht
    decide
  proper t ht := by
    obtain rfl := List.mem_singleton.mp ht
    rfl
  neighbours := .singleton _

/-- A token in front of a stream, right before its first token. -/
theorem WellFormed.cons (h : WellFormed (u :: us)) (ht : t.Visible) (hnext : t.MayPrecede u) :
    WellFormed (t :: u :: us) where
  last := by rw [List.getLast?_cons_cons, h.last]
  single := by
    rw [List.dropLast_cons_cons]
    exact List.forall_mem_cons.mpr ⟨ht.not_end, h.single⟩
  first := by
    intro x hx
    obtain rfl := Option.some.inj hx
    exact ht.not_blank
  proper := List.forall_mem_cons.mpr ⟨ht.proper, h.proper⟩
  neighbours := .cons_cons hnext h.neighbours

/-- A token in front of a stream, with blanks before the first token. -/
theorem WellFormed.blank (h : WellFormed (u :: us)) (ht : t.Visible) (hb : b.kind = .whiteSpace)
    (hproper : b.Proper) (hnext : b.MayPrecede u) : WellFormed (t :: b :: u :: us) where
  last := by rw [List.getLast?_cons_cons, List.getLast?_cons_cons, h.last]
  single := by
    rw [List.dropLast_cons_cons, List.dropLast_cons_cons]
    refine List.forall_mem_cons.mpr ⟨ht.not_end, List.forall_mem_cons.mpr ⟨?_, h.single⟩⟩
    rw [hb]
    decide
  first := by
    intro x hx
    obtain rfl := Option.some.inj hx
    exact ht.not_blank
  proper := List.forall_mem_cons.mpr ⟨ht.proper, List.forall_mem_cons.mpr ⟨hproper, h.proper⟩⟩
  neighbours := .cons_cons (mayPrecede_blank hb ht.not_blank) (.cons_cons hnext h.neighbours)

end Blanks

/-! ## Readable sequences -/

theorem Readable.wellFormed {ts : List Token} (h : Readable ts) : WellFormed ts := by
  induction h with
  | last => exact wellFormed_endOfInput
  | @next t u blanks us ht hblanks hends _ ih =>
    have hu : u.Proper := ih.proper u List.mem_cons_self
    have hadjacent : t.kind.EndsBefore u.spell → WellFormed (t :: u :: us) := fun h =>
      ih.cons ht ((mayPrecede_iff hu ih.head_not_blank ht.not_blank).mpr h)
    cases habsorbs : u.kind.absorbsBlank with
    | true =>
      rw [withBlanks_absorbed habsorbs]
      exact hadjacent ((endsToken_spell habsorbs).endsBefore _)
    | false =>
      cases blanks with
      | nil =>
        rw [withBlanks_nil]
        exact hadjacent (hends rfl)
      | cons b blanks =>
        rw [withBlanks_kept habsorbs (List.cons_ne_nil b blanks)]
        refine ih.blank ht rfl ⟨by simp, by simpa using hblanks⟩ ?_
        exact (blank_mayPrecede_iff rfl).mpr ⟨ih.head_not_blank, habsorbs⟩

theorem WellFormed.visible {t u : Token} {us : List Token} (h : WellFormed (t :: u :: us)) :
    t.Visible where
  proper := h.proper t List.mem_cons_self
  kind_ne := by
    have hend := h.single t (by simp)
    simp [h.head_not_blank, hend]

/-- What is left of a stream from one of its tokens on. -/
theorem WellFormed.of_suffix {ts us : List Token} {u : Token} (h : WellFormed ts)
    (hsuffix : u :: us <:+ ts) (hu : u.kind ≠ .whiteSpace) : WellFormed (u :: us) := by
  obtain ⟨before, rfl⟩ := hsuffix
  exact {
    last := by rw [← h.last, List.getLast?_append_of_ne_nil _ (List.cons_ne_nil u us)]
    single := by
      intro x hx
      apply h.single
      rw [List.dropLast_append_of_ne_nil (List.cons_ne_nil u us)]
      exact List.mem_append_right _ hx
    first := by
      intro x hx
      obtain rfl := Option.some.inj hx
      exact hu
    proper := fun x hx => h.proper x (List.mem_append_right _ hx)
    neighbours := h.neighbours.right_of_append }

/-- Blanks stand before a token that does not absorb them. -/
theorem WellFormed.after_blank {t b : Token} {us : List Token} (h : WellFormed (t :: b :: us))
    (hb : b.kind = .whiteSpace) :
    ∃ u vs, us = u :: vs ∧ u.kind ≠ .whiteSpace ∧ u.kind.absorbsBlank = false := by
  cases us with
  | nil =>
    have hlast : b = endOfInput := by simpa using h.last
    rw [hlast] at hb
    cases hb
  | cons u vs => exact ⟨u, vs, rfl, (blank_mayPrecede_iff hb).mp h.neighbours.tail.rel⟩

theorem WellFormed.readable {ts : List Token} (h : WellFormed ts) : Readable ts := by
  match ts, h with
  | [], h => exact absurd h.last (by simp)
  | [t], h =>
    have hlast : t = endOfInput := by simpa using h.last
    rw [hlast]
    exact .last
  | t :: u :: us, h =>
    by_cases hu : u.kind = .whiteSpace
    · obtain ⟨v, vs, rfl, hv, habsorbs⟩ := h.after_blank hu
      have hread : Readable (v :: vs) := (h.of_suffix (List.suffix_append [t, u] _) hv).readable
      obtain ⟨hne, hblanks⟩ : u.text.toList ≠ [] ∧ ∀ c ∈ u.text.toList, isBlank c = true := by
        have hproper := h.proper u (by simp)
        rwa [Proper, hu] at hproper
      have hnext := Readable.next h.visible hblanks (fun hnil => absurd hnil hne) hread
      rw [withBlanks_kept habsorbs hne, String.ofList_toList, ← hu] at hnext
      exact hnext
    · have hread : Readable (u :: us) := (h.of_suffix (List.suffix_cons _ _) hu).readable
      have hends : t.kind.EndsBefore u.spell :=
        (mayPrecede_iff (h.proper u (by simp)) hu h.visible.not_blank).mp h.neighbours.rel
      have hnext := @Readable.next t u [] us h.visible (by simp) (fun _ => hends) hread
      rw [withBlanks_nil] at hnext
      exact hnext
termination_by ts.length

end Token

open Token in
/-- The streams of texts are exactly the well-formed sequences of tokens. -/
theorem exists_tokenize_iff_wellFormed {tokens : List Token} :
    (∃ source, tokenize source = .ok tokens) ↔ WellFormed tokens := by
  rw [exists_tokenize_iff]
  exact ⟨Readable.wellFormed, WellFormed.readable⟩

end TreeQuery
