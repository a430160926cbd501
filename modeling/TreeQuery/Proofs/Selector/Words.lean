import Mathlib
import TreeQuery.Document.Builder
import TreeQuery.Pattern.OfText
import TreeQuery.Proofs.Selector.Evaluation

/-!
# Class names and words of attributes

Both a class selector and the word test of the class attribute look for a word between blanks. The
word test rejects operands with any white space, so the two differ for names whose white space is
no blank.
-/

set_option autoImplicit false

namespace TreeQuery

/-! ## Words -/

section Words

theorem not_mem_pieces {p : Char → Bool} {cs piece : List Char} (h : piece ∈ pieces p cs) :
    ∀ c ∈ piece, p c = false := by
  induction cs generalizing piece with
  | nil => simp_all [pieces]
  | cons c cs ih =>
    rw [pieces] at h
    split at h
    · rcases List.mem_cons.1 h with rfl | h
      · simp
      · exact ih h
    · next hc =>
      split at h
      · next hnil => exact absurd hnil (pieces_ne_nil p cs)
      · next w ws hpieces =>
        rw [hpieces] at ih
        rcases List.mem_cons.1 h with rfl | h
        · intro x hx
          rcases List.mem_cons.1 hx with rfl | hx
          · simpa using hc
          · exact ih List.mem_cons_self x hx
        · exact ih (List.mem_cons_of_mem _ h)

theorem isPrefix_of_pieces {p : Char → Bool} {cs piece : List Char} {more : List (List Char)}
    (h : pieces p cs = piece :: more) : piece <+: cs := by
  induction cs generalizing piece more with
  | nil =>
    obtain ⟨rfl, -⟩ := List.cons.inj h
    exact List.nil_prefix
  | cons c cs ih =>
    rw [pieces] at h
    split at h
    · obtain ⟨rfl, -⟩ := List.cons.inj h
      exact List.nil_prefix
    · split at h
      · next hnil => exact absurd hnil (pieces_ne_nil p cs)
      · next w ws hpieces =>
        obtain ⟨rfl, -⟩ := List.cons.inj h
        exact List.cons_prefix_cons.mpr ⟨rfl, ih hpieces⟩

theorem isInfix_of_mem_pieces {p : Char → Bool} {cs piece : List Char} (h : piece ∈ pieces p cs) :
    piece <:+: cs := by
  induction cs with
  | nil =>
    obtain rfl := List.mem_singleton.mp h
    exact List.infix_rfl
  | cons c cs ih =>
    cases hpieces : pieces p (c :: cs) with
    | nil => exact absurd hpieces (pieces_ne_nil p _)
    | cons first more =>
      rw [hpieces] at h
      rcases List.mem_cons.mp h with rfl | h
      · exact (isPrefix_of_pieces hpieces).isInfix
      · have hmore : piece ∈ pieces p cs := by
          rw [pieces] at hpieces
          split at hpieces
          · obtain ⟨-, rfl⟩ := List.cons.inj hpieces
            exact h
          · split at hpieces
            · next hnil => exact absurd hnil (pieces_ne_nil p cs)
            · next w ws hrest =>
              obtain ⟨-, rfl⟩ := List.cons.inj hpieces
              rw [hrest]
              exact List.mem_cons_of_mem w h
        exact (ih hmore).trans (List.suffix_cons c cs).isInfix

theorem pieces_eq_singleton {p : Char → Bool} {cs : List Char} (h : ∀ c ∈ cs, p c = false) :
    pieces p cs = [cs] := by
  induction cs with
  | nil => rfl
  | cons c cs ih =>
    have hc : p c = false := h c List.mem_cons_self
    rw [pieces, hc, ih fun x hx => h x (List.mem_cons_of_mem _ hx)]
    rfl

theorem mem_words {text word : String} :
    word ∈ words text ↔ word ≠ "" ∧ word.toList ∈ pieces isBlank text.toList := by
  simp only [words, List.mem_map, List.mem_filter, decide_eq_true_eq]
  constructor
  · rintro ⟨piece, ⟨hpiece, hne⟩, rfl⟩
    simpa using ⟨hne, hpiece⟩
  · rintro ⟨hne, hpiece⟩
    exact ⟨word.toList, ⟨hpiece, by simpa using hne⟩, by simp⟩

theorem not_isBlank_of_mem_words {text word : String} (h : word ∈ words text) :
    word ≠ "" ∧ ∀ c ∈ word.toList, isBlank c = false :=
  ⟨(mem_words.1 h).1, not_mem_pieces (mem_words.1 h).2⟩

theorem mem_words_self {word : String} (hne : word ≠ "")
    (h : ∀ c ∈ word.toList, isBlank c = false) : word ∈ words word := by
  rw [mem_words, pieces_eq_singleton h]
  exact ⟨hne, List.mem_singleton.2 rfl⟩

end Words

/-! ## Class names -/

section ClassNames

variable {d : Document} {name : String}

theorem Place.hasClass_eq (p : Place) :
    p.hasClass d name = (p.attribute? d "class").any fun value => (words value).contains name := by
  cases p with
  | region r => rfl
  | node n =>
    simp only [hasClass, Document.hasClass, attribute?]
    cases d.attribute? n "class" <;> rfl

variable [PatternEngine]

abbrev Step.classIncludes (name : String) : Step :=
  .compareAttribute .unstated "class" (.includes name)

theorem Step.classIncludes_apply (xs : List Place) :
    (classIncludes name).apply d xs =
      if name.toList.any isSpace then [] else (className name).apply d xs := by
  have hqualify : Namespace.unstated.qualify "class" = "class" := by cbv
  simp only [apply, hqualify, keep, Place.hasClass_eq]
  cases hspace : name.toList.any isSpace with
  | true => simp [ValueTest.holdsOf, ValueTest.holds, hspace]
  | false =>
    refine List.filter_congr fun p _ => ?_
    congr 1
    rw [ValueTest.holdsOf]
    · congr 1
      funext value
      by_cases hname : name = ""
      · have hnot : name ∉ words value := fun h => (not_isBlank_of_mem_words h).1 hname
        simp [ValueTest.holds, hname] at hnot ⊢
        exact hnot
      · simp [ValueTest.holds, hname, hspace]
    · intro operand h
      cases h

/-- No word has a blank, and so no element has a class whose name has one. -/
theorem Step.className_eq_nil (h : name.toList.any isBlank = true) (xs : List Place) :
    (className name).apply d xs = [] := by
  rw [apply, keep, List.filter_eq_nil_iff]
  intro p _
  rw [Bool.and_eq_true, Place.hasClass_eq, Option.any_eq_true]
  rintro ⟨-, value, -, hmem⟩
  have hname := (not_isBlank_of_mem_words (List.contains_iff_mem.1 hmem)).2
  obtain ⟨c, hc, hblank⟩ := List.any_eq_true.1 h
  rw [hname c hc] at hblank
  cases hblank

/-- An element whose class attribute is one word has this word for a class. -/
theorem Step.className_self (hne : name ≠ "") (h : ∀ c ∈ name.toList, isBlank c = false) :
    (className name).apply (.build [.element "p", .setAttribute "class" name]) [.node 1] =
      [.node 1] := by
  have hvalue : (Place.node 1).attribute?
      (.build [.element "p", .setAttribute "class" name]) "class" = some name := by cbv
  have helement : (Place.node 1).isElement
      (.build [.element "p", .setAttribute "class" name]) = true := by rfl
  have hclass : (Place.node 1).hasClass
      (.build [.element "p", .setAttribute "class" name]) name = true := by
    rw [Place.hasClass_eq, hvalue, Option.any_some, List.contains_iff_mem]
    exact mem_words_self hne h
  rw [apply, keep]
  exact List.filter_cons_of_pos (by rw [helement, hclass]; rfl)

/-- The class attribute is tested for a word as a class selector tests it, unless the word has white
space: then the test keeps nothing. Hence the two agree on every document just for the names that
have a blank or no white space at all. -/
theorem className_iff_includes (name : String) :
    (∀ (d : Document) (xs : List Place), (Step.classIncludes name).apply d xs =
      if name.toList.any isSpace then [] else (Step.className name).apply d xs) ∧
    ((∀ (d : Document) (xs : List Place),
        (Step.className name).apply d xs = (Step.classIncludes name).apply d xs) ↔
      name.toList.any isSpace = false ∨ name.toList.any isBlank = true) := by
  refine ⟨fun d xs => Step.classIncludes_apply xs, ?_, ?_⟩
  · intro hagree
    cases hspace : name.toList.any isSpace with
    | false => exact .inl rfl
    | true =>
      right
      by_contra hblank
      have hnone : ∀ c ∈ name.toList, isBlank c = false := by simpa using hblank
      have hne : name ≠ "" := by
        rintro rfl
        cases hspace
      have hsame := hagree (.build [.element "p", .setAttribute "class" name]) [.node 1]
      rw [Step.className_self hne hnone, Step.classIncludes_apply, hspace] at hsame
      cases hsame
  · rintro (hspace | hblank) d xs
    · rw [Step.classIncludes_apply, hspace]
      rfl
    · rw [Step.classIncludes_apply, Step.className_eq_nil hblank, ite_self]

end ClassNames

/-- A no-break space is white space, but it does not end a word. -/
theorem class_name_with_wide_space :
    let d : Document := .build [.element "p", .setAttribute "class" "a\u00a0b"]
    d.attribute? 1 "class" = some "a\u00a0b" ∧
      (Step.className "a\u00a0b").apply d [.node 1] = [.node 1] ∧
      (Step.classIncludes "a\u00a0b").apply d [.node 1] = [] ∧
      ¬ ∀ (d : Document) (name : String) (xs : List Place),
        (Step.className name).apply d xs = (Step.classIncludes name).apply d xs := by
  intro d
  have hkept : (Step.className "a\u00a0b").apply d [.node 1] = [.node 1] := by cbv
  have hnone : (Step.classIncludes "a\u00a0b").apply d [.node 1] = [] := by cbv
  refine ⟨by cbv, hkept, hnone, ?_⟩
  intro h
  have hsame := h d "a\u00a0b" [.node 1]
  rw [hkept, hnone] at hsame
  cases hsame

end TreeQuery
