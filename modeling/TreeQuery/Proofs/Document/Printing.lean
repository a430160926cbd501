import TreeQuery.Document.Print
import TreeQuery.Proofs.Document.Contents
import TreeQuery.Text.NameCharacter

/-!
# Printed documents can be read back

Each line of a printed document is the start or the end of an element, a text or a comment, and says
what it is. The lines of an element close before those of the next one start, so the lines determine
the tree, blank texts and the order of attributes apart.
-/

set_option autoImplicit false

namespace TreeQuery

/-- What stands before the first character that stops it is determined. -/
theorem append_cons_inj_of_stops {p : Char → Bool} {xs ys us vs : List Char} {c d : Char}
    (hxs : ∀ x ∈ xs, p x = true) (hys : ∀ y ∈ ys, p y = true) (hc : p c = false)
    (hd : p d = false) (h : xs ++ c :: us = ys ++ d :: vs) : xs = ys ∧ c :: us = d :: vs := by
  have hfirst := congrArg (List.takeWhile p) h
  rw [List.takeWhile_append_of_pos hxs, List.takeWhile_append_of_pos hys,
    List.takeWhile_cons_of_neg (by simp [hc]), List.takeWhile_cons_of_neg (by simp [hd]),
    List.append_nil, List.append_nil] at hfirst
  subst hfirst
  exact ⟨rfl, List.append_cancel_left h⟩

/-! ## Escapes -/

def ofEscape (c : Char) : Char :=
  if c = 'n' then '\n' else if c = 'r' then '\r' else if c = 't' then '\t' else c

/-- Read an escaped text up to the quotation mark after it. -/
def readEscaped : List Char → Option (List Char × List Char)
  | [] => none
  | '\x22' :: rest => some ([], rest)
  | '\x5c' :: c :: rest => (readEscaped rest).map fun (text, more) => (ofEscape c :: text, more)
  | c :: rest => (readEscaped rest).map fun (text, more) => (c :: text, more)

theorem escapeChar_cases (c : Char) :
    (c ≠ '\x5c' ∧ c ≠ '\x22' ∧ c ≠ '\n' ∧ escapeChar c = [c]) ∨
      ∃ e, e ≠ '\n' ∧ ofEscape e = c ∧ escapeChar c = ['\x5c', e] := by
  unfold escapeChar
  split
  · next h => exact .inr ⟨'\x5c', by decide, by rw [h]; rfl, rfl⟩
  split
  · next h => exact .inr ⟨'\x22', by decide, by rw [h]; rfl, rfl⟩
  split
  · next h => exact .inr ⟨'n', by decide, by rw [h]; rfl, rfl⟩
  split
  · next h => exact .inr ⟨'r', by decide, by rw [h]; rfl, rfl⟩
  split
  · next h => exact .inr ⟨'t', by decide, by rw [h]; rfl, rfl⟩
  · next hbackslash hquote hnewline _ _ => exact .inl ⟨hbackslash, hquote, hnewline, rfl⟩

theorem readEscaped_flatMap (cs more : List Char) :
    readEscaped (cs.flatMap escapeChar ++ '\x22' :: more) = some (cs, more) := by
  induction cs with
  | nil => rfl
  | cons c cs ih =>
    rw [List.flatMap_cons, List.append_assoc]
    rcases escapeChar_cases c with ⟨hbackslash, hquote, -, hc⟩ | ⟨e, -, he, hc⟩
    · rw [hc, List.singleton_append, readEscaped, ih]
      · rfl
      · exact hquote
      · exact fun _ _ h _ => hbackslash h
    · rw [hc]
      show readEscaped ('\x5c' :: e :: (cs.flatMap escapeChar ++ '\x22' :: more)) = _
      rw [readEscaped, ih, Option.map_some, he]

/-- An escaped text ends at the quotation mark after it. -/
theorem escaped_append_inj {s t : String} {us vs : List Char}
    (h : (escapeText s).toList ++ '\x22' :: us = (escapeText t).toList ++ '\x22' :: vs) :
    s = t ∧ us = vs := by
  have hread := congrArg readEscaped h
  rw [escapeText, escapeText, String.toList_ofList, String.toList_ofList, readEscaped_flatMap,
    readEscaped_flatMap] at hread
  obtain ⟨htext, hmore⟩ := Prod.mk.inj (Option.some.inj hread)
  exact ⟨String.toList_inj.mp htext, hmore⟩

theorem newline_not_mem_escapeText (s : String) : '\n' ∉ (escapeText s).toList := by
  rw [escapeText, String.toList_ofList, List.mem_flatMap]
  rintro ⟨c, -, hmem⟩
  rcases escapeChar_cases c with ⟨-, -, hnewline, hc⟩ | ⟨e, hnewline, -, hc⟩
  · rw [hc, List.mem_singleton] at hmem
    exact hnewline hmem.symm
  · rw [hc, List.mem_cons, List.mem_singleton] at hmem
    rcases hmem with hmem | hmem
    · exact absurd hmem (by decide)
    · exact hnewline hmem.symm

/-! ## Names -/

/-- Letters and digits of every script, and the signs that names may hold. -/
def isNameSign (c : Char) : Bool :=
  CharRanges.letters.contains c || CharRanges.numerals.contains c || c == '-' || c == '_' ||
    c == ':'

def IsName (name : String) : Prop :=
  name ≠ "" ∧ ∀ c ∈ name.toList, isNameSign c = true

namespace CharRanges

theorem crossings_eq (r : CharRanges) (n : Nat) :
    r.crossings n = r.bounds.toList.countP fun bound => bound ≤ n := by
  have hfold (bounds : List Nat) (k : Nat) :
      bounds.foldl (fun k bound => if bound ≤ n then k + 1 else k) k =
        k + bounds.countP fun bound => bound ≤ n := by
    induction bounds generalizing k with
    | nil => rfl
    | cons bound bounds ih =>
      rw [List.foldl_cons, ih, List.countP_cons]
      by_cases h : bound ≤ n
      · simp only [h, if_true, decide_true]
        omega
      · simp [h]
  rw [crossings, ← Array.foldl_toList, hfold, Nat.zero_add]

/-- Between two bounds next to each other, membership does not change. -/
theorem contains_of_between {r : CharRanges} {c : Char} (k low high : Nat)
    (hbelow : (r.bounds.toList.take k).all (· ≤ low) = true)
    (habove : (r.bounds.toList.drop k).all (high < ·) = true)
    (hk : (r.bounds.toList.take k).length = k) (hlow : low ≤ c.toNat) (hhigh : c.toNat ≤ high) :
    r.contains c = (k % 2 == 1) := by
  have hbelow' : (r.bounds.toList.take k).countP (fun bound => bound ≤ c.toNat) = k := by
    rw [List.countP_eq_length.mpr fun bound hbound => ?_, hk]
    have := List.all_eq_true.mp hbelow bound hbound
    simp only [decide_eq_true_eq] at this ⊢
    omega
  have habove' : (r.bounds.toList.drop k).countP (fun bound => bound ≤ c.toNat) = 0 := by
    rw [List.countP_eq_zero]
    intro bound hbound
    have := List.all_eq_true.mp habove bound hbound
    simp only [decide_eq_true_eq] at this ⊢
    omega
  rw [contains, crossings_eq, ← List.take_append_drop k r.bounds.toList, List.countP_append,
    hbelow', habove', Nat.add_zero]

end CharRanges

/-- The signs that stand around names. -/
theorem isNameSign_eq_false {c : Char} (hc : c ∈ [' ', '=', '>', '/', '!', '\n']) :
    isNameSign c = false := by
  have hletters (h : c.toNat ≤ 0x40) : CharRanges.letters.contains c = false :=
    CharRanges.contains_of_between 0 0 0x40 (by decide) (by decide +kernel) rfl (Nat.zero_le _) h
  have hdigits (h : c.toNat ≤ 0x2f) : CharRanges.numerals.contains c = false :=
    CharRanges.contains_of_between 0 0 0x2f (by decide) (by decide +kernel) rfl (Nat.zero_le _) h
  have hdigits' (h : 0x3a ≤ c.toNat) (h' : c.toNat ≤ 0x40) :
      CharRanges.numerals.contains c = false :=
    CharRanges.contains_of_between 2 0x3a 0x40 (by decide) (by decide +kernel) rfl h h'
  have hsigns : ∀ d ∈ [' ', '=', '>', '/', '!', '\n'],
      (d.toNat ≤ 0x40 ∧ (d.toNat ≤ 0x2f ∨ 0x3a ≤ d.toNat)) ∧
        (d == '-') = false ∧ (d == '_') = false ∧ (d == ':') = false := by simp
  obtain ⟨⟨hle, hgap⟩, hdash, hunderscore, hcolon⟩ := hsigns c hc
  have hnumeral : CharRanges.numerals.contains c = false :=
    hgap.elim hdigits fun h => hdigits' h hle
  rw [isNameSign, hletters hle, hnumeral, hdash, hunderscore, hcolon]
  rfl

/-- Letters and digits of ASCII are among the signs of names. -/
theorem isNameSign_of_isAlphanum {c : Char} (h : c.isAlphanum = true) : isNameSign c = true := by
  have hupper (h : 0x41 ≤ c.toNat) (h' : c.toNat ≤ 0x5a) : CharRanges.letters.contains c = true :=
    CharRanges.contains_of_between 1 0x41 0x5a (by decide) (by decide +kernel) rfl h h'
  have hlower (h : 0x61 ≤ c.toNat) (h' : c.toNat ≤ 0x7a) : CharRanges.letters.contains c = true :=
    CharRanges.contains_of_between 3 0x61 0x7a (by decide) (by decide +kernel) rfl h h'
  have hdigit (h : 0x30 ≤ c.toNat) (h' : c.toNat ≤ 0x39) : CharRanges.numerals.contains c = true :=
    CharRanges.contains_of_between 1 0x30 0x39 (by decide) (by decide +kernel) rfl h h'
  simp only [Char.isAlphanum, Char.isAlpha, Char.isUpper, Char.isLower, Char.isDigit,
    Bool.or_eq_true, Bool.and_eq_true, decide_eq_true_eq, ge_iff_le, UInt32.le_iff_toNat_le] at h
  rcases h with (h | h) | h
  · simp [isNameSign, hupper h.1 h.2]
  · simp [isNameSign, hlower h.1 h.2]
  · simp [isNameSign, hdigit h.1 h.2]

theorem IsName.ne {name : String} (h : IsName name) {c d : Char} (hc : c ∈ name.toList)
    (hd : d ∈ [' ', '=', '>', '/', '!', '\n']) : c ≠ d := by
  rintro rfl
  have hsign := h.2 c hc
  rw [isNameSign_eq_false hd] at hsign
  cases hsign

theorem IsName.exists_cons {name : String} (h : IsName name) : ∃ c cs, name.toList = c :: cs := by
  cases hname : name.toList with
  | nil => exact absurd (String.toList_eq_nil_iff.mp hname) h.1
  | cons c cs => exact ⟨c, cs, rfl⟩

/-- A name ends at the first sign that is none of a name. -/
theorem IsName.append_inj {s t : String} (hs : IsName s) (ht : IsName t) {us vs : List Char}
    {c d : Char} (hc : c ∈ [' ', '=', '>', '/', '!', '\n'])
    (hd : d ∈ [' ', '=', '>', '/', '!', '\n'])
    (h : s.toList ++ c :: us = t.toList ++ d :: vs) : s = t ∧ c :: us = d :: vs := by
  obtain ⟨hname, hrest⟩ := append_cons_inj_of_stops hs.2 ht.2 (isNameSign_eq_false hc)
    (isNameSign_eq_false hd) h
  exact ⟨String.toList_inj.mp hname, hrest⟩

/-! ## Lines -/

/-- A line of a printed document, without its indentation. -/
inductive PrintedLine where
  | start (tag : String) (attributes : List (String × String))
  | stop (tag : String)
  | text (text : String)
  | comment (text : String)

namespace PrintedLine

def attributeChars (attributes : List (String × String)) : List Char :=
  attributes.flatMap fun e =>
    ' ' :: (e.1.toList ++ '=' :: '\x22' :: ((escapeText e.2).toList ++ ['\x22']))

def chars : PrintedLine → List Char
  | start tag attributes => '<' :: (tag.toList ++ (attributeChars attributes ++ ['>']))
  | stop tag => '<' :: '/' :: (tag.toList ++ ['>'])
  | text s => '\x22' :: ((escapeText s).toList ++ ['\x22'])
  | comment s => '<' :: '!' :: '-' :: '-' :: (s.toList ++ ['-', '-', '>'])

/-- The names of a line are names, and comments do not go over the end of the line. -/
def Plain : PrintedLine → Prop
  | start tag attributes => IsName tag ∧ ∀ e ∈ attributes, IsName e.1
  | stop tag => IsName tag
  | text _ => True
  | comment s => '\n' ∉ s.toList

theorem attributeChars_inj {xs ys : List (String × String)} {us vs : List Char}
    (hxs : ∀ e ∈ xs, IsName e.1) (hys : ∀ e ∈ ys, IsName e.1)
    (h : attributeChars xs ++ '>' :: us = attributeChars ys ++ '>' :: vs) : xs = ys := by
  induction xs generalizing ys with
  | nil =>
    cases ys with
    | nil => rfl
    | cons y ys => exact absurd (List.cons.inj h).1 (by decide)
  | cons x xs ih =>
    cases ys with
    | nil => exact absurd (List.cons.inj h).1 (by decide)
    | cons y ys =>
      obtain ⟨hx, hxs⟩ := List.forall_mem_cons.mp hxs
      obtain ⟨hy, hys⟩ := List.forall_mem_cons.mp hys
      simp only [attributeChars, List.flatMap_cons, List.cons_append, List.append_assoc,
        List.cons.injEq, true_and, List.nil_append] at h
      obtain ⟨hname, hvalue⟩ := hx.append_inj hy (by decide) (by decide) h
      simp only [List.cons.injEq, true_and] at hvalue
      obtain ⟨hvalue, hmore⟩ := escaped_append_inj hvalue
      rw [ih hxs hys hmore, Prod.ext hname hvalue]

/-- What follows the first character of the start of an element. -/
theorem exists_attributeChars_eq (xs : List (String × String)) :
    ∃ c us, c ∈ [' ', '=', '>', '/', '!', '\n'] ∧ attributeChars xs ++ ['>'] = c :: us := by
  cases xs with
  | nil => exact ⟨'>', [], by decide, rfl⟩
  | cons x xs => exact ⟨' ', _, by decide, rfl⟩

/-- The start of an element is neither the end of one nor a comment. -/
theorem Plain.start_ne {tag : String} {attributes : List (String × String)} {c : Char}
    {us : List Char} (h : (start tag attributes).Plain)
    (hc : c ∈ [' ', '=', '>', '/', '!', '\n']) : (start tag attributes).chars ≠ '<' :: c :: us := by
  obtain ⟨d, ds, htag⟩ := h.1.exists_cons
  intro heq
  rw [chars, htag] at heq
  exact h.1.ne (htag ▸ List.mem_cons_self) hc (List.cons.inj (List.cons.inj heq).2).1

/-- A line says what it is. -/
theorem Plain.chars_inj {l l' : PrintedLine} (hl : l.Plain) (hl' : l'.Plain)
    (h : l.chars = l'.chars) : l = l' := by
  cases l with
  | start tag attributes =>
    cases l' with
    | start tag' attributes' =>
      obtain ⟨c, us, hc, hus⟩ := exists_attributeChars_eq attributes
      obtain ⟨d, vs, hd, hvs⟩ := exists_attributeChars_eq attributes'
      have hrest := (List.cons.inj h).2
      rw [hus, hvs] at hrest
      obtain ⟨htag, hrest⟩ := hl.1.append_inj hl'.1 hc hd hrest
      rw [← hus, ← hvs] at hrest
      rw [htag, attributeChars_inj hl.2 hl'.2 hrest]
    | stop tag' => exact absurd h (hl.start_ne (by decide))
    | comment t => exact absurd h (hl.start_ne (by decide))
    | text t => exact absurd (List.cons.inj h).1 (by decide)
  | stop tag =>
    cases l' with
    | start tag' attributes' => exact absurd h.symm (hl'.start_ne (by decide))
    | stop tag' =>
      have htag := List.append_cancel_right (List.cons.inj (List.cons.inj h).2).2
      rw [String.toList_inj.mp htag]
    | comment t => exact absurd (List.cons.inj (List.cons.inj h).2).1 (by decide)
    | text t => exact absurd (List.cons.inj h).1 (by decide)
  | comment s =>
    cases l' with
    | start tag' attributes' => exact absurd h.symm (hl'.start_ne (by decide))
    | stop tag' => exact absurd (List.cons.inj (List.cons.inj h).2).1 (by decide)
    | comment t =>
      simp only [chars, List.cons.injEq, true_and] at h
      rw [String.toList_inj.mp (List.append_cancel_right h)]
    | text t => exact absurd (List.cons.inj h).1 (by decide)
  | text s =>
    cases l' with
    | text t => rw [(escaped_append_inj (List.cons.inj h).2).1]
    | _ => exact absurd (List.cons.inj h).1 (by decide)

theorem Plain.newline_not_mem {l : PrintedLine} (h : l.Plain) : '\n' ∉ l.chars := by
  have hname {name : String} (hname : IsName name) : '\n' ∉ name.toList := fun hmem =>
    hname.ne hmem (by decide) rfl
  cases l with
  | start tag attributes =>
    have hattributes : '\n' ∉ attributeChars attributes := by
      rw [attributeChars, List.mem_flatMap]
      rintro ⟨e, he, hmem⟩
      simp [hname (h.2 e he), newline_not_mem_escapeText] at hmem
    simp [chars, hname h.1, hattributes]
  | stop tag => simp [chars, hname h]
  | text s => simp [chars, newline_not_mem_escapeText]
  | comment s =>
    have hs : '\n' ∉ s.toList := h
    simp [chars, hs]

/-- No line starts with a space. -/
theorem exists_chars_eq (l : PrintedLine) : ∃ c cs, c ≠ ' ' ∧ l.chars = c :: cs := by
  cases l with
  | text s => exact ⟨'\x22', _, by decide, rfl⟩
  | _ => exact ⟨'<', _, by decide, rfl⟩

def printed (l : Nat × PrintedLine) : List Char :=
  List.replicate (2 * l.1) ' ' ++ (l.2.chars ++ ['\n'])

theorem printed_append_inj {l l' : Nat × PrintedLine} (hl : l.2.Plain) (hl' : l'.2.Plain)
    {us vs : List Char} (h : printed l ++ us = printed l' ++ vs) : l = l' ∧ us = vs := by
  obtain ⟨c, cs, hc, hcs⟩ := l.2.exists_chars_eq
  obtain ⟨d, ds, hd, hds⟩ := l'.2.exists_chars_eq
  have hspaces (n : Nat) : ∀ x ∈ List.replicate n ' ', (x == ' ') = true := fun x hx => by
    rw [(List.mem_replicate.mp hx).2]
    rfl
  have hline (m : PrintedLine) (hm : m.Plain) : ∀ x ∈ m.chars, (x != '\n') = true := fun x hx => by
    rw [bne_iff_ne]
    exact fun heq => hm.newline_not_mem (heq ▸ hx)
  rw [printed, printed, hcs, hds] at h
  simp only [List.append_assoc, List.cons_append, List.nil_append] at h
  obtain ⟨hindent, h⟩ := append_cons_inj_of_stops (hspaces _) (hspaces _) (by simpa using hc)
    (by simpa using hd) h
  rw [← List.cons_append, ← List.cons_append, ← hcs, ← hds] at h
  obtain ⟨hchars, h⟩ := append_cons_inj_of_stops (hline _ hl) (hline _ hl') rfl rfl h
  have hdepth := congrArg List.length hindent
  rw [List.length_replicate, List.length_replicate] at hdepth
  exact ⟨Prod.ext (by omega) (hl.chars_inj hl' hchars), (List.cons.inj h).2⟩

theorem flatMap_printed_inj {ls ls' : List (Nat × PrintedLine)} (hls : ∀ l ∈ ls, l.2.Plain)
    (hls' : ∀ l ∈ ls', l.2.Plain) (h : ls.flatMap printed = ls'.flatMap printed) : ls = ls' := by
  have hne (l : Nat × PrintedLine) (us : List Char) : printed l ++ us ≠ [] := by
    simp [printed]
  induction ls generalizing ls' with
  | nil =>
    cases ls' with
    | nil => rfl
    | cons l' ls' => exact absurd h.symm (hne _ _)
  | cons l ls ih =>
    cases ls' with
    | nil => exact absurd h (hne _ _)
    | cons l' ls' =>
      obtain ⟨hline, hlines⟩ := List.forall_mem_cons.mp hls
      obtain ⟨hline', hlines'⟩ := List.forall_mem_cons.mp hls'
      rw [List.flatMap_cons, List.flatMap_cons] at h
      obtain ⟨hl, hmore⟩ := printed_append_inj hline hline' h
      rw [hl, ih hlines hlines' hmore]

end PrintedLine

/-! ## Sorted attributes -/

namespace Attributes

theorem perm_sorted (a : Attributes) : a.sorted.Perm a.entries :=
  List.mergeSort_perm ..

theorem pairwise_sorted (a : Attributes) : a.sorted.Pairwise (·.1 ≤ ·.1) := by
  have h : a.sorted.Pairwise fun x y => decide (x.1 ≤ y.1) = true := by
    unfold sorted
    refine List.pairwise_mergeSort (fun x y z hxy hyz => ?_) (fun x y => ?_) a.entries
    · exact decide_eq_true (String.le_trans (of_decide_eq_true hxy) (of_decide_eq_true hyz))
    · rw [Bool.or_eq_true, decide_eq_true_eq, decide_eq_true_eq]
      exact String.le_total x.1 y.1
  exact h.imp of_decide_eq_true

/-- Since names do not repeat, the sorted attributes do not depend on the order they were set in. -/
theorem sorted_eq_of_perm {a b : Attributes} (h : a.entries.Perm b.entries) :
    a.sorted = b.sorted := by
  have hperm : a.sorted.Perm b.sorted := (a.perm_sorted.trans h).trans b.perm_sorted.symm
  refine hperm.eq_of_pairwise (fun x y hx hy hxy hyx => ?_) a.pairwise_sorted b.pairwise_sorted
  have hxb : x ∈ b.entries := h.mem_iff.mp (a.perm_sorted.mem_iff.mp hx)
  exact List.inj_on_of_nodup_map b.nodup hxb (b.perm_sorted.mem_iff.mp hy)
    (String.le_antisymm hxy hyx)

end Attributes

/-! ## Trees of lines -/

namespace Content

mutual

/-- The tree without texts that are blank; such a text alone leaves no tree. -/
def solid? : Content → Option Content
  | element tag attributes contents => some (element tag attributes (listSolid contents))
  | text s => if s.toList.all isSpace then none else some (text s)
  | comment s => some (comment s)

def listSolid : List Content → List Content
  | [] => []
  | c :: cs => c.solid?.toList ++ listSolid cs

end

mutual

/-- Trees that are the same up to the order of attributes. -/
def Agree : Content → Content → Prop
  | element tag attributes contents, element tag' attributes' contents' =>
    tag = tag' ∧ attributes.entries.Perm attributes'.entries ∧ ListAgree contents contents'
  | text s, text s' => s = s'
  | comment s, comment s' => s = s'
  | _, _ => False

def ListAgree : List Content → List Content → Prop
  | [], [] => True
  | c :: cs, c' :: cs' => Agree c c' ∧ ListAgree cs cs'
  | _, _ => False

end

mutual

def lines (depth : Nat) : Content → List (Nat × PrintedLine)
  | element tag attributes contents =>
    (depth, .start tag attributes.sorted) :: listLines (depth + 1) contents ++ [(depth, .stop tag)]
  | text s => [(depth, .text s)]
  | comment s => [(depth, .comment s)]

def listLines (depth : Nat) : List Content → List (Nat × PrintedLine)
  | [] => []
  | c :: cs => lines depth c ++ listLines depth cs

end

theorem listSolid_eq (cs : List Content) : listSolid cs = cs.filterMap solid? := by
  induction cs with
  | nil => rfl
  | cons c cs ih =>
    rw [listSolid, ih, List.filterMap_cons]
    cases c.solid? <;> rfl

theorem listLines_eq (depth : Nat) (cs : List Content) :
    listLines depth cs = cs.flatMap (lines depth) := by
  induction cs with
  | nil => rfl
  | cons c cs ih => rw [listLines, ih, List.flatMap_cons]

/-- Whether lines end here or go on with the end of an element. -/
def Stopped (ls : List (Nat × PrintedLine)) : Prop :=
  ∀ l ∈ ls.head?, ∃ tag, l.2 = .stop tag

/-- No tree starts with the end of an element. -/
theorem not_stopped_lines (depth : Nat) (c : Content) (ls : List (Nat × PrintedLine)) :
    ¬ Stopped (lines depth c ++ ls) := by
  intro h
  cases c with
  | element tag a cs =>
    obtain ⟨tag', heq⟩ := h (depth, .start tag a.sorted) rfl
    cases heq
  | text s =>
    obtain ⟨tag', heq⟩ := h (depth, .text s) rfl
    cases heq
  | comment s =>
    obtain ⟨tag', heq⟩ := h (depth, .comment s) rfl
    cases heq

mutual

/-- The lines of a tree determine it, and where they end. -/
theorem agree_of_lines {depth : Nat} {ls ls' : List (Nat × PrintedLine)} :
    ∀ c c' : Content, lines depth c ++ ls = lines depth c' ++ ls' → Agree c c' ∧ ls = ls'
  | element tag a cs, c', h => by
    cases c' with
    | element tag' a' cs' =>
      simp only [lines, List.cons_append, List.append_assoc, List.nil_append] at h
      obtain ⟨hstart, hinner⟩ := List.cons.inj h
      obtain ⟨hcs, hstop⟩ := listAgree_of_lines cs cs' (by simp [Stopped]) (by simp [Stopped])
        hinner
      obtain ⟨-, hmore⟩ := List.cons.inj hstop
      simp only [Prod.mk.injEq, PrintedLine.start.injEq, true_and] at hstart
      obtain ⟨htag, hsorted⟩ := hstart
      have hperm := a.perm_sorted
      rw [hsorted] at hperm
      exact ⟨⟨htag, hperm.symm.trans a'.perm_sorted, hcs⟩, hmore⟩
    | text s => cases h
    | comment s => cases h
  | text s, c', h => by
    cases c' with
    | text s' =>
      cases h
      exact ⟨rfl, rfl⟩
    | element tag' a' cs' => cases h
    | comment s' => cases h
  | comment s, c', h => by
    cases c' with
    | comment s' =>
      cases h
      exact ⟨rfl, rfl⟩
    | element tag' a' cs' => cases h
    | text s' => cases h

theorem listAgree_of_lines {depth : Nat} {ls ls' : List (Nat × PrintedLine)} :
    ∀ cs cs' : List Content, Stopped ls → Stopped ls' →
      listLines depth cs ++ ls = listLines depth cs' ++ ls' → ListAgree cs cs' ∧ ls = ls'
  | [], [], _, _, h => ⟨trivial, h⟩
  | [], c' :: cs', hls, _, h => by
    rw [listLines, listLines, List.nil_append, List.append_assoc] at h
    exact absurd (h ▸ hls) (not_stopped_lines depth c' _)
  | c :: cs, [], _, hls', h => by
    rw [listLines, listLines, List.nil_append, List.append_assoc] at h
    exact absurd (h ▸ hls') (not_stopped_lines depth c _)
  | c :: cs, c' :: cs', hls, hls', h => by
    rw [listLines, listLines, List.append_assoc, List.append_assoc] at h
    obtain ⟨hc, hmore⟩ := agree_of_lines c c' h
    obtain ⟨hcs, hrest⟩ := listAgree_of_lines cs cs' hls hls' hmore
    exact ⟨⟨hc, hcs⟩, hrest⟩

end

mutual

theorem lines_of_agree (depth : Nat) : ∀ c c' : Content, Agree c c' → lines depth c = lines depth c'
  | element tag a cs, element tag' a' cs', h => by
    obtain ⟨rfl, hperm, hcs⟩ := h
    rw [lines, lines, Attributes.sorted_eq_of_perm hperm, listLines_of_listAgree _ cs cs' hcs]
  | text s, text s', h => congrArg (lines depth <| text ·) h
  | comment s, comment s', h => congrArg (lines depth <| comment ·) h

theorem listLines_of_listAgree (depth : Nat) :
    ∀ cs cs' : List Content, ListAgree cs cs' → listLines depth cs = listLines depth cs'
  | [], [], _ => rfl
  | c :: cs, c' :: cs', h => by
    rw [listLines, listLines, lines_of_agree depth c c' h.1,
      listLines_of_listAgree depth cs cs' h.2]

end

/-- Trees print the same lines just when they agree. -/
theorem listLines_eq_iff (depth : Nat) {cs cs' : List Content} :
    listLines depth cs = listLines depth cs' ↔ ListAgree cs cs' := by
  refine ⟨fun h => ?_, listLines_of_listAgree depth cs cs'⟩
  have hnone : Stopped [] := by simp [Stopped]
  have hlines : listLines depth cs ++ [] = listLines depth cs' ++ [] := by rw [h]
  exact (listAgree_of_lines cs cs' hnone hnone hlines).1

end Content

/-! ## Printed documents -/

namespace Document

theorem printFrom_eq (d : Document) {i : Nat} (hi : i < d.nodes.size) (depth : Nat) :
    d.printFrom i depth = printNode d.nodes[i] depth
      (String.join ((d.children i).map fun c => d.printFrom c (depth + 1))) := by
  rw [printFrom, dif_pos hi]
  simp [List.map_subtype]

theorem toList_attributeText (a : Attributes) :
    (attributeText a).toList = PrintedLine.attributeChars a.sorted := by
  rw [attributeText, String.toList_join, List.flatMap_map]
  refine List.flatMap_congr fun e _ => ?_
  simp

def linesFrom (d : Document) (depth i : Nat) : List (Nat × PrintedLine) :=
  ((d.content? i).bind Content.solid?).toList.flatMap (Content.lines depth)

theorem listLines_children (d : Document) (depth i : Nat) :
    Content.listLines depth (Content.listSolid ((d.children i).filterMap d.content?)) =
      (d.children i).flatMap (d.linesFrom depth) := by
  rw [Content.listSolid_eq, List.filterMap_filterMap, Content.listLines_eq]
  induction d.children i with
  | nil => rfl
  | cons c cs ih =>
    rw [List.flatMap_cons, List.filterMap_cons, linesFrom, ← ih]
    cases (d.content? c).bind Content.solid? <;> simp

theorem linesFrom_eq (d : Document) (depth i : Nat) : d.linesFrom depth i =
    match d.kind? i with
    | some (.element tag) =>
      (depth, .start tag (d.attributes i).sorted) ::
        (d.children i).flatMap (d.linesFrom (depth + 1)) ++ [(depth, .stop tag)]
    | some (.text s) => if s.toList.all isSpace then [] else [(depth, .text s)]
    | some (.comment s) => [(depth, .comment s)]
    | _ => [] := by
  rw [← listLines_children, linesFrom, content?_eq]
  cases d.kind? i with
  | none => rfl
  | some kind =>
    cases kind with
    | root => rfl
    | element tag => simp [Content.solid?, Content.lines]
    | text s =>
      by_cases hs : s.toList.all isSpace = true
      · simp [Content.solid?, hs]
      · simp [Content.solid?, hs, Content.lines]
    | comment s => simp [Content.solid?, Content.lines]

theorem toList_printFrom (d : Document) {i : Nat} (hi : i < d.size) (hroot : i ≠ root)
    (depth : Nat) :
    (d.printFrom i depth).toList = (d.linesFrom depth i).flatMap PrintedLine.printed := by
  induction i using subtree.induct d generalizing depth with
  | case1 i ih =>
    have hi' : i < d.nodes.size := hi
    have hnode : d.nodes[i]? = some d.nodes[i] := Array.getElem?_eq_getElem hi'
    have hkind : d.kind? i = some d.nodes[i].kind := by rw [kind?, hnode]; rfl
    have hattributes : d.nodes[i].attributes = d.attributes i := by rw [attributes, hnode]; rfl
    have hbelow : (String.join ((d.children i).map fun c => d.printFrom c (depth + 1))).toList =
        ((d.children i).flatMap (d.linesFrom (depth + 1))).flatMap PrintedLine.printed := by
      rw [String.toList_join, List.flatMap_map, List.flatMap_assoc]
      refine List.flatMap_congr fun c hc => ih c hc (lt_size_of_mem_children hc) ?_ _
      exact Nat.ne_of_gt (Nat.lt_of_le_of_lt (Nat.zero_le _) (lt_of_mem_children hc))
    rw [printFrom_eq d hi', linesFrom_eq, hkind]
    unfold printNode
    cases hk : d.nodes[i].kind with
    | root => exact absurd ((d.linked.rooted hi').mp hk) hroot
    | element tag =>
      simp only [String.toList_append, hbelow, hattributes, toList_attributeText]
      simp [PrintedLine.printed, PrintedLine.chars, indent]
    | text s => by_cases hs : s.toList.all isSpace = true <;>
        simp [hs, PrintedLine.printed, PrintedLine.chars, indent]
    | comment s => simp [PrintedLine.printed, PrintedLine.chars, indent]

def lines (d : Document) : List (Nat × PrintedLine) :=
  Content.listLines 1 (Content.listSolid d.contents)

theorem lines_eq (d : Document) : d.lines = (d.children root).flatMap (d.linesFrom 1) :=
  d.listLines_children 1 root

theorem toList_print (d : Document) :
    d.print.toList = "#document\n".toList ++ d.lines.flatMap PrintedLine.printed := by
  have hsize : root < d.nodes.size := d.linked.nonempty
  have hroot : d.nodes[root].kind = .root := (d.linked.rooted hsize).mpr rfl
  have hbelow : (String.join ((d.children root).map fun c => d.printFrom c 1)).toList =
      d.lines.flatMap PrintedLine.printed := by
    rw [String.toList_join, List.flatMap_map, lines_eq, List.flatMap_assoc]
    refine List.flatMap_congr fun c hc => d.toList_printFrom (lt_size_of_mem_children hc) ?_ 1
    exact Nat.ne_of_gt (lt_of_mem_children hc)
  have hprint : d.print = printNode d.nodes[root] 0
      (String.join ((d.children root).map fun c => d.printFrom c 1)) := d.printFrom_eq hsize 0
  rw [hprint, printNode, hroot]
  simp [hbelow, indent]

/-- The names of a document are names, and its comments stay on one line. -/
structure Readable (d : Document) : Prop where
  tags : ∀ i tag, d.tag? i = some tag → IsName tag
  attributes : ∀ i, ∀ name ∈ (d.attributes i).names, IsName name
  comments : ∀ i s, d.kind? i = some (.comment s) → '\n' ∉ s.toList

theorem Readable.linesFrom {d : Document} (h : d.Readable) (depth i : Nat) :
    ∀ l ∈ d.linesFrom depth i, l.2.Plain := by
  induction i using subtree.induct d generalizing depth with
  | case1 i ih =>
    rw [linesFrom_eq]
    cases hkind : d.kind? i with
    | none => simp
    | some kind =>
      cases kind with
      | root => simp
      | element tag =>
        have htag : IsName tag := h.tags i tag (by rw [tag?, hkind])
        have hnames : ∀ e ∈ (d.attributes i).sorted, IsName e.1 := fun e he =>
          h.attributes i e.1 (List.mem_map_of_mem ((d.attributes i).perm_sorted.mem_iff.mp he))
        intro l hl
        rcases List.mem_append.mp hl with hl | hl
        · rcases List.mem_cons.mp hl with rfl | hl
          · exact ⟨htag, hnames⟩
          · obtain ⟨c, hc, hmem⟩ := List.mem_flatMap.mp hl
            exact ih c hc _ l hmem
        · rw [List.mem_singleton.mp hl]
          exact htag
      | text s =>
        intro l hl
        by_cases hs : s.toList.all isSpace = true
        · simp [hs] at hl
        · simp only [hs, Bool.false_eq_true, if_false, List.mem_singleton] at hl
          rw [hl]
          trivial
      | comment s =>
        intro l hl
        rw [List.mem_singleton.mp hl]
        exact h.comments i s hkind

theorem Readable.lines {d : Document} (h : d.Readable) : ∀ l ∈ d.lines, l.2.Plain := by
  rw [lines_eq]
  intro l hl
  obtain ⟨c, -, hmem⟩ := List.mem_flatMap.mp hl
  exact h.linesFrom 1 c l hmem

end Document

/-! ## Names in steps -/

def BuildMove.Readable : BuildMove → Prop
  | .element tag => IsName tag.toLower
  | .setAttribute name _ => IsName name.toLower
  | .comment content => '\n' ∉ content.toList
  | _ => True

namespace Attributes

theorem mem_names_foldl_set {entries : List (String × String)} {a : Attributes} {x : String}
    (h : x ∈ (entries.foldl (fun a e => a.set e.1 e.2) a).names) :
    x ∈ a.names ∨ ∃ e ∈ entries, x = e.1.toLower := by
  rw [names_foldl_set, List.mem_eraseDups, List.mem_append, List.mem_map] at h
  exact h.imp_right fun ⟨e, he, hx⟩ => ⟨e, he, hx.symm⟩

end Attributes

theorem DocumentBuilder.mem_of_mem_settings {n : Nat} {b : DocumentBuilder}
    {moves : List BuildMove} {e : String × String} (h : e ∈ settings n b moves) :
    .setAttribute e.1 e.2 ∈ moves := by
  induction moves generalizing b with
  | nil => cases h
  | cons m moves ih =>
    rcases List.mem_append.mp h with h | h
    · refine List.mem_cons.mpr (.inl ?_)
      cases m with
      | setAttribute name value =>
        simp only [setting?, Option.mem_toList] at h
        split at h
        · cases h
          rfl
        · cases h
      | _ => cases h
    · exact List.mem_cons_of_mem _ (ih h)

namespace Document

theorem mem_made_of_kind? {steps : List BuildStep} {i : Nat} {kind : NodeKind}
    (h : (build steps).kind? i = some kind) (hkind : kind ≠ .root) :
    ∃ m ∈ BuildStep.listMoves steps, m.made? = some kind := by
  have hi : i < (build steps).size := by
    by_contra hlt
    have hnone : (build steps).nodes[i]? = none := Array.getElem?_eq_none (Nat.not_lt.mp hlt)
    rw [kind?, hnone] at h
    cases h
  have hmem : some kind ∈ (List.range (build steps).size).map (build steps).kind? :=
    List.mem_map.mpr ⟨i, List.mem_range.mpr hi, h⟩
  have hkinds : (List.range (build steps).size).map (build steps).kind? =
      [some .root] ++ ((BuildStep.listMoves steps).filterMap BuildMove.made?).map some := by
    rw [build_eq]
    exact DocumentBuilder.InOrder.init.kinds_foldl (BuildStep.listMoves steps)
  rw [hkinds] at hmem
  rcases List.mem_append.mp hmem with hinit | hmade
  · exact absurd (Option.some.inj (List.mem_singleton.mp hinit)) hkind
  · simpa using hmade

/-- Steps whose names are names build a readable document. -/
theorem readable_build {steps : List BuildStep}
    (h : ∀ m ∈ BuildStep.listMoves steps, m.Readable) : (build steps).Readable where
  tags i tag htag := by
    have hkind : (build steps).kind? i = some (.element tag) := by
      unfold tag? at htag
      split at htag
      · next heq => rw [heq, Option.some.inj htag]
      · cases htag
    obtain ⟨m, hm, hmade⟩ := mem_made_of_kind? hkind (by simp)
    have hreadable := h m hm
    cases m <;> cases hmade
    exact hreadable
  attributes i name hname := by
    rw [build_eq, DocumentBuilder.after, DocumentBuilder.InOrder.init.attributes_foldl] at hname
    rcases Attributes.mem_names_foldl_set hname with hnone | ⟨e, he, rfl⟩
    · have hempty : Document.empty.attributes i = .empty := by cases i <;> rfl
      have hnone' : name ∈ (Document.empty.attributes i).names := hnone
      rw [hempty] at hnone'
      cases hnone'
    · exact h _ (DocumentBuilder.mem_of_mem_settings he)
  comments i s hs := by
    obtain ⟨m, hm, hmade⟩ := mem_made_of_kind? hs (by simp)
    have hreadable := h m hm
    cases m <;> cases hmade
    exact hreadable

/-- Two documents print the same just when they hold the same trees, blank texts and the order of
attributes apart. -/
theorem print_eq_iff {steps steps' : List BuildStep} (h : (build steps).Readable)
    (h' : (build steps').Readable) :
    (build steps).print = (build steps').print ↔
      Content.ListAgree (Content.listSolid (build steps).contents)
        (Content.listSolid (build steps').contents) := by
  rw [← Content.listLines_eq_iff 1, ← String.toList_inj, toList_print, toList_print,
    List.append_cancel_left_eq]
  constructor
  · exact PrintedLine.flatMap_printed_inj h.lines h'.lines
  · exact congrArg (List.flatMap PrintedLine.printed)

/-- The order of attributes and blank texts alone are lost. -/
theorem print_eq_reordered :
    let cs : List Content :=
      [.element "p" ⟨[("b", "1"), ("a", "x\n\"y")], by decide +kernel, by decide⟩
        [.text "  ", .comment "n"]]
    let cs' : List Content :=
      [.element "p" ⟨[("a", "x\n\"y"), ("b", "1")], by decide +kernel, by decide⟩ [.comment "n"]]
    (build (Content.listSteps cs)).Readable ∧ (build (Content.listSteps cs')).Readable ∧
      (build (Content.listSteps cs)).print = (build (Content.listSteps cs')).print := by
  intro cs cs'
  have hname : ∀ name ∈ ["p", "a", "b"], IsName name.toLower := by
    have hsigns : ∀ name ∈ ["p", "a", "b"], name.toLower ≠ "" ∧
        name.toLower.toList.all Char.isAlphanum = true := by decide +kernel
    intro name hmem
    obtain ⟨hne, hall⟩ := hsigns name hmem
    exact ⟨hne, fun c hc => isNameSign_of_isAlphanum (List.all_eq_true.mp hall c hc)⟩
  have hcs : (build (Content.listSteps cs)).Readable := readable_build (by
    simp [cs, Content.listSteps, Content.steps, BuildStep.listMoves, BuildStep.moves,
      BuildMove.Readable, hname])
  have hcs' : (build (Content.listSteps cs')).Readable := readable_build (by
    simp [cs', Content.listSteps, Content.steps, BuildStep.listMoves, BuildStep.moves,
      BuildMove.Readable, hname])
  refine ⟨hcs, hcs', (print_eq_iff hcs hcs').mpr ?_⟩
  have hblank : isSpace ' ' = true := by decide
  have hsolid : Content.listSolid (Content.listLower cs) =
      [.element "p".toLower ⟨[("b", "1"), ("a", "x\n\"y")], by decide +kernel, by decide⟩
        [.comment "n"]] := by
    simp [cs, Content.listLower, Content.lower, Content.listSolid, Content.solid?, hblank]
  have hsolid' : Content.listSolid (Content.listLower cs') =
      [.element "p".toLower ⟨[("a", "x\n\"y"), ("b", "1")], by decide +kernel, by decide⟩
        [.comment "n"]] := by
    simp [cs', Content.listLower, Content.lower, Content.listSolid, Content.solid?]
  rw [contents_build, contents_build, hsolid, hsolid']
  exact ⟨⟨rfl, .swap .., rfl, trivial⟩, trivial⟩

end Document

end TreeQuery
