import TreeQuery.Proofs.Token.Scan
import TreeQuery.Proofs.Token.Sequence

/-!
# Rendering tokens

Tokens can be written so that they are read back. Names are written with an escape for each
character, strings with an escape for each character that needs one. Which tokens can stand side by
side in a sequence that has been read is said by `Readable`; such a sequence is written without
anything in between.
-/

set_option autoImplicit false

namespace TreeQuery

/-! ## Written forms -/

def sixDigits (n : Nat) : List Char :=
  [0x100000, 0x10000, 0x1000, 0x100, 0x10, 1].map fun place => Nat.digitChar (n / place % 16)

/-- A digit of base sixteen cannot stand for itself after a backslash, so it is written by its code
point. -/
def spellNameChar (c : Char) : List Char :=
  if isHexDigit c then '\x5c' :: (sixDigits c.toNat ++ [' ']) else ['\x5c', c]

def spellStringChar (c : Char) : List Char :=
  if isHexDigit c || c == '\n' then [c] else ['\x5c', c]

namespace Token

def spell (t : Token) : List Char :=
  match t.kind with
  | .ident => t.text.toList.flatMap spellNameChar
  | .hash => '#' :: t.text.toList.flatMap spellNameChar
  | .function => t.text.toList.flatMap spellNameChar ++ ['(']
  | .string => '\x22' :: (t.text.toList.flatMap spellStringChar ++ ['\x22'])
  | .integer | .whiteSpace => t.text.toList
  | k => k.written

end Token

def render (tokens : List Token) : String :=
  String.ofList (tokens.flatMap Token.spell)

namespace Token

/-! ## Escapes -/

theorem hexValue_digitChar : ∀ d < 16, hexValue (Nat.digitChar d) = d := by
  decide

theorem isHexDigit_digitChar : ∀ d < 16, isHexDigit (Nat.digitChar d) = true := by
  decide

theorem hexNumber_sixDigits {n : Nat} (h : n < 0x1000000) : hexNumber (sixDigits n) = n := by
  have hdigit (m : Nat) : hexValue (Nat.digitChar (m % 16)) = m % 16 :=
    hexValue_digitChar _ (Nat.mod_lt _ (by decide))
  simp only [hexNumber, sixDigits, List.map_cons, List.map_nil, List.foldl_cons, List.foldl_nil,
    hdigit]
  omega

theorem charOfCodePoint_toNat {c : Char} (h : c ≠ '\x00') : charOfCodePoint c.toNat = c := by
  have hne : c.toNat ≠ 0 := by
    intro hzero
    apply h
    rw [← Char.ofNat_toNat c, hzero]
  rw [charOfCodePoint, if_pos ⟨c.valid, hne⟩, Char.ofNat_toNat]

theorem isHexDigit_sixDigits (n : Nat) : ∀ d ∈ sixDigits n, isHexDigit d = true := by
  intro d hd
  obtain ⟨place, -, rfl⟩ := List.mem_map.mp hd
  exact isHexDigit_digitChar _ (Nat.mod_lt _ (by decide))

theorem scanEscape_digits {digits : List Char} (hlength : digits.length = 6)
    (hdigits : ∀ d ∈ digits, isHexDigit d = true) (more : List Char) :
    scanEscape (digits ++ ' ' :: more) = some (charOfCodePoint (hexNumber digits), more) := by
  cases digits with
  | nil => cases hlength
  | cons d digits =>
    have htake : ((d :: digits) ++ ' ' :: more).take 6 = d :: digits :=
      List.take_left' hlength
    have hdrop : ((d :: digits) ++ ' ' :: more).drop 6 = ' ' :: more :=
      List.drop_left' hlength
    have hall : (d :: digits).takeWhile isHexDigit = d :: digits :=
      List.takeWhile_eq_self_iff.mpr hdigits
    rw [List.cons_append, scanEscape_hex (hdigits d List.mem_cons_self), ← List.cons_append,
      htake, hall, hlength, hdrop]
    rfl

/-- The escape of a character denotes it, whatever follows. -/
theorem scanEscape_spellNameChar (c : Char) (more : List Char) : ∃ cs,
    spellNameChar c = '\x5c' :: cs ∧ scanEscape (cs ++ more) = some (c, more) := by
  rw [spellNameChar]
  split
  · next hc =>
    have hne : c ≠ '\x00' := by
      rintro rfl
      exact absurd hc (by decide)
    have hbound : c.toNat < 0x1000000 := by
      have hvalid := c.valid
      simp only [UInt32.isValidChar, Nat.isValidChar] at hvalid
      simp only [Char.toNat]
      omega
    refine ⟨_, rfl, ?_⟩
    rw [List.append_assoc, List.singleton_append, scanEscape_digits rfl (isHexDigit_sixDigits _),
      hexNumber_sixDigits hbound, charOfCodePoint_toNat hne]
  · next hc => exact ⟨_, rfl, scanEscape_other (by simpa using hc) more⟩

theorem NameScan.spell (name : List Char) {rest : List Char} (h : EndsName rest) :
    NameScan (name.flatMap spellNameChar ++ rest) name rest := by
  induction name with
  | nil => exact .stop h
  | cons c name ih =>
    obtain ⟨cs, hspell, hescape⟩ :=
      scanEscape_spellNameChar c (name.flatMap spellNameChar ++ rest)
    rw [List.flatMap_cons, List.append_assoc, hspell]
    exact .escape hescape ih

theorem StringScan.spell (text rest : List Char) :
    StringScan '\x22' (text.flatMap spellStringChar ++ '\x22' :: rest) text rest := by
  induction text with
  | nil => exact .close
  | cons c text ih =>
    rw [List.flatMap_cons, List.append_assoc, spellStringChar]
    split
    · next hc =>
      rw [Bool.or_eq_true, beq_iff_eq] at hc
      refine .char ?_ ?_ ih
      · rintro rfl
        exact absurd hc (by decide)
      · rintro rfl
        exact absurd hc (by decide)
    · next hc =>
      rw [Bool.or_eq_true, beq_iff_eq, not_or] at hc
      refine .escape ?_ (scanEscape_other (by simpa using hc.1) _) ih
      simpa using hc.2

/-! ## Sequences that can be read -/

/-- The text of a token is one that its kind can have. -/
def Proper (t : Token) : Prop :=
  match t.kind with
  | .ident | .hash | .function => t.text.toList ≠ []
  | .string => True
  | .integer => ∃ c digits, t.text.toList = c :: digits ∧
      (c.isDigit ∨ c = '-' ∧ digits ≠ []) ∧ ∀ d ∈ digits, d.isDigit = true
  | .whiteSpace => t.text.toList ≠ [] ∧ ∀ c ∈ t.text.toList, isBlank c = true
  | k => t = ofKind k

/-- A token that is neither blanks nor the end of input. -/
structure Visible (t : Token) : Prop where
  proper : t.Proper
  kind_ne : t.kind ∉ [Kind.whiteSpace, .endOfInput]

theorem Visible.not_blank {t : Token} (h : t.Visible) : t.kind ≠ .whiteSpace :=
  fun hkind => h.kind_ne (by simp [hkind])

theorem Visible.not_end {t : Token} (h : t.Visible) : t.kind ≠ .endOfInput :=
  fun hkind => h.kind_ne (by simp [hkind])

/-- A sequence that can be read, up to the end of input. Blanks, if there are any, stand between
two tokens; without them the first one must end where the second one starts. -/
inductive Readable : List Token → Prop
  | last : Readable [endOfInput]
  | next {t u : Token} {blanks : List Char} {us : List Token} : t.Visible →
      (∀ b ∈ blanks, isBlank b = true) → (blanks = [] → t.kind.EndsBefore u.spell) →
      Readable (u :: us) → Readable (t :: (withBlanks true blanks u ++ us))

theorem Readable.cases_head {t : Token} {us : List Token} (h : Readable (t :: us)) :
    t = endOfInput ∧ us = [] ∨ t.Visible := by
  cases h with
  | last => exact .inl ⟨rfl, rfl⟩
  | next ht _ _ _ => exact .inr ht

/-! ## What has been read is readable -/

theorem startsIdent_char {c : Char} {cs : List Char} (h : startsIdent c cs = true) :
    isNameChar c = true ∨ c = '\x5c' := by
  unfold startsIdent at h
  split at h
  · next hc =>
    subst hc
    exact .inl (by decide)
  · rw [Bool.or_eq_true, beq_iff_eq] at h
    rcases h with h | h
    · exact .inl (by simp [isNameChar, h])
    · exact .inr h

theorem NameScan.ne_nil {c : Char} {cs name rest : List Char} (hstart : startsIdent c cs = true)
    (h : NameScan (c :: cs) name rest) : name ≠ [] := by
  rintro rfl
  cases h with
  | stop hends =>
    obtain ⟨hname, hescape⟩ := hends c rfl
    rcases startsIdent_char hstart with hc | hc
    · rw [hc] at hname
      cases hname
    · exact hescape hc

theorem fixed_visible {k : Kind} {c : Char} {cs : List Char} (h : k.written = c :: cs) :
    (ofKind k).Visible ∧ (ofKind k).spell = c :: cs := by
  cases k <;> cases h <;> exact ⟨⟨rfl, by simp [ofKind]⟩, rfl⟩

theorem TokenScan.visible {c : Char} {cs rest : List Char} {t : Token}
    (h : TokenScan c cs t rest) : t.Visible := by
  cases h with
  | hash _ hne => exact ⟨by simpa [Proper] using hne, by simp⟩
  | string _ _ => exact ⟨trivial, by simp⟩
  | integer hdigit =>
    refine ⟨⟨c, _, String.toList_ofList, ?_, fun d hd => List.mem_takeWhile_imp hd⟩, by simp⟩
    refine hdigit.imp_right fun h => ⟨h.1, ?_⟩
    cases cs with
    | nil => cases h.2
    | cons d cs =>
      have hd : d.isDigit = true := h.2
      simp [hd]
  | ident hstart hname _ => exact ⟨by simpa [Proper] using hname.ne_nil hstart, by simp⟩
  | function hstart hname => exact ⟨by simpa [Proper] using hname.ne_nil hstart, by simp⟩
  | fixed hwritten _ => exact (fixed_visible hwritten).1

theorem spelledName_head {name : List Char} (h : name ≠ []) :
    (name.flatMap spellNameChar).head? = some '\x5c' := by
  cases name with
  | nil => exact absurd rfl h
  | cons c name =>
    rw [List.flatMap_cons, spellNameChar]
    split <;> rfl

theorem extendedBy_escape {c : Char} {cs : List Char} (hstart : startsIdent c cs = true) {k : Kind}
    (h : k.extendedBy c = false) : k.extendedBy '\x5c' = false := by
  rcases startsIdent_char hstart with hc | rfl
  · cases k with
    | ident | hash => simp [Kind.extendedBy, hc] at h
    | _ => rfl
  · exact h

theorem TokenScan.endsBefore_spell {c : Char} {cs rest : List Char} {t : Token}
    (h : TokenScan c cs t rest) {k : Kind} (hk : k.EndsBefore (c :: cs)) :
    k.EndsBefore t.spell := by
  intro x hx
  have hc := hk c rfl
  cases h with
  | hash _ _ =>
    obtain rfl := Option.some.inj hx
    exact hc
  | string _ _ =>
    obtain rfl := Option.some.inj hx
    cases k <;> rfl
  | integer _ =>
    obtain rfl : c = x := by simpa [spell] using hx
    exact hc
  | ident hstart hname _ =>
    rw [spell, String.toList_ofList, spelledName_head (hname.ne_nil hstart)] at hx
    obtain rfl := Option.some.inj hx
    exact extendedBy_escape hstart hc
  | function hstart hname =>
    rw [spell, String.toList_ofList, List.head?_append,
      spelledName_head (hname.ne_nil hstart)] at hx
    obtain rfl := Option.some.inj hx
    exact extendedBy_escape hstart hc
  | fixed hwritten _ =>
    rw [(fixed_visible hwritten).2] at hx
    obtain rfl := Option.some.inj hx
    exact hc

theorem SequenceScan.readable {started : Bool} {blanks cs : List Char} {ts : List Token}
    (h : SequenceScan started blanks cs ts) : ∃ blanks' t us,
      ts = withBlanks started blanks' t ++ us ∧ Readable (t :: us) ∧
      (blanks' = blanks ∧ (∀ k : Kind, k.EndsBefore cs → k.EndsBefore t.spell) ∨
        blanks' ≠ [] ∧ ∀ b ∈ blanks', isBlank b = true) := by
  induction h with
  | @nil _ blanks =>
    refine ⟨blanks, endOfInput, [], by simp, .last, .inl ⟨rfl, ?_⟩⟩
    intro k _ x hx
    cases hx
  | @blank started blanks c cs ts hblank _ ih =>
    obtain ⟨blanks', t, us, hts, hread, hor⟩ := ih
    refine ⟨blanks', t, us, hts, hread, .inr ?_⟩
    rcases hor with ⟨rfl, -⟩ | hor
    · refine ⟨List.cons_ne_nil _ _, List.forall_mem_cons.mpr ⟨hblank, ?_⟩⟩
      exact fun b hb => List.mem_takeWhile_imp hb
    · exact hor
  | @token started blanks c cs rest t ts hblank ht _ ih =>
    obtain ⟨blanks', u, us, rfl, hread, hor⟩ := ih
    refine ⟨blanks, t, _, rfl, .next ht.visible ?_ ?_ hread, .inl ⟨rfl, ?_⟩⟩
    · rcases hor with ⟨rfl, -⟩ | hor
      · intro b hb
        cases hb
      · exact hor.2
    · rintro rfl
      rcases hor with ⟨-, hends⟩ | hor
      · exact hends _ ht.endsBefore
      · exact absurd rfl hor.1
    · exact fun k hk => ht.endsBefore_spell hk

/-! ## What is readable is read back -/

theorem scan_spelledName {name rest : List Char} (hne : name ≠ []) (hrest : EndsName rest) :
    ∃ cs, name.flatMap spellNameChar = '\x5c' :: cs ∧
      NameScan ('\x5c' :: (cs ++ rest)) name rest := by
  obtain ⟨cs, hspell⟩ := List.head?_eq_some_iff.mp (spelledName_head hne)
  refine ⟨cs, hspell, ?_⟩
  have hname := NameScan.spell name hrest
  rw [hspell] at hname
  exact hname

theorem Kind.EndsBefore.endsName {k : Kind} (hk : k = .ident ∨ k = .hash) {rest : List Char}
    (h : k.EndsBefore rest) : EndsName rest := by
  intro x hx
  have hends := h x hx
  rcases hk with rfl | rfl
  · simp only [Kind.extendedBy, Bool.or_eq_false_iff, beq_eq_false_iff_ne] at hends
    exact hends.1
  · simpa [Kind.extendedBy] using hends

theorem Visible.scan {t : Token} (h : t.Visible) {rest : List Char}
    (hends : t.kind.EndsBefore rest) :
    ∃ c cs, t.spell = c :: cs ∧ isBlank c = false ∧ TokenScan c (cs ++ rest) t rest := by
  obtain ⟨hproper, hkind⟩ := h
  obtain ⟨kind, text⟩ := t
  cases kind
  case ident =>
    have hname : EndsName rest := Kind.EndsBefore.endsName (.inl rfl) hends
    obtain ⟨cs, hspell, hscan⟩ := scan_spelledName hproper hname
    refine ⟨'\x5c', cs, hspell, rfl, ?_⟩
    rw [← String.ofList_toList (s := text)]
    refine .ident rfl hscan fun hparen => ?_
    cases hends '(' hparen
  case hash =>
    have hname : EndsName rest := Kind.EndsBefore.endsName (.inr rfl) hends
    refine ⟨'#', text.toList.flatMap spellNameChar, rfl, rfl, ?_⟩
    rw [← String.ofList_toList (s := text)]
    refine .hash ?_ hproper
    rw [String.ofList_toList]
    exact NameScan.spell _ hname
  case string =>
    refine ⟨'\x22', text.toList.flatMap spellStringChar ++ ['\x22'], rfl, rfl, ?_⟩
    rw [← String.ofList_toList (s := text)]
    refine .string (.inl rfl) ?_
    rw [String.ofList_toList, List.append_assoc]
    exact StringScan.spell _ rest
  case integer =>
    obtain ⟨c, digits, htext, hstart, hdigits⟩ := hproper
    have hends' : ∀ x ∈ rest.head?, x.isDigit = false := hends
    have htake : (digits ++ rest).takeWhile Char.isDigit = digits := by
      rw [takeWhile_append_of_ends hends', List.takeWhile_eq_self_iff.mpr hdigits]
    have hdrop : (digits ++ rest).dropWhile Char.isDigit = rest := by
      rw [dropWhile_append_of_ends hends', List.dropWhile_eq_nil_iff.mpr hdigits, List.nil_append]
    have hblank : isBlank c = false :=
      isBlank_eq_false (p := fun c => c.isDigit || c == '-') (by decide)
        (by simpa using hstart.imp_right And.left)
    refine ⟨c, digits, htext, hblank, ?_⟩
    have htoken : TokenScan c (digits ++ rest) _ _ := .integer (hstart.imp_right ?_)
    · rw [htake, hdrop, ← htext, String.ofList_toList] at htoken
      exact htoken
    · rintro ⟨hc, hne⟩
      refine ⟨hc, ?_⟩
      cases digits with
      | nil => exact absurd rfl hne
      | cons d digits => exact hdigits d List.mem_cons_self
  case function =>
    have hparen : EndsName ('(' :: rest) := by
      intro x hx
      obtain rfl := Option.some.inj hx
      exact ⟨by decide, by decide⟩
    obtain ⟨cs, hspell, hscan⟩ := scan_spelledName hproper hparen
    refine ⟨'\x5c', cs ++ ['('], by simp [spell, hspell], rfl, ?_⟩
    rw [← String.ofList_toList (s := text), List.append_assoc]
    exact .function rfl hscan
  case whiteSpace => exact absurd List.mem_cons_self hkind
  case endOfInput => exact absurd (List.mem_cons_of_mem _ List.mem_cons_self) hkind
  all_goals
    simp only [Proper, ofKind, mk.injEq, true_and] at hproper
    subst hproper
    exact ⟨_, _, rfl, rfl, .fixed rfl hends⟩

theorem Readable.spell_head {u : Token} {us : List Token} (h : Readable (u :: us)) :
    ((u :: us).flatMap spell).head? = u.spell.head? ∧ ∀ x ∈ u.spell.head?, isBlank x = false := by
  rcases h.cases_head with ⟨rfl, rfl⟩ | hu
  · refine ⟨rfl, ?_⟩
    intro x hx
    cases hx
  · have hends : u.kind.EndsBefore [] := by
      intro x hx
      cases hx
    obtain ⟨c, cs, hspell, hblank, -⟩ := hu.scan hends
    rw [List.flatMap_cons, hspell]
    refine ⟨rfl, fun x hx => ?_⟩
    obtain rfl := Option.some.inj hx
    exact hblank

theorem endsToken_spell {u : Token} (h : u.kind.absorbsBlank = true) : EndsToken u.spell := by
  obtain ⟨kind, text⟩ := u
  intro x hx
  cases kind <;> cases h <;> simp [spell, Kind.written, Kind.fixedText?] at hx
  all_goals
    subst hx
    exact ⟨rfl, fun k => by cases k <;> rfl⟩

/-- What stands after a token in a readable sequence does not extend the token, and is read when
the sequence from the next token on is. -/
theorem Visible.scan_next {t u : Token} {blanks : List Char} {us : List Token} (ht : t.Visible)
    (hblanks : ∀ b ∈ blanks, isBlank b = true) (hends : blanks = [] → t.kind.EndsBefore u.spell)
    (hread : Readable (u :: us))
    (hscan : ∀ started blanks, SequenceScan started blanks ((u :: us).flatMap spell)
      (withBlanks started blanks u ++ us)) :
    t.kind.EndsBefore ((withBlanks true blanks u ++ us).flatMap spell) ∧
      SequenceScan true [] ((withBlanks true blanks u ++ us).flatMap spell)
        (withBlanks true blanks u ++ us) := by
  obtain ⟨hhead, hnot⟩ := hread.spell_head
  have hbare : withBlanks true blanks u = [u] → t.kind.EndsBefore u.spell →
      t.kind.EndsBefore ((withBlanks true blanks u ++ us).flatMap spell) ∧
        SequenceScan true [] ((withBlanks true blanks u ++ us).flatMap spell)
          (withBlanks true blanks u ++ us) := by
    intro hwith hu
    rw [hwith]
    refine ⟨fun x hx => hu x (hhead ▸ hx), ?_⟩
    have hrun := hscan true []
    rw [withBlanks_nil] at hrun
    exact hrun
  cases habsorbs : u.kind.absorbsBlank with
  | true =>
    exact hbare (withBlanks_absorbed habsorbs _ _) ((endsToken_spell habsorbs).endsBefore _)
  | false =>
    cases blanks with
    | nil => exact hbare (withBlanks_nil _ _) (hends rfl)
    | cons b blanks =>
      have hb : isBlank b = true := hblanks b List.mem_cons_self
      have hstop : ∀ x ∈ ((u :: us).flatMap spell).head?, isBlank x = false :=
        fun x hx => hnot x (hhead ▸ hx)
      have hall : blanks.takeWhile isBlank = blanks :=
        List.takeWhile_eq_self_iff.mpr fun x hx => hblanks x (List.mem_cons_of_mem _ hx)
      have hnone : blanks.dropWhile isBlank = [] :=
        List.dropWhile_eq_nil_iff.mpr fun x hx => hblanks x (List.mem_cons_of_mem _ hx)
      have hspell : (withBlanks true (b :: blanks) u ++ us).flatMap spell =
          b :: (blanks ++ (u :: us).flatMap spell) := by
        rw [withBlanks_kept habsorbs (List.cons_ne_nil _ _)]
        simp [spell]
      rw [hspell]
      constructor
      · exact endsVisible_blank hb _ _ ht.not_blank
      · apply SequenceScan.blank hb
        rw [takeWhile_append_of_ends hstop, dropWhile_append_of_ends hstop, hall, hnone]
        exact hscan true _

theorem Readable.scan {ts : List Token} (h : Readable ts) (started : Bool) (blanks : List Char) :
    ∃ t us, ts = t :: us ∧
      SequenceScan started blanks (ts.flatMap spell) (withBlanks started blanks t ++ us) := by
  induction h generalizing started blanks with
  | last =>
    refine ⟨endOfInput, [], rfl, ?_⟩
    rw [List.append_nil]
    exact .nil
  | @next t u gap us ht hgap hends hread ih =>
    have hscan : ∀ started blanks, SequenceScan started blanks ((u :: us).flatMap spell)
        (withBlanks started blanks u ++ us) := by
      intro started blanks
      obtain ⟨_, _, heq, hrun⟩ := ih started blanks
      cases heq
      exact hrun
    obtain ⟨hnext, hrun⟩ := ht.scan_next hgap hends hread hscan
    obtain ⟨c, cs, hspell, hblank, htoken⟩ := ht.scan hnext
    refine ⟨t, _, rfl, ?_⟩
    rw [List.flatMap_cons, hspell]
    exact .token hblank htoken hrun

end Token

open Token

theorem Token.Readable.tokenize_eq {tokens : List Token} (h : Readable tokens) :
    tokenize (render tokens) = .ok tokens := by
  obtain ⟨t, us, rfl, hrun⟩ := h.scan false []
  rw [withBlanks_nil, List.singleton_append] at hrun
  rw [tokenize_iff, render, String.toList_ofList]
  exact hrun

theorem readable_of_tokenize {source : String} {tokens : List Token}
    (h : tokenize source = .ok tokens) : Readable tokens := by
  obtain ⟨blanks, t, us, rfl, hread, -⟩ := (tokenize_iff.mp h).readable
  exact hread

theorem exists_tokenize_iff {tokens : List Token} :
    (∃ source, tokenize source = .ok tokens) ↔ Readable tokens := by
  constructor
  · rintro ⟨source, h⟩
    exact readable_of_tokenize h
  · intro h
    exact ⟨render tokens, h.tokenize_eq⟩

/-- What has been read is written so that it is read again. Every text is the text of a string and,
if it is not empty, of an identifier, a hash and a function, and every character is what some escape
denotes. -/
theorem tokenize_render :
    (∀ source tokens, tokenize source = .ok tokens → tokenize (render tokens) = .ok tokens) ∧
      (∀ (kind : Kind) (text : String), kind ∈ [Kind.ident, .hash, .function, .string] →
        (text = "" → kind = .string) →
        tokenize (render [⟨kind, text⟩, endOfInput]) = .ok [⟨kind, text⟩, endOfInput]) ∧
      ∀ (c : Char) (more : List Char), ∃ cs, spellNameChar c = '\x5c' :: cs ∧
        scanEscape (cs ++ more) = some (c, more) := by
  refine ⟨fun source tokens h => (readable_of_tokenize h).tokenize_eq, ?_,
    scanEscape_spellNameChar⟩
  intro kind text hkind hempty
  have hvisible : (⟨kind, text⟩ : Token).Visible := by
    have hne (h : kind ≠ .string) : text.toList ≠ [] := by
      intro hnil
      exact h (hempty (String.toList_eq_nil_iff.mp hnil))
    simp only [List.mem_cons, List.not_mem_nil, or_false] at hkind
    rcases hkind with rfl | rfl | rfl | rfl
    · exact ⟨hne (by decide), by simp⟩
    · exact ⟨hne (by decide), by simp⟩
    · exact ⟨hne (by decide), by simp⟩
    · exact ⟨trivial, by simp⟩
  have hread : Readable (⟨kind, text⟩ :: (withBlanks true [] endOfInput ++ [])) := by
    refine .next hvisible ?_ ?_ .last
    · intro b hb
      cases hb
    · intro _ x hx
      cases hx
  exact hread.tokenize_eq

theorem tokenize_render_escapes :
    tokenize "e\\66 g > #\\31 + \"a\\\nb\\22\"" = .ok [⟨.ident, "efg"⟩, ofKind .greater,
        ⟨.whiteSpace, " "⟩, ⟨.hash, "1"⟩, ofKind .plus, ⟨.whiteSpace, " "⟩, ⟨.string, "ab\""⟩,
        endOfInput] ∧
      tokenize (render [⟨.ident, "efg"⟩, ofKind .greater, ⟨.whiteSpace, " "⟩, ⟨.hash, "1"⟩,
        ofKind .plus, ⟨.whiteSpace, " "⟩, ⟨.string, "ab\""⟩, endOfInput]) =
        .ok [⟨.ident, "efg"⟩, ofKind .greater, ⟨.whiteSpace, " "⟩, ⟨.hash, "1"⟩, ofKind .plus,
          ⟨.whiteSpace, " "⟩, ⟨.string, "ab\""⟩, endOfInput] ∧
      tokenize (render [⟨.ident, "\x00\n"⟩, endOfInput]) =
        .ok [⟨.ident, "\x00\n"⟩, endOfInput] := by
  have h : tokenize "e\\66 g > #\\31 + \"a\\\nb\\22\"" = .ok _ := tokenize_of_scanWithin (by cbv)
  exact ⟨h, tokenize_render.1 _ _ h, tokenize_render.2.1 .ident "\x00\n" (by decide) (by decide)⟩

end TreeQuery
