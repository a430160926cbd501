import TreeQuery.Error
import TreeQuery.Text.Blank

/-!
# From text to tokens

Blanks matter only as the descendant combinator. A run of blanks becomes one token, and none at
all at either end of the text or before a token that absorbs it.
-/

set_option autoImplicit false

namespace TreeQuery

/-- Letters of ASCII, the underscore and all characters beyond ASCII may open a name. -/
def isNameStart (c : Char) : Bool :=
  c.isAlpha || c == '_' || 0x80 ≤ c.toNat

def isNameChar (c : Char) : Bool :=
  isNameStart c || c.isDigit || c == '-'

def isHexDigit (c : Char) : Bool :=
  c.isDigit || ('a' ≤ c && c ≤ 'f') || ('A' ≤ c && c ≤ 'F')

def hexValue (c : Char) : Nat :=
  if c.isDigit then c.toNat - '0'.toNat
  else if 'a' ≤ c then c.toNat - 'a'.toNat + 10
  else c.toNat - 'A'.toNat + 10

def hexNumber (digits : List Char) : Nat :=
  digits.foldl (fun n c => 16 * n + hexValue c) 0

/-- The character with a code point; the replacement character stands for zero and for numbers
that are no code point. -/
def charOfCodePoint (n : Nat) : Char :=
  if n.isValidChar ∧ n ≠ 0 then Char.ofNat n else '\ufffd'

namespace Token

structure Misread where
  fault : LexicalFault
  rest : List Char

/-- Reads what stands after a backslash: up to six digits of base sixteen and one blank that ends
them, or any other single character, which stands for itself. -/
def scanEscape : List Char → Option (Char × List Char)
  | [] => none
  | c :: cs =>
    if isHexDigit c then
      let digits := ((c :: cs).take 6).takeWhile isHexDigit
      let rest := (c :: cs).drop digits.length
      let rest := if rest.head?.any isBlank then rest.tail else rest
      some (charOfCodePoint (hexNumber digits), rest)
    else some (c, cs)

theorem length_scanEscape {cs rest : List Char} {c : Char} (h : scanEscape cs = some (c, rest)) :
    rest.length < cs.length := by
  cases cs with
  | nil => simp [scanEscape] at h
  | cons d ds =>
    rw [scanEscape] at h
    by_cases hd : isHexDigit d = true
    · have hpos : 0 < (((d :: ds).take 6).takeWhile isHexDigit).length := by
        simp [hd]
      rw [if_pos hd, Option.some.injEq, Prod.mk.injEq] at h
      obtain ⟨-, rfl⟩ := h
      generalize (((d :: ds).take 6).takeWhile isHexDigit).length = k at hpos
      simp only [List.length_cons]
      split
      · simp only [List.length_tail, List.length_drop, List.length_cons]
        omega
      · simp only [List.length_drop, List.length_cons]
        omega
    · rw [if_neg hd, Option.some.injEq, Prod.mk.injEq] at h
      simp [h.2]

/-- Reads the characters of a name, escapes resolved. -/
def scanName (cs : List Char) : Except Misread (List Char × List Char) :=
  match cs with
  | [] => .ok ([], [])
  | c :: cs =>
    if c = '\x5c' then
      match _h : scanEscape cs with
      | none => .error ⟨.danglingEscape, c :: cs⟩
      | some (e, rest) => (scanName rest).map fun (name, rest) => (e :: name, rest)
    else if isNameChar c then (scanName cs).map fun (name, rest) => (c :: name, rest)
    else .ok ([], c :: cs)
termination_by cs.length
decreasing_by
  · have := length_scanEscape ‹_›
    simp only [List.length_cons]
    omega
  · simp

theorem length_scanName {cs name rest : List Char} (h : scanName cs = .ok (name, rest)) :
    rest.length ≤ cs.length := by
  fun_induction scanName cs generalizing name with
  | case1 => simp_all
  | case2 => simp at h
  | case3 cs e r he ih =>
    cases hr : scanName r with
    | error => simp [hr, Except.map] at h
    | ok p =>
      obtain ⟨n, r'⟩ := p
      simp only [hr, Except.map, Except.ok.injEq, Prod.mk.injEq] at h
      obtain ⟨-, rfl⟩ := h
      have := length_scanEscape he
      have := ih hr
      simp only [List.length_cons]
      omega
  | case4 c cs _ _ ih =>
    cases hr : scanName cs with
    | error => simp [hr, Except.map] at h
    | ok p =>
      obtain ⟨n, r'⟩ := p
      simp only [hr, Except.map, Except.ok.injEq, Prod.mk.injEq] at h
      obtain ⟨-, rfl⟩ := h
      have := ih hr
      simp only [List.length_cons]
      omega
  | case5 => simp_all

/-- Reads the rest of a string after its opening quote. An escaped line feed continues the string
and contributes nothing. -/
def scanString (quote : Char) (cs : List Char) : Option (List Char × List Char) :=
  match cs with
  | [] => none
  | c :: cs =>
    if c = quote then some ([], cs)
    else if c = '\x5c' then
      if cs.head? = some '\n' then scanString quote cs.tail
      else
        match _h : scanEscape cs with
        | none => none
        | some (e, rest) => (scanString quote rest).map fun (text, rest) => (e :: text, rest)
    else (scanString quote cs).map fun (text, rest) => (c :: text, rest)
termination_by cs.length
decreasing_by
  · simp only [List.length_tail, List.length_cons]
    omega
  · have := length_scanEscape ‹_›
    simp only [List.length_cons]
    omega
  · simp

theorem length_scanString {quote : Char} {cs text rest : List Char}
    (h : scanString quote cs = some (text, rest)) : rest.length ≤ cs.length := by
  fun_induction scanString quote cs generalizing text with
  | case1 => simp at h
  | case2 => simp_all
  | case3 cs _ _ ih =>
    have := ih h
    simp only [List.length_tail, List.length_cons] at *
    omega
  | case4 => simp at h
  | case5 cs _ e r he _ ih =>
    obtain ⟨⟨t, r'⟩, hr, hp⟩ := Option.map_eq_some_iff.1 h
    simp only [Prod.mk.injEq] at hp
    obtain ⟨-, rfl⟩ := hp
    have := length_scanEscape he
    have := ih hr
    simp only [List.length_cons]
    omega
  | case6 c cs _ _ ih =>
    obtain ⟨⟨t, r'⟩, hr, hp⟩ := Option.map_eq_some_iff.1 h
    simp only [Prod.mk.injEq] at hp
    obtain ⟨-, rfl⟩ := hp
    have := ih hr
    simp only [List.length_cons]
    omega

/-- Whether an identifier starts with `c` when `cs` follows. A hyphen needs a letter or an escape
after it. -/
def startsIdent (c : Char) (cs : List Char) : Bool :=
  if c = '-' then cs.head?.any fun d => isNameStart d || d == '\x5c'
  else isNameStart c || c == '\x5c'

/-- Reads a name; directly before a parenthesis it is the name of a function. -/
def scanIdentLike (cs : List Char) : Except Misread (Token × List Char) :=
  match scanName cs with
  | .error e => .error e
  | .ok (name, '(' :: rest) => .ok (⟨.function, String.ofList name⟩, rest)
  | .ok (name, rest) => .ok (⟨.ident, String.ofList name⟩, rest)

/-- A character that means one thing alone and another before an equals sign. -/
def scanOperator (alone withEquals : Kind) (cs : List Char) : Token × List Char :=
  match cs with
  | '=' :: rest => (ofKind withEquals, rest)
  | _ => (ofKind alone, cs)

def Kind.ofChar? : Char → Option Kind
  | '=' => some .equals
  | '+' => some .plus
  | '>' => some .greater
  | ',' => some .comma
  | '.' => some .dot
  | ':' => some .colon
  | ';' => some .semicolon
  | '/' => some .slash
  | '[' => some .leftBracket
  | ']' => some .rightBracket
  | '(' => some .leftParen
  | ')' => some .rightParen
  | _ => none

def Kind.ofOperatorStart? : Char → Option Kind
  | '^' => some .prefixMatch
  | '$' => some .suffixMatch
  | '%' => some .regexMatch
  | '!' => some .notEqual
  | _ => none

/-- Reads the token that starts with `c`, which is not blank, when `cs` follows. -/
def scanToken (c : Char) (cs : List Char) : Except Misread (Token × List Char) :=
  if c = '#' then
    match scanName cs with
    | .error e => .error e
    | .ok ([], _) => .error ⟨.nameAfterHash, c :: cs⟩
    | .ok (name, rest) => .ok (⟨.hash, String.ofList name⟩, rest)
  else if c = '\x22' ∨ c = '\x27' then
    match scanString c cs with
    | none => .error ⟨.unterminatedString, c :: cs⟩
    | some (text, rest) => .ok (⟨.string, String.ofList text⟩, rest)
  else if c.isDigit ∨ (c = '-' ∧ cs.head?.any Char.isDigit) then
    .ok (⟨.integer, String.ofList (c :: cs.takeWhile Char.isDigit)⟩, cs.dropWhile Char.isDigit)
  else if startsIdent c cs then scanIdentLike (c :: cs)
  else if c = '~' then .ok (scanOperator .tilde .includes cs)
  else if c = '|' then .ok (scanOperator .pipe .dashMatch cs)
  else if c = '*' then .ok (scanOperator .star .substringMatch cs)
  else
    match Kind.ofOperatorStart? c, cs with
    | some kind, '=' :: rest => .ok (ofKind kind, rest)
    | some kind, _ => .error ⟨.operatorExpected (kind.fixedText?.getD ""), c :: cs⟩
    | none, _ =>
      match Kind.ofChar? c with
      | some kind => .ok (ofKind kind, cs)
      | none => .error ⟨.invalidCharacter c, c :: cs⟩

end Token

end TreeQuery
