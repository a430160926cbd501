import TreeQuery.Text.CharRanges

/-!
# Blank characters and words

Selectors and class lists are separated by the five blanks of ASCII. Printed documents and
attribute words also know the wider white space of Unicode.
-/

set_option autoImplicit false

namespace TreeQuery

def isBlank (c : Char) : Bool :=
  c == ' ' || c == '\t' || c == '\n' || c == '\r' || c == '\x0c'

def CharRanges.whiteSpace : CharRanges where
  bounds := #[0x9, 0xe, 0x20, 0x21, 0x85, 0x86, 0xa0, 0xa1, 0x1680, 0x1681, 0x2000, 0x200b,
    0x2028, 0x202a, 0x202f, 0x2030, 0x205f, 0x2060, 0x3000, 0x3001]

/-- Whether `c` is white space in the sense of Unicode. -/
def isSpace (c : Char) : Bool :=
  CharRanges.whiteSpace.contains c

/-- The pieces of a text between the characters that satisfy `p`; there is always one piece. -/
def pieces (p : Char → Bool) : List Char → List (List Char)
  | [] => [[]]
  | c :: cs =>
    if p c then [] :: pieces p cs
    else
      match pieces p cs with
      | [] => [[c]]
      | w :: ws => (c :: w) :: ws

theorem pieces_ne_nil (p : Char → Bool) (cs : List Char) : pieces p cs ≠ [] := by
  cases cs with
  | nil => simp [pieces]
  | cons c cs =>
    unfold pieces
    split
    · simp
    · split <;> simp

/-- The words of a text: its non-empty pieces between blanks. -/
def words (text : String) : List String :=
  ((pieces isBlank text.toList).filter (· ≠ [])).map String.ofList

/-- Whether `part` occurs in `text` as a run of neighbouring characters. -/
def occursIn (part : List Char) : List Char → Bool
  | [] => part.isEmpty
  | c :: cs => part.isPrefixOf (c :: cs) || occursIn part cs

theorem occursIn_iff {part text : List Char} : occursIn part text = true ↔ part <:+: text := by
  induction text with
  | nil => simp [occursIn]
  | cons c cs ih =>
    rw [occursIn, Bool.or_eq_true, List.isPrefixOf_iff_prefix, ih, List.infix_cons_iff]

end TreeQuery
