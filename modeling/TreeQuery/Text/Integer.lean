/-!
# Decimal integers

Signed decimal integers of 32 bits and their text.
-/

set_option autoImplicit false

namespace TreeQuery

/-- The number that decimal digits spell, if there is at least one and nothing else. -/
def naturalOfDigits? (digits : List Char) : Option Nat :=
  if !digits.isEmpty && digits.all Char.isDigit then
    some (digits.foldl (fun n c => 10 * n + (c.toNat - '0'.toNat)) 0)
  else none

def integerOfChars? : List Char → Option Int
  | '-' :: digits => (naturalOfDigits? digits).map fun n => -(n : Int)
  | '+' :: digits => (naturalOfDigits? digits).map Int.ofNat
  | digits => (naturalOfDigits? digits).map Int.ofNat

/-- The integer that a text spells, unless it needs more than 32 bits. -/
def int32OfText? (text : String) : Option Int :=
  (integerOfChars? text.toList).filter fun n => -0x80000000 ≤ n && n < 0x80000000

end TreeQuery
