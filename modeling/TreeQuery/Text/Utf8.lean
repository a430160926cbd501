/-!
# Characters as bytes

A character is written with one to four bytes. A range of characters then falls into rows: each row
has a range of bytes for every place, and every choice of bytes from a row writes a character of
the range. Code points of surrogates are no characters and belong to no row.
-/

set_option autoImplicit false

namespace TreeQuery

structure ByteRange where
  first : Nat
  last : Nat
  deriving DecidableEq

/-- The rows of the numbers from `first` to `last`, written with a byte above `base` and then with
six bits in each of some more places. -/
def sixBitRows : Nat → Nat → Nat → Nat → List (List ByteRange)
  | 0, base, first, last => [[⟨base + first, base + last⟩]]
  | places + 1, base, first, last =>
    let unit := 1 <<< (6 * (places + 1))
    let below := first / unit
    let above := last / unit
    let under := fun (byte start stop : Nat) =>
      (sixBitRows places 0x80 start stop).map (⟨base + byte, base + byte⟩ :: ·)
    if below = above then under below (first % unit) (last % unit)
    else
      let startsWhole := first % unit = 0
      let endsWhole := last % unit + 1 = unit
      let start := if startsWhole then below else below + 1
      let stop := if endsWhole then above + 1 else above
      (if startsWhole then [] else under below (first % unit) (unit - 1))
        ++ (if start < stop then
            [⟨base + start, base + stop - 1⟩ :: List.replicate (places + 1) ⟨0x80, 0xbf⟩] else [])
        ++ (if endsWhole then [] else under above 0 (last % unit))

/-- The rows of the characters from `first` to `last`, in increasing order. -/
def utf8Rows (first last : Nat) : List (List ByteRange) :=
  [(0x0, 0x7f, 0, 0x0), (0x80, 0x7ff, 1, 0xc0), (0x800, 0xd7ff, 2, 0xe0),
    (0xe000, 0xffff, 2, 0xe0), (0x10000, 0x10ffff, 3, 0xf0)].flatMap
    fun (low, high, places, base) =>
      if max first low ≤ min last high then
        sixBitRows places base (max first low) (min last high)
      else []

def utf8Bytes (codePoint : Nat) : List Nat :=
  (utf8Rows codePoint codePoint).flatten.map (·.first)

end TreeQuery
