/-!
# Fixed decimals

A rate is the number with fifty-three binary digits that is nearest to a quotient. It is written
with six decimal places. Both roundings take the nearest value, and the even one when two are
equally near.
-/

set_option autoImplicit false

namespace TreeQuery

/-- The integer nearest to `n / d`; of two equally near ones, the even one. -/
def roundDiv (n d : Nat) : Nat :=
  let q := n / d
  let r := n % d
  if 2 * r < d ∨ (2 * r = d ∧ q % 2 = 0) then q else q + 1

/-- The number of binary places at which a quotient `n / d` of at most one has fifty-three binary
digits from its first digit on. -/
def binaryPlaces (n d : Nat) : Nat :=
  let places := 52 + d.log2 - n.log2
  if (n <<< places) / d < 1 <<< 52 then places + 1 else places

def sixPlaces (n d : Nat) : String :=
  let millionths := roundDiv (n * 1000000) d
  let decimals := toString (millionths % 1000000)
  toString (millionths / 1000000) ++ "."
    ++ String.ofList (List.replicate (6 - decimals.length) '0') ++ decimals

def writeRate (n d : Nat) : String :=
  let places := binaryPlaces n d
  sixPlaces (roundDiv (n <<< places) d) (1 <<< places)

end TreeQuery
