import TreeQuery.Token.Stream

/-!
# Scanning within a bound

Scanning recurses on what is left of the text. The same scan with a bound on the number of its
steps can be computed on a given text.
-/

set_option autoImplicit false

namespace TreeQuery

namespace Token

/-- Reads tokens in at most `bound` steps. -/
def scanWithin : Nat → Bool → List Char → List Char → Except Misread (List Token)
  | 0, _, _, cs => .error ⟨.unterminatedString, cs⟩
  | _ + 1, started, blanks, [] => .ok (withBlanks started blanks endOfInput)
  | bound + 1, started, blanks, c :: cs =>
    if isBlank c then
      scanWithin bound started (c :: cs.takeWhile isBlank) (cs.dropWhile isBlank)
    else
      match scanToken c cs with
      | .error e => .error e
      | .ok (t, rest) => (scanWithin bound true [] rest).map (withBlanks started blanks t ++ ·)

/-- Each step uses up a character, so the length of the text is bound enough. -/
theorem scan_eq_scanWithin {bound : Nat} {started : Bool} {blanks cs : List Char}
    (h : cs.length < bound) : scan started blanks cs = scanWithin bound started blanks cs := by
  induction bound generalizing started blanks cs with
  | zero => omega
  | succ bound ih =>
    cases cs with
    | nil => rw [scan, scanWithin]
    | cons c cs =>
      rw [List.length_cons] at h
      rw [scan, scanWithin]
      split
      · have hdrop := (List.dropWhile_sublist isBlank (l := cs)).length_le
        exact ih (by omega)
      · split
        · next he => simp only [he]
        · next t rest ht =>
          have hrest := length_scanToken ht
          simp only [ht, ih (show rest.length < bound by omega)]
          cases scanWithin bound true [] rest <;> rfl

end Token

theorem tokenize_of_scanWithin {source : String} {tokens : List Token}
    (h : Token.scanWithin (source.toList.length + 1) false [] source.toList = .ok tokens) :
    tokenize source = .ok tokens := by
  rw [tokenize, Token.scan_eq_scanWithin (Nat.lt_add_one _), h]

end TreeQuery
