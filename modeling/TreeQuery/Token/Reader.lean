import TreeQuery.Token.Basic

/-!
# Reading tokens with one token of pushback

A source of tokens can be looked at, read and given one token back. Past its end it keeps
answering with the end of input.
-/

set_option autoImplicit false

namespace TreeQuery

/-- What a parser needs of the stream it reads. -/
class TokenSource (R : Type) where
  peek : R → Token
  read : R → Token × R
  /-- Give a token back, to be read next. -/
  unread : Token → R → R

/-- A list of tokens with room for one token given back. -/
structure TokenReader where
  rest : List Token
  pushedBack : Option Token := none

namespace TokenReader

def ofList (tokens : List Token) : TokenReader where
  rest := tokens

def peek (r : TokenReader) : Token :=
  match r.pushedBack with
  | some t => t
  | none => r.rest.head?.getD .endOfInput

def read (r : TokenReader) : Token × TokenReader :=
  match r.pushedBack, r.rest with
  | some t, _ => (t, { r with pushedBack := none })
  | none, t :: rest => (t, { r with rest })
  | none, [] => (.endOfInput, r)

def unread (t : Token) (r : TokenReader) : TokenReader :=
  { r with pushedBack := some t }

def toList (r : TokenReader) : List Token :=
  r.pushedBack.toList ++ r.rest

instance : TokenSource TokenReader where
  peek := peek
  read := read
  unread := unread

@[simp] theorem toList_ofList (tokens : List Token) : (ofList tokens).toList = tokens := rfl

theorem peek_eq_head (r : TokenReader) : r.peek = r.toList.head?.getD .endOfInput := by
  obtain ⟨rest, pushed⟩ := r
  cases pushed <;> simp [peek, toList]

theorem read_eq_peek_tail (r : TokenReader) :
    r.read.1 = r.peek ∧ r.read.2.toList = r.toList.tail := by
  obtain ⟨rest, pushed⟩ := r
  cases pushed <;> cases rest <;> simp [read, peek, toList]

theorem toList_unread {r : TokenReader} (h : r.pushedBack = none) (t : Token) :
    (r.unread t).toList = t :: r.toList := by
  simp [unread, toList, h]

theorem pushedBack_read (r : TokenReader) : r.read.2.pushedBack = none := by
  obtain ⟨rest, pushed⟩ := r
  cases pushed <;> cases rest <;> rfl

/-- A token that was read and is given back is read once more, the end of input included. -/
theorem read_unread_read (r : TokenReader) : (r.read.2.unread r.read.1).read = r.read := by
  obtain ⟨rest, pushed⟩ := r
  cases pushed <;> cases rest <;> rfl

/-- A token that was read and is given back stands where it stood. -/
theorem toList_unread_read (r : TokenReader) (h : r.toList ≠ []) :
    (r.read.2.unread r.read.1).toList = r.toList := by
  rw [toList_unread r.pushedBack_read, r.read_eq_peek_tail.1, r.read_eq_peek_tail.2,
    r.peek_eq_head]
  cases hr : r.toList with
  | nil => exact absurd hr h
  | cons t ts => rfl

end TokenReader

end TreeQuery
