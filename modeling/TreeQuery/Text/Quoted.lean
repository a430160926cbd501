import TreeQuery.Text.Invisible

/-!
# Quoted text

Texts are quoted in messages so that every character can be read back: quotes and backslashes are
escaped, and a character without a glyph of its own is spelled by its code point.
-/

set_option autoImplicit false

namespace TreeQuery

def spellCodePoint (c : Char) : List Char :=
  '\x5c' :: 'u' :: '\x7b' :: (Nat.toDigits 16 c.toNat ++ ['\x7d'])

def quoteChar (c : Char) : List Char :=
  if c = '\x5c' then ['\x5c', '\x5c']
  else if c = '\x22' then ['\x5c', '\x22']
  else if c = '\t' then ['\x5c', 't']
  else if c = '\r' then ['\x5c', 'r']
  else if c = '\n' then ['\x5c', 'n']
  else if c = '\x00' then ['\x5c', '0']
  else if c.toNat < 0x20 || (0x7f ≤ c.toNat && CharRanges.invisible.contains c) then
    spellCodePoint c
  else [c]

/-- The text between double quotes, with its characters escaped. -/
def quote (text : String) : String :=
  String.ofList ('\x22' :: (text.toList.flatMap quoteChar ++ ['\x22']))

def quoteList (texts : List String) : String :=
  "[" ++ ", ".intercalate (texts.map quote) ++ "]"

end TreeQuery
