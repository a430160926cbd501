/-!
# Tokens

A token has a kind and a text. For most kinds the grammar fixes the text, and two such tokens are
the same whatever text they carry.
-/

set_option autoImplicit false

namespace TreeQuery

inductive Token.Kind where
  | ident
  | hash
  | string
  | integer
  | function
  | whiteSpace
  | plus
  | greater
  | tilde
  | comma
  | dot
  | colon
  | semicolon
  | slash
  | star
  | pipe
  | leftBracket
  | rightBracket
  | leftParen
  | rightParen
  | equals
  | notEqual
  | includes
  | dashMatch
  | prefixMatch
  | suffixMatch
  | substringMatch
  | regexMatch
  | endOfInput
  deriving DecidableEq, Inhabited

namespace Token.Kind

def fixedText? : Token.Kind → Option String
  | ident | hash | string | integer | function | whiteSpace => none
  | plus => some "+"
  | greater => some ">"
  | tilde => some "~"
  | comma => some ","
  | dot => some "."
  | colon => some ":"
  | semicolon => some ";"
  | slash => some "/"
  | star => some "*"
  | pipe => some "|"
  | leftBracket => some "["
  | rightBracket => some "]"
  | leftParen => some "("
  | rightParen => some ")"
  | equals => some "="
  | notEqual => some "!="
  | includes => some "~="
  | dashMatch => some "|="
  | prefixMatch => some "^="
  | suffixMatch => some "$="
  | substringMatch => some "*="
  | regexMatch => some "%="
  | endOfInput => some ""

def describe : Token.Kind → String
  | ident => "identifier"
  | hash => "hash"
  | string => "string"
  | integer => "integer"
  | function => "function"
  | whiteSpace => "whitespace"
  | endOfInput => "end of input"
  | k => "'" ++ k.fixedText?.getD "" ++ "'"

/-- Blanks before a token of one of these kinds separate nothing. -/
def absorbsBlank : Token.Kind → Bool
  | comma | plus | greater | tilde | rightParen | rightBracket | semicolon | endOfInput => true
  | _ => false

end Token.Kind

structure Token where
  kind : Token.Kind
  text : String
  deriving DecidableEq, Inhabited

namespace Token

def ofKind (kind : Kind) : Token where
  kind
  text := kind.fixedText?.getD ""

def endOfInput : Token := ofKind .endOfInput

/-- Two tokens are the same when their kinds agree and, unless the kind fixes it, their texts. -/
def same (a b : Token) : Bool :=
  a.kind == b.kind && (a.kind.fixedText?.isSome || a.text == b.text)

def describe (t : Token) : String :=
  match t.kind with
  | .ident | .integer => "'" ++ t.text ++ "'"
  | .hash => "'#" ++ t.text ++ "'"
  | .string => "string \"" ++ t.text ++ "\""
  | .function => "'" ++ t.text ++ "('"
  | k => k.describe

end Token

/-- What a reader asks of the next token: a kind, or one particular token. -/
inductive TokenSpec where
  | kind (kind : Token.Kind)
  | token (token : Token)
  deriving DecidableEq

namespace TokenSpec

def expectedKind : TokenSpec → Token.Kind
  | kind k => k
  | token t => t.kind

def accepts (t : Token) : TokenSpec → Bool
  | kind k => t.kind == k
  | token expected => expected.same t

def same : TokenSpec → TokenSpec → Bool
  | kind k, kind l => k == l
  | token a, token b => a.same b
  | _, _ => false

def describe : TokenSpec → String
  | kind k => k.describe
  | token t => t.describe

end TokenSpec

end TreeQuery
