import SoftScript.Integer
import SoftScript.Text.Bytes
import SoftScript.Token.Kind

/-! Tokens: a kind, the text it was read from, where that text stands, and for numbers and
strings the value it denotes. -/
namespace SoftScript

namespace Token

inductive Literal where
  | int (value : Integer)
  | string (value : String)
  deriving DecidableEq, Repr

def withoutQuotes (text : String) : String :=
  String.ofList (text.toList.filter (· ≠ '"'))

/-- A number outside the range of integers denotes nothing. -/
def Literal.decode? (kind : Kind) (lexeme : String) : Option Literal :=
  match kind with
  | .number => (Integer.parse? lexeme).map .int
  | .string => some (.string (withoutQuotes lexeme))
  | _ => none

end Token

structure Token where
  kind : Token.Kind
  lexeme : String
  line : Nat
  literal : Option Token.Literal
  span : Span
  deriving DecidableEq, Repr

namespace Token

def read (kind : Kind) (lexeme : String) (line : Nat) (span : Span) : Token :=
  ⟨kind, lexeme, line, Literal.decode? kind lexeme, span⟩

def eof (line offset : Nat) : Token :=
  read .eof "" line (.point offset)

instance : Inhabited Token := ⟨eof 1 0⟩

/-- A token that stands for no text of its own, placed where another one stands. -/
def synthetic (kind : Kind) (like : Token) : Token :=
  ⟨kind, kind.spelling, like.line, none, like.span⟩

def text (t : Token) : String :=
  t.kind.name ++ " : " ++ t.lexeme

end Token

end SoftScript
