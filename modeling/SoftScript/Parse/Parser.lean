import SoftScript.Parse.Cursor

/-! Parsers: computations that move a cursor and may stop at an error. Since a parser calls
itself on nested parts, each takes a bound on how deep that may go; `exhausted` says that the
bound was too small and is no judgement on the text. -/
namespace SoftScript.Parse

inductive Stop where
  | refused (error : Error)
  | exhausted
  deriving DecidableEq, Repr

abbrev Parser := EStateM Stop Cursor

namespace Parser

variable {α : Type}

def exhausted : Parser α := throw .exhausted

def refuse (cause : Cause) (token : Token) : Parser α :=
  throw (.refused ⟨cause, token⟩)

def current : Parser Token := return (← get).current

def atEnd : Parser Bool := return (← get).atEnd

def check (kind : Token.Kind) : Parser Bool := return (← get).check kind

/-- Passes the current token and gives it back. -/
def advance : Parser Token := do
  modify Cursor.advance
  return (← get).previous

/-- Passes the current token if it is of one of the kinds. -/
def eat? (kinds : List Token.Kind) : Parser (Option Token) := do
  let c ← get
  if kinds.any c.check then return some (← advance) else return none

def eat (kind : Token.Kind) : Parser Bool :=
  return (← eat? [kind]).isSome

def consume (kind : Token.Kind) (cause : Cause) : Parser Token := do
  if ← check kind then advance else refuse cause (← current)

def expect (kind : Token.Kind) (context : String) : Parser Token :=
  consume kind (.expected kind context)

/-- Notes an error and goes on. -/
def report (cause : Cause) (token : Token) : Parser Unit :=
  modify (·.report cause token)

def insideFunction (p : Parser α) : Parser α := fun c =>
  match p c.enterFunction with
  | .ok a c => .ok a c.leaveFunction
  | .error e c => .error e c.leaveFunction

/-- Notes the error that stopped a parser and moves on to where a statement may begin. -/
def recover (p : Parser α) : Parser (Option α) := fun c =>
  match p c with
  | .ok a c => .ok (some a) c
  | .error (.refused e) c => .ok none (c.report e.cause e.token).synchronize
  | .error .exhausted c => .error .exhausted c

/-- Depth enough for every text of this many tokens: between two tokens no parser nests more
than sixteen calls. -/
def depthFor (tokens : Nat) : Nat := 16 * (tokens + 1)

/-- Runs a parser with depth enough for what is left to read. -/
def bounded (p : Nat → Parser α) : Parser α := fun c =>
  p (depthFor c.remaining) c

end Parser

end SoftScript.Parse
