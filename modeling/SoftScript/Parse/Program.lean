import SoftScript.Parse.Grammar
import SoftScript.Syntax.Canonical
import SoftScript.Token.Scan

/-! Whole programs: lines up to the end of the tokens, each recovering from its own errors. -/
namespace SoftScript.Parse

open SoftScript.Parse.Parser

/-- What was read of a program; without errors that is all of it. -/
structure Program where
  statements : List Stmt
  comments : List Span
  errors : List Error

namespace Program

def isValid (p : Program) : Bool := p.errors.isEmpty

def canonical (p : Program) : String := Stmt.canonicalLines p.statements

end Program

def lines (line : Parser Stmt) : Nat → Array Stmt → Parser (List Stmt)
  | 0, _ => exhausted
  | n + 1, done => do
    if ← atEnd then return done.toList
    else match ← recover line with
      | some stmt => lines line n (done.push stmt)
      | none => lines line n done

/-- Reads to the end and hands over the comments and errors met so far. -/
def program : Parser Program := do
  let statements ← bounded fun n => lines (line n) n #[]
  let c ← get
  set { c with comments := #[], errors := #[] }
  return ⟨statements, c.comments.toList, c.errors.toList⟩

def ofTokens (tokens : List Token) : Program :=
  match program (Cursor.ofTokens tokens) with
  | .ok p _ => p
  | .error _ c => ⟨[], c.comments.toList, c.errors.toList⟩

def ofSource (source : String) : Program :=
  ofTokens (Token.tokenize source)

end SoftScript.Parse
