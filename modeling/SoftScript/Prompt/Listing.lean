import SoftScript.Session
import SoftScript.Syntax.Outline

/-! Prompts that show how a line is read instead of running it. -/
namespace SoftScript.Prompt

/-- A line without its line break: one newline and then one carriage return at most. -/
def withoutBreak (line : String) : String :=
  let strip (c : Char) (reversed : List Char) : List Char :=
    if reversed.head? = some c then reversed.drop 1 else reversed
  String.ofList (strip '\r' (strip '\n' line.toList.reverse)).reverse

def tokenLines (source : String) : String :=
  String.join ((Token.tokenize source).map fun token => token.text ++ "\n")

inductive Listing where
  | tokens
  /-- Programs in canonical form or, if wanted, as outlines. -/
  | programs (outlined : Bool)
  deriving DecidableEq, Repr

/-- Lists one line. Errors are reported after what could be read of a program. -/
def Listing.display (s : Session) (source : String) : Listing → Session
  | .tokens => s.say (tokenLines source)
  | .programs outlined =>
    let program := Parse.ofSource source
    let text :=
      if outlined then (Outline.list (Stmt.outlines program.statements)).text
      else program.canonical
    let s := s.say (text ++ "\n")
    if program.isValid then s else s.report (.parse "prompt" source program.errors)

/-- The session after a line, and whether the prompt is left. -/
def Listing.perform (listing : Listing) (s : Session) (line : String) : Session × Bool :=
  match withoutBreak line with
  | "" => (s, false)
  | ".exit" => (s, true)
  | source => (listing.display s source, false)

end SoftScript.Prompt
