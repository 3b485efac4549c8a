import SoftScript.Prompt.Help
import SoftScript.Session
import SoftScript.Text.Characters

/-! What a line typed at the prompt asks for, and how a session carries it out. -/
namespace SoftScript.Prompt

inductive Action where
  | run (source : String)
  | runFile (path : String)
  | say (lines : List String)
  | leave
  | skip
  deriving DecidableEq, Repr

/-- The first word of a text and what follows it. -/
def splitWord (text : List Char) : List Char × List Char :=
  let text := text.dropWhile Text.isBlank
  (text.takeWhile (!Text.isBlank ·), text.dropWhile (!Text.isBlank ·))

/-- A line that begins with `-` is a command to the prompt, also when no such command is known.
Only the first word after the command counts. -/
def Action.ofCommand (line : List Char) : Action :=
  let (name, rest) := splitWord line
  let (word, _) := splitWord rest
  let argument := if word.isEmpty then none else some (String.ofList word)
  match (String.ofList name).toLower, argument with
  | "-h", topic | "-help", topic =>
    match Help.topic? topic with
    | some lines => .say lines
    | none => .skip
  | "-r", none | "-run", none => .say ["run requires a path like: -r test.coffee"]
  | "-r", some path | "-run", some path => .runFile path
  | "-e", none | "-exit", none => .leave
  | _, _ => .skip

/-- A line without the line breaks at its end. -/
def withoutBreaks (line : List Char) : List Char :=
  (line.reverse.dropWhile fun c => c = '\n' || c = '\r').reverse

def Action.ofLine (line : String) : Action :=
  let line := withoutBreaks line.toList
  if line.head? = some '-' then .ofCommand line
  else if Text.allBlank line then .skip
  else .run (String.ofList line)

/-- Reads a file, or says why it cannot be read. -/
abbrev Reader := String → Except DeviceError String

/-- The session after an action, and whether the prompt is left. -/
def Action.perform (n : Nat) (read : Reader) (s : Session) : Action → Option (Session × Bool)
  | .run source => (s.run n "prompt" source).map fun (_, s) => (s, false)
  | .runFile path => (s.runFile n path (read path)).map fun (_, s) => (s, false)
  | .say lines => some (s.say (String.join (lines.map (· ++ "\n"))), false)
  | .leave => some (s, true)
  | .skip => some (s, false)

end SoftScript.Prompt
