import SoftScript.Text.Bytes

/-! Diagnostics: a title, the place in a source that it is about, and a closing remark. -/
namespace SoftScript.Report

structure Location where
  path : String
  source : String
  span : Span
  label : Option String

structure Diagnostic where
  title : String
  text : String
  location : Option Location

/-- The line on which an offset lies. -/
structure LinePlace where
  number : Nat
  /-- What stands on the line before the offset. -/
  before : List Char
  /-- The whole line without its end. -/
  line : List Char

def linePlace (source : List Char) (offset : Nat) : LinePlace :=
  let (before, after) := Text.splitAtByte offset source
  let opening := (before.reverse.takeWhile (· ≠ '\n')).reverse
  ⟨1 + before.count '\n', opening, opening ++ after.takeWhile (· ≠ '\n')⟩

namespace Location

/-- The number of characters that the span covers. -/
def width (l : Location) : Nat :=
  let (_, after) := Text.splitAtByte l.span.start l.source.toList
  (Text.splitAtByte l.span.length after).1.length

/-- Path, line and column, and below them the line itself with the span marked by carets. -/
def excerpt (l : Location) : String :=
  let place := linePlace l.source.toList l.span.start
  let number := toString place.number
  let margin := String.ofList (List.replicate number.length ' ')
  let blanks := String.ofList (List.replicate place.before.length ' ')
  let carets := String.ofList (List.replicate (max 1 l.width) '^')
  let label := match l.label with
    | some label => " " ++ label
    | none => ""
  margin ++ " ┌─ " ++ l.path ++ ":" ++ number ++ ":" ++ toString (place.before.length + 1) ++ "\n" ++
    margin ++ " │\n" ++
    number ++ " │ " ++ String.ofList place.line ++ "\n" ++
    margin ++ " │ " ++ blanks ++ carets ++ label ++ "\n"

end Location

def Diagnostic.pretty (d : Diagnostic) : String :=
  let excerpt := match d.location with
    | some location => location.excerpt
    | none => ""
  let text := if d.text.isEmpty then "" else d.text ++ "\n"
  "error: " ++ d.title ++ "\n" ++ excerpt ++ "\n" ++ text

end SoftScript.Report
