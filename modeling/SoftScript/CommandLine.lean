import SoftScript.Directory
import SoftScript.Prompt.Action
import SoftScript.Prompt.Listing

/-! The command line: what the arguments ask for, and what each command writes for a given input
and given files. -/
namespace SoftScript

inductive Command where
  | version
  | run (path : String) (printTokens : Bool)
  | prompt
  | list (listing : Prompt.Listing)
  deriving DecidableEq, Repr

structure Invocation where
  command : Command
  /-- Messages alone instead of excerpts from the source. -/
  plain : Bool
  deriving DecidableEq, Repr

namespace Invocation

def plainOption : String := "--plain-diagnostics"

def command? : List String → Option Command
  | ["--version"] | ["-V"] => some .version
  | ["run", "--print-tokens", path] => some (.run path true)
  | ["run", path, "--print-tokens"] => some (.run path true)
  | ["run", path] => some (.run path false)
  | ["repl"] => some .prompt
  | ["rlpl"] => some (.list .tokens)
  | ["rppl"] => some (.list (.programs false))
  | ["rppl", "--print-ast"] => some (.list (.programs true))
  | _ => none

/-- The option for plain messages may stand anywhere. -/
def parse? (args : List String) : Option Invocation :=
  (command? (args.filter (· ≠ plainOption))).map (⟨·, args.contains plainOption⟩)

end Invocation

namespace Command

def versionLine : String := "coffee 0.1.0\n"

def welcome : String :=
  "Welcome to Coffee Filter prompt!\n" ++
  "Enter any valid Coffee Filter Line or:\n" ++
  "-h for help\n" ++
  "-r \x7bpath\x7d to run a file\n" ++
  "-e to exit the prompt\n"

def farewell : String := "Leaving prompt!\n"

def promptMark : String := "> "

def listingMark : String := ">> "

/-- The exit code after input that cannot be read. -/
def unreadable : Nat := 74

/-- A line about the progress of a run, with its first word right-aligned and, if wanted, in
bold and colour. -/
def progress (coloured : Bool) (colour : Nat) (word text : String) : String :=
  let word := String.ofList (List.replicate (11 - word.length) ' ') ++ word
  let word :=
    if coloured then
      "\x1b[0m\x1b[1m\x1b[38;5;" ++ toString colour ++ "m" ++ word ++ "\x1b[0m"
    else word
  word ++ " " ++ text ++ "\n"

def running (coloured : Bool) (path : String) : String := progress coloured 13 "Running" path

def finished (coloured : Bool) (elapsed : String) : String :=
  progress coloured 10 "Finished" ("in " ++ elapsed)

/-- Failures as they are written to the error stream. -/
def complaints (plain : Bool) (failures : List Report.Failure) : String :=
  String.join (failures.map fun f => if plain then f.plain ++ "\n" else f.pretty)

/-- The tokens of a file that can be read. -/
def tokenListing (contents : Except DeviceError String) : String :=
  match contents with
  | .ok source => Prompt.tokenLines source
  | .error _ => ""

/-- A reaction to a line of input: the session after it, and whether the prompt is left. -/
abbrev Reaction := Session → String → Option (Session × Bool)

def reaction (n : Nat) (read : Prompt.Reader) : Command → Reaction
  | .list listing => fun s line => some (listing.perform s line)
  | _ => fun s line => (Prompt.Action.ofLine line).perform n read s

/-- Prompts for one line after the other until the prompt is left or the input ends. A line that
is not UTF-8 ends it at once and unsuccessfully. -/
def converse (mark : String) (react : Reaction) : List ByteArray → Session → Option (Bool × Session)
  | [], s => some (true, s.say mark)
  | bytes :: rest, s =>
    let s := s.say mark
    match String.fromUTF8? bytes with
    | none => some (false, s)
    | some line =>
      match react s line with
      | none => none
      | some (s, true) => some (true, s)
      | some (s, false) => converse mark react rest s

/-- Lines with their line ends. -/
def inputLines (input : ByteArray) : List ByteArray :=
  let (lines, last) := input.toList.foldl (fun (lines, line) byte =>
    let line := ByteArray.push line byte
    if byte = 10 then (Array.push lines line, ByteArray.empty) else (lines, line)) (#[], .empty)
  if last.isEmpty then lines.toList else (lines.push last).toList

/-- What surrounds a process: its input, the files it sees, and how it is to write. -/
structure Surroundings where
  input : ByteArray
  directory : Directory
  coloured : Bool
  clock : Nat → Integer
  /-- How long a run is said to have taken. -/
  elapsed : String

structure Transcript where
  out : ByteArray
  err : String
  exitCode : Nat

/-- The transcript of a command, unless the bound on evaluation is too small. -/
def transcript (n : Nat) (around : Surroundings) (invocation : Invocation) : Option Transcript :=
  let fresh := Session.start .unlimited around.clock
  let read path := decodeContents (around.directory.read path)
  let written (s : Session) : ByteArray := s.machine.output.written
  let errors (s : Session) : String := complaints invocation.plain s.emitter.kept.toList
  match invocation.command with
  | .version => some ⟨versionLine.toUTF8, "", 0⟩
  | .run path printTokens => do
    let contents := read path
    let s := if printTokens then fresh.say (tokenListing contents) else fresh
    let (status, s) ← s.runFile n path contents
    return ⟨written s, running around.coloured path ++ errors s ++
      finished around.coloured around.elapsed, status.exitCode⟩
  | .prompt => do
    let (ended, s) ← converse promptMark (reaction n read .prompt) (inputLines around.input)
      (fresh.say welcome)
    let s := if ended then s.say farewell else s
    return ⟨written s, errors s, if ended then 0 else unreadable⟩
  | .list listing => do
    let (ended, s) ← converse listingMark (reaction n read (.list listing))
      (inputLines around.input) fresh
    return ⟨written s, errors s, if ended then 0 else unreadable⟩

end Command

end SoftScript
