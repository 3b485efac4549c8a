import SoftScript.CommandLine
import Std.Time.DateTime.Timestamp

/-! The program: reads arguments, files and lines, lets the library decide, and writes. -/
namespace SoftScript

def deviceError : IO.Error → DeviceError
  | .noFileOrDirectory .. => .notFound
  | .permissionDenied .. => .permissionDenied
  | .inappropriateType .. => .isADirectory
  | .invalidArgument .. => .invalidInput
  | _ => .other

def readSource (path : String) : IO (Except DeviceError String) := do
  try
    return decodeContents (.ok (← IO.FS.readBinFile path))
  catch error =>
    return .error (deviceError error)

/-- Writes what a session has to say and forgets it. -/
def flushSession (plain : Bool) (s : Session) : IO Session := do
  let out ← IO.getStdout
  out.write s.machine.output.written
  out.flush
  let (failures, emitter) := s.emitter.take
  IO.eprint (Command.complaints plain failures)
  return { s with machine.output := .unlimited, emitter }

/-- Hundredths of a second, rounded, as seconds with two places. -/
def seconds (milliseconds : Nat) : String :=
  let hundredths := (milliseconds + 5) / 10
  let places := hundredths % 100
  toString (hundredths / 100) ++ "." ++ toString (places / 10) ++ toString (places % 10) ++ "s"

/-- The clock as it stands now. Each reading is a millisecond after the one before, so that a
program waiting for the time to pass gets on. -/
def currentClock : IO (Nat → Integer) := do
  let now := (← Std.Time.Timestamp.now).toMillisecondsSinceUnixEpoch.val
  return fun reading => Int64.ofInt (now + reading)

def freshSession : IO Session := return .start .unlimited (← currentClock)

/-- The file that a line asks to run, if it does. -/
def fileOf? (command : Command) (line : String) : Option String :=
  match command, Prompt.Action.ofLine line with
  | .prompt, .runFile path => some path
  | _, _ => none

/-- The bytes of the next line with its line end, none at the end of the input. -/
def readLine (input : IO.FS.Stream) : IO ByteArray := do
  let mut line := ByteArray.empty
  let mut reading := true
  while reading do
    let byte ← input.read 1
    line := line ++ byte
    reading := !byte.isEmpty && byte.toList ≠ [10]
  return line

/-- What a session makes of one line of input: the session after it, and whether the prompt is
left. Nothing comes of a line that cannot be read. -/
def respond (command : Command) (s : Session) (bytes : ByteArray) :
    IO (Option (Session × Bool)) := do
  if bytes.isEmpty then return some (s, true)
  match String.fromUTF8? bytes with
  | none => return none
  | some line =>
    let contents ← match fileOf? command line with
      | some path => readSource path
      | none => pure (.error .notFound)
    return Command.reaction Session.ample (fun _ => contents) command s line

/-- Prompts for lines until the prompt is left, and tells whether all of them could be read. -/
def converse (command : Command) (plain : Bool) (mark : String) (session : Session) :
    IO (Bool × Session) := do
  let input ← IO.getStdin
  let mut s := session
  let mut ended := none
  while ended.isNone do
    s ← flushSession plain (s.say mark)
    let line ← readLine input
    match ← respond command { s with machine.clock := ← currentClock } line with
    | none => ended := some false
    | some (next, left) =>
      s := next
      if left then ended := some true
  return (ended.getD false, s)

def runFile (path : String) (printTokens plain : Bool) : IO Nat := do
  let coloured := ((← IO.getEnv "FORCE_COLOR").getD "") ≠ ""
  let contents ← readSource path
  if printTokens then IO.print (Command.tokenListing contents)
  IO.eprint (Command.running coloured path)
  let start ← IO.monoMsNow
  match (← freshSession).runFile Session.ample path contents with
  | none => return Command.unreadable
  | some (status, s) =>
    let _ ← flushSession plain s
    IO.eprint (Command.finished coloured (seconds ((← IO.monoMsNow) - start)))
    return status.exitCode

def runInvocation (invocation : Invocation) : IO Nat := do
  let plain := invocation.plain
  match invocation.command with
  | .version =>
    IO.print Command.versionLine
    return 0
  | .run path printTokens => runFile path printTokens plain
  | .prompt =>
    let (ended, s) ← converse .prompt plain Command.promptMark
      ((← freshSession).say Command.welcome)
    if ended then
      let _ ← flushSession plain (s.say Command.farewell)
    return if ended then 0 else Command.unreadable
  | .list listing =>
    let (ended, s) ← converse (.list listing) plain Command.listingMark (← freshSession)
    let _ ← flushSession plain s
    return if ended then 0 else Command.unreadable

end SoftScript

def main (args : List String) : IO UInt32 := do
  match SoftScript.Invocation.parse? args with
  | some invocation => return (← SoftScript.runInvocation invocation).toUInt32
  | none =>
    IO.eprintln "Usage: coffee [--plain-diagnostics] <run PATH [--print-tokens] | repl | rlpl | rppl [--print-ast]>"
    return 2
