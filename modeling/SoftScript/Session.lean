import SoftScript.Eval.Basic
import SoftScript.Parse.Program
import SoftScript.Report.Failure

/-! Sessions: sources run one after another on the same machine. -/
namespace SoftScript

inductive Status where
  | completed | syntaxError | runtimeError | deviceError
  deriving DecidableEq, Repr

/-- The exit code of a process whose last run ended so. -/
def Status.exitCode : Status → Nat
  | completed => 0
  | syntaxError => 65
  | deviceError => 66
  | runtimeError => 70

structure Session where
  machine : Machine
  emitter : Report.Emitter

namespace Session

def start (output : Output) (clock : Nat → Integer) : Session :=
  ⟨.start output clock, .empty⟩

def report (s : Session) (failure : Report.Failure) : Session :=
  { s with emitter := s.emitter.emit failure }

/-- Runs a source if it has no errors. There is no result if the bound on evaluation is too
small. -/
def run (n : Nat) (path source : String) (s : Session) : Option (Status × Session) :=
  let program := Parse.ofSource source
  if program.isValid then
    match Run.interpret n program.statements s.machine with
    | .ok _ machine => some (.completed, { s with machine })
    | .error (.fault fault) machine =>
      some (.runtimeError, { s with machine }.report (.runtime path source fault))
    | .error .exhausted _ => none
  else some (.syntaxError, s.report (.parse path source program.errors))

/-- Runs what a file holds, or reports why it cannot be read. -/
def runFile (n : Nat) (path : String) (contents : Except DeviceError String) (s : Session) :
    Option (Status × Session) :=
  match contents with
  | .ok source => s.run n path source
  | .error error => some (.deviceError, s.report (.device error))

/-- Writes a text to the output of the programs, as far as it goes. -/
def say (s : Session) (text : String) : Session :=
  match s.machine.output.write text with
  | none => s
  | some (_, output) => { s with machine.output := output }

/-- A bound that no run reaches in practice. -/
def ample : Nat := 0x4000000000000000

end Session

end SoftScript
