import SoftScript.Eval.Fault
import SoftScript.Parse.Error
import SoftScript.Report.Diagnostic

/-! Failures of a run, as they are reported to the user, and where they go until they are. -/
namespace SoftScript.Report

inductive Failure where
  | parse (path source : String) (errors : List Parse.Error)
  | runtime (path source : String) (fault : Fault)
  | device (error : DeviceError)

namespace Failure

def summary : Failure → String
  | parse .. => "failed to parse source code"
  | runtime .. => "runtime error"
  | device _ => "IO operation failed"

/-- The messages alone, one below the other. -/
def plain : Failure → String
  | parse _ _ errors => "\n".intercalate (errors.map Parse.Error.message)
  | runtime _ _ fault => fault.message
  | device error => "Standard IO error: " ++ error.message

/-- Whether both ends of a span fall between characters of a source. A fault may stem from a
function of an earlier source, whose spans mean nothing in this one. -/
def fits (source : String) (span : Span) : Bool :=
  Text.isBoundary source.toList span.start && Text.isBoundary source.toList span.stop

def parseDiagnostic (path source : String) (error : Parse.Error) : Diagnostic where
  title := error.message
  text := ""
  location := some ⟨path, source, error.token.span, some error.details⟩

def diagnostics : Failure → List Diagnostic
  | parse path source errors => errors.map (parseDiagnostic path source)
  | runtime path source fault => [{
      title := fault.details
      text := "[line " ++ toString fault.token.line ++ "]"
      location :=
        if fits source fault.token.span then some ⟨path, source, fault.token.span, none⟩
        else none }]
  | device error => [⟨"Standard IO error", error.message, none⟩]

/-- Each diagnostic with an empty line after it. -/
def pretty (f : Failure) : String :=
  String.join (f.diagnostics.map fun d => d.pretty ++ "\n")

end Failure

/-- Where failures go. All are counted; those not taken yet are kept unless the emitter is muted. -/
structure Emitter where
  count : Nat
  kept : Array Failure
  muted : Bool

namespace Emitter

def empty : Emitter := ⟨0, #[], false⟩

def silent : Emitter := ⟨0, #[], true⟩

def emit (e : Emitter) (failure : Failure) : Emitter :=
  { e with count := e.count + 1, kept := if e.muted then e.kept else e.kept.push failure }

/-- Forgets what is kept. The count stays. -/
def reset (e : Emitter) : Emitter := { e with kept := #[] }

def take (e : Emitter) : List Failure × Emitter := (e.kept.toList, e.reset)

/-- The latest failure kept, which is kept no longer. -/
def pop (e : Emitter) : Option Failure × Emitter :=
  (e.kept.back?, { e with kept := e.kept.pop })

end Emitter

end SoftScript.Report
