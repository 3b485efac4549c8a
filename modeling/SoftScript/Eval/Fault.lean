import SoftScript.Device
import SoftScript.Value.Basic

/-! What can go wrong while a program runs, and how it is reported. -/
namespace SoftScript

inductive Fault.Cause where
  | operandNotNumber (found : Payload.Kind)
  | invalidPlusOperands
  | unsupportedOperator (op : String)
  | divisionByZero
  | integerOverflow
  | notCallable
  | arityMismatch (expected found : Nat)
  | undefinedVariable (name : String)
  | undefinedAssignment (name : String)
  | duplicateDefinition (name : String)
  | unsupportedDotAccess (found : Payload.Kind)
  | unsupportedIndexAccess (found : Payload.Kind)
  | undefinedMember (member owner : String)
  | indexNotInt (owner index : String)
  | indexOutOfBounds (owner : String) (index : Integer) (length : Nat)
  | unsupportedMemberAssignment (found : Payload.Kind)
  | invalidAssignmentTarget
  | invalidArgument (function : String) (expected found : Payload.Kind)
  | stackOverflow
  | output (error : DeviceError)
  deriving DecidableEq, Repr

def Fault.Cause.details : Fault.Cause → String
  | operandNotNumber found => "Operand is not a Number it is " ++ found.name ++ "."
  | invalidPlusOperands => "Operands must be numbers or strings."
  | unsupportedOperator op => "Unsupported operator " ++ op ++ "."
  | divisionByZero => "Division by zero."
  | integerOverflow => "Integer overflow."
  | notCallable => "Can only call functions."
  | arityMismatch expected found =>
    "Expected " ++ toString expected ++ " arguments but got " ++ toString found ++ "."
  | undefinedVariable name => "Undefined variable to retrieve " ++ name ++ "."
  | undefinedAssignment name => "Undefined variable to assign " ++ name ++ "."
  | duplicateDefinition name => "Duplicate definition of " ++ name ++ " in this scope."
  | unsupportedDotAccess found => found.name ++ " does not support . access"
  | unsupportedIndexAccess found => found.name ++ " does not support [] access"
  | undefinedMember member owner => "Undefined variable " ++ member ++ " in " ++ owner
  | indexNotInt owner index =>
    "Unable to index " ++ owner ++ ", " ++ index ++ " need to be of integer type"
  | indexOutOfBounds owner index length =>
    "Index out of bounds " ++ owner ++ " index " ++ index.text ++ ", size is " ++ toString length
  | unsupportedMemberAssignment found => found.name ++ " does not support . assignment"
  | invalidAssignmentTarget => "Invalid assignment target."
  | invalidArgument function expected found =>
    function ++ " expects a " ++ expected.name ++ " argument but got " ++ found.name ++ "."
  | stackOverflow => "Stack overflow."
  | output error => "Unable to write output: " ++ error.message ++ "."

/-- A failed operation and the token at which it is reported. -/
structure Fault where
  cause : Fault.Cause
  token : Token
  deriving DecidableEq, Repr

namespace Fault

def details (f : Fault) : String := f.cause.details

def message (f : Fault) : String :=
  f.details ++ "\n[line " ++ toString f.token.line ++ "]"

end Fault

end SoftScript
