import SoftScript.Token.Basic

/-! What can be wrong with a program's text, and how it is reported. -/
namespace SoftScript.Parse

inductive Cause where
  | expectExpression
  | expectVariableName
  | expectFunctionName
  | expectParameterName
  | expectMemberName
  | expected (kind : Token.Kind) (context : String)
  | invalidAssignmentTarget
  | tooManyParameters
  | expectDeclaration
  | topLevelReturn
  | integerOutOfRange
  deriving DecidableEq, Repr

def Cause.details : Cause → String
  | expectExpression => "Expect expression."
  | expectVariableName => "Expect variable name."
  | expectFunctionName => "Expect function name."
  | expectParameterName => "Expect parameter name."
  | expectMemberName => "Expect property name after '.'."
  | expected kind context => "Expect '" ++ kind.spelling ++ "' " ++ context
  | invalidAssignmentTarget => "Invalid assignment target."
  | tooManyParameters => "Can't have more than 255 parameters."
  | expectDeclaration => "Expect 'var' or 'fun' declaration inside object."
  | topLevelReturn => "Can't return from top-level code."
  | integerOutOfRange => "Integer literal is out of range."

structure Error where
  cause : Cause
  token : Token
  deriving DecidableEq, Repr

namespace Error

def details (e : Error) : String := e.cause.details

def position (e : Error) : String :=
  if e.token.kind = .eof then "at end" else "at '" ++ e.token.lexeme ++ "'"

def message (e : Error) : String :=
  "[line " ++ toString e.token.line ++ "] Error " ++ e.position ++ ": " ++ e.details

end Error

end SoftScript.Parse
