import SoftScript.Eval.Access
import SoftScript.Eval.Native
import SoftScript.Eval.Operator

/-! Evaluation of expressions and execution of statements. Both take a bound on how far they may
go: how deep they nest and how often a loop comes round. -/
namespace SoftScript

/-- How a statement ended. -/
inductive Flow where
  | completed
  /-- A value on its way to the nearest call. -/
  | returned (value : Value)
  deriving DecidableEq, Repr

def maxCallDepth : Nat := 4096

namespace Run

/-- Statements in turn, up to one that returns. -/
def statements (execute : Stmt → Run Flow) : List Stmt → Run Flow
  | [] => return .completed
  | stmt :: rest => do
    match ← execute stmt with
    | .completed => statements execute rest
    | .returned value => return .returned value

/-- A function made of a declaration and the current scope. -/
def bindFunction (declaration : FunctionDecl) : Run Value := do
  let function ← newFunction (.user declaration (← get).scope)
  return function.named declaration.name

/-- The scope of a call: each parameter bound to its argument. -/
def bindParameters : List Token → List Value → Bindings → Run Bindings
  | param :: params, arg :: args, bound =>
    if bound.contains param.lexeme then fail (.duplicateDefinition param.lexeme) param
    else bindParameters params args (bound.insert param.lexeme (arg.named param))
  | _, _, bound => return bound

def callFunction (execute : Stmt → Run Flow) (declaration : FunctionDecl) (closure : FrameId)
    (args : List Value) (paren : Token) : Run Value := do
  if maxCallDepth ≤ (← get).depth then fail .stackOverflow paren
  let bound ← bindParameters declaration.params args []
  let frame ← newFrame ⟨bound, some closure⟩
  match ← deeper (inScope frame (statements execute declaration.body)) with
  | .returned value => return value
  | .completed => return .null

/-- Calls a value that is a function of as many parameters as there are arguments. -/
def call (execute : Stmt → Run Flow) (callee : Value) (args : List Value) (paren : Token) :
    Run Value := do
  match callee.payload with
  | .function id =>
    match (← heap).functions[id]? with
    | none => fail .notCallable paren
    | some callable =>
      if args.length ≠ callable.arity then
        fail (.arityMismatch callable.arity args.length) paren
      else match callable with
        | .builtin native => callNative native args paren
        | .user declaration closure => callFunction execute declaration closure args paren
  | _ => fail .notCallable paren

def addMember (members : Bindings) (name : Token) (value : Value) : Run Bindings :=
  if members.contains name.lexeme then fail (.duplicateDefinition name.lexeme) name
  else return members.insert name.lexeme value

/-- The value of an initializer, null if there is none. -/
def initial (evaluate : Expr → Run Value) : Option Expr → Run Value
  | some initializer => evaluate initializer
  | none => return .null

/-- The members that declarations make. They are built in the current scope, so methods see that
scope and not the object. -/
def objectMembers (evaluate : Expr → Run Value) (execute : Stmt → Run Flow) :
    List Stmt → Bindings → Run Bindings
  | [], members => return members
  | .var name initializer :: rest, members => do
    let value ← initial evaluate initializer
    objectMembers evaluate execute rest (← addMember members name (value.named name))
  | .function name params body :: rest, members => do
    let function ← bindFunction ⟨name, params, body⟩
    objectMembers evaluate execute rest (← addMember members name function)
  | other :: rest, members => do
    let _ ← execute other
    objectMembers evaluate execute rest members

/-- Repeats a body while a condition is true. -/
def repeatWhile (condition : Run Value) (body : Run Flow) : Nat → Run Flow
  | 0 => exhausted
  | n + 1 => do
    if (← condition).payload.isTruthy then
      match ← body with
      | .completed => repeatWhile condition body n
      | .returned value => return .returned value
    else return .completed

def constant : Constant → Value
  | .int value => .int value
  | .bool value => .bool value
  | .string value => .string value
  | .null => .null

mutual
def evaluate : Nat → Expr → Run Value
  | 0, _ => exhausted
  | n + 1, .assign target value => do
    let value ← evaluate n value
    match target with
    | .variable name => assign name value
    | .access left dot member => assignMember (← evaluate n left) dot member value
    | other => fail .invalidAssignmentTarget other.token
    return value
  | n + 1, .binary left op right => do
    let left ← evaluate n left
    let right ← evaluate n right
    binary op left right
  | n + 1, .index left bracket position => do
    let left ← evaluate n left
    let position ← evaluate n position
    indexAccess left bracket position
  | n + 1, .access left dot member => do dotAccess (← evaluate n left) dot member
  | n + 1, .call callee paren args => do
    let callee ← evaluate n callee
    let args ← args.mapM (evaluate n)
    call (execute n) callee args paren
  | n + 1, .grouping inner => evaluate n inner
  | _ + 1, .literal value _ => return constant value
  | n + 1, .list _ elements => do newList (← elements.mapM (evaluate n)).toArray
  | n + 1, .unary op operand => do unary op (← evaluate n operand)
  | _ + 1, .variable name => lookup name
  | n + 1, .object _ declarations => do
    newObject (← objectMembers (evaluate n) (execute n) declarations [])

def execute : Nat → Stmt → Run Flow
  | 0, _ => exhausted
  | n + 1, .block body => do
    let frame ← newFrame ⟨[], some (← get).scope⟩
    inScope frame (statements (execute n) body)
  | n + 1, .expression value => do
    let _ ← evaluate n value
    return .completed
  | _ + 1, .function name params body => do
    let function ← bindFunction ⟨name, params, body⟩
    define name function
    return .completed
  | n + 1, .branch condition thenBranch elseBranch => do
    if (← evaluate n condition).payload.isTruthy then execute n thenBranch
    else match elseBranch with
      | some elseBranch => execute n elseBranch
      | none => return .completed
  | n + 1, .returns _ value => do return .returned (← initial (evaluate n) value)
  | n + 1, .var name initializer => do
    let value ← initial (evaluate n) initializer
    define name (value.named name)
    return .completed
  | n + 1, .loop condition body => repeatWhile (evaluate n condition) (execute n body) n
end

/-- Runs a whole program in the current scope, up to the first fault. -/
def interpret (n : Nat) : List Stmt → Run Unit
  | [] => return
  | stmt :: rest => do
    let _ ← execute n stmt
    interpret n rest

end Run

end SoftScript
