import SoftScript.Token.Basic

/-! Programs as trees. Tokens stay in the tree so that a failure can be traced to its place. -/
namespace SoftScript

/-- What a literal denotes. -/
inductive Constant where
  | int (value : Integer)
  | bool (value : Bool)
  | string (value : String)
  | null
  deriving DecidableEq, Repr

mutual
inductive Expr where
  | assign (target value : Expr)
  | binary (left : Expr) (op : Token) (right : Expr)
  | index (left : Expr) (bracket : Token) (position : Expr)
  | access (left : Expr) (dot member : Token)
  /-- The parenthesis is the closing one, where failed calls are reported. -/
  | call (callee : Expr) (paren : Token) (args : List Expr)
  | grouping (inner : Expr)
  | literal (value : Constant) (token : Token)
  | list (bracket : Token) (elements : List Expr)
  | unary (op : Token) (operand : Expr)
  | variable (name : Token)
  | object (brace : Token) (declarations : List Stmt)

inductive Stmt where
  | block (body : List Stmt)
  | expression (value : Expr)
  | function (name : Token) (params : List Token) (body : List Stmt)
  | branch (condition : Expr) (thenBranch : Stmt) (elseBranch : Option Stmt)
  | returns (keyword : Token) (value : Option Expr)
  | var (name : Token) (initializer : Option Expr)
  | loop (condition : Expr) (body : Stmt)
end

instance : Inhabited Expr := ⟨.literal .null default⟩
instance : Inhabited Stmt := ⟨.block []⟩

/-- A function as declared, apart from the scope it is declared in. -/
structure FunctionDecl where
  name : Token
  params : List Token
  body : List Stmt

namespace FunctionDecl

def arity (f : FunctionDecl) : Nat := f.params.length

def toStmt (f : FunctionDecl) : Stmt := .function f.name f.params f.body

end FunctionDecl

namespace Expr

def isAssignable : Expr → Bool
  | «variable» _ | access .. => true
  | _ => false

/-- The token by which an expression is found in the source. -/
def token : Expr → Token
  | assign target _ => target.token
  | binary _ op _ => op
  | index _ bracket _ => bracket
  | access _ dot _ => dot
  | call _ paren _ => paren
  | grouping inner => inner.token
  | literal _ token => token
  | list bracket _ => bracket
  | unary op _ => op
  | «variable» name => name
  | object brace _ => brace

end Expr

end SoftScript
