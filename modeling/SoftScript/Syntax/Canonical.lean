import SoftScript.Syntax.Basic

/-! The canonical text of a program: one line for each statement, one space between the parts,
and every operator application but indexing in parentheses. -/
namespace SoftScript

def Constant.canonical : Constant → String
  | int value => value.text
  | bool value => if value then "true" else "false"
  | string value => "\"" ++ value ++ "\""
  | null => "null"

/-- Parts in braces; what stands there when there are none is given. -/
def inBraces (none : String) (parts : List String) : String :=
  if parts.isEmpty then none else "\x7b " ++ " ".intercalate parts ++ " \x7d"

mutual
@[simp] def Expr.canonical : Expr → String
  | .assign target value => target.canonical ++ " = " ++ value.canonical
  | .binary left op right =>
    "(" ++ left.canonical ++ " " ++ op.kind.spelling ++ " " ++ right.canonical ++ ")"
  | .index left _ position => left.canonical ++ "[" ++ position.canonical ++ "]"
  | .access left _ member => left.canonical ++ "." ++ member.lexeme
  | .call callee _ args => callee.canonical ++ "(" ++ ", ".intercalate (Expr.canonicals args) ++ ")"
  | .grouping inner => "(" ++ inner.canonical ++ ")"
  | .literal value _ => value.canonical
  | .list _ elements => "[" ++ ", ".intercalate (Expr.canonicals elements) ++ "]"
  | .unary op operand => "(" ++ op.kind.spelling ++ operand.canonical ++ ")"
  | .variable name => name.lexeme
  | .object _ declarations => inBraces "\x7b\x7d" (Stmt.canonicals declarations)

@[simp] def Expr.canonicals : List Expr → List String
  | [] => []
  | e :: rest => e.canonical :: Expr.canonicals rest

@[simp] def Stmt.canonical : Stmt → String
  | .block body => inBraces "\x7b \x7d" (Stmt.canonicals body)
  | .expression value => value.canonical ++ ";"
  | .function name params body =>
    "fun " ++ name.lexeme ++ "(" ++ ", ".intercalate (params.map Token.lexeme) ++ ") " ++
      inBraces "\x7b \x7d" (Stmt.canonicals body)
  | .branch condition thenBranch none =>
    "if (" ++ condition.canonical ++ ") " ++ thenBranch.canonical
  | .branch condition thenBranch (some elseBranch) =>
    "if (" ++ condition.canonical ++ ") " ++ thenBranch.canonical ++ " else " ++
      elseBranch.canonical
  | .returns _ none => "return;"
  | .returns _ (some value) => "return " ++ value.canonical ++ ";"
  | .var name none => "var " ++ name.lexeme ++ ";"
  | .var name (some initializer) => "var " ++ name.lexeme ++ " = " ++ initializer.canonical ++ ";"
  | .loop condition body => "while (" ++ condition.canonical ++ ") " ++ body.canonical

@[simp] def Stmt.canonicals : List Stmt → List String
  | [] => []
  | s :: rest => s.canonical :: Stmt.canonicals rest
end

/-- The canonical text of a whole program. -/
def Stmt.canonicalLines (statements : List Stmt) : String :=
  "\n".intercalate (Stmt.canonicals statements)

end SoftScript
