import SoftScript.Parse.Level
import SoftScript.Parse.Parser
import SoftScript.Syntax.Basic

/-! The grammar's productions. Each takes the parsers of its parts as arguments; `expression`,
`line` and `statement` at the end tie them together. -/
namespace SoftScript.Parse

open SoftScript.Parse.Parser

variable {α : Type}

/-- One item or more with commas between them. -/
def commaItems (item : Parser α) : Nat → Array α → Parser (List α)
  | 0, _ => exhausted
  | n + 1, items => do
    let items := items.push (← item)
    if ← eat .comma then commaItems item n items else return items.toList

/-- Items with commas between them up to a closing token, which stays. -/
def itemsBefore (close : Token.Kind) (item : Parser α) (n : Nat) : Parser (List α) := do
  if ← check close then return [] else commaItems item n #[]

def maxParameters : Nat := 255

def parameters : Nat → Array Token → Parser (List Token)
  | 0, _ => exhausted
  | n + 1, params => do
    if maxParameters ≤ params.size then report .tooManyParameters (← current)
    let params := params.push (← consume .identifier .expectParameterName)
    if ← eat .comma then parameters n params else return params.toList

/-- Lines up to the closing brace of a block whose opening brace has been passed. Each line
recovers from its own errors. -/
def blockLines (line : Parser Stmt) : Nat → Array Stmt → Parser (List Stmt)
  | 0, _ => exhausted
  | n + 1, lines => do
    if (← check .rightBrace) || (← atEnd) then
      let _ ← expect .rightBrace "after block."
      return lines.toList
    else match ← recover line with
      | some stmt => blockLines line n (lines.push stmt)
      | none => blockLines line n lines

def block (line : Parser Stmt) (n : Nat) : Parser (List Stmt) :=
  blockLines line n #[]

/-- A variable declaration after its keyword. -/
def varDeclaration (expression : Parser Expr) : Parser Stmt := do
  let name ← consume .identifier .expectVariableName
  let initializer ← if ← eat .equal then some <$> expression else pure none
  let _ ← expect .semicolon "after variable declaration."
  return .var name initializer

/-- A function declaration after its keyword. -/
def functionDeclaration (line : Parser Stmt) (n : Nat) : Parser FunctionDecl := do
  let name ← consume .identifier .expectFunctionName
  let _ ← expect .leftParen "after function name."
  let params ← if ← check .rightParen then pure [] else parameters n #[]
  let _ ← expect .rightParen "after parameters."
  let _ ← expect .leftBrace "before function body."
  let body ← insideFunction (block line n)
  return ⟨name, params, body⟩

def listLiteral (expression : Parser Expr) (n : Nat) : Parser Expr := do
  let bracket ← expect .leftSquare "before list elements."
  let elements ← itemsBefore .rightSquare expression n
  let _ ← expect .rightSquare "after List."
  return .list bracket elements

/-- Declarations up to the closing brace of an object. -/
def objectMembers (expression : Parser Expr) (line : Parser Stmt) (n : Nat) :
    Nat → Array Stmt → Parser (List Stmt)
  | 0, _ => exhausted
  | m + 1, members => do
    if (← check .rightBrace) || (← atEnd) then
      let _ ← expect .rightBrace "after Object."
      return members.toList
    else if ← eat .varWord then
      let member ← varDeclaration expression
      objectMembers expression line n m (members.push member)
    else if ← eat .funWord then
      let member ← functionDeclaration line n
      objectMembers expression line n m (members.push member.toStmt)
    else refuse .expectDeclaration (← current)

def objectLiteral (expression : Parser Expr) (line : Parser Stmt) (n : Nat) : Parser Expr := do
  let brace ← expect .leftBrace "before object members."
  let members ← objectMembers expression line n n #[]
  return .object brace members

/-- Passes a literal token. -/
def literal (value : Constant) : Parser Expr :=
  return .literal value (← advance)

def primary (expression : Parser Expr) (line : Parser Stmt) (n : Nat) : Parser Expr := do
  let token ← current
  match token.kind with
  | .trueWord => literal (.bool true)
  | .falseWord => literal (.bool false)
  | .nullWord => literal .null
  | .string =>
    match token.literal with
    | some (.string text) => literal (.string text)
    | _ => literal (.string (Token.withoutQuotes token.lexeme))
  | .number =>
    match token.literal with
    | some (.int value) => literal (.int value)
    | _ => refuse .integerOutOfRange token
  | .identifier => return .variable (← advance)
  | .leftParen =>
    let _ ← advance
    let inner ← expression
    let _ ← expect .rightParen "after expression."
    return .grouping inner
  | .leftSquare => listLiteral expression n
  | .leftBrace => objectLiteral expression line n
  | _ => refuse .expectExpression token

/-- Calls, indexing and member access after an expression, as many as there are. -/
def suffixes (expression : Parser Expr) (n : Nat) : Nat → Expr → Parser Expr
  | 0, _ => exhausted
  | m + 1, e => do
    if ← eat .leftParen then
      let args ← itemsBefore .rightParen expression n
      let paren ← expect .rightParen "after arguments."
      suffixes expression n m (.call e paren args)
    else if let some bracket ← eat? [.leftSquare] then
      let position ← expression
      let _ ← expect .rightSquare "after List access."
      suffixes expression n m (.index e bracket position)
    else if let some dot ← eat? [.dot] then
      let member ← consume .identifier .expectMemberName
      suffixes expression n m (.access e dot member)
    else return e

/-- Applications of the operators of one level to what stands left of them. -/
def applications (operators : List Token.Kind) (operand : Parser Expr) :
    Nat → Expr → Parser Expr
  | 0, _ => exhausted
  | n + 1, left => do
    match ← eat? operators with
    | some op => applications operators operand n (.binary left op (← operand))
    | none => return left

/-- The levels of binary operators, from the tightest on: each takes up where the one below it
stopped. -/
def applicationsUpTo (operand : Level → Parser Expr) (n : Nat) : List Level → Expr → Parser Expr
  | [], left => return left
  | level :: looser, left => do
    let left ← applications level.operators (operand level.next) n left
    applicationsUpTo operand n looser left

/-- An assignment of a sum or difference for `+=` and `-=`. The target is then evaluated twice. -/
def assignment (target : Expr) (operator : Token) (value : Expr) : Expr :=
  match operator.kind with
  | .plusEqual => .assign target (.binary target (.synthetic .plus operator) value)
  | .minusEqual => .assign target (.binary target (.synthetic .minus operator) value)
  | _ => .assign target value

def expressionStatement (expression : Parser Expr) : Parser Stmt := do
  let value ← expression
  let _ ← expect .semicolon "after expression."
  return .expression value

def branch (expression : Parser Expr) (statement : Parser Stmt) : Parser Stmt := do
  let _ ← advance
  let _ ← expect .leftParen "after 'if'."
  let condition ← expression
  let _ ← expect .rightParen "after if condition."
  let thenBranch ← statement
  if ← eat .elseWord then return .branch condition thenBranch (some (← statement))
  else return .branch condition thenBranch none

def whileLoop (expression : Parser Expr) (statement : Parser Stmt) : Parser Stmt := do
  let _ ← advance
  let _ ← expect .leftParen "after 'while'."
  let condition ← expression
  let _ ← expect .rightParen "after while condition."
  return .loop condition (← statement)

/-- A `for` loop as a `while` loop: the increment follows the body in a block, the initializer
stands before the loop in another, and a missing condition is true. -/
def loopOf (keyword : Token) (initializer : Option Stmt) (condition increment : Option Expr)
    (body : Stmt) : Stmt :=
  let body := match increment with
    | some increment => .block [body, .expression increment]
    | none => body
  let condition := condition.getD (.literal (.bool true) (.synthetic .trueWord keyword))
  match initializer with
  | some initializer => .block [initializer, .loop condition body]
  | none => .loop condition body

/-- The first clause of a `for` loop with its semicolon. -/
def loopInitializer (expression : Parser Expr) : Parser (Option Stmt) := do
  if ← eat .semicolon then return none
  else if ← eat .varWord then some <$> varDeclaration expression
  else some <$> expressionStatement expression

def forLoop (expression : Parser Expr) (statement : Parser Stmt) : Parser Stmt := do
  let keyword ← advance
  let _ ← expect .leftParen "after 'for'."
  let initializer ← loopInitializer expression
  let condition ← if ← check .semicolon then pure none else some <$> expression
  let _ ← expect .semicolon "after loop condition."
  let increment ← if ← check .rightParen then pure none else some <$> expression
  let _ ← expect .rightParen "after for clauses."
  return loopOf keyword initializer condition increment (← statement)

def returnStatement (expression : Parser Expr) : Parser Stmt := do
  let keyword ← advance
  if !(← get).inFunction then report .topLevelReturn keyword
  let value ← if ← check .semicolon then pure none else some <$> expression
  let _ ← expect .semicolon "after return value."
  return .returns keyword value

mutual
/-- An expression of a level or tighter. -/
def expression : Nat → Level → Parser Expr
  | 0, _ => exhausted
  | n + 1, .lowest | n + 1, .assignment => do
    let target ← expression n .or
    match ← eat? [.equal, .plusEqual, .minusEqual] with
    | none => return target
    | some operator =>
      let value ← expression n .assignment
      if target.isAssignable then return assignment target operator value
      else
        report .invalidAssignmentTarget operator
        return target
  | n + 1, .unary => do
    match ← eat? [.bang, .minus] with
    | some op => return .unary op (← expression n .unary)
    | none => expression n .call
  | n + 1, .call => do
    let first ← primary (expression n .lowest) (line n) n
    suffixes (expression n .lowest) n n first
  | n + 1, level => do
    let first ← expression n .unary
    applicationsUpTo (expression n) n level.upTo first

/-- A declaration or a statement. -/
def line : Nat → Parser Stmt
  | 0 => exhausted
  | n + 1 => do
    if ← eat .varWord then varDeclaration (expression n .lowest)
    else if ← eat .funWord then return (← functionDeclaration (line n) n).toStmt
    else statement n

/-- A statement that declares nothing. -/
def statement : Nat → Parser Stmt
  | 0 => exhausted
  | n + 1 => do
    match (← current).kind with
    | .leftBrace =>
      let _ ← advance
      return .block (← block (line n) n)
    | .ifWord => branch (expression n .lowest) (statement n)
    | .whileWord => whileLoop (expression n .lowest) (statement n)
    | .forWord => forLoop (expression n .lowest) (statement n)
    | .returnWord => returnStatement (expression n .lowest)
    | _ => expressionStatement (expression n .lowest)
end

end SoftScript.Parse
