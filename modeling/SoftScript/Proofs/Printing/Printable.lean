import SoftScript.Proofs.Printing.Tree

/-! Which trees can be printed. A condition on trees asks something of every expression and of
every statement in them; a statement also knows whether a function body is around it. -/
namespace SoftScript

/-- The words that are no names. -/
def Token.keywords : List String :=
  Token.Rule.all.filterMap fun rule =>
    match rule.pattern with
    | .keyword word => some word
    | _ => none

/-- A text that reads as one identifier. -/
def Token.isName (text : String) : Bool :=
  match text.toList with
  | [] => false
  | c :: rest => Text.isWordStart c && rest.all Text.isWordChar &&
      keywords.all fun word => !Pattern.equalIgnoringCase (c :: rest) word.toList

/-- A constant that a literal can be written for. -/
def Constant.isWritable : Constant → Bool
  | int value => 0 ≤ value.toInt
  | string value => value.toList.all (· ≠ '"')
  | bool _ | null => true

/-- The operators written between two operands. -/
def Token.binaryOperators : List Token.Kind :=
  Parse.Level.all.flatMap Parse.Level.operators

def Token.unaryOperators : List Token.Kind := [.bang, .minus]

def Expr.isAssign : Expr → Bool
  | .assign .. => true
  | _ => false

def Expr.isGrouping : Expr → Bool
  | .grouping _ => true
  | _ => false

/-- An object literal stands at the left end of the text. -/
def Expr.startsWithObject : Expr → Bool
  | .assign left _ | .index left _ _ | .access left _ _ | .call left _ _ => left.startsWithObject
  | .object .. => true
  | _ => false

def Stmt.isDeclaration : Stmt → Bool
  | .var .. | .function .. => true
  | _ => false

/-- A statement that ends in an `if` without `else`. -/
def Stmt.isAjar : Stmt → Bool
  | .branch _ _ none => true
  | .branch _ _ (some elseBranch) => elseBranch.isAjar
  | .loop _ body => body.isAjar
  | _ => false

/-- What the grammar asks of an expression apart from its parts. -/
def Expr.isFormed : Expr → Bool
  | .assign target _ => target.isAssignable
  | .binary left op _ => Token.binaryOperators.contains op.kind && !left.isAssign
  | .index left _ _ => !left.isAssign
  | .access left _ member => !left.isAssign && Token.isName member.lexeme
  | .call callee _ _ => !callee.isAssign
  | .literal value _ => value.isWritable
  | .unary op operand => Token.unaryOperators.contains op.kind && !operand.isAssign
  | .variable name => Token.isName name.lexeme
  | .object _ declarations => declarations.all Stmt.isDeclaration
  | .grouping _ | .list .. => true

def Stmt.isFormed (inside : Bool) : Stmt → Bool
  | .function name params _ => Token.isName name.lexeme &&
      params.all (Token.isName ·.lexeme) && params.length ≤ Parse.maxParameters
  | .branch _ thenBranch none => !thenBranch.isDeclaration
  | .branch _ thenBranch (some elseBranch) =>
    !thenBranch.isDeclaration && !thenBranch.isAjar && !elseBranch.isDeclaration
  | .returns .. => inside
  | .var name _ => Token.isName name.lexeme
  | .loop _ body => !body.isDeclaration
  | .block _ | .expression _ => true

/-- No assignment as a right operand: its text would take the operands left of it as its
target. -/
def Expr.keepsOperands : Expr → Bool
  | .binary _ _ right => !right.isAssign
  | _ => true

/-- No object literal in front: its text would be taken for a block. -/
def Stmt.keepsBraces : Stmt → Bool
  | .expression value => !value.startsWithObject
  | _ => true

mutual
/-- Every node of a tree meets its condition. -/
def Expr.upholds (f : Expr → Bool) (g : Bool → Stmt → Bool) (inside : Bool) : Expr → Bool
  | .assign target value =>
    f (.assign target value) && target.upholds f g inside && value.upholds f g inside
  | .binary left op right =>
    f (.binary left op right) && left.upholds f g inside && right.upholds f g inside
  | .index left bracket position =>
    f (.index left bracket position) && left.upholds f g inside && position.upholds f g inside
  | .access left dot member => f (.access left dot member) && left.upholds f g inside
  | .call callee paren args =>
    f (.call callee paren args) && callee.upholds f g inside && Expr.allUphold f g inside args
  | .grouping inner => f (.grouping inner) && inner.upholds f g inside
  | .literal value token => f (.literal value token)
  | .list bracket elements => f (.list bracket elements) && Expr.allUphold f g inside elements
  | .unary op operand => f (.unary op operand) && operand.upholds f g inside
  | .variable name => f (.variable name)
  | .object brace declarations =>
    f (.object brace declarations) && Stmt.allUphold f g inside declarations

def Expr.allUphold (f : Expr → Bool) (g : Bool → Stmt → Bool) (inside : Bool) : List Expr → Bool
  | [] => true
  | e :: rest => e.upholds f g inside && Expr.allUphold f g inside rest

def Stmt.upholds (f : Expr → Bool) (g : Bool → Stmt → Bool) (inside : Bool) : Stmt → Bool
  | .block body => g inside (.block body) && Stmt.allUphold f g inside body
  | .expression value => g inside (.expression value) && value.upholds f g inside
  | .function name params body =>
    g inside (.function name params body) && Stmt.allUphold f g true body
  | .branch condition thenBranch none =>
    g inside (.branch condition thenBranch none) && condition.upholds f g inside &&
      thenBranch.upholds f g inside
  | .branch condition thenBranch (some elseBranch) =>
    g inside (.branch condition thenBranch (some elseBranch)) && condition.upholds f g inside &&
      thenBranch.upholds f g inside && elseBranch.upholds f g inside
  | .returns keyword none => g inside (.returns keyword none)
  | .returns keyword (some value) =>
    g inside (.returns keyword (some value)) && value.upholds f g inside
  | .var name none => g inside (.var name none)
  | .var name (some initializer) =>
    g inside (.var name (some initializer)) && initializer.upholds f g inside
  | .loop condition body =>
    g inside (.loop condition body) && condition.upholds f g inside && body.upholds f g inside

def Stmt.allUphold (f : Expr → Bool) (g : Bool → Stmt → Bool) (inside : Bool) : List Stmt → Bool
  | [] => true
  | s :: rest => s.upholds f g inside && Stmt.allUphold f g inside rest
end

/-- A program whose parts are all such as the grammar knows. -/
def Stmt.WellFormed (p : List Stmt) : Prop :=
  Stmt.allUphold Expr.isFormed Stmt.isFormed false p = true

/-- A program whose canonical text keeps every part in its place. -/
def Stmt.KeepsParts (p : List Stmt) : Prop :=
  Stmt.allUphold Expr.keepsOperands (fun _ => Stmt.keepsBraces) false p = true

def Stmt.Printable (p : List Stmt) : Prop := Stmt.WellFormed p ∧ Stmt.KeepsParts p

instance (p : List Stmt) : Decidable (Stmt.WellFormed p) := inferInstanceAs (Decidable (_ = _))

instance (p : List Stmt) : Decidable (Stmt.KeepsParts p) := inferInstanceAs (Decidable (_ = _))

instance (p : List Stmt) : Decidable (Stmt.Printable p) := inferInstanceAs (Decidable (_ ∧ _))

end SoftScript
