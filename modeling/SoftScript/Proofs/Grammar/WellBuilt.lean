import SoftScript.Proofs.Likeness.Compound

/-! What trees are like however they were read, also between errors. Operands bind tightly enough,
targets can be assigned, and declarations stand where the grammar has them. Two kinds of places in a tree
are noted as errors although it is read: a return statement with no function around it, and a function
with too many parameters. -/
namespace SoftScript

open Parse Grammar

/-- How loosely the parts of an expression are joined. -/
def Expr.looseness : Expr → Nat
  | .assign .. => Level.assignment.reach
  | .binary _ op _ => Parse.looseness op.kind
  | _ => Level.call.reach

/-- An expression that binds at a level or tighter. -/
def Expr.Binds (level : Level) (e : Expr) : Prop := e.looseness ≤ level.reach

mutual
inductive Expr.WellBuilt : Expr → Prop
  | assign : target.isAssignable = true → target.WellBuilt → value.WellBuilt →
    Expr.WellBuilt (.assign target value)
  /-- In an operation made up for `+=` or `-=` the right operand may bind as loosely as it likes. -/
  | compound : target.isAssignable = true → Token.Kind.Compounds op.kind sign →
    Operation level operand operators → sign ∈ operators → target.Binds level →
    target.WellBuilt → value.WellBuilt →
    Expr.WellBuilt (.assign target (.binary target (.synthetic sign op) value))
  | binary : Operation level operand operators → op.kind ∈ operators → left.Binds level →
    right.Binds operand → left.WellBuilt → right.WellBuilt →
    Expr.WellBuilt (.binary left op right)
  | index : left.WellBuilt → position.WellBuilt → Expr.WellBuilt (.index left bracket position)
  | access : left.WellBuilt → Expr.WellBuilt (.access left dot member)
  | call : callee.WellBuilt → (∀ e ∈ args, Expr.WellBuilt e) →
    Expr.WellBuilt (.call callee paren args)
  | grouping : e.WellBuilt → Expr.WellBuilt (.grouping e)
  | literal : Expr.WellBuilt (.literal value token)
  | list : (∀ e ∈ elements, Expr.WellBuilt e) → Expr.WellBuilt (.list bracket elements)
  | unary : op.kind ∈ Token.unaryOperators → operand.WellBuilt → Expr.WellBuilt (.unary op operand)
  | variable : Expr.WellBuilt (.variable name)
  | object : (∀ s ∈ declarations, Stmt.isDeclaration s = true) →
    (∀ s ∈ declarations, Stmt.WellBuilt s) → Expr.WellBuilt (.object brace declarations)

inductive Stmt.WellBuilt : Stmt → Prop
  | block : (∀ s ∈ body, Stmt.WellBuilt s) → Stmt.WellBuilt (.block body)
  | expression : value.WellBuilt → Stmt.WellBuilt (.expression value)
  | function : (∀ s ∈ body, Stmt.WellBuilt s) → Stmt.WellBuilt (.function name params body)
  | branch : thenBranch.isDeclaration = false →
    (∀ s ∈ elseBranch, Stmt.isDeclaration s = false) → condition.WellBuilt →
    thenBranch.WellBuilt → (∀ s ∈ elseBranch, Stmt.WellBuilt s) →
    Stmt.WellBuilt (.branch condition thenBranch elseBranch)
  | returns : (∀ e ∈ value, Expr.WellBuilt e) → Stmt.WellBuilt (.returns keyword value)
  | var : (∀ e ∈ initializer, Expr.WellBuilt e) → Stmt.WellBuilt (.var name initializer)
  | loop : body.isDeclaration = false → condition.WellBuilt → body.WellBuilt →
    Stmt.WellBuilt (.loop condition body)
end

/-- The level of an operation is looser than that of its right operand. -/
theorem Expr.Binds.tighter (operation : Operation level operand operators)
    (binds : Expr.Binds operand e) : e.looseness < level.reach :=
  Nat.lt_of_le_of_lt binds (reach_operand operation)

/-- A place in a tree that may be noted as an error. -/
inductive Site where
  /-- A return statement, and whether a function is around it. -/
  | returns (inside : Bool) (keyword : Token)
  | function (params : List Token)

mutual
def Expr.sites (inside : Bool) : Expr → List Site
  | .assign target value => target.sites inside ++ value.sites inside
  | .binary left _ right => left.sites inside ++ right.sites inside
  | .index left _ position => left.sites inside ++ position.sites inside
  | .access left _ _ => left.sites inside
  | .call callee _ args => callee.sites inside ++ Expr.allSites inside args
  | .grouping inner => inner.sites inside
  | .literal .. | .variable _ => []
  | .list _ elements => Expr.allSites inside elements
  | .unary _ operand => operand.sites inside
  | .object _ declarations => Stmt.allSites inside declarations

def Expr.allSites (inside : Bool) : List Expr → List Site
  | [] => []
  | e :: rest => e.sites inside ++ Expr.allSites inside rest

def Stmt.sites (inside : Bool) : Stmt → List Site
  | .block body => Stmt.allSites inside body
  | .expression value => value.sites inside
  | .function _ params body => .function params :: Stmt.allSites true body
  | .branch condition thenBranch none => condition.sites inside ++ thenBranch.sites inside
  | .branch condition thenBranch (some elseBranch) =>
    condition.sites inside ++ thenBranch.sites inside ++ elseBranch.sites inside
  | .returns keyword none => [.returns inside keyword]
  | .returns keyword (some value) => .returns inside keyword :: value.sites inside
  | .var _ none => []
  | .var _ (some value) => value.sites inside
  | .loop condition body => condition.sites inside ++ body.sites inside

def Stmt.allSites (inside : Bool) : List Stmt → List Site
  | [] => []
  | s :: rest => s.sites inside ++ Stmt.allSites inside rest
end

end SoftScript
