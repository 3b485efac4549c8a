import SoftScript.Parse.Grammar
import SoftScript.Syntax.Canonical
import SoftScript.Token.Pattern

/-! Trees up to what their canonical text shows, and which trees it shows faithfully. Three changes
of a tree are told by what they do to one node: `grouped` puts a grouping where the text has
parentheses, `ungrouped` takes every grouping away, and `erased` forgets where a tree was read and
how its keywords were spelled. A condition on trees is told by what it asks of one node. -/
namespace SoftScript

mutual
/-- A tree with every expression and statement replaced, from the leaves up. -/
def Expr.rebuilt (f : Expr → Expr) (g : Stmt → Stmt) : Expr → Expr
  | .assign target value => f (.assign (target.rebuilt f g) (value.rebuilt f g))
  | .binary left op right => f (.binary (left.rebuilt f g) op (right.rebuilt f g))
  | .index left bracket position =>
    f (.index (left.rebuilt f g) bracket (position.rebuilt f g))
  | .access left dot member => f (.access (left.rebuilt f g) dot member)
  | .call callee paren args => f (.call (callee.rebuilt f g) paren (Expr.rebuilts f g args))
  | .grouping inner => f (.grouping (inner.rebuilt f g))
  | .literal value token => f (.literal value token)
  | .list bracket elements => f (.list bracket (Expr.rebuilts f g elements))
  | .unary op operand => f (.unary op (operand.rebuilt f g))
  | .variable name => f (.variable name)
  | .object brace declarations => f (.object brace (Stmt.rebuilts f g declarations))

def Expr.rebuilts (f : Expr → Expr) (g : Stmt → Stmt) : List Expr → List Expr
  | [] => []
  | e :: rest => e.rebuilt f g :: Expr.rebuilts f g rest

def Stmt.rebuilt (f : Expr → Expr) (g : Stmt → Stmt) : Stmt → Stmt
  | .block body => g (.block (Stmt.rebuilts f g body))
  | .expression value => g (.expression (value.rebuilt f g))
  | .function name params body => g (.function name params (Stmt.rebuilts f g body))
  | .branch condition thenBranch none =>
    g (.branch (condition.rebuilt f g) (thenBranch.rebuilt f g) none)
  | .branch condition thenBranch (some elseBranch) =>
    g (.branch (condition.rebuilt f g) (thenBranch.rebuilt f g) (some (elseBranch.rebuilt f g)))
  | .returns keyword none => g (.returns keyword none)
  | .returns keyword (some value) => g (.returns keyword (some (value.rebuilt f g)))
  | .var name none => g (.var name none)
  | .var name (some initializer) => g (.var name (some (initializer.rebuilt f g)))
  | .loop condition body => g (.loop (condition.rebuilt f g) (body.rebuilt f g))

def Stmt.rebuilts (f : Expr → Expr) (g : Stmt → Stmt) : List Stmt → List Stmt
  | [] => []
  | s :: rest => s.rebuilt f g :: Stmt.rebuilts f g rest
end

/-- A grouping around an operator application other than indexing. -/
def Expr.parenthesized : Expr → Expr
  | .binary left op right => .grouping (.binary left op right)
  | .unary op operand => .grouping (.unary op operand)
  | e => e

def Expr.unparenthesized : Expr → Expr
  | .grouping inner => inner
  | e => e

/-- A token of which only the name counts. -/
def Token.nameOnly (t : Token) : Token := ⟨.identifier, t.lexeme, 0, none, default⟩

/-- A token of which only the kind counts. -/
def Token.kindOnly (t : Token) : Token := ⟨t.kind, "", 0, none, default⟩

def Expr.unplaced : Expr → Expr
  | .binary left op right => .binary left op.kindOnly right
  | .index left _ position => .index left default position
  | .access left _ member => .access left default member.nameOnly
  | .call callee _ args => .call callee default args
  | .literal value _ => .literal value default
  | .list _ elements => .list default elements
  | .unary op operand => .unary op.kindOnly operand
  | .variable name => .variable name.nameOnly
  | .object _ declarations => .object default declarations
  | e => e

def Stmt.unplaced : Stmt → Stmt
  | .function name params body => .function name.nameOnly (params.map Token.nameOnly) body
  | .returns _ value => .returns default value
  | .var name initializer => .var name.nameOnly initializer
  | s => s

/-- One grouping more around every operator application other than indexing. -/
abbrev Expr.grouped (e : Expr) : Expr := e.rebuilt Expr.parenthesized id

abbrev Expr.groupeds (es : List Expr) : List Expr := Expr.rebuilts Expr.parenthesized id es

abbrev Stmt.grouped (s : Stmt) : Stmt := s.rebuilt Expr.parenthesized id

abbrev Stmt.groupeds (p : List Stmt) : List Stmt := Stmt.rebuilts Expr.parenthesized id p

/-- No grouping left. -/
abbrev Expr.ungrouped (e : Expr) : Expr := e.rebuilt Expr.unparenthesized id

abbrev Expr.ungroupeds (es : List Expr) : List Expr := Expr.rebuilts Expr.unparenthesized id es

abbrev Stmt.ungrouped (s : Stmt) : Stmt := s.rebuilt Expr.unparenthesized id

abbrev Stmt.ungroupeds (p : List Stmt) : List Stmt := Stmt.rebuilts Expr.unparenthesized id p

/-- Of names the lexeme is left, of operators the kind, of literals the value. -/
abbrev Expr.erased (e : Expr) : Expr := e.rebuilt Expr.unplaced Stmt.unplaced

abbrev Expr.eraseds (es : List Expr) : List Expr := Expr.rebuilts Expr.unplaced Stmt.unplaced es

abbrev Stmt.erased (s : Stmt) : Stmt := s.rebuilt Expr.unplaced Stmt.unplaced

abbrev Stmt.eraseds (p : List Stmt) : List Stmt := Stmt.rebuilts Expr.unplaced Stmt.unplaced p

theorem ungrouped_grouped_all :
    (∀ e : Expr, e.grouped.ungrouped = e.ungrouped) ∧
    (∀ p : List Stmt, Stmt.ungroupeds (Stmt.groupeds p) = Stmt.ungroupeds p) ∧
    (∀ s : Stmt, s.grouped.ungrouped = s.ungrouped) ∧
    (∀ es : List Expr, Expr.ungroupeds (Expr.groupeds es) = Expr.ungroupeds es) := by
  apply Expr.canonical.mutual_induct <;> intros <;>
    simp_all [Expr.rebuilt, Stmt.rebuilt, Expr.rebuilts, Stmt.rebuilts, Expr.parenthesized,
      Expr.unparenthesized]

theorem ungroupeds_groupeds (p : List Stmt) :
    Stmt.ungroupeds (Stmt.groupeds p) = Stmt.ungroupeds p :=
  ungrouped_grouped_all.2.1 p

theorem erased_ungrouped_all :
    (∀ e : Expr, e.ungrouped.erased = e.erased.ungrouped) ∧
    (∀ p : List Stmt, Stmt.eraseds (Stmt.ungroupeds p) = Stmt.ungroupeds (Stmt.eraseds p)) ∧
    (∀ s : Stmt, s.ungrouped.erased = s.erased.ungrouped) ∧
    (∀ es : List Expr, Expr.eraseds (Expr.ungroupeds es) = Expr.ungroupeds (Expr.eraseds es)) := by
  apply Expr.canonical.mutual_induct <;> intros <;>
    simp_all [Expr.rebuilt, Stmt.rebuilt, Expr.rebuilts, Stmt.rebuilts, Expr.unplaced,
      Stmt.unplaced, Expr.unparenthesized]

theorem eraseds_ungroupeds (p : List Stmt) :
    Stmt.eraseds (Stmt.ungroupeds p) = Stmt.ungroupeds (Stmt.eraseds p) :=
  erased_ungrouped_all.2.1 p

end SoftScript
