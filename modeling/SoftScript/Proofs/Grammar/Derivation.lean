import SoftScript.Parse.Level
import SoftScript.Syntax.Basic

/-! The grammar of programs: which sequences of significant tokens stand for which trees. A rule
here is a production of the grammar and says nothing about how a text is searched. Two indices
carry what the productions leave open. `inside` tells whether a function body is around, since
only there a `return` may stand. `ajar` tells whether a statement ends in an `if` without `else`:
such an `if` claims the next `else`, so the statement before an `else` must not be ajar. -/
namespace SoftScript.Grammar

open Parse (Level)

/-- The constant that a literal token stands for. A number out of range stands for none. -/
def constant? (t : Token) : Option Constant :=
  match t.kind, t.literal with
  | .trueWord, _ => some (.bool true)
  | .falseWord, _ => some (.bool false)
  | .nullWord, _ => some .null
  | .string, some (.string text) => some (.string text)
  | .string, _ => some (.string (Token.withoutQuotes t.lexeme))
  | .number, some (.int value) => some (.int value)
  | _, _ => none

/-- The levels of the form `operand ( operator operand )*`. -/
inductive Operation : Level → Level → List Token.Kind → Prop where
  | or : Operation .or .and [.orWord]
  | and : Operation .and .equality [.andWord]
  | equality : Operation .equality .comparison [.bangEqual, .equalEqual]
  | comparison : Operation .comparison .sum [.greater, .greaterEqual, .lesser, .lesserEqual]
  | sum : Operation .sum .product [.minus, .plus]
  | product : Operation .product .unary [.slash, .star, .percent]

/-- The condition of a `for` loop that gives none. -/
def always (keyword : Token) : Expr :=
  .literal (.bool true) (.synthetic .trueWord keyword)

/-- The body of a `for` loop with its increment. -/
def withIncrement (body : Stmt) : Option Expr → Stmt
  | none => body
  | some increment => .block [body, .expression increment]

/-- A loop after its initializer. -/
def withInitializer (loop : Stmt) : Option Stmt → Stmt
  | none => loop
  | some initializer => .block [initializer, loop]

/-- What a `for` loop stands for. -/
def unrolled (keyword : Token) (initializer : Option Stmt) (condition increment : Option Expr)
    (body : Stmt) : Stmt :=
  withInitializer (.loop (condition.getD (always keyword)) (withIncrement body increment))
    initializer

/-- The largest number of parameters a function may have. -/
def parameterLimit : Nat := 255

/-- Names with commas between them. -/
inductive Parameters : List Token → List Token → Prop where
  | one : name.kind = .identifier → Parameters [name] [name]
  | more : name.kind = .identifier → comma.kind = .comma → Parameters w names →
      Parameters (name :: comma :: w) (name :: names)

/-- `parameters?` -/
inductive ParameterList : List Token → List Token → Prop where
  | none : ParameterList [] []
  | some : Parameters w names → ParameterList w names

mutual
/-- An expression of a level or tighter. -/
inductive Expression : Bool → Level → List Token → Expr → Prop where
  | lowest : Expression inside .assignment w e → Expression inside .lowest w e
  | assign : Expression inside .call u target → target.isAssignable = true →
      op.kind = .equal → Expression inside .assignment v value →
      Expression inside .assignment (u ++ op :: v) (.assign target value)
  | increase : Expression inside .call u target → target.isAssignable = true →
      op.kind = .plusEqual → Expression inside .assignment v value →
      Expression inside .assignment (u ++ op :: v)
        (.assign target (.binary target (.synthetic .plus op) value))
  | decrease : Expression inside .call u target → target.isAssignable = true →
      op.kind = .minusEqual → Expression inside .assignment v value →
      Expression inside .assignment (u ++ op :: v)
        (.assign target (.binary target (.synthetic .minus op) value))
  | unassigned : Expression inside .or w e → Expression inside .assignment w e
  | operation : Operation level operand operators → Expression inside operand u first →
      Applied inside operand operators first w e → Expression inside level (u ++ w) e
  | signed : op.kind = .bang ∨ op.kind = .minus → Expression inside .unary w e →
      Expression inside .unary (op :: w) (.unary op e)
  | unsigned : Expression inside .call w e → Expression inside .unary w e
  | suffixed : Primary inside u first → Suffixed inside first w e →
      Expression inside .call (u ++ w) e

/-- `( operator operand )*` after an expression. Operators apply from the left. -/
inductive Applied : Bool → Level → List Token.Kind → Expr → List Token → Expr → Prop where
  | nil : Applied inside operand operators e [] e
  | cons : op.kind ∈ operators → Expression inside operand v right →
      Applied inside operand operators (.binary left op right) w e →
      Applied inside operand operators left (op :: v ++ w) e

/-- Calls, positions and members after an expression. -/
inductive Suffixed : Bool → Expr → List Token → Expr → Prop where
  | nil : Suffixed inside e [] e
  | call : opening.kind = .leftParen → ArgumentList inside v args → closing.kind = .rightParen →
      Suffixed inside (.call callee closing args) w e →
      Suffixed inside callee (opening :: v ++ closing :: w) e
  | index : opening.kind = .leftSquare → Expression inside .lowest v position →
      closing.kind = .rightSquare → Suffixed inside (.index left opening position) w e →
      Suffixed inside left (opening :: v ++ closing :: w) e
  | member : dot.kind = .dot → name.kind = .identifier →
      Suffixed inside (.access left dot name) w e → Suffixed inside left (dot :: name :: w) e

inductive Primary : Bool → List Token → Expr → Prop where
  | literal : constant? t = some value → Primary inside [t] (.literal value t)
  | name : t.kind = .identifier → Primary inside [t] (.variable t)
  | grouping : opening.kind = .leftParen → Expression inside .lowest w e →
      closing.kind = .rightParen → Primary inside (opening :: w ++ [closing]) (.grouping e)
  | list : opening.kind = .leftSquare → ArgumentList inside w elements →
      closing.kind = .rightSquare →
      Primary inside (opening :: w ++ [closing]) (.list opening elements)
  | object : opening.kind = .leftBrace → Declarations inside w members →
      closing.kind = .rightBrace →
      Primary inside (opening :: w ++ [closing]) (.object opening members)

/-- `expression ( "," expression )*` -/
inductive Arguments : Bool → List Token → List Expr → Prop where
  | one : Expression inside .lowest w e → Arguments inside w [e]
  | more : Expression inside .lowest u e → comma.kind = .comma → Arguments inside w rest →
      Arguments inside (u ++ comma :: w) (e :: rest)

/-- `arguments?` -/
inductive ArgumentList : Bool → List Token → List Expr → Prop where
  | none : ArgumentList inside [] []
  | some : Arguments inside w args → ArgumentList inside w args

/-- `expression?` -/
inductive Optional : Bool → List Token → Option Expr → Prop where
  | none : Optional inside [] none
  | some : Expression inside .lowest w e → Optional inside w (some e)

inductive VariableDeclaration : Bool → List Token → Stmt → Prop where
  | bare : keyword.kind = .varWord → name.kind = .identifier → semicolon.kind = .semicolon →
      VariableDeclaration inside [keyword, name, semicolon] (.var name none)
  | initialized : keyword.kind = .varWord → name.kind = .identifier → equal.kind = .equal →
      Expression inside .lowest w e → semicolon.kind = .semicolon →
      VariableDeclaration inside (keyword :: name :: equal :: w ++ [semicolon]) (.var name (some e))

inductive FunctionDeclaration : Bool → List Token → Stmt → Prop where
  | mk : keyword.kind = .funWord → name.kind = .identifier → opening.kind = .leftParen →
      ParameterList v params → params.length ≤ parameterLimit → closing.kind = .rightParen →
      brace.kind = .leftBrace → Lines true w body → unbrace.kind = .rightBrace →
      FunctionDeclaration inside
        (keyword :: name :: opening :: v ++ closing :: brace :: w ++ [unbrace])
        (.function name params body)

inductive Declaration : Bool → List Token → Stmt → Prop where
  | var : VariableDeclaration inside w s → Declaration inside w s
  | function : FunctionDeclaration inside w s → Declaration inside w s

/-- `declaration*` -/
inductive Declarations : Bool → List Token → List Stmt → Prop where
  | nil : Declarations inside [] []
  | cons : Declaration inside u s → Declarations inside w rest →
      Declarations inside (u ++ w) (s :: rest)

/-- What a `for` loop begins with. An expression may begin with a brace here. -/
inductive Initializer : Bool → List Token → Option Stmt → Prop where
  | none : semicolon.kind = .semicolon → Initializer inside [semicolon] none
  | var : VariableDeclaration inside w s → Initializer inside w (some s)
  | expression : Expression inside .lowest w e → semicolon.kind = .semicolon →
      Initializer inside (w ++ [semicolon]) (some (.expression e))

/-- A statement that declares nothing, and whether it is ajar. -/
inductive Statement : Bool → Bool → List Token → Stmt → Prop where
  | expression : Expression inside .lowest (t :: w) e → t.kind ≠ .leftBrace →
      semicolon.kind = .semicolon →
      Statement inside false (t :: w ++ [semicolon]) (.expression e)
  | forLoop : keyword.kind = .forWord → opening.kind = .leftParen → Initializer inside u initializer →
      Optional inside v condition → semicolon.kind = .semicolon → Optional inside w increment →
      closing.kind = .rightParen → Statement inside ajar x body →
      Statement inside ajar (keyword :: opening :: u ++ v ++ semicolon :: w ++ closing :: x)
        (unrolled keyword initializer condition increment body)
  | whileLoop : keyword.kind = .whileWord → opening.kind = .leftParen →
      Expression inside .lowest w condition → closing.kind = .rightParen →
      Statement inside ajar x body →
      Statement inside ajar (keyword :: opening :: w ++ closing :: x) (.loop condition body)
  | branch : keyword.kind = .ifWord → opening.kind = .leftParen →
      Expression inside .lowest w condition → closing.kind = .rightParen →
      Statement inside ajar x thenBranch →
      Statement inside true (keyword :: opening :: w ++ closing :: x)
        (.branch condition thenBranch none)
  | branches : keyword.kind = .ifWord → opening.kind = .leftParen →
      Expression inside .lowest w condition → closing.kind = .rightParen →
      Statement inside false x thenBranch → otherwise.kind = .elseWord →
      Statement inside ajar y elseBranch →
      Statement inside ajar (keyword :: opening :: w ++ closing :: x ++ otherwise :: y)
        (.branch condition thenBranch (some elseBranch))
  | block : opening.kind = .leftBrace → Lines inside w body → closing.kind = .rightBrace →
      Statement inside false (opening :: w ++ [closing]) (.block body)
  | returns : keyword.kind = .returnWord → Optional true w value → semicolon.kind = .semicolon →
      Statement true false (keyword :: w ++ [semicolon]) (.returns keyword value)

inductive Line : Bool → List Token → Stmt → Prop where
  | declaration : Declaration inside w s → Line inside w s
  | statement : Statement inside ajar w s → Line inside w s

/-- `line*` -/
inductive Lines : Bool → List Token → List Stmt → Prop where
  | nil : Lines inside [] []
  | cons : Line inside u s → Lines inside w rest → Lines inside (u ++ w) (s :: rest)
end

/-- A whole program. -/
def Program (w : List Token) (p : List Stmt) : Prop := Lines false w p

/-- The kinds of tokens with which an expression of the tightest level begins. -/
def startsPrimary : Token.Kind → Bool
  | .number | .string | .trueWord | .falseWord | .nullWord | .identifier => true
  | .leftParen | .leftSquare | .leftBrace => true
  | _ => false

def startsExpression (kind : Token.Kind) : Bool :=
  startsPrimary kind || kind = .bang || kind = .minus

theorem startsPrimary_of_constant? (h : constant? t = some value) :
    startsPrimary t.kind = true := by
  unfold constant? at h
  split at h <;> simp_all [startsPrimary]

theorem Primary.starts (h : Primary inside w e) : ∃ t v, w = t :: v ∧ startsPrimary t.kind = true := by
  cases h with
  | literal denotes => exact ⟨_, _, rfl, startsPrimary_of_constant? denotes⟩
  | name kind | grouping kind | list kind | object kind =>
    exact ⟨_, _, rfl, by simp [kind, startsPrimary]⟩

theorem Expression.starts_call (h : Expression inside .call w e) :
    ∃ t v, w = t :: v ∧ startsPrimary t.kind = true := by
  cases h with
  | suffixed first after =>
    obtain ⟨t, v, rfl, starts⟩ := first.starts
    exact ⟨t, _, rfl, starts⟩
  | operation operation => cases operation

theorem Expression.starts (h : Expression inside level w e) :
    ∃ t v, w = t :: v ∧ startsExpression t.kind = true := by
  match h with
  | .lowest h => exact h.starts
  | .unassigned h => exact h.starts
  | .operation _ h _ =>
    obtain ⟨t, v, rfl, starts⟩ := h.starts
    exact ⟨t, _, rfl, starts⟩
  | .signed kind _ => exact ⟨_, _, rfl, by rcases kind with kind | kind <;> simp [startsExpression, kind]⟩
  | .unsigned h =>
    obtain ⟨t, v, rfl, starts⟩ := h.starts_call
    exact ⟨t, v, rfl, by simp [startsExpression, starts]⟩
  | .suffixed first _ =>
    obtain ⟨t, v, rfl, starts⟩ := first.starts
    exact ⟨t, _, rfl, by simp [startsExpression, starts]⟩
  | .assign h .. | .increase h .. | .decrease h .. =>
    obtain ⟨t, v, rfl, starts⟩ := h.starts_call
    exact ⟨t, _, rfl, by simp [startsExpression, starts]⟩

/-- The kinds of tokens with which a line begins. -/
def startsLine (kind : Token.Kind) : Bool :=
  startsExpression kind || kind.startsStatement

theorem Statement.starts (h : Statement inside ajar w s) :
    ∃ t v, w = t :: v ∧ startsLine t.kind = true := by
  cases h with
  | expression derived =>
    obtain ⟨t, v, same, starts⟩ := derived.starts
    cases same
    exact ⟨_, _, rfl, by simp [startsLine, starts]⟩
  | forLoop kind | whileLoop kind | branch kind | branches kind | block kind | returns kind =>
    exact ⟨_, _, rfl, by simp [startsLine, kind, Token.Kind.startsStatement, startsExpression,
      startsPrimary]⟩

theorem Declaration.starts (h : Declaration inside w s) :
    ∃ t v, w = t :: v ∧ (t.kind = .varWord ∨ t.kind = .funWord) := by
  cases h with
  | var h =>
    cases h with
    | bare kind | initialized kind => exact ⟨_, _, rfl, .inl kind⟩
  | function h =>
    cases h with
    | mk kind => exact ⟨_, _, rfl, .inr kind⟩

theorem Line.starts (h : Line inside w s) : ∃ t v, w = t :: v ∧ startsLine t.kind = true := by
  cases h with
  | statement h => exact h.starts
  | declaration h =>
    obtain ⟨t, v, rfl, kind⟩ := h.starts
    refine ⟨t, v, rfl, ?_⟩
    rcases kind with kind | kind <;> simp [startsLine, kind, Token.Kind.startsStatement]

/-! Only a name or a member access, as it stands, has an assignable tree. -/

theorem Applied.eq_or_binary (h : Applied inside operand operators first w e) :
    w = [] ∧ e = first ∨ ∃ left op right, e = .binary left op right := by
  match h with
  | .nil => exact .inl ⟨rfl, rfl⟩
  | .cons _ _ after =>
    rcases after.eq_or_binary with ⟨_, rfl⟩ | binary
    · exact .inr ⟨_, _, _, rfl⟩
    · exact .inr binary

theorem Expression.call_of_assignable (h : Expression inside level w e)
    (assignable : e.isAssignable = true) : Expression inside .call w e := by
  match h with
  | .lowest h => exact h.call_of_assignable assignable
  | .unassigned h => exact h.call_of_assignable assignable
  | .assign .. | .increase .. | .decrease .. | .signed .. => simp [Expr.isAssignable] at assignable
  | .unsigned h => exact h
  | .suffixed first after => exact .suffixed first after
  | .operation _ first after =>
    have tighter := first.call_of_assignable
    rcases after.eq_or_binary with ⟨rfl, rfl⟩ | ⟨_, _, _, rfl⟩
    · simpa using tighter assignable
    · simp [Expr.isAssignable] at assignable

end SoftScript.Grammar
