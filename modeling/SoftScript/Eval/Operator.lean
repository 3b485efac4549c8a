import SoftScript.Eval.Machine

/-! Unary and binary operators on values. `or` and `and` are union and difference when a list is
involved. -/
namespace SoftScript.Run

/-- An integer result that fits, or an overflow at the operator. -/
def checked (op : Token) : Option Integer → Run Value
  | some value => return .int value
  | none => fail .integerOverflow op

/-- Operators that take two integers. Zero does not divide. -/
def arithmetic (op : Token) (left right : Value) : Run Value := do
  match left.payload.asInt?, right.payload.asInt? with
  | none, _ => fail (.operandNotNumber left.payload.kind) op
  | some _, none => fail (.operandNotNumber right.payload.kind) op
  | some a, some b =>
    match op.kind with
    | .minus => checked op (a.sub? b)
    | .star => checked op (a.mul? b)
    | .slash => if b = 0 then fail .divisionByZero op else checked op (a.div? b)
    | .percent => if b = 0 then fail .divisionByZero op else checked op (a.mod? b)
    | .greater => return .bool (a > b)
    | .greaterEqual => return .bool (a ≥ b)
    | .lesser => return .bool (a < b)
    | .lesserEqual => return .bool (a ≤ b)
    | _ => fail (.unsupportedOperator op.lexeme) op

/-- The items of a list, or a value that is no list as the only item. -/
def itemsOf (v : Value) : Run (Array Value) := do
  match v.payload.asList? with
  | some id => return (← heap).items id
  | none => return #[v]

/-- Integers add up; beside a string everything is text; beside a list everything is items. -/
def plus (op : Token) (left right : Value) : Run Value := do
  match left.payload, right.payload with
  | .int a, .int b => checked op (a.add? b)
  | .string _, _ | _, .string _ => return .string ((← text left) ++ (← text right))
  | .list _, _ | _, .list _ => newList ((← itemsOf left) ++ (← itemsOf right))
  | _, _ => fail .invalidPlusOperands op

/-- The first occurrences, in order. -/
def distinct (items : Array Value) : Array Value :=
  items.foldl (fun kept item => if kept.any (·.same item) then kept else kept.push item) #[]

/-- The list operand and the other one; of two lists the left one comes first. -/
def listFirst? (left right : Value) : Option (Value × Value) :=
  match left.payload.asList?, right.payload.asList? with
  | some _, _ => some (left, right)
  | none, some _ => some (right, left)
  | none, none => none

def either (left right : Value) : Run Value := do
  match listFirst? left right with
  | some (list, other) => newList (distinct ((← itemsOf list) ++ (← itemsOf other)))
  | none => return .bool (left.payload.isTruthy || right.payload.isTruthy)

def both (left right : Value) : Run Value := do
  match listFirst? left right with
  | some (list, other) =>
    let excluded ← itemsOf other
    newList ((← itemsOf list).filter fun item => !excluded.any (·.same item))
  | none => return .bool (left.payload.isTruthy && right.payload.isTruthy)

/-- Every binary operator but indexing. Both operands have been evaluated. -/
def binary (op : Token) (left right : Value) : Run Value := do
  match op.kind with
  | .equalEqual => return .bool (left.same right)
  | .bangEqual => return .bool (!left.same right)
  | .plus => plus op left right
  | .orWord => either left right
  | .andWord => both left right
  | .minus | .star | .slash | .percent | .greater | .greaterEqual | .lesser | .lesserEqual =>
    arithmetic op left right
  | _ => fail (.unsupportedOperator op.lexeme) op

def unary (op : Token) (operand : Value) : Run Value := do
  match op.kind with
  | .bang => return .bool (!operand.payload.isTruthy)
  | .minus =>
    match operand.payload.asInt? with
    | some value => checked op value.neg?
    | none => fail (.operandNotNumber operand.payload.kind) op
  | _ => fail (.unsupportedOperator op.lexeme) op

end SoftScript.Run
