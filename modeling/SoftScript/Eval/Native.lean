import SoftScript.Eval.Machine

/-! The bodies of the built-in functions. An argument that is missing is null. -/
namespace SoftScript.Run

/-- Puts a value into a list at a position from zero up to its length. -/
def insertItem (list : ListId) (index value : Value) (paren : Token) : Run Unit := do
  match index.payload.asInt? with
  | none => fail (.indexNotInt "list" (← text index)) paren
  | some position =>
    let size := ((← heap).items list).size
    match position.toIndex?.filter (· ≤ size) with
    | some place => modifyItems list (·.insertIdxIfInBounds place value)
    | none => fail (.indexOutOfBounds "list" position size) paren

def callNative (native : Native) (args : List Value) (paren : Token) : Run Value := do
  let argument (place : Nat) : Value := args[place]?.getD .null
  match native with
  | .clock => return .int (← readClock)
  | .print =>
    write ((← text (argument 0)) ++ "\n") paren
    return .null
  | .add list =>
    modifyItems list (·.push (argument 0))
    return .null
  | .addRange list =>
    match (argument 0).payload.asList? with
    | some other =>
      let items := (← heap).items other
      modifyItems list (· ++ items)
      return .null
    | none => fail (.invalidArgument "add_range" .list (argument 0).payload.kind) paren
  | .insert list =>
    insertItem list (argument 0) (argument 1) paren
    return .null
  | .remove list =>
    modifyItems list (·.eraseP (·.same (argument 0)))
    return .null

end SoftScript.Run
