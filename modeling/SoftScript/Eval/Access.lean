import SoftScript.Eval.Machine

/-! Members and positions of values. -/
namespace SoftScript.Run

def undefinedMember (v : Value) (member : Token) : Run Value :=
  fail (.undefinedMember member.lexeme v.owner) member

/-- The member of a value after a dot. Strings and lists know their size; lists have methods,
each reading of which yields a new function. -/
def dotAccess (v : Value) (dot member : Token) : Run Value := do
  match v.payload with
  | .string text =>
    if member.lexeme = "size" then return .int (.ofSize text.length)
    else undefinedMember v member
  | .list id =>
    if member.lexeme = "size" then return .int (.ofSize ((← heap).items id).size)
    else match Native.listMethod? id member.lexeme with
      | some method => newFunction (.builtin method)
      | none => undefinedMember v member
  | .object id =>
    match ((← heap).members id).get? member.lexeme with
    | some value => return value
    | none => undefinedMember v member
  | _ => fail (.unsupportedDotAccess v.payload.kind) dot

/-- The item at a position among given items. -/
def itemAt (v : Value) (bracket : Token) (index : Value) (items : Array Value) : Run Value := do
  match index.payload.asInt? with
  | none => fail (.indexNotInt v.owner (← text index)) bracket
  | some position =>
    match position.toIndex?.bind (items[·]?) with
    | some item => return item
    | none => fail (.indexOutOfBounds v.owner position items.size) bracket

/-- Lists are indexed by position, objects by the rank of a member's name. -/
def indexAccess (v : Value) (bracket : Token) (index : Value) : Run Value := do
  match v.payload with
  | .list id => itemAt v bracket index ((← heap).items id)
  | .object id => itemAt v bracket index (((← heap).members id).map Prod.snd).toArray
  | _ => fail (.unsupportedIndexAccess v.payload.kind) bracket

/-- Overwrites a member that an object already has. -/
def assignMember (v : Value) (dot member : Token) (value : Value) : Run Unit := do
  match v.payload with
  | .object id =>
    if ((← heap).members id).contains member.lexeme then
      modifyMembers id (·.modify member.lexeme fun _ => value)
    else
      let _ ← undefinedMember v member
  | _ => fail (.unsupportedMemberAssignment v.payload.kind) dot

end SoftScript.Run
