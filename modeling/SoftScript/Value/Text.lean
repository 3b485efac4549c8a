import SoftScript.Value.Heap

/-! Values as text. A container met again inside itself is marked instead of written out. -/
namespace SoftScript

inductive Container where
  | list (id : ListId)
  | object (id : ObjectId)
  deriving DecidableEq, Repr

namespace Heap

def functionText (h : Heap) (id : FunctionId) : String :=
  match h.functions[id]? with
  | some callable => callable.text
  | none => ""

/-- The text of a payload inside the containers already being written. The number bounds the
containers not among them, so at zero every container is one of them. -/
def textWithin (h : Heap) : Nat → List Container → Payload → String
  | _, _, .int value => value.text
  | _, _, .bool value => if value then "true" else "false"
  | _, _, .function id => h.functionText id
  | _, _, .string value => value
  | _, _, .null => "null"
  | 0, _, .list _ => "[...]"
  | 0, _, .object _ => "\x7b...\x7d"
  | n + 1, writing, .list id =>
    if writing.contains (.list id) then "[...]"
    else
      let inner := textWithin h n (.list id :: writing)
      "[" ++ ", ".intercalate ((h.items id).toList.map fun item => inner item.payload) ++ "]"
  | n + 1, writing, .object id =>
    if writing.contains (.object id) then "\x7b...\x7d"
    else
      let inner := textWithin h n (.object id :: writing)
      "\x7b" ++ ", ".intercalate ((h.members id).map fun (key, member) =>
        key ++ ": " ++ inner member.payload) ++ "\x7d"

def text (h : Heap) (payload : Payload) : String :=
  h.textWithin (h.lists.size + h.objects.size) [] payload

end Heap

end SoftScript
