import SoftScript.Token.Basic

/-! Runtime values. Lists, objects and functions are references into a heap; two of them are
equal when they are the same reference. -/
namespace SoftScript

abbrev FrameId := Nat
abbrev ListId := Nat
abbrev ObjectId := Nat
abbrev FunctionId := Nat

inductive Payload where
  | int (value : Integer)
  | bool (value : Bool)
  | function (id : FunctionId)
  | string (value : String)
  | list (id : ListId)
  | object (id : ObjectId)
  | null
  deriving DecidableEq, Repr

inductive Payload.Kind where
  | int | bool | func | string | list | object | null
  deriving DecidableEq, Repr

/-- The name of a type in messages. -/
def Payload.Kind.name : Payload.Kind → String
  | int => "Int"
  | bool => "Bool"
  | func => "Func"
  | string => "String"
  | list => "List"
  | object => "Object"
  | null => "Null"

namespace Payload

def kind : Payload → Kind
  | int _ => .int
  | bool _ => .bool
  | function _ => .func
  | string _ => .string
  | list _ => .list
  | object _ => .object
  | null => .null

/-- Null, `false` and zero are false, all else is true. -/
def isTruthy : Payload → Bool
  | null => false
  | bool value => value
  | int value => value ≠ 0
  | _ => true

def asInt? : Payload → Option Integer
  | int value => some value
  | _ => none

def asList? : Payload → Option ListId
  | list id => some id
  | _ => none

end Payload

/-- A payload and the name it was last bound to, which messages mention. -/
structure Value where
  payload : Payload
  name : Option Token
  deriving DecidableEq, Repr

namespace Value

def of (payload : Payload) : Value := ⟨payload, none⟩

def int (value : Integer) : Value := of (.int value)
def bool (value : Bool) : Value := of (.bool value)
def string (value : String) : Value := of (.string value)
def null : Value := of .null

instance : Inhabited Value := ⟨null⟩

def named (v : Value) (name : Token) : Value := { v with name := some name }

/-- Equality in programs, to which names do not matter. -/
def same (a b : Value) : Bool := a.payload = b.payload

/-- How messages call the place a value was read from: by its name, or else by its type. -/
def owner (v : Value) : String :=
  match v.name with
  | some name => if name.lexeme.isEmpty then v.payload.kind.name else name.lexeme
  | none => v.payload.kind.name

end Value

/-- Named values in ascending order of their names, as they stand in a scope or an object. -/
abbrev Bindings := List (String × Value)

namespace Bindings

def get? : Bindings → String → Option Value
  | [], _ => none
  | (key, value) :: rest, name => if key = name then some value else get? rest name

def contains (b : Bindings) (name : String) : Bool := (b.get? name).isSome

/-- Adds a binding at its place, or replaces the one there is. -/
def insert : Bindings → String → Value → Bindings
  | [], name, value => [(name, value)]
  | (key, old) :: rest, name, value =>
    if name < key then (name, value) :: (key, old) :: rest
    else if name = key then (name, value) :: rest
    else (key, old) :: insert rest name value

/-- Changes the value bound to a name, if there is one. -/
def modify : Bindings → String → (Value → Value) → Bindings
  | [], _, _ => []
  | (key, value) :: rest, name, f =>
    if key = name then (key, f value) :: rest else (key, value) :: modify rest name f

end Bindings

end SoftScript
