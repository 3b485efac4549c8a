import SoftScript.Syntax.Basic
import SoftScript.Value.Basic

/-! The heap: scopes, functions, lists and objects, each known by its place. Cells are added and
changed but never removed. -/
namespace SoftScript

/-- Functions that are built in. A list method knows the list it was taken from. -/
inductive Native where
  | clock
  | print
  | add (list : ListId)
  | addRange (list : ListId)
  | insert (list : ListId)
  | remove (list : ListId)
  deriving DecidableEq, Repr

namespace Native

def name : Native → String
  | clock => "clock"
  | print => "print"
  | add _ => "add"
  | addRange _ => "add_range"
  | insert _ => "insert"
  | remove _ => "remove"

def arity : Native → Nat
  | clock => 0
  | print | add _ | addRange _ | remove _ => 1
  | insert _ => 2

/-- The functions bound in every global scope. -/
def globals : List Native := [clock, print]

def listMethod? (list : ListId) (name : String) : Option Native :=
  [add list, addRange list, insert list, remove list].find? (·.name = name)

end Native

inductive Callable where
  /-- A declared function and the scope it was declared in. -/
  | user (declaration : FunctionDecl) (closure : FrameId)
  | builtin (native : Native)

namespace Callable

def name : Callable → String
  | user declaration _ => declaration.name.lexeme
  | builtin native => native.name

def arity : Callable → Nat
  | user declaration _ => declaration.arity
  | builtin native => native.arity

def text : Callable → String
  | user declaration _ => "<fn " ++ declaration.name.lexeme ++ ">"
  | builtin _ => "<native fn>"

end Callable

/-- One scope and the scope around it. -/
structure Frame where
  bindings : Bindings
  enclosing : Option FrameId
  deriving DecidableEq, Repr

structure Heap where
  frames : Array Frame
  functions : Array Callable
  lists : Array (Array Value)
  objects : Array Bindings

namespace Heap

def empty : Heap := ⟨#[], #[], #[], #[]⟩

def newFrame (h : Heap) (frame : Frame) : FrameId × Heap :=
  (h.frames.size, { h with frames := h.frames.push frame })

def newFunction (h : Heap) (callable : Callable) : Payload × Heap :=
  (.function h.functions.size, { h with functions := h.functions.push callable })

def newList (h : Heap) (items : Array Value) : Payload × Heap :=
  (.list h.lists.size, { h with lists := h.lists.push items })

def newObject (h : Heap) (members : Bindings) : Payload × Heap :=
  (.object h.objects.size, { h with objects := h.objects.push members })

def bindings (h : Heap) (id : FrameId) : Bindings :=
  match h.frames[id]? with
  | some frame => frame.bindings
  | none => []

def items (h : Heap) (id : ListId) : Array Value := h.lists[id]?.getD #[]

def members (h : Heap) (id : ObjectId) : Bindings := h.objects[id]?.getD []

def modifyBindings (h : Heap) (id : FrameId) (f : Bindings → Bindings) : Heap :=
  { h with frames := h.frames.modify id fun frame => { frame with bindings := f frame.bindings } }

def modifyItems (h : Heap) (id : ListId) (f : Array Value → Array Value) : Heap :=
  { h with lists := h.lists.modify id f }

def modifyMembers (h : Heap) (id : ObjectId) (f : Bindings → Bindings) : Heap :=
  { h with objects := h.objects.modify id f }

/-- The nearest scope that binds a name, looking at no more than the given number of scopes from
the inside out. -/
def holderWithin (h : Heap) (name : String) : Nat → FrameId → Option FrameId
  | 0, _ => none
  | n + 1, id =>
    match h.frames[id]? with
    | none => none
    | some frame =>
      if frame.bindings.contains name then some id
      else match frame.enclosing with
        | some outer => holderWithin h name n outer
        | none => none

/-- The nearest scope that binds a name. No chain of scopes is longer than there are scopes. -/
def holder? (h : Heap) (id : FrameId) (name : String) : Option FrameId :=
  h.holderWithin name h.frames.size id

def lookup? (h : Heap) (id : FrameId) (name : String) : Option Value :=
  (h.holder? id name).bind fun holder => (h.bindings holder).get? name

/-- Binds a name in a scope, in place of any binding it has there. -/
def bind (h : Heap) (id : FrameId) (name : String) (value : Value) : Heap :=
  h.modifyBindings id (·.insert name value)

/-- Gives a binding of a scope another payload. The binding keeps its name. -/
def rebind (h : Heap) (id : FrameId) (name : String) (payload : Payload) : Heap :=
  h.modifyBindings id (·.modify name fun slot => { slot with payload })

end Heap

end SoftScript
