import SoftScript.Eval.Fault
import SoftScript.Value.Text

/-! The state in which programs run, and the steps on it from which evaluation is made. -/
namespace SoftScript

structure Machine where
  heap : Heap
  globals : FrameId
  /-- The scope in which names are looked up. -/
  scope : FrameId
  /-- How many calls of declared functions are under way. -/
  depth : Nat
  output : Output
  /-- What each reading of the clock yields, in milliseconds. -/
  clock : Nat → Integer
  readings : Nat

namespace Machine

/-- Binds the built-in functions in a scope. -/
def bindNatives (h : Heap) (frame : FrameId) : Heap :=
  Native.globals.foldl (fun h native =>
    let (function, h) := h.newFunction (.builtin native)
    h.bind frame native.name (.of function)) h

/-- A machine whose global scope holds the built-in functions. -/
def start (output : Output) (clock : Nat → Integer) : Machine :=
  let (globals, heap) := Heap.empty.newFrame ⟨[], none⟩
  { heap := bindNatives heap globals, globals, scope := globals, depth := 0, output, clock,
    readings := 0 }

end Machine

/-- Why a run ended early: a fault, or a bound on its length that was too small; for a run that has
no end every bound is. -/
inductive Halt where
  | fault (fault : Fault)
  | exhausted
  deriving DecidableEq, Repr

abbrev Run := EStateM Halt Machine

namespace Run

variable {α : Type}

def exhausted : Run α := throw .exhausted

def fail (cause : Fault.Cause) (token : Token) : Run α :=
  throw (.fault ⟨cause, token⟩)

def heap : Run Heap := return (← get).heap

def text (v : Value) : Run String := return (← heap).text v.payload

def newFrame (frame : Frame) : Run FrameId := do
  let m ← get
  let (id, heap) := m.heap.newFrame frame
  set { m with heap }
  return id

def newFunction (callable : Callable) : Run Value := do
  let m ← get
  let (function, heap) := m.heap.newFunction callable
  set { m with heap }
  return .of function

def newList (items : Array Value) : Run Value := do
  let m ← get
  let (list, heap) := m.heap.newList items
  set { m with heap }
  return .of list

def newObject (members : Bindings) : Run Value := do
  let m ← get
  let (object, heap) := m.heap.newObject members
  set { m with heap }
  return .of object

def modifyItems (id : ListId) (f : Array Value → Array Value) : Run Unit :=
  modify fun m => { m with heap := m.heap.modifyItems id f }

def modifyMembers (id : ObjectId) (f : Bindings → Bindings) : Run Unit :=
  modify fun m => { m with heap := m.heap.modifyMembers id f }

/-- The value of a name in the current scope or one around it. -/
def lookup (name : Token) : Run Value := do
  let m ← get
  match m.heap.lookup? m.scope name.lexeme with
  | some value => return value
  | none => fail (.undefinedVariable name.lexeme) name

/-- Binds a new name in the current scope. -/
def define (name : Token) (value : Value) : Run Unit := do
  let m ← get
  if (m.heap.bindings m.scope).contains name.lexeme then
    fail (.duplicateDefinition name.lexeme) name
  else set { m with heap := m.heap.bind m.scope name.lexeme value }

/-- Gives the nearest binding of a name another payload. -/
def assign (name : Token) (value : Value) : Run Unit := do
  let m ← get
  match m.heap.holder? m.scope name.lexeme with
  | some holder => set { m with heap := m.heap.rebind holder name.lexeme value.payload }
  | none => fail (.undefinedAssignment name.lexeme) name

def readClock : Run Integer := do
  let m ← get
  set { m with readings := m.readings + 1 }
  return m.clock m.readings

/-- Writes to the output; a failure is reported at the given token. If the writing has no end,
neither has the run, whatever its bound. -/
def write (text : String) (token : Token) : Run Unit := do
  let m ← get
  match m.output.write text with
  | none => exhausted
  | some (error, output) =>
    set { m with output }
    if let some error := error then fail (.output error) token

/-- Runs in another scope and comes back to the present one, however the run ends. -/
def inScope (frame : FrameId) (run : Run α) : Run α := fun m =>
  let outer := m.scope
  match run { m with scope := frame } with
  | .ok a m => .ok a { m with scope := outer }
  | .error e m => .error e { m with scope := outer }

/-- Runs one call deeper and comes back to the present depth, however the run ends. -/
def deeper (run : Run α) : Run α := fun m =>
  match run { m with depth := m.depth + 1 } with
  | .ok a m' => .ok a { m' with depth := m'.depth - 1 }
  | .error e m' => .error e { m' with depth := m'.depth - 1 }

end Run

end SoftScript
