import SoftScript.Proofs.Heap.Scopes
import SoftScript.Proofs.Printing.Faithful
import SoftScript.Proofs.Run.Blind
import SoftScript.Proofs.Run.Course
import SoftScript.Proofs.Session.Reached

/-! Declarations add to the scope they stand in and to no other, nothing else adds to any scope, and
nothing that was declared is lost. This holds of every task in the course of a valid program, and
of everything that becomes later of a session. -/
namespace SoftScript

/-- No branch and no body of a loop is a declaration. -/
def Stmt.sparesScope (s : Stmt) : Bool := s.bodies.all (!·.isDeclaration)

theorem Stmt.sparesScope_of_isFormed (inside : Bool) (s : Stmt)
    (formed : s.isFormed inside = true) : s.sparesScope = true := by
  match s with
  | .block _ | .expression _ | .function .. | .returns .. | .var .. => rfl
  | .branch _ _ none | .branch _ _ (some _) | .loop .. =>
    simp_all [Stmt.sparesScope, Stmt.bodies, Stmt.isFormed]

/-- Statements that declare nothing where they stand. -/
abbrev Stmt.AllSpare (p : List Stmt) : Prop :=
  Stmt.allUphold (fun _ => true) (fun _ => Stmt.sparesScope) false p = true

theorem allSpare_ofSource {source : String} (valid : (Parse.ofSource source).isValid = true) :
    Stmt.AllSpare (Parse.ofSource source).statements :=
  allUphold_mono (fun _ _ => rfl) Stmt.sparesScope_of_isFormed (wellFormed_ofSource valid)

/-- Scopes lie inside scopes made before them, all of them in the global one. -/
structure Machine.Orderly (m : Machine) : Prop where
  scope : m.scope < m.heap.frames.size
  links : ∀ (id : FrameId) frame, m.heap.frames[id]? = some frame →
    match frame.enclosing with
    | none => id = m.globals
    | some outer => outer < id
  closures : ∀ (id : FunctionId) declaration closure,
    m.heap.functions[id]? = some (.user declaration closure) → closure < m.heap.frames.size

/-- Every scope lies, possibly within others, in the global one. -/
theorem Machine.Orderly.endsIn {m : Machine} (orderly : m.Orderly) {id : FrameId}
    (there : id < m.heap.frames.size) : m.heap.EndsIn m.globals id := by
  induction id using Nat.strongRecOn with
  | ind id ih =>
    have found := Array.getElem?_eq_getElem there
    have link := orderly.links id _ found
    split at link
    · rename_i outermost
      subst link
      exact .root found outermost
    · rename_i outer inside
      exact .inside found inside (ih outer link (Nat.lt_trans link there))

/-- What a task makes of the scopes: in its own scope a declaration may bind names, in all others
nothing does. -/
structure Machine.Extends (d : Bool) (m m' : Machine) : Prop where
  orderly : m'.Orderly
  globals : m'.globals = m.globals
  scope : m'.scope = m.scope
  keeps : m.heap.Keeps m'.heap
  names : ∀ id < m.heap.frames.size, (d = true → id ≠ m.scope) →
    ∀ name, (m'.heap.bindings id).contains name = (m.heap.bindings id).contains name

namespace Machine

variable {d : Bool} {m m' m'' : Machine}

theorem Extends.trans (first : m.Extends d m') (second : m'.Extends d m'') : m.Extends d m'' where
  orderly := second.orderly
  globals := second.globals.trans first.globals
  scope := second.scope.trans first.scope
  keeps := first.keeps.trans second.keeps
  names := by
    intro id there other name
    rw [← first.names id there other name]
    apply second.names id (Nat.lt_of_lt_of_le there first.keeps.size_le)
    rwa [first.scope]

theorem Extends.sameNames (h : m.Extends false m') : m.heap.SameNames m'.heap :=
  fun id there => h.names id there (by simp)

/-- A step that leaves scopes alone and makes at most functions of the current one. -/
theorem Orderly.extended (orderly : m.Orderly) (frames : m'.heap.frames = m.heap.frames)
    (globals : m'.globals = m.globals) (scope : m'.scope = m.scope)
    (functions : ∀ (id : FunctionId) declaration closure,
      m'.heap.functions[id]? = some (.user declaration closure) →
        closure = m.scope ∨ m.heap.functions[id]? = some (.user declaration closure)) :
    m.Extends d m' where
  orderly := by
    refine ⟨by rw [frames, scope]; exact orderly.scope, by rw [frames, globals]; exact orderly.links, ?_⟩
    intro id declaration closure found
    rw [frames]
    rcases functions id declaration closure found with rfl | old
    · exact orderly.scope
    · exact orderly.closures id declaration closure old
  globals := globals
  scope := scope
  keeps := .of_frames frames
  names := by
    intro id _ _ name
    simp [Heap.bindings, frames]

theorem Orderly.push (orderly : m.Orderly) (callable : Callable)
    (current : ∀ declaration closure, callable = .user declaration closure → closure = m.scope) :
    m.Extends d { m with heap := (m.heap.newFunction callable).2 } := by
  refine orderly.extended rfl rfl rfl ?_
  intro id declaration closure found
  simp only [Heap.newFunction, Array.getElem?_push] at found
  split at found
  · exact .inl (current declaration closure (Option.some.inj found))
  · exact .inr found

/-- A scope inside one that is there. -/
theorem Orderly.entering (orderly : m.Orderly) (bound : Bindings) {outer : FrameId}
    (there : outer < m.heap.frames.size) : (m.entering ⟨bound, some outer⟩).Orderly where
  scope := by simp [Machine.entering, Heap.newFrame]
  links := by
    intro id frame found
    simp only [Machine.entering, Heap.newFrame, Array.getElem?_push] at found
    split at found
    · rename_i new
      cases found
      rw [new]
      exact there
    · exact orderly.links id frame found
  closures := by
    intro id declaration closure found
    have old := orderly.closures id declaration closure found
    simpa [Machine.entering, Heap.newFrame] using Nat.lt_succ_of_lt old

/-- Scopes stay in order whatever is bound in them. -/
theorem Orderly.modified (orderly : m.Orderly) (id : FrameId) (change : Bindings → Bindings) :
    { m with heap := m.heap.modifyBindings id change }.Orderly where
  scope := by simpa [Heap.modifyBindings] using orderly.scope
  links := by
    intro i frame found
    simp only [Heap.modifyBindings, Array.getElem?_modify] at found
    split at found
    · obtain ⟨old, there, rfl⟩ := Option.map_eq_some_iff.mp found
      exact orderly.links i old there
    · exact orderly.links i frame found
  closures := by
    intro i declaration closure found
    simpa [Heap.modifyBindings] using orderly.closures i declaration closure found

theorem keeps_entering (m : Machine) (frame : Frame) : m.heap.Keeps (m.entering frame).heap :=
  m.heap.keeps_newFrame frame

/-- Back outside a new scope, no older scope has other names. -/
theorem Orderly.leaving {frame : Frame} {depth : Nat} (orderly : m.Orderly)
    (inner : (m.entering frame).Extends true m') :
    m.Extends false { m' with scope := m.scope, depth := depth } where
  orderly := by
    refine ⟨?_, inner.orderly.links, inner.orderly.closures⟩
    have grown := ((m.keeps_entering frame).trans inner.keeps).size_le
    exact Nat.lt_of_lt_of_le orderly.scope grown
  globals := inner.globals
  scope := rfl
  keeps := (m.keeps_entering frame).trans inner.keeps
  names := by
    intro id there _ name
    have older : id ≠ m.heap.frames.size := Nat.ne_of_lt there
    have kept := inner.names id (by simp [Machine.entering, Heap.newFrame]; omega)
      (fun _ => older) name
    rw [kept]
    simp [Heap.bindings, Machine.entering, Heap.newFrame, Array.getElem?_push, older]

end Machine

namespace Run

/-- The law of declarations, for machines whose scopes are in order. -/
theorem declared_law : Law (fun _ => true) (fun _ => Stmt.sparesScope)
    fun d m m' => m.Orderly → m.Extends d m' where
  refl _ _ orderly := orderly.extended rfl rfl rfl fun _ _ _ => .inr
  trans first second orderly := (first orderly).trans (second (first orderly).orderly)
  weaken h orderly :=
    { h orderly with names := fun id there _ => (h orderly).sameNames id there }
  body {inside s b m m'} spares member h := by
    have quiet : b.isDeclaration = false := by simpa using List.all_eq_true.mp spares b member
    rwa [quiet] at h
  newBuiltin _ _ orderly := orderly.push _ (by simp)
  newFunction _ _ _ orderly := orderly.push _ (by simp)
  newList _ _ orderly := orderly.extended rfl rfl rfl fun _ _ _ => .inr
  newObject _ _ orderly := orderly.extended rfl rfl rfl fun _ _ _ => .inr
  modifyItems _ _ _ orderly := orderly.extended rfl rfl rfl fun _ _ _ => .inr
  assignMember _ _ _ _ orderly := orderly.extended rfl rfl rfl fun _ _ _ => .inr
  rebind m name holder payload _ orderly :=
    ⟨orderly.modified holder _, rfl, rfl, m.heap.keeps_rebind holder name payload,
      fun id there _ => m.heap.sameNames_rebind holder name payload id there⟩
  bind m name value unbound orderly := by
    refine ⟨orderly.modified m.scope _, rfl, rfl, m.heap.keeps_bind m.scope name value, ?_⟩
    intro id there other x
    simp [(Heap.oneMore_bind orderly.scope unbound value).names id there x, other rfl]
  readClock _ orderly := orderly.extended rfl rfl rfl fun _ _ _ => .inr
  write _ _ _ orderly := orderly.extended rfl rfl rfl fun _ _ _ => .inr
  block inner orderly := orderly.leaving (inner (orderly.entering [] orderly.scope))
  call {m m' id declaration closure bound} found inner orderly := by
    have entered := orderly.entering bound (orderly.closures _ _ _ found)
    have inner := inner ⟨entered.scope, entered.links, entered.closures⟩
    exact orderly.leaving ⟨inner.orderly, inner.globals, inner.scope, inner.keeps, inner.names⟩

end Run

/-- At a later time: every scope is kept. -/
structure Machine.Before (m m' : Machine) : Prop where
  globals : m'.globals = m.globals
  keeps : m.heap.Keeps m'.heap

namespace Run

theorem declared_pace : Pace (fun _ => true) (fun _ => Stmt.sparesScope)
    (fun d m m' => m.Orderly → m.Extends d m') Machine.Orderly Machine.Before where
  toLaw := declared_law
  now _ := ⟨rfl, .refl _⟩
  later first second := ⟨second.globals.trans first.globals, first.keeps.trans second.keeps⟩
  step orderly h := ⟨(h orderly).orderly, (h orderly).globals, (h orderly).keeps⟩
  leave _ _ _ := ⟨rfl, .refl _⟩
  enter orderly := ⟨orderly.entering [] orderly.scope, rfl, Machine.keeps_entering _ _⟩
  begin {m id declaration closure} bound orderly found _ := by
    have entered := orderly.entering bound (orderly.closures _ _ _ found)
    exact ⟨⟨entered.scope, entered.links, entered.closures⟩, rfl, m.keeps_entering _⟩

/-- Machines as they come up in runs of valid programs. -/
abbrev Proper (m : Machine) : Prop :=
  Ready (fun _ => true) (fun _ => Stmt.sparesScope) Machine.Orderly m

end Run

open Run

/-- The name that a statement declares. -/
def Stmt.declared? : Stmt → Option Token
  | .var name _ | .function name _ _ => some name
  | _ => none

def Task.declared? : Task → Option Token
  | .value _ => none
  | .flow s => s.declared?

def Run.succeeds {α : Type} : EStateM.Result Halt Machine α → Bool
  | .ok _ _ => true
  | .error _ _ => false

namespace Stage

def succeeds (n : Nat) (st : Stage) : Bool :=
  match st.task with
  | .value e => Run.succeeds (evaluate n e st.machine)
  | .flow s => Run.succeeds (execute n s st.machine)

/-- A declaration that succeeds binds its own name in the current scope; a declaration that fails
and any other task bind no name in any scope. -/
def BindsOwn (n : Nat) (st : Stage) : Prop :=
  match st.task.declared?, st.succeeds n with
  | some name, true =>
    Heap.OneMore st.machine.scope name.lexeme st.machine.heap (st.left n).heap
  | _, _ => st.machine.heap.SameNames (st.left n).heap

end Stage

namespace Run

variable {m : Machine}

/-- A declaration made of the value that a run yields. -/
def declaring (x : Run Value) (name : Token) (make : Value → Value) : Run Flow := do
  let v ← x
  define name (make v)
  return .completed

/-- It binds its name once the value is there, unless the name is taken. -/
theorem declaring_binds {x : Run Value} (orderly : m.Orderly)
    (value : m.Extends false (after (x m))) (name : Token) (make : Value → Value) :
    if succeeds (declaring x name make m) then
      Heap.OneMore m.scope name.lexeme m.heap (after (declaring x name make m)).heap
    else m.heap.SameNames (after (declaring x name make m)).heap := by
  have same := value.sameNames
  cases ran : x m with
  | error e m' =>
    have ended : declaring x name make m = .error e m' := by simp [declaring, bind_apply, ran]
    rw [ran] at same
    rw [ended]
    exact same
  | ok v m' =>
    rw [ran] at value same
    replace value : m.Extends false m' := value
    replace same : m.heap.SameNames m'.heap := same
    by_cases bound : (m'.heap.bindings m'.scope).contains name.lexeme = true
    · have ended : declaring x name make m =
          .error (.fault ⟨.duplicateDefinition name.lexeme, name⟩) m' := by
        simp only [declaring, bind_apply, ran, define_apply, if_pos bound]
      rw [ended]
      exact same
    · have ended : declaring x name make m =
          .ok .completed { m' with heap := m'.heap.bind m'.scope name.lexeme (make v) } := by
        simp only [declaring, bind_apply, ran, define_apply, if_neg bound]
        rfl
      rw [ended]
      have added := Heap.oneMore_bind value.orderly.scope (by simpa using bound) (make v)
      refine ⟨?_, ?_⟩
      · rw [← same m.scope orderly.scope, ← value.scope]
        exact added.unbound
      · intro id there x
        rw [← same id there, ← value.scope]
        exact added.names id (Nat.lt_of_lt_of_le there value.keeps.size_le) x

theorem bindsOwn_of_ready {st : Stage} (proper : Proper st.machine)
    (fit : Fit (fun _ => true) (fun _ => Stmt.sparesScope) st.task) (n : Nat) : st.BindsOwn n := by
  obtain ⟨task, m⟩ := st
  cases task with
  | value e =>
    obtain ⟨inside, upheld⟩ := fit
    exact ((declared_pace.obeys_value e upheld m proper.declares).2 proper.machine).sameNames
  | flow s =>
    obtain ⟨inside, upheld⟩ := fit
    have flow := ((declared_pace.obeys_all n).2 s inside m upheld proper.declares).2 proper.machine
    -- a declaration is a value that is made and then bound
    have declared {x : Run Value} {name : Token} (make : Value → Value)
        (value : m.Extends false (after (x m))) (isDeclared : s.declared? = some name)
        (ran : execute n s = declaring x name make) : Stage.BindsOwn n ⟨.flow s, m⟩ := by
      have binds := declaring_binds proper.machine value name make
      rw [← ran] at binds
      simp only [Stage.BindsOwn, Task.declared?, isDeclared, Stage.succeeds]
      split at binds
      · rename_i success
        simpa [success, Stage.left] using binds
      · rename_i failure
        simpa [failure, Stage.left] using binds
    cases s with
    | var name initializer =>
      cases n with
      | zero => exact fun _ _ _ => rfl
      | succ n =>
        have first : ∀ e ∈ initializer,
            e.upholds (fun _ => true) (fun _ => Stmt.sparesScope) inside = true := by
          rintro e ⟨⟩
          simp only [Stmt.upholds, Bool.and_eq_true] at upheld
          exact upheld.2
        have value := (declared_pace.obeys_initial (n := n) initializer first m proper.declares).2
          proper.machine
        exact declared (·.named name) value rfl rfl
    | function name params body =>
      cases n with
      | zero => exact fun _ _ _ => rfl
      | succ n =>
        simp only [Stmt.upholds, Bool.and_eq_true] at upheld
        have function : Obeys _ _ _ false (bindFunction ⟨name, params, body⟩) m :=
          declared_pace.obeys_bindFunction upheld.2
        have value := (function proper.declares).2 proper.machine
        exact declared id value rfl rfl
    | block | expression | branch | returns | loop => exact flow.sameNames

theorem keeps_of_ready {st : Stage} (proper : Proper st.machine)
    (fit : Fit (fun _ => true) (fun _ => Stmt.sparesScope) st.task) (n : Nat) :
    st.machine.heap.Keeps (st.left n).heap :=
  (declared_pace.moments_inTime proper fit n).1.keeps

end Run

/-- What follows now follows all that has been. -/
theorem Run.InTime.appended {past new : List Machine} {m m' : Machine}
    (ordered : past.Pairwise Machine.Before) (upToNow : ∀ x ∈ past, x.Before m)
    (step : m.Before m') (inTime : InTime Machine.Before m new m') :
    (past ++ new).Pairwise Machine.Before ∧ ∀ x ∈ past ++ new, x.Before m' := by
  refine ⟨List.pairwise_append.mpr ⟨ordered, inTime.1, ?_⟩, ?_⟩
  · intro x early y late
    exact declared_pace.later (upToNow x early) (inTime.2 y late).1
  · intro x member
    rcases List.mem_append.mp member with early | late
    · exact declared_pace.later (upToNow x early) step
    · exact (inTime.2 x late).2

/-! Sessions. -/

namespace Session

/-- What the machine of a session goes through when a source is run. -/
def momentsOf (n : Nat) (contents : Except DeviceError String) (s : Session) : List Machine :=
  match contents with
  | .ok source =>
    let program := Parse.ofSource source
    if program.isValid then Run.moments n program.statements s.machine else []
  | .error _ => []

/-- The states of a session, with all that its machine has gone through. -/
inductive Passed : Session → List Machine → Prop
  | start (output : Output) (clock : Nat → Integer) :
    Passed (start output clock) [(start output clock).machine]
  | runFile (n : Nat) (path : String) (contents : Except DeviceError String) (status : Status) :
    Passed s past → s.runFile n path contents = some (status, s') →
      Passed s' (past ++ s.momentsOf n contents)
  | say (text : String) : Passed s past → Passed (s.say text) (past ++ [(s.say text).machine])
  | emitter (emitter : Report.Emitter) : Passed s past → Passed { s with emitter } past

variable {s s' : Session} {past : List Machine}

theorem Reached.passed (reached : s.Reached) : ∃ past, s.Passed past := by
  induction reached with
  | start output clock => exact ⟨_, .start output clock⟩
  | step _ step ih =>
    obtain ⟨past, passed⟩ := ih
    cases step with
    | runFile n path contents status ran => exact ⟨_, .runFile n path contents status passed ran⟩
    | say text => exact ⟨_, .say text passed⟩
    | emitter emitter => exact ⟨_, .emitter emitter passed⟩

theorem proper_start (output : Output) (clock : Nat → Integer) :
    Proper (start output clock).machine where
  machine := by
    have heap := Machine.heap_start output clock
    refine ⟨?_, ?_, ?_⟩
    · rw [start, heap]
      exact Nat.one_pos
    · intro id frame found
      rw [start, heap] at found
      rcases id with _ | id
      · cases found
        rfl
      · simp at found
    · intro id declaration closure found
      rw [start, heap] at found
      rcases id with _ | _ | id <;> simp at found
  declares := declares_start _ _ output clock

theorem proper_step (proper : Proper s.machine) (step : s.Step s') :
    Proper s'.machine ∧ s.machine.Before s'.machine := by
  obtain ⟨declares, kept⟩ := declared_law.session_step (fun _ => allSpare_ofSource)
    proper.declares step
  obtain ⟨machine, before⟩ := declared_pace.step proper.machine kept
  exact ⟨⟨machine, declares⟩, before⟩

/-- The moments of a run lie between the session before it and the session after it. -/
theorem momentsOf_inTime {n : Nat} {path : String} {contents : Except DeviceError String}
    {status : Status} (proper : Proper s.machine)
    (ran : s.runFile n path contents = some (status, s')) :
    (∀ m ∈ s.momentsOf n contents, Proper m) ∧
      InTime Machine.Before s.machine (s.momentsOf n contents) s'.machine := by
  have nothing : (∀ m ∈ ([] : List Machine), Proper m) ∧
      InTime Machine.Before s.machine [] s'.machine := ⟨by simp, .nil, by simp⟩
  cases contents with
  | error error => exact nothing
  | ok source =>
    simp only [momentsOf]
    split
    · rename_i valid
      have spare := allSpare_ofSource valid
      refine ⟨declared_pace.program_moments_ready proper spare n, ?_⟩
      rw [machine_run ran, if_pos valid]
      exact (declared_pace.program_moments_inTime proper spare n).2
    · exact nothing

/-- All that the machine of a session has gone through is in order, and follows in time. -/
theorem Passed.inTime (passed : s.Passed past) : Proper s.machine ∧ (∀ m ∈ past, Proper m) ∧
    past.Pairwise Machine.Before ∧ ∀ m ∈ past, m.Before s.machine := by
  induction passed with
  | start output clock =>
    have proper := proper_start output clock
    exact ⟨proper, by simpa using proper, List.pairwise_singleton _ _,
      by simpa using declared_pace.now _⟩
  | runFile n path contents status _ ran ih =>
    obtain ⟨proper, all, ordered, upToNow⟩ := ih
    obtain ⟨proper', step⟩ := proper_step proper (.runFile n path contents status ran)
    obtain ⟨all', inTime⟩ := momentsOf_inTime proper ran
    exact ⟨proper', by simpa [or_imp, forall_and] using ⟨all, all'⟩,
      InTime.appended ordered upToNow step inTime⟩
  | say text _ ih =>
    obtain ⟨proper, all, ordered, upToNow⟩ := ih
    obtain ⟨proper', step⟩ := proper_step proper (.say text)
    have last : InTime Machine.Before _ [_] _ :=
      ⟨List.pairwise_singleton _ _, by simpa using ⟨step, declared_pace.now _⟩⟩
    exact ⟨proper', by simpa [or_imp, forall_and] using ⟨all, proper'⟩,
      InTime.appended ordered upToNow step last⟩
  | emitter emitter _ ih => exact ih

end Session

namespace Run

/-- Declarations neither leak nor disappear. In every state that a session reaches and for every
task begun in the course of a valid program that is run in it, however the task ends: scopes stay
inside the scopes around them and keep their names; a declaration that succeeds adds its own name to
the current scope and to no other; nothing else adds a name to a scope that was there before. At
all times of a session, every scope lies in the global one, and a name that can be looked up from a
scope can be looked up from it at all later times. -/
theorem declarations_stay :
    (∀ s : Session, s.Reached → ∀ source, (Parse.ofSource source).isValid = true →
      ∀ n, ∀ begun ∈ course n (Parse.ofSource source).statements s.machine,
        begun.2.machine.heap.Keeps (begun.2.left begun.1).heap ∧ begun.2.BindsOwn begun.1) ∧
    (∀ s : Session, s.Reached → ∃ past, s.Passed past) ∧
    ∀ (s : Session) past, s.Passed past → ∀ source, (Parse.ofSource source).isValid = true →
      ∀ n, let times := past ++ moments n (Parse.ofSource source).statements s.machine
        (∀ m ∈ times, ∀ id < m.heap.frames.size, m.heap.EndsIn m.globals id) ∧
        times.Pairwise fun m m' => m.Before m' ∧
          ∀ id name, (m.heap.lookup? id name).isSome → (m'.heap.lookup? id name).isSome := by
  refine ⟨?_, fun _ => Session.Reached.passed, ?_⟩
  · intro s reached source valid n begun member
    obtain ⟨past, passed⟩ := reached.passed
    obtain ⟨proper, fit⟩ := declared_pace.program_course_ready passed.inTime.1
      (allSpare_ofSource valid) n begun member
    exact ⟨keeps_of_ready proper fit begun.1, bindsOwn_of_ready proper fit begun.1⟩
  · intro s past passed source valid n
    obtain ⟨proper, all, ordered, upToNow⟩ := passed.inTime
    have spare := allSpare_ofSource valid
    obtain ⟨whole, inTime⟩ := declared_pace.program_moments_inTime proper spare n
    have ready := declared_pace.program_moments_ready proper spare n
    refine ⟨?_, ?_⟩
    · intro m member id there
      rcases List.mem_append.mp member with before | now
      · exact (all m before).machine.endsIn there
      · exact (ready m now).machine.endsIn there
    · apply (InTime.appended ordered upToNow whole inTime).1.imp
      intro m m' before
      exact ⟨before, fun id name => before.keeps.lookup?⟩

/-- Declarations in a function and in a block inside it, with a fault after them. -/
def shadowing : String :=
  "fun f(a) { var y = a; { var a = y; y / 0; } } f(1);"

/-- All three declarations are made before the fault. -/
theorem declarations_stay_shadowing :
    ∃ s : Session, (Session.start .unlimited fun _ => 0).run 10 "" shadowing =
        some (.runtimeError, s) ∧
      ((course 10 (Parse.ofSource shadowing).statements
        (Session.start .unlimited fun _ => 0).machine).filterMap fun begun =>
          begun.2.task.declared?.map Token.lexeme) = ["f", "y", "a"] ∧
      (∀ begun ∈ course 10 (Parse.ofSource shadowing).statements
          (Session.start .unlimited fun _ => 0).machine, begun.2.BindsOwn begun.1) ∧
      (∀ begun ∈ course 10 (Parse.ofSource shadowing).statements s.machine,
        begun.2.BindsOwn begun.1) ∧
      ∃ past, s.Passed past ∧
        ∀ m ∈ past, ∀ id < m.heap.frames.size, m.heap.EndsIn m.globals id := by
  obtain ⟨failed, valid, declared⟩ :
      ((Session.start .unlimited fun _ => 0).run 10 "" shadowing).map Prod.fst =
        some .runtimeError ∧
      (Parse.ofSource shadowing).isValid = true ∧
      ((course 10 (Parse.ofSource shadowing).statements
        (Session.start .unlimited fun _ => 0).machine).filterMap fun begun =>
          begun.2.task.declared?.map Token.lexeme) = ["f", "y", "a"] := by
    decide +kernel
  obtain ⟨⟨status, s⟩, ran, rfl⟩ := Option.map_eq_some_iff.mp failed
  have reached : s.Reached := .step (.start _ _) (.run ran)
  obtain ⟨past, passed⟩ := declarations_stay.2.1 s reached
  refine ⟨s, ran, declared, ?_, ?_, past, passed, ?_⟩
  · intro begun member
    exact (declarations_stay.1 _ (.start _ _) shadowing valid 10 begun member).2
  · intro begun member
    exact (declarations_stay.1 s reached shadowing valid 10 begun member).2
  · intro m member
    exact (declarations_stay.2.2 s past passed shadowing valid 10).1 m (by simp [member])

end Run

end SoftScript
