import SoftScript.Proofs.Run.Law

/-! The course of a run. To evaluate an expression or to execute a statement is a task, and most
tasks begin others and wait for their end. All that are begun in the course of a task, and the
machines at the beginning and at the end of each, are listed here in the order of time. -/
namespace SoftScript

inductive Task where
  | value (e : Expr)
  | flow (s : Stmt)

/-- A task and the machine it begins with. -/
structure Stage where
  task : Task
  machine : Machine

namespace Run

variable {α β : Type}

/-- What goes on once a run has ended with a result. -/
def thereafter (ended : EStateM.Result Halt Machine α) (next : α → Machine → List β) : List β :=
  match ended with
  | .ok a m => next a m
  | .error _ _ => []

/-- Expressions in turn, up to one that fails. -/
def valueStages (n : Nat) : List Expr → Machine → List Stage
  | [], _ => []
  | e :: rest, m => ⟨.value e, m⟩ ::
      thereafter (evaluate n e m) fun _ m => valueStages n rest m

/-- Statements in turn, up to one that fails or returns. -/
def flowStages (n : Nat) : List Stmt → Machine → List Stage
  | [], _ => []
  | s :: rest, m => ⟨.flow s, m⟩ :: thereafter (execute n s m) fun flow m =>
      match flow with
      | .completed => flowStages n rest m
      | .returned _ => []

/-- The parts of an object literal: initializers, and statements that declare no member. -/
def memberStages (n : Nat) : List Stmt → Bindings → Machine → List Stage
  | [], _, _ => []
  | .var name initializer :: rest, members, m =>
    valueStages n initializer.toList m ++
      thereafter (initial (evaluate n) initializer m) fun v m =>
        thereafter (addMember members name (v.named name) m) (memberStages n rest)
  | .function name params body :: rest, members, m =>
    thereafter (bindFunction ⟨name, params, body⟩ m) fun v m =>
      thereafter (addMember members name v m) (memberStages n rest)
  | other :: rest, members, m => ⟨.flow other, m⟩ ::
      thereafter (execute n other m) fun _ m => memberStages n rest members m

/-- The body of a declared function, in the scope of the call. -/
def bodyStages (n : Nat) (callee : Value) (args : List Value) (m : Machine) : List Stage :=
  match callee.payload with
  | .function id =>
    match m.heap.functions[id]? with
    | none => []
    | some callable =>
      if args.length ≠ callable.arity then []
      else match callable with
        | .builtin _ => []
        | .user declaration closure =>
          if maxCallDepth ≤ m.depth then []
          else thereafter (bindParameters declaration.params args [] m) fun bound m =>
            flowStages n declaration.body (m.calling ⟨bound, some closure⟩)
  | _ => []

/-- A condition and a body by turns. -/
def roundStages (n : Nat) (condition : Expr) (body : Stmt) : Nat → Machine → List Stage
  | 0, _ => []
  | rounds + 1, m => ⟨.value condition, m⟩ :: thereafter (evaluate n condition m) fun v m =>
      if v.payload.isTruthy then ⟨.flow body, m⟩ :: thereafter (execute n body m) fun flow m =>
        match flow with
        | .completed => roundStages n condition body rounds m
        | .returned _ => []
      else []

/-- The statements of a program in turn, up to one that fails. -/
def programStages (n : Nat) : List Stmt → Machine → List Stage
  | [], _ => []
  | s :: rest, m => ⟨.flow s, m⟩ ::
      thereafter (execute n s m) fun _ m => programStages n rest m

@[simp] theorem thereafter_nil (ended : EStateM.Result Halt Machine α) :
    thereafter ended (fun _ _ => ([] : List β)) = [] := by
  cases ended <;> rfl

theorem valueStages_one (n : Nat) (e : Expr) (m : Machine) :
    valueStages n [e] m = [⟨.value e, m⟩] := by
  simp [valueStages]

theorem valueStages_two (n : Nat) (a b : Expr) (m : Machine) : valueStages n [a, b] m =
    [⟨.value a, m⟩] ++ thereafter (evaluate n a m) fun _ m => [⟨.value b, m⟩] := by
  simp [valueStages]

end Run

open Run

namespace Stage

/-- The machine at the end, however that comes. -/
def left (n : Nat) (st : Stage) : Machine :=
  match st.task with
  | .value e => after (evaluate n e st.machine)
  | .flow s => after (execute n s st.machine)

/-- The tasks that a task begins itself. They may go one step less far. -/
def parts (n : Nat) : Stage → List Stage
  | ⟨.value (.assign (.access left _ _) e), m⟩ => valueStages n [e, left] m
  | ⟨.value (.assign _ e), m⟩ => valueStages n [e] m
  | ⟨.value (.binary left _ right), m⟩ => valueStages n [left, right] m
  | ⟨.value (.index left _ position), m⟩ => valueStages n [left, position] m
  | ⟨.value (.access left _ _), m⟩ => valueStages n [left] m
  | ⟨.value (.call callee _ args), m⟩ =>
    ⟨.value callee, m⟩ :: thereafter (evaluate n callee m) fun callee m =>
      valueStages n args m ++ thereafter (args.mapM (evaluate n) m) (bodyStages n callee)
  | ⟨.value (.grouping inner), m⟩ => valueStages n [inner] m
  | ⟨.value (.literal _ _), _⟩ => []
  | ⟨.value (.list _ elements), m⟩ => valueStages n elements m
  | ⟨.value (.unary _ operand), m⟩ => valueStages n [operand] m
  | ⟨.value (.variable _), _⟩ => []
  | ⟨.value (.object _ declarations), m⟩ => memberStages n declarations [] m
  | ⟨.flow (.block body), m⟩ => flowStages n body (m.entering ⟨[], some m.scope⟩)
  | ⟨.flow (.expression e), m⟩ => valueStages n [e] m
  | ⟨.flow (.function _ _ _), _⟩ => []
  | ⟨.flow (.branch condition thenBranch elseBranch), m⟩ =>
    ⟨.value condition, m⟩ :: thereafter (evaluate n condition m) fun v m =>
      if v.payload.isTruthy then [⟨.flow thenBranch, m⟩]
      else elseBranch.toList.map (⟨.flow ·, m⟩)
  | ⟨.flow (.returns _ e), m⟩ => valueStages n e.toList m
  | ⟨.flow (.var _ initializer), m⟩ => valueStages n initializer.toList m
  | ⟨.flow (.loop condition body), m⟩ => roundStages n condition body n m

/-- A task and all that are begun in its course, each with the bound it is given. -/
def course : Nat → Stage → List (Nat × Stage)
  | 0, st => [(0, st)]
  | n + 1, st => (n + 1, st) :: (st.parts n).flatMap (course n)

/-- The machines at the beginning and at the end of each of them. -/
def moments : Nat → Stage → List Machine
  | 0, st => [st.machine, st.left 0]
  | n + 1, st => st.machine :: (st.parts n).flatMap (moments n) ++ [st.left (n + 1)]

end Stage

/-- All tasks begun in the course of a program, each with the bound it is given. -/
def Run.course (n : Nat) (p : List Stmt) (m : Machine) : List (Nat × Stage) :=
  (programStages n p m).flatMap (Stage.course n)

/-- The machines at the beginning and at the end of a program and of each task in its course. -/
def Run.moments (n : Nat) (p : List Stmt) (m : Machine) : List Machine :=
  m :: (programStages n p m).flatMap (Stage.moments n) ++ [after (interpret n p m)]

namespace Run

variable {α β : Type} {f : Expr → Bool} {g : Bool → Stmt → Bool}
  {Q : Bool → Machine → Machine → Prop} {I : Machine → Prop} {R : Machine → Machine → Prop}
  {m m' m'' : Machine} {n : Nat}

/-- A law seen in the course of a run: machines that meet a condition are left as such machines, and
whatever comes later in time is related to them, in another scope and at another depth too. -/
structure Pace (f : Expr → Bool) (g : Bool → Stmt → Bool) (Q : Bool → Machine → Machine → Prop)
    (I : Machine → Prop) (R : Machine → Machine → Prop) : Prop extends Law f g Q where
  now : ∀ m, R m m
  later : ∀ {m m' m''}, R m m' → R m' m'' → R m m''
  step : ∀ {d m m'}, I m → Q d m m' → I m' ∧ R m m'
  leave : ∀ (m : Machine) scope depth, R m { m with scope, depth }
  enter : ∀ {m : Machine}, I m → I (m.entering ⟨[], some m.scope⟩) ∧
    R m (m.entering ⟨[], some m.scope⟩)
  begin : ∀ {m : Machine} {id : FunctionId} {declaration closure} bound, I m →
    m.heap.functions[id]? = some (.user declaration closure) → m.depth < maxCallDepth →
    I (m.calling ⟨bound, some closure⟩) ∧ R m (m.calling ⟨bound, some closure⟩)

/-- The machine meets the condition and the task those on its nodes. -/
structure Ready (f : Expr → Bool) (g : Bool → Stmt → Bool) (I : Machine → Prop) (m : Machine) :
    Prop where
  machine : I m
  declares : m.heap.Declares f g

def Fit (f : Expr → Bool) (g : Bool → Stmt → Bool) : Task → Prop
  | .value e => ∃ inside, e.upholds f g inside = true
  | .flow s => ∃ inside, s.upholds f g inside = true

/-- Stages that lie one after the other between two machines. -/
def Between (R : Machine → Machine → Prop) (n : Nat) : Machine → List Stage → Machine → Prop
  | m, [], m' => R m m'
  | m, st :: rest, m' => R m st.machine ∧ Between R n (st.left n) rest m'

/-- A list of machines in the order of time, all of them between two others. -/
def InTime (R : Machine → Machine → Prop) (m : Machine) (L : List Machine) (m' : Machine) : Prop :=
  L.Pairwise R ∧ ∀ x ∈ L, R m x ∧ R x m'

/-- The stages in the course of a run: all are ready to begin, and they lie between its beginning
and its end. -/
def Passes (f : Expr → Bool) (g : Bool → Stmt → Bool) (I : Machine → Prop)
    (R : Machine → Machine → Prop) (n : Nat) (run : Run α) (m : Machine) (stages : List Stage) :
    Prop :=
  Ready f g I m → (∀ st ∈ stages, Ready f g I st.machine ∧ Fit f g st.task) ∧
    Between R n m stages (after (run m))

theorem passes_get {next : Machine → Run α} {L : List Stage}
    (later : Passes f g I R n (next m) m L) : Passes f g I R n (get >>= next) m L :=
  later

theorem passes_heap {next : Heap → Run α} {L : List Stage}
    (later : Passes f g I R n (next m.heap) m L) : Passes f g I R n (heap >>= next) m L :=
  later

namespace Pace

variable (pace : Pace f g Q I R)

include pace

theorem between_of_earlier {L : List Stage} (early : R m m') (h : Between R n m' L m'') :
    Between R n m L m'' := by
  cases L with
  | nil => exact pace.later early h
  | cons st rest => exact ⟨pace.later early h.1, h.2⟩

theorem between_append {L L' : List Stage} (first : Between R n m L m')
    (second : Between R n m' L' m'') : Between R n m (L ++ L') m'' := by
  induction L generalizing m with
  | nil => exact pace.between_of_earlier first second
  | cons st rest ih => exact ⟨first.1, ih first.2⟩

theorem between_of_later {L : List Stage} (h : Between R n m L m') (late : R m' m'') :
    Between R n m L m'' := by
  have last : Between R n m' [] m'' := late
  simpa using pace.between_append h last

/-- A run that obeys the law leaves a machine that is ready again, at a later time. -/
theorem ready_after {d : Bool} {run : Run α} (obeys : Obeys f g Q d run m) (ready : Ready f g I m) :
    Ready f g I (after (run m)) ∧ R m (after (run m)) := by
  obtain ⟨declares, kept⟩ := obeys ready.declares
  obtain ⟨machine, later⟩ := pace.step ready.machine kept
  exact ⟨⟨machine, declares⟩, later⟩

/-- A run without stages. -/
theorem passes_nil {d : Bool} {run : Run α} (obeys : Obeys f g Q d run m) :
    Passes f g I R n run m [] := by
  intro ready
  exact ⟨by simp, (pace.ready_after obeys ready).2⟩

theorem passes_value (e : Expr) {inside : Bool} (upheld : e.upholds f g inside = true)
    (m : Machine) : Passes f g I R n (evaluate n e) m [⟨.value e, m⟩] := by
  intro ready
  refine ⟨?_, pace.now m, pace.now _⟩
  simpa using ⟨ready, inside, upheld⟩

theorem passes_flow (s : Stmt) {inside : Bool} (upheld : s.upholds f g inside = true)
    (m : Machine) : Passes f g I R n (execute n s) m [⟨.flow s, m⟩] := by
  intro ready
  refine ⟨?_, pace.now m, pace.now _⟩
  simpa using ⟨ready, inside, upheld⟩

theorem passes_bind {d : Bool} {x : Run α} {next : α → Run β} {L : List Stage}
    {L' : α → Machine → List Stage} (obeys : Obeys f g Q d x m) (first : Passes f g I R n x m L)
    (second : ∀ a m', x m = .ok a m' → Passes f g I R n (next a) m' (L' a m')) :
    Passes f g I R n (x >>= next) m (L ++ thereafter (x m) L') := by
  intro ready
  obtain ⟨all, between⟩ := first ready
  obtain ⟨ready', _⟩ := pace.ready_after obeys ready
  rw [bind_apply]
  cases ran : x m with
  | error e m' =>
    rw [ran] at between
    simpa [thereafter] using ⟨all, between⟩
  | ok a m' =>
    rw [ran] at between ready'
    obtain ⟨all', between'⟩ := second a m' ran ready'
    refine ⟨?_, pace.between_append between between'⟩
    intro st member
    rcases List.mem_append.mp member with early | late
    · exact all st early
    · exact all' st late

/-- What follows the last stage. -/
theorem passes_last {d : Bool} {x : Run α} {next : α → Run β} {L : List Stage}
    (obeys : Obeys f g Q d x m) (first : Passes f g I R n x m L)
    (second : ∀ a m', x m = .ok a m' → Obeys f g Q d (next a) m') :
    Passes f g I R n (x >>= next) m L := by
  have passes : Passes f g I R n (x >>= next) m (L ++ thereafter (x m) fun _ _ => []) :=
    pace.passes_bind obeys first fun a m' ran => pace.passes_nil (second a m' ran)
  rwa [thereafter_nil, List.append_nil] at passes

/-- What goes before the first stage. -/
theorem passes_first {d : Bool} {x : Run α} {next : α → Run β} {L' : α → Machine → List Stage}
    (obeys : Obeys f g Q d x m)
    (second : ∀ a m', x m = .ok a m' → Passes f g I R n (next a) m' (L' a m')) :
    Passes f g I R n (x >>= next) m (thereafter (x m) L') :=
  pace.passes_bind obeys (pace.passes_nil obeys) second

/-! The parts of each task. -/

theorem obeys_value (e : Expr) {inside : Bool} (upheld : e.upholds f g inside = true)
    (m : Machine) : Obeys f g Q false (evaluate n e) m :=
  (pace.obeys_all n).1 e inside m upheld

theorem obeys_flow (s : Stmt) {inside : Bool} (upheld : s.upholds f g inside = true)
    (m : Machine) : Obeys f g Q true (execute n s) m := by
  have kept := (pace.obeys_all n).2 s inside m upheld
  cases declares : s.isDeclaration with
  | true => exact declares ▸ kept
  | false => exact pace.relaxed (declares ▸ kept)

theorem passes_mapM {es : List Expr} {inside : Bool}
    (upheld : Expr.allUphold f g inside es = true) (m : Machine) :
    Passes f g I R n (es.mapM (evaluate n)) m (valueStages n es m) := by
  induction es generalizing m with
  | nil => exact pace.passes_nil (d := false) (pace.pure _)
  | cons e rest ih =>
    simp only [Expr.allUphold, Bool.and_eq_true] at upheld
    rw [List.mapM_cons]
    apply pace.passes_bind (pace.obeys_value e upheld.1 m) (pace.passes_value e upheld.1 m)
    intro v m' _
    exact pace.passes_last (pace.obeys_mapM (pace.obeys_all n).1 upheld.2) (ih upheld.2 m')
      fun _ _ _ => pace.pure _

theorem passes_statements {p : List Stmt} {inside : Bool}
    (upheld : Stmt.allUphold f g inside p = true) (m : Machine) :
    Passes f g I R n (statements (execute n) p) m (flowStages n p m) := by
  induction p generalizing m with
  | nil => exact pace.passes_nil (d := true) (pace.pure _)
  | cons s rest ih =>
    simp only [Stmt.allUphold, Bool.and_eq_true] at upheld
    apply pace.passes_bind (pace.obeys_flow s upheld.1 m) (pace.passes_flow s upheld.1 m)
    intro flow m' _
    cases flow with
    | completed => exact ih upheld.2 m'
    | returned v => exact pace.passes_nil (d := true) (pace.pure _)

theorem passes_program {p : List Stmt} {inside : Bool}
    (upheld : Stmt.allUphold f g inside p = true) (m : Machine) :
    Passes f g I R n (interpret n p) m (programStages n p m) := by
  induction p generalizing m with
  | nil => exact pace.passes_nil (d := true) (pace.pure _)
  | cons s rest ih =>
    simp only [Stmt.allUphold, Bool.and_eq_true] at upheld
    apply pace.passes_bind (pace.obeys_flow s upheld.1 m) (pace.passes_flow s upheld.1 m)
    intro _ m' _
    exact ih upheld.2 m'

theorem passes_initial (initializer : Option Expr)
    {inside : Bool} (upheld : ∀ e ∈ initializer, e.upholds f g inside = true) (m : Machine) :
    Passes f g I R n (initial (evaluate n) initializer) m
      (valueStages n initializer.toList m) := by
  cases initializer with
  | none => exact pace.passes_nil (d := false) (pace.pure _)
  | some e =>
    rw [Option.toList_some, valueStages_one]
    exact pace.passes_value e (upheld e rfl) m

theorem obeys_initial (initializer : Option Expr)
    {inside : Bool} (upheld : ∀ e ∈ initializer, e.upholds f g inside = true) (m : Machine) :
    Obeys f g Q false (initial (evaluate n) initializer) m := by
  cases initializer with
  | none => exact pace.pure _
  | some e => exact pace.obeys_value e (upheld e rfl) m

theorem passes_objectMembers {declarations : List Stmt} {inside : Bool}
    (upheld : Stmt.allUphold f g inside declarations = true) (members : Bindings) (m : Machine) :
    Passes f g I R n (objectMembers (evaluate n) (execute n) declarations members) m
      (memberStages n declarations members m) := by
  induction declarations generalizing m members with
  | nil => exact pace.passes_nil (d := false) (pace.pure _)
  | cons declaration rest ih =>
    simp only [Stmt.allUphold, Bool.and_eq_true] at upheld
    have onward (name : Token) (value : Value) (m' : Machine) : Passes f g I R n (do
        objectMembers (evaluate n) (execute n) rest (← addMember members name value)) m'
          (thereafter (addMember members name value m') (memberStages n rest)) :=
      pace.passes_first (pace.obeys_addMember _ _ _) fun members' m'' _ => ih upheld.2 members' m''
    cases declaration with
    | var name initializer =>
      have first : ∀ e ∈ initializer, e.upholds f g inside = true := by
        rintro e ⟨⟩
        simp only [Stmt.upholds, Bool.and_eq_true] at upheld
        exact upheld.1.2
      exact pace.passes_bind (pace.obeys_initial initializer first m)
        (pace.passes_initial initializer first m) fun v m' _ => onward name (v.named name) m'
    | function name params body =>
      simp only [Stmt.upholds, Bool.and_eq_true] at upheld
      exact pace.passes_first (pace.obeys_bindFunction upheld.1.2) fun v m' _ => onward name v m'
    | block | expression | branch | returns | loop =>
      exact pace.passes_bind (pace.obeys_flow _ upheld.1 m) (pace.passes_flow _ upheld.1 m)
        fun _ m' _ => ih upheld.2 members m'

/-- Statements in a new scope. -/
theorem passes_block {run : Run α} {L : List Stage}
    (inner : Passes f g I R n run (m.entering ⟨[], some m.scope⟩) L) :
    Passes f g I R n (do
      let frame ← newFrame ⟨[], some (← get).scope⟩
      inScope frame run) m L := by
  intro ready
  obtain ⟨entered, early⟩ := pace.enter ready.machine
  obtain ⟨all, between⟩ := inner ⟨entered, ready.declares⟩
  have left := after_inScope (m := { m with heap := (m.heap.newFrame ⟨[], some m.scope⟩).2 })
    m.heap.frames.size run
  have late := pace.leave (after (run (m.entering ⟨[], some m.scope⟩))) m.scope
    (after (run (m.entering ⟨[], some m.scope⟩))).depth
  exact ⟨all, pace.between_of_earlier early (left ▸ pace.between_of_later between late)⟩

theorem passes_called {run : Run α} {next : α → Run β} {id : FunctionId} {closure : FrameId}
    {bound : Bindings} {L : List Stage}
    (found : m.heap.functions[id]? = some (.user declaration closure))
    (shallow : m.depth < maxCallDepth)
    (obeys : Obeys f g Q true run (m.calling ⟨bound, some closure⟩))
    (inner : Passes f g I R n run (m.calling ⟨bound, some closure⟩) L)
    (later : ∀ a m', Obeys f g Q false (next a) m') :
    Passes f g I R n (do
      let frame ← newFrame ⟨bound, some closure⟩
      next (← deeper (inScope frame run))) m L := by
  have called : Passes f g I R n (do
      let frame ← newFrame ⟨bound, some closure⟩
      deeper (inScope frame run)) m L := by
    intro ready
    obtain ⟨entered, early⟩ := pace.begin bound ready.machine found shallow
    obtain ⟨all, between⟩ := inner ⟨entered, ready.declares⟩
    have left := after_deeper (m := { m with heap := (m.heap.newFrame ⟨bound, some closure⟩).2 })
      (inScope m.heap.frames.size run)
    rw [after_inScope] at left
    have late := pace.leave (after (run (m.calling ⟨bound, some closure⟩))) m.scope
      ((after (run (m.calling ⟨bound, some closure⟩))).depth - 1)
    exact ⟨all, pace.between_of_earlier early (left ▸ pace.between_of_later between late)⟩
  have entered : Obeys f g Q false
      (newFrame ⟨bound, some closure⟩ >>= fun frame => deeper (inScope frame run) >>= pure) m :=
    pace.obeys_called found obeys fun _ _ => pace.pure _
  rw [← bind_assoc, bind_pure] at entered
  rw [← bind_assoc]
  exact pace.passes_last entered called fun a m' _ => later a m'

theorem passes_callFunction {id : FunctionId} {declaration : FunctionDecl} {closure : FrameId}
    (found : m.heap.functions[id]? = some (.user declaration closure)) (args : List Value)
    (paren : Token) :
    Passes f g I R n (callFunction (execute n) declaration closure args paren) m
      (if maxCallDepth ≤ m.depth then []
      else thereafter (bindParameters declaration.params args [] m) fun bound m =>
        flowStages n declaration.body (m.calling ⟨bound, some closure⟩)) := by
  apply passes_get
  by_cases deep : maxCallDepth ≤ m.depth
  · rw [if_pos deep, if_pos deep]
    exact pace.passes_nil (d := false) (pace.fail _ _)
  · rw [if_neg deep, if_neg deep]
    intro ready
    have upheld := ready.declares id declaration closure found
    apply pace.passes_first (pace.obeys_bindParameters _ _ _) ?_ ready
    intro bound m' ran
    rw [machine_bindParameters ran]
    apply pace.passes_called found (by omega)
      (pace.obeys_statements (pace.obeys_all n).2 upheld) (pace.passes_statements upheld _)
    intro flow m''
    cases flow with
    | completed => exact pace.pure _
    | returned v => exact pace.pure _

theorem passes_call (callee : Value) (args : List Value) (paren : Token) (m : Machine) :
    Passes f g I R n (Run.call (execute n) callee args paren) m (bodyStages n callee args m) := by
  have refused (cause : Fault.Cause) : Passes f g I R n (fail cause paren : Run Value) m [] :=
    pace.passes_nil (d := false) (pace.fail _ _)
  unfold Run.call bodyStages
  cases callee.payload with
  | function id =>
    apply passes_heap
    dsimp only
    cases found : m.heap.functions[id]? with
    | none => exact refused _
    | some callable =>
      dsimp only
      by_cases other : args.length ≠ callable.arity
      · rw [if_pos other, if_pos other]
        exact refused _
      · rw [if_neg other, if_neg other]
        cases callable with
        | builtin native => exact pace.passes_nil (pace.obeys_callNative native args paren)
        | user declaration closure => exact pace.passes_callFunction found args paren
  | int | bool | string | list | object | null => exact refused _

theorem passes_repeatWhile {condition : Expr} {body : Stmt} {inside : Bool}
    (value : condition.upholds f g inside = true) (flow : body.upholds f g inside = true)
    (rounds : Nat) (m : Machine) :
    Passes f g I R n (repeatWhile (evaluate n condition) (execute n body) rounds) m
      (roundStages n condition body rounds m) := by
  induction rounds generalizing m with
  | zero => exact pace.passes_nil (d := true) pace.exhausted
  | succ rounds ih =>
    apply pace.passes_bind (pace.obeys_value condition value m)
      (pace.passes_value condition value m)
    intro v m' _
    split
    · apply pace.passes_bind (pace.obeys_flow body flow m') (pace.passes_flow body flow m')
      intro flow m'' _
      cases flow with
      | completed => exact ih m''
      | returned v => exact pace.passes_nil (d := true) (pace.pure _)
    · exact pace.passes_nil (d := true) (pace.pure _)

theorem passes_evaluate (e : Expr) {inside : Bool} (upheld : e.upholds f g inside = true)
    (m : Machine) : Passes f g I R n (evaluate (n + 1) e) m (Stage.parts n ⟨.value e, m⟩) := by
  have one (e : Expr) (upheld : e.upholds f g inside = true) {next : Value → Run Value}
      (later : ∀ v m', Obeys f g Q false (next v) m') :
      Passes f g I R n (evaluate n e >>= next) m (valueStages n [e] m) := by
    rw [valueStages_one]
    exact pace.passes_last (pace.obeys_value e upheld m) (pace.passes_value e upheld m)
      fun v m' _ => later v m'
  have two (a b : Expr) (first : a.upholds f g inside = true) (second : b.upholds f g inside = true)
      {next : Value → Value → Run Value} (later : ∀ v w m', Obeys f g Q false (next v w) m') :
      Passes f g I R n (do next (← evaluate n a) (← evaluate n b)) m (valueStages n [a, b] m) := by
    rw [valueStages_two]
    apply pace.passes_bind (pace.obeys_value a first m) (pace.passes_value a first m)
    intro v m' _
    exact pace.passes_last (pace.obeys_value b second m') (pace.passes_value b second m')
      fun w m'' _ => later v w m''
  cases e with
  | assign target e =>
    simp only [Expr.upholds, Bool.and_eq_true] at upheld
    cases target with
    | «variable» name =>
      exact one e upheld.2 fun v m' => pace.answer _ (pace.obeys_assign name v)
    | access left dot member =>
      simp only [Expr.upholds, Bool.and_eq_true] at upheld
      exact two e left upheld.2 upheld.1.2.2
        fun v object m' => pace.answer _ (pace.obeys_assignMember object dot member v)
    | assign | binary | index | call | grouping | literal | list | unary | object =>
      exact one e upheld.2 fun v m' => pace.answer v (pace.fail (α := PUnit) _ _)
  | binary left op right =>
    simp only [Expr.upholds, Bool.and_eq_true] at upheld
    exact two left right upheld.1.2 upheld.2 fun a b m' => pace.obeys_binary op a b
  | index left bracket position =>
    simp only [Expr.upholds, Bool.and_eq_true] at upheld
    exact two left position upheld.1.2 upheld.2 fun a b m' => pace.obeys_indexAccess a bracket b
  | access left dot member =>
    simp only [Expr.upholds, Bool.and_eq_true] at upheld
    exact one left upheld.2 fun v m' => pace.obeys_dotAccess v dot member
  | call callee paren args =>
    simp only [Expr.upholds, Bool.and_eq_true] at upheld
    apply pace.passes_bind (pace.obeys_value callee upheld.1.2 m)
      (pace.passes_value callee upheld.1.2 m)
    intro function m' _
    apply pace.passes_bind (pace.obeys_mapM (pace.obeys_all n).1 upheld.2)
      (pace.passes_mapM upheld.2 m')
    intro vs m'' _
    exact pace.passes_call function vs paren m''
  | grouping inner =>
    simp only [Expr.upholds, Bool.and_eq_true] at upheld
    rw [Stage.parts, valueStages_one]
    exact pace.passes_value inner upheld.2 m
  | literal => exact pace.passes_nil (d := false) (pace.pure _)
  | list _ elements =>
    simp only [Expr.upholds, Bool.and_eq_true] at upheld
    exact pace.passes_last (pace.obeys_mapM (pace.obeys_all n).1 upheld.2)
      (pace.passes_mapM upheld.2 m) fun _ _ _ => pace.obeys_newList _
  | unary op operand =>
    simp only [Expr.upholds, Bool.and_eq_true] at upheld
    exact one operand upheld.2 fun v m' => pace.obeys_unary op v
  | «variable» name => exact pace.passes_nil (pace.obeys_lookup name)
  | object _ declarations =>
    simp only [Expr.upholds, Bool.and_eq_true] at upheld
    exact pace.passes_last (pace.obeys_objectMembers (pace.obeys_all n).1 (pace.obeys_all n).2
      upheld.2 []) (pace.passes_objectMembers upheld.2 [] m) fun _ _ _ => pace.obeys_newObject _

theorem passes_execute (s : Stmt) {inside : Bool} (upheld : s.upholds f g inside = true)
    (m : Machine) : Passes f g I R n (execute (n + 1) s) m (Stage.parts n ⟨.flow s, m⟩) := by
  cases s with
  | block body =>
    simp only [Stmt.upholds, Bool.and_eq_true] at upheld
    exact pace.passes_block (pace.passes_statements upheld.2 _)
  | expression e =>
    simp only [Stmt.upholds, Bool.and_eq_true] at upheld
    rw [Stage.parts, valueStages_one]
    exact pace.passes_last (pace.obeys_value e upheld.2 m) (pace.passes_value e upheld.2 m)
      fun _ _ _ => pace.pure _
  | function => exact pace.passes_nil ((pace.obeys_all (n + 1)).2 _ inside m upheld)
  | branch condition thenBranch elseBranch =>
    have node : condition.upholds f g inside = true ∧ thenBranch.upholds f g inside = true ∧
        ∀ b ∈ elseBranch, b.upholds f g inside = true := by
      cases elseBranch <;> simp_all [Stmt.upholds]
    apply pace.passes_bind (pace.obeys_value condition node.1 m)
      (pace.passes_value condition node.1 m)
    intro v m' _
    split
    · exact pace.passes_flow thenBranch node.2.1 m'
    · cases elseBranch with
      | none => exact pace.passes_nil (d := true) (pace.pure _)
      | some elseBranch => exact pace.passes_flow elseBranch (node.2.2 _ rfl) m'
  | returns _ e =>
    have first : ∀ e' ∈ e, e'.upholds f g inside = true := by
      rintro e' ⟨⟩
      simp only [Stmt.upholds, Bool.and_eq_true] at upheld
      exact upheld.2
    exact pace.passes_last (pace.obeys_initial e first m) (pace.passes_initial e first m)
      fun _ _ _ => pace.pure _
  | var name initializer =>
    have first : ∀ e ∈ initializer, e.upholds f g inside = true := by
      rintro e ⟨⟩
      simp only [Stmt.upholds, Bool.and_eq_true] at upheld
      exact upheld.2
    exact pace.passes_last (d := true) (pace.relaxed (pace.obeys_initial initializer first m))
      (pace.passes_initial initializer first m)
      fun v m' _ => pace.answer _ (pace.obeys_define name (v.named name))
  | loop condition body =>
    simp only [Stmt.upholds, Bool.and_eq_true] at upheld
    exact pace.passes_repeatWhile upheld.1.2 upheld.2 n m

/-- The parts of a task that is ready are ready too, and lie between its beginning and its end. -/
theorem parts_ready {st : Stage} (ready : Ready f g I st.machine) (fit : Fit f g st.task) (n : Nat) :
    (∀ part ∈ st.parts n, Ready f g I part.machine ∧ Fit f g part.task) ∧
      Between R n st.machine (st.parts n) (st.left (n + 1)) := by
  obtain ⟨task, m⟩ := st
  cases task with
  | value e =>
    obtain ⟨inside, upheld⟩ := fit
    exact pace.passes_evaluate e upheld m ready
  | flow s =>
    obtain ⟨inside, upheld⟩ := fit
    exact pace.passes_execute s upheld m ready

/-! The whole course. -/

theorem course_ready {st : Stage} (ready : Ready f g I st.machine) (fit : Fit f g st.task) (n : Nat) :
    ∀ begun ∈ st.course n, Ready f g I begun.2.machine ∧ Fit f g begun.2.task := by
  induction n generalizing st with
  | zero => simpa [Stage.course] using ⟨ready, fit⟩
  | succ n ih =>
    intro begun member
    rcases List.mem_cons.mp member with rfl | later
    · exact ⟨ready, fit⟩
    · obtain ⟨part, isPart, within⟩ := List.mem_flatMap.mp later
      obtain ⟨ready', fit'⟩ := (pace.parts_ready ready fit n).1 part isPart
      exact ih ready' fit' begun within

theorem left_ready {st : Stage} (ready : Ready f g I st.machine) (fit : Fit f g st.task) (n : Nat) :
    Ready f g I (st.left n) := by
  obtain ⟨task, m⟩ := st
  cases task with
  | value e =>
    obtain ⟨inside, upheld⟩ := fit
    exact (pace.ready_after (pace.obeys_value e upheld m) ready).1
  | flow s =>
    obtain ⟨inside, upheld⟩ := fit
    exact (pace.ready_after (pace.obeys_flow s upheld m) ready).1

theorem moments_ready {st : Stage} (ready : Ready f g I st.machine) (fit : Fit f g st.task)
    (n : Nat) : ∀ m ∈ st.moments n, Ready f g I m := by
  have last := pace.left_ready ready fit n
  induction n generalizing st with
  | zero => simpa [Stage.moments] using ⟨ready, last⟩
  | succ n ih =>
    intro m member
    simp only [Stage.moments, List.cons_append, List.mem_cons, List.mem_append, List.mem_flatMap,
      List.not_mem_nil, or_false] at member
    rcases member with rfl | ⟨part, isPart, within⟩ | rfl
    · exact ready
    · obtain ⟨ready', fit'⟩ := (pace.parts_ready ready fit n).1 part isPart
      exact ih ready' fit' (pace.left_ready ready' fit' n) m within
    · exact last

theorem inTime_append {L L' : List Machine} (first : InTime R m L m') (second : InTime R m' L' m'')
    (whole : R m m') (whole' : R m' m'') : InTime R m (L ++ L') m'' := by
  refine ⟨List.pairwise_append.mpr ⟨first.1, second.1, ?_⟩, ?_⟩
  · intro x early y late
    exact pace.later (first.2 x early).2 (second.2 y late).1
  · intro x member
    rcases List.mem_append.mp member with early | late
    · exact ⟨(first.2 x early).1, pace.later (first.2 x early).2 whole'⟩
    · exact ⟨pace.later whole (second.2 x late).1, (second.2 x late).2⟩

theorem inTime_flatMap {L : List Stage} (between : Between R n m L m')
    (each : ∀ st ∈ L, R st.machine (st.left n) ∧
      InTime R st.machine (st.moments n) (st.left n)) :
    R m m' ∧ InTime R m (L.flatMap (Stage.moments n)) m' := by
  induction L generalizing m with
  | nil => exact ⟨between, List.Pairwise.nil, by simp⟩
  | cons st rest ih =>
    simp only [List.mem_cons, forall_eq_or_imp] at each
    obtain ⟨⟨spans, inner⟩, each⟩ := each
    obtain ⟨whole, after⟩ := ih between.2 each
    have until_ := pace.later between.1 spans
    have first : InTime R m (st.moments n) (st.left n) :=
      ⟨inner.1, fun x member => ⟨pace.later between.1 (inner.2 x member).1, (inner.2 x member).2⟩⟩
    exact ⟨pace.later until_ whole, pace.inTime_append first after until_ whole⟩

/-- Put between its beginning and its end, a list in the order of time remains one. -/
theorem inTime_framed {L : List Machine} (inner : InTime R m L m') (whole : R m m') :
    InTime R m (m :: L ++ [m']) m' := by
  refine ⟨?_, ?_⟩
  · rw [List.cons_append, List.pairwise_cons, List.pairwise_append]
    refine ⟨?_, inner.1, List.pairwise_singleton _ _, ?_⟩
    · intro x member
      rcases List.mem_append.mp member with inside | last
      · exact (inner.2 x inside).1
      · rwa [List.mem_singleton.mp last]
    · intro x inside y last
      rw [List.mem_singleton.mp last]
      exact (inner.2 x inside).2
  · intro x member
    simp only [List.cons_append, List.mem_cons, List.mem_append, List.not_mem_nil, or_false] at member
    rcases member with rfl | inside | rfl
    · exact ⟨pace.now _, whole⟩
    · exact inner.2 x inside
    · exact ⟨whole, pace.now _⟩

/-- The moments of a task follow each other in time. -/
theorem moments_inTime {st : Stage} (ready : Ready f g I st.machine) (fit : Fit f g st.task)
    (n : Nat) : R st.machine (st.left n) ∧ InTime R st.machine (st.moments n) (st.left n) := by
  induction n generalizing st with
  | zero =>
    have whole : R st.machine (st.left 0) := by
      obtain ⟨task, m⟩ := st
      cases task <;> exact pace.now m
    have framed := pace.inTime_framed (L := []) ⟨List.Pairwise.nil, by simp⟩ whole
    exact ⟨whole, framed⟩
  | succ n ih =>
    obtain ⟨all, between⟩ := pace.parts_ready ready fit n
    obtain ⟨whole, inner⟩ := pace.inTime_flatMap between fun part member =>
      ih (all part member).1 (all part member).2
    exact ⟨whole, pace.inTime_framed inner whole⟩

/-! The same of whole programs. -/

theorem program_course_ready (ready : Ready f g I m) {p : List Stmt} {inside : Bool}
    (upheld : Stmt.allUphold f g inside p = true) (n : Nat) :
    ∀ begun ∈ course n p m, Ready f g I begun.2.machine ∧ Fit f g begun.2.task := by
  intro begun member
  obtain ⟨st, isStage, within⟩ := List.mem_flatMap.mp member
  obtain ⟨ready', fit⟩ := (pace.passes_program upheld m ready).1 st isStage
  exact pace.course_ready ready' fit n begun within

theorem program_moments_ready (ready : Ready f g I m) {p : List Stmt} {inside : Bool}
    (upheld : Stmt.allUphold f g inside p = true) (n : Nat) :
    ∀ m' ∈ moments n p m, Ready f g I m' := by
  intro m' member
  simp only [moments, List.cons_append, List.mem_cons, List.mem_append, List.mem_flatMap,
    List.not_mem_nil, or_false] at member
  rcases member with rfl | ⟨st, isStage, within⟩ | rfl
  · exact ready
  · obtain ⟨ready', fit⟩ := (pace.passes_program upheld m ready).1 st isStage
    exact pace.moments_ready ready' fit n m' within
  · exact (pace.ready_after (pace.obeys_interpret n upheld) ready).1

theorem program_moments_inTime (ready : Ready f g I m) {p : List Stmt} {inside : Bool}
    (upheld : Stmt.allUphold f g inside p = true) (n : Nat) :
    R m (after (interpret n p m)) ∧ InTime R m (moments n p m) (after (interpret n p m)) := by
  obtain ⟨all, between⟩ := pace.passes_program (n := n) upheld m ready
  obtain ⟨whole, inner⟩ := pace.inTime_flatMap between fun st member =>
    pace.moments_inTime (all st member).1 (all st member).2 n
  exact ⟨whole, pace.inTime_framed inner whole⟩

end Pace

/-- What a call of a function comes to. -/
theorem call_apply {execute : Stmt → Run Flow} {callee : Value} {id : FunctionId}
    (isFunction : callee.payload = .function id) (args : List Value) (paren : Token)
    {callable : Callable} : m.heap.functions[id]? = some callable →
    Run.call execute callee args paren m =
      if args.length = callable.arity then
        match callable with
        | .builtin native => callNative native args paren m
        | .user declaration closure => callFunction execute declaration closure args paren m
      else .error (.fault ⟨.arityMismatch callable.arity args.length, paren⟩) m := by
  intro found
  have looked : Run.call execute callee args paren m =
      (if args.length ≠ callable.arity then fail (.arityMismatch callable.arity args.length) paren
      else match callable with
        | .builtin native => callNative native args paren
        | .user declaration closure => callFunction execute declaration closure args paren) m := by
    rw [Run.call, isFunction]
    change (match m.heap.functions[id]? with
      | none => fail .notCallable paren
      | some callable => _ : Run Value) m = _
    generalize m.heap.functions[id]? = entry at found ⊢
    cases found
    rfl
  rw [looked]
  by_cases fits : args.length = callable.arity
  · rw [if_pos fits, if_neg fun other => other fits]
    cases callable <;> rfl
  · rw [if_neg fits, if_pos fits]
    rfl

/-- Conditions on nodes hold of whatever is begun in the course of a run, if they hold of the
program and of the functions that are there. -/
theorem declares_pace (f : Expr → Bool) (g : Bool → Stmt → Bool) :
    Pace f g (fun _ _ _ => True) (fun _ => True) fun _ _ => True where
  toLaw := declares_law f g
  now _ := trivial
  later _ _ := trivial
  step _ _ := ⟨trivial, trivial⟩
  leave _ _ _ := trivial
  enter _ := ⟨trivial, trivial⟩
  begin _ _ _ _ := ⟨trivial, trivial⟩

end Run

end SoftScript
