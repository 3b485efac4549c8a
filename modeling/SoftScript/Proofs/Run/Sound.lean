import SoftScript.Proofs.Printing.Faithful
import SoftScript.Proofs.Run.Blame
import SoftScript.Proofs.Session.Reached

/-! Evaluation guards against trees that no parser makes. All that a session ever runs, the bodies
of the functions it keeps included, was accepted by the parser, so these guards are never needed. -/
namespace SoftScript

/-- A task on a tree that the grammar knows has a shape that its step is defined for. -/
theorem Task.isShaped_of_formed {t : Task} (formed : Run.Fit Expr.isFormed Stmt.isFormed t) :
    t.isShaped = true := by
  cases t with
  | flow s => rfl
  | value e =>
    obtain ⟨inside, upheld⟩ := formed
    cases e <;> simp_all [isShaped, Expr.upholds, Expr.isFormed]

/-- An object literal that the grammar knows has nothing but declarations in it. -/
theorem Task.declarations_of_formed {brace : Token} {declarations : List Stmt}
    (formed : Run.Fit Expr.isFormed Stmt.isFormed (.value (.object brace declarations))) :
    declarations.all Stmt.isDeclaration = true := by
  obtain ⟨inside, upheld⟩ := formed
  simp only [Expr.upholds, Expr.isFormed, Bool.and_eq_true] at upheld
  exact upheld.1

namespace Run

variable {n : Nat} {m : Machine}

/-! Only a function body returns. -/

/-- A run that does not return from the function around it. -/
def GoesOn (run : Run Flow) : Prop := ∀ m v m', run m ≠ .ok (.returned v) m'

theorem goesOn_completed : GoesOn (pure .completed) := by
  rintro m v m' ⟨⟩

theorem goesOn_exhausted : GoesOn exhausted := by
  rintro m v m' ⟨⟩

theorem goesOn_bind {α : Type} {x : Run α} {next : α → Run Flow} (later : ∀ a, GoesOn (next a)) :
    GoesOn (x >>= next) := by
  intro m v m' ended
  rw [bind_apply] at ended
  split at ended
  · exact later _ _ v m' ended
  · cases ended

theorem goesOn_inScope (frame : FrameId) {run : Run Flow} (inner : GoesOn run) :
    GoesOn (inScope frame run) := by
  intro m v m' ended
  unfold inScope at ended
  dsimp only at ended
  split at ended
  · rename_i ran
    cases ended
    exact inner _ v _ ran
  · cases ended

/-- One run and then another, unless the first returns. -/
theorem goesOn_then {x next : Run Flow} (first : GoesOn x) (later : GoesOn next) :
    GoesOn (do
      match ← x with
      | .completed => next
      | .returned value => return .returned value) := by
  intro m v m' ended
  rw [bind_apply] at ended
  cases ran : x m with
  | error e m'' =>
    rw [ran] at ended
    cases ended
  | ok flow m'' =>
    rw [ran] at ended
    cases flow with
    | completed => exact later m'' v m' ended
    | returned w => exact first m w m'' ran

theorem goesOn_statements {p : List Stmt} (each : ∀ s ∈ p, GoesOn (execute n s)) :
    GoesOn (statements (execute n) p) := by
  induction p with
  | nil => exact goesOn_completed
  | cons s rest ih =>
    simp only [List.mem_cons, forall_eq_or_imp] at each
    exact goesOn_then each.1 (ih each.2)

theorem goesOn_repeatWhile {condition : Run Value} {body : Run Flow} (inner : GoesOn body)
    (rounds : Nat) : GoesOn (repeatWhile condition body rounds) := by
  induction rounds with
  | zero => exact goesOn_exhausted
  | succ rounds ih =>
    apply goesOn_bind
    intro v
    split
    · exact goesOn_then inner ih
    · exact goesOn_completed

theorem allUphold_iff {f : Expr → Bool} {g : Bool → Stmt → Bool} {inside : Bool} {p : List Stmt} :
    Stmt.allUphold f g inside p = true ↔ ∀ s ∈ p, s.upholds f g inside = true := by
  induction p with
  | nil => simp [Stmt.allUphold]
  | cons s rest ih => simp [Stmt.allUphold, ih]

/-- A statement that the grammar knows outside of functions does not return. -/
theorem goesOn_execute {s : Stmt}
    (formed : s.upholds Expr.isFormed Stmt.isFormed false = true) : GoesOn (execute n s) := by
  induction n generalizing s with
  | zero => exact goesOn_exhausted
  | succ n ih =>
    cases s with
    | block body =>
      simp only [Stmt.upholds, Bool.and_eq_true, allUphold_iff] at formed
      exact goesOn_bind fun _ => goesOn_bind fun _ =>
        goesOn_inScope _ (goesOn_statements fun s member => ih (formed.2 s member))
    | expression e => exact goesOn_bind fun _ => goesOn_completed
    | function => exact goesOn_bind fun _ => goesOn_bind fun _ => goesOn_completed
    | branch condition thenBranch elseBranch =>
      apply goesOn_bind
      intro v
      cases elseBranch with
      | none =>
        simp only [Stmt.upholds, Bool.and_eq_true] at formed
        split
        · exact ih formed.2
        · exact goesOn_completed
      | some elseBranch =>
        simp only [Stmt.upholds, Bool.and_eq_true] at formed
        split
        · exact ih formed.1.2
        · exact ih formed.2
    | returns keyword e => cases e <;> simp [Stmt.upholds, Stmt.isFormed] at formed
    | var => exact goesOn_bind fun _ => goesOn_bind fun _ => goesOn_completed
    | loop condition body =>
      simp only [Stmt.upholds, Bool.and_eq_true] at formed
      exact goesOn_repeatWhile (ih formed.2) n

end Run

namespace Stage

open Run

/-- Where the task is a call of a built-in function, its body runs only on as many arguments as it
takes; on any others the call leaves the machine alone and reports both numbers. -/
def GuardsNatives : Nat → Stage → Prop
  | n + 1, ⟨.value (.call callee paren args), m⟩ =>
    ∀ function m₁ vs m₂ id native, evaluate n callee m = .ok function m₁ →
      args.mapM (evaluate n) m₁ = .ok vs m₂ → function.payload = .function id →
      m₂.heap.functions[id]? = some (.builtin native) →
        evaluate (n + 1) (.call callee paren args) m =
          if vs.length = native.arity then callNative native vs paren m₂
          else .error (.fault ⟨.arityMismatch native.arity vs.length, paren⟩) m₂
  | _, _ => True

theorem guardsNatives (n : Nat) (st : Stage) : st.GuardsNatives n := by
  unfold GuardsNatives
  split
  · rename_i n callee paren args m
    intro function m₁ vs m₂ id native calleeRan argsRan isFunction found
    have called : evaluate (n + 1) (.call callee paren args) m =
        Run.call (execute n) function vs paren m₂ := by
      simp only [evaluate, bind_apply, calleeRan, argsRan]
    rw [called, call_apply isFunction _ _ found]
    rfl
  · trivial

/-- A task that ends early in the course of formed tasks ends with a fault that any program may run
into, or because it has no bound left. -/
theorem ordinary_halt {st : Stage} {fault : Fault} (declares : Ready Expr.isFormed Stmt.isFormed
      (fun _ => True) st.machine) (formed : Fit Expr.isFormed Stmt.isFormed st.task) {n : Nat}
    (ended : st.halt? n = some (.fault fault)) : fault.cause.isDefensive = false := by
  obtain ⟨begun, member, raised | none⟩ := blame ended
  · have shaped := Task.isShaped_of_formed
      ((declares_pace _ _).course_ready declares formed n begun member).2
    by_contra defensive
    have unshaped : begun.2.task.isShaped = false := raised (by simpa using defensive)
    rw [shaped] at unshaped
    contradiction
  · cases none.2

end Stage

/-- The causes that any program may run into, spelled out. -/
theorem Fault.Cause.isDefensive_eq_false {cause : Fault.Cause} (usual : cause.isDefensive = false) :
    cause ≠ .invalidAssignmentTarget ∧ ∀ op, cause ≠ .unsupportedOperator op := by
  constructor
  · rintro rfl
    cases usual
  · rintro op rfl
    cases usual

namespace Run

/-- Accepted programs never come to the guards of evaluation. In every state that a session reaches,
a valid source is run without a fault of an assignment target or of an unknown operator, and none
of its statements returns; nor does any task in its course end with such a fault, meet anything
but declarations in an object literal, or enter the body of a built-in function with another
number of arguments than it takes. -/
theorem guards_never_met {s : Session} (reached : s.Reached) {source : String}
    (valid : (Parse.ofSource source).isValid = true) (n : Nat) :
    (∀ fault m, interpret n (Parse.ofSource source).statements s.machine =
        .error (.fault fault) m →
      fault.cause ≠ .invalidAssignmentTarget ∧ ∀ op, fault.cause ≠ .unsupportedOperator op) ∧
    (∀ stmt ∈ (Parse.ofSource source).statements, ∀ m v m',
      execute n stmt m ≠ .ok (.returned v) m') ∧
    ∀ begun ∈ course n (Parse.ofSource source).statements s.machine,
      (∀ fault, begun.2.halt? begun.1 = some (.fault fault) →
        fault.cause ≠ .invalidAssignmentTarget ∧ ∀ op, fault.cause ≠ .unsupportedOperator op) ∧
      (∀ brace declarations, begun.2.task = .value (.object brace declarations) →
        declarations.all Stmt.isDeclaration = true) ∧
      begun.2.GuardsNatives begun.1 := by
  have formed := wellFormed_ofSource valid
  have pace := declares_pace Expr.isFormed Stmt.isFormed
  have ready : Ready Expr.isFormed Stmt.isFormed (fun _ => True) s.machine :=
    ⟨trivial, pace.declares_reached (fun _ => wellFormed_ofSource) reached⟩
  have stages := (pace.passes_program (n := n) formed s.machine ready).1
  refine ⟨?_, ?_, ?_⟩
  · intro fault m ended
    have stopped : halt? (interpret n (Parse.ofSource source).statements s.machine) =
        some (.fault fault) := by
      rw [ended]
      rfl
    obtain ⟨st, isStage, blamed⟩ := halt?_interpret stopped
    obtain ⟨ready', fit⟩ := stages st isStage
    exact Fault.Cause.isDefensive_eq_false (Stage.ordinary_halt ready' fit blamed)
  · intro stmt member
    exact goesOn_execute (allUphold_iff.mp formed stmt member)
  · intro begun member
    obtain ⟨ready', fit⟩ := pace.program_course_ready ready formed n begun member
    refine ⟨?_, ?_, Stage.guardsNatives _ _⟩
    · intro fault ended
      exact Fault.Cause.isDefensive_eq_false (Stage.ordinary_halt ready' fit ended)
    · intro brace declarations isObject
      rw [isObject] at fit
      exact Task.declarations_of_formed fit

/-- An object with a method that assigns to a name outside of it. -/
def methodSample : String := "var n = 1; var o = {fun f(x) { n -= x; }};"

/-- That method, and then a built-in function called with an argument too many. -/
def surplusSample : String := "o.f(3); [].add(o, n);"

/-- The method of an earlier source meets no guard; the surplus argument is a fault of its own. -/
theorem guards_never_met_surplus :
    ∃ s : Session, (Session.start .unlimited fun _ => 0).run 30 "" methodSample =
        some (.completed, s) ∧ s.Reached ∧
      (∃ fault m, interpret 30 (Parse.ofSource surplusSample).statements s.machine =
          .error (.fault fault) m ∧ fault.cause = .arityMismatch 1 2 ∧
        fault.cause ≠ .invalidAssignmentTarget ∧ ∀ op, fault.cause ≠ .unsupportedOperator op) ∧
      (∀ stmt ∈ (Parse.ofSource surplusSample).statements, ∀ m v m',
        execute 30 stmt m ≠ .ok (.returned v) m') ∧
      ∀ begun ∈ course 30 (Parse.ofSource surplusSample).statements s.machine,
        begun.2.GuardsNatives begun.1 := by
  have valid : (Parse.ofSource surplusSample).isValid = true := by decide +kernel
  have outcome : ((Session.start .unlimited fun _ => 0).run 30 "" methodSample).bind (fun ran =>
      (halt? (interpret 30 (Parse.ofSource surplusSample).statements ran.2.machine)).map fun halt =>
        (ran.1, halt matches .fault ⟨.arityMismatch 1 2, _⟩)) = some (.completed, true) := by
    decide +kernel
  obtain ⟨⟨status, s⟩, ran, outcome⟩ := Option.bind_eq_some_iff.mp outcome
  obtain ⟨halt, stopped, same⟩ := Option.map_eq_some_iff.mp outcome
  obtain ⟨rfl, surplus⟩ := Prod.mk.inj same
  have reached : s.Reached := .step (.start _ _) (.run ran)
  obtain ⟨ended, stays, course⟩ := guards_never_met reached valid 30
  refine ⟨s, ran, reached, ?_, stays, fun begun member => (course begun member).2.2⟩
  obtain ⟨m, failed⟩ := error_of_halt? stopped
  split at surplus
  · exact ⟨_, m, failed, rfl, ended _ m failed⟩
  · cases surplus

end Run

end SoftScript
