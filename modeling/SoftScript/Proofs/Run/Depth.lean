import SoftScript.Proofs.Run.Course
import SoftScript.Proofs.Run.Restored

/-! How deep calls go. The parts of a task are smaller than the task and begin at its depth, apart
from the statements of a function that it calls: those may be of any size, but begin one call
deeper. So the depth of a machine is the number of calls under way, which is never more than the
calls that are allowed. -/
namespace SoftScript

/-- The size of the tree that a task is about. -/
noncomputable def Task.size : Task → Nat
  | .value e => sizeOf e
  | .flow s => sizeOf s

theorem Task.size_pos (t : Task) : 0 < t.size := by
  cases t with
  | value e => cases e <;> simp +arith [size]
  | flow s => cases s <;> simp +arith [size]

open Run

namespace Stage

/-- The statements of the function that a task calls, if it is a call that gets so far. -/
def body (n : Nat) : Stage → List Stage
  | ⟨.value (.call callee _ args), m⟩ => thereafter (evaluate n callee m) fun callee m =>
      thereafter (args.mapM (evaluate n) m) (bodyStages n callee)
  | _ => []

/-- The other tasks that a task begins itself. -/
def own (n : Nat) : Stage → List Stage
  | ⟨.value (.call callee _ args), m⟩ =>
    ⟨.value callee, m⟩ :: thereafter (evaluate n callee m) fun _ m => valueStages n args m
  | st => st.parts n

theorem parts_eq (n : Nat) (st : Stage) : st.parts n = st.own n ++ st.body n := by
  obtain ⟨_ | _, m⟩ := st
  · rename_i e
    cases e with
    | call callee paren args =>
      simp only [parts, own, body, List.cons_append]
      cases evaluate n callee m <;> rfl
    | _ => simp only [own, body, List.append_nil]
  · simp only [own, body, List.append_nil]

/-- All tasks begun in the course of a task, each with the number of calls under way and the bound
it is given. -/
def nest : Nat → Nat → Stage → List (Nat × Nat × Stage)
  | 0, calls, st => [(calls, 0, st)]
  | n + 1, calls, st => (calls, n + 1, st) ::
      ((st.own n).flatMap (nest n calls) ++ (st.body n).flatMap (nest n (calls + 1)))

/-- They are the tasks of its course. -/
theorem nest_course (n calls : Nat) (st : Stage) : (st.nest n calls).map Prod.snd = st.course n := by
  induction n generalizing calls st with
  | zero => rfl
  | succ n ih => simp [nest, course, parts_eq, List.map_flatMap, ih]

end Stage

namespace Run

/-- All tasks begun in the course of a program, each with the number of calls under way and the bound
it is given. -/
def nest (n : Nat) (p : List Stmt) (m : Machine) : List (Nat × Nat × Stage) :=
  (programStages n p m).flatMap (Stage.nest n 0)

theorem nest_course (n : Nat) (p : List Stmt) (m : Machine) :
    (nest n p m).map Prod.snd = course n p m := by
  simp [nest, course, List.map_flatMap, Stage.nest_course]

variable {α β : Type} {n : Nat} {m m' : Machine} {P : Task → Prop} {depth : Nat}

theorem depth_evaluate {e : Expr} {v : Value} (ran : evaluate n e m = .ok v m') :
    m'.depth = m.depth := by
  have restored := restored_evaluate n e m
  rw [ran] at restored
  exact restored.depth

theorem depth_execute {s : Stmt} {flow : Flow} (ran : execute n s m = .ok flow m') :
    m'.depth = m.depth := by
  have restored := restored_execute n s m
  rw [ran] at restored
  exact restored.depth

/-- Stages that begin at a depth, all with tasks of a kind. -/
def Level (P : Task → Prop) (depth : Nat) (stages : List Stage) : Prop :=
  ∀ st ∈ stages, P st.task ∧ st.machine.depth = depth

theorem level_nil : Level P depth [] := by
  rintro st ⟨⟩

theorem level_cons {t : Task} {stages : List Stage} (first : P t)
    (rest : Level P m.depth stages) : Level P m.depth (⟨t, m⟩ :: stages) := by
  intro st member
  rcases List.mem_cons.mp member with rfl | later
  · exact ⟨first, rfl⟩
  · exact rest st later

theorem level_append {L L' : List Stage} (first : Level P depth L) (second : Level P depth L') :
    Level P depth (L ++ L') := by
  intro st member
  rcases List.mem_append.mp member with early | late
  · exact first st early
  · exact second st late

theorem level_thereafter {ended : EStateM.Result Halt Machine α} {L : α → Machine → List Stage}
    (each : ∀ a m', ended = .ok a m' → Level P depth (L a m')) :
    Level P depth (thereafter ended L) := by
  cases ended with
  | ok a m' => exact each a m' rfl
  | error e m' => exact level_nil

theorem level_values {es : List Expr} (each : ∀ e ∈ es, P (.value e)) (m : Machine) :
    Level P m.depth (valueStages n es m) := by
  induction es generalizing m with
  | nil => exact level_nil
  | cons e rest ih =>
    simp only [List.mem_cons, forall_eq_or_imp] at each
    apply level_cons each.1
    apply level_thereafter
    intro v m' ran
    rw [← depth_evaluate ran]
    exact ih each.2 m'

theorem level_flows {p : List Stmt} (each : ∀ s ∈ p, P (.flow s)) (m : Machine) :
    Level P m.depth (flowStages n p m) := by
  induction p generalizing m with
  | nil => exact level_nil
  | cons s rest ih =>
    simp only [List.mem_cons, forall_eq_or_imp] at each
    apply level_cons each.1
    apply level_thereafter
    intro flow m' ran
    rw [← depth_execute ran]
    cases flow with
    | completed => exact ih each.2 m'
    | returned v => exact level_nil

theorem level_program {p : List Stmt} (each : ∀ s ∈ p, P (.flow s)) (m : Machine) :
    Level P m.depth (programStages n p m) := by
  induction p generalizing m with
  | nil => exact level_nil
  | cons s rest ih =>
    simp only [List.mem_cons, forall_eq_or_imp] at each
    apply level_cons each.1
    apply level_thereafter
    intro flow m' ran
    rw [← depth_execute ran]
    exact ih each.2 m'

theorem level_rounds {condition : Expr} {body : Stmt} (value : P (.value condition))
    (flow : P (.flow body)) (rounds : Nat) (m : Machine) :
    Level P m.depth (roundStages n condition body rounds m) := by
  induction rounds generalizing m with
  | zero => exact level_nil
  | succ rounds ih =>
    apply level_cons value
    apply level_thereafter
    intro v m' ran
    rw [← depth_evaluate ran]
    split
    · apply level_cons flow
      apply level_thereafter
      intro flow m'' ran
      rw [← depth_execute ran]
      cases flow with
      | completed => exact ih m''
      | returned v => exact level_nil
    · exact level_nil

/-- Making a member of an object leaves the machine alone. -/
theorem machine_addMember {members members' : Bindings} {name : Token} {value : Value}
    (ran : addMember members name value m = .ok members' m') : m' = m := by
  unfold addMember at ran
  split at ran
  · cases ran
  · cases ran
    rfl

theorem level_members {declarations : List Stmt}
    (values : ∀ name e, .var name (some e) ∈ declarations → P (.value e))
    (flows : ∀ s ∈ declarations, P (.flow s)) (members : Bindings) (m : Machine) :
    Level P m.depth (memberStages n declarations members m) := by
  induction declarations generalizing m members with
  | nil => exact level_nil
  | cons declaration rest ih =>
    have onward (name : Token) (value : Value) (m : Machine) : Level P m.depth
        (thereafter (addMember members name value m) (memberStages n rest)) := by
      apply level_thereafter
      intro members' m' ran
      rw [machine_addMember ran]
      exact ih (fun name e member => values name e (List.mem_cons_of_mem _ member))
        (fun s member => flows s (List.mem_cons_of_mem _ member)) members' m
    cases declaration with
    | var name initializer =>
      cases initializer with
      | none => exact onward name _ m
      | some e =>
        apply level_append
        · rw [Option.toList_some, valueStages_one]
          exact level_cons (values name e List.mem_cons_self) level_nil
        · apply level_thereafter
          intro v m' ran
          rw [← depth_evaluate ran]
          exact onward name _ m'
    | function name params body => exact onward name _ _
    | block | expression | branch | returns | loop =>
      apply level_cons (flows _ List.mem_cons_self)
      apply level_thereafter
      intro flow m' ran
      rw [← depth_execute ran]
      exact ih (fun name e member => values name e (List.mem_cons_of_mem _ member))
        (fun s member => flows s (List.mem_cons_of_mem _ member)) members m'

theorem level_body (callee : Value) (args : List Value) (m : Machine) :
    ∀ st ∈ bodyStages n callee args m, m.depth < maxCallDepth ∧ st.machine.depth = m.depth + 1 := by
  unfold bodyStages
  cases callee.payload with
  | function id =>
    dsimp only
    cases m.heap.functions[id]? with
    | none => simp
    | some callable =>
      dsimp only
      split
      · simp
      · cases callable with
        | builtin => simp
        | user declaration closure =>
          dsimp only
          split
          · simp
          · rename_i shallow
            have level : Level (fun _ => True) (m.depth + 1)
                (thereafter (bindParameters declaration.params args [] m) fun bound m =>
                  flowStages n declaration.body (m.calling ⟨bound, some closure⟩)) := by
              apply level_thereafter
              intro bound m' ran
              rw [machine_bindParameters ran]
              exact level_flows (fun _ _ => trivial) (m.calling ⟨bound, some closure⟩)
            exact fun st member => ⟨Nat.lt_of_not_le shallow, (level st member).2⟩
  | int | bool | string | list | object | null => simp

theorem depth_mapM {es : List Expr} {vs : List Value} (ran : es.mapM (evaluate n) m = .ok vs m') :
    m'.depth = m.depth := by
  have restored := (restored_law.obeys_mapM (restored_law.obeys_all n).1
    (upholds_nothing_all.2.2.2 es false) (declares_nothing m.heap)).2
  rw [ran] at restored
  exact restored.depth

end Run

namespace Stage

/-- The parts of an expression are smaller and begin at its depth. -/
theorem own_smaller_value (n : Nat) (e : Expr) (m : Machine) :
    Level (fun t => t.size < sizeOf e) m.depth (own n ⟨.value e, m⟩) := by
  have values {es : List Expr} (each : ∀ e' ∈ es, sizeOf e' < sizeOf e) (m : Machine) :
      Level (fun t => t.size < sizeOf e) m.depth (valueStages n es m) :=
    level_values each m
  cases e with
  | assign target e =>
    cases target with
    | access left dot member => exact values (by simp +arith) m
    | _ => exact values (by simp +arith) m
  | binary => exact values (by simp +arith) m
  | index => exact values (by simp +arith) m
  | access => exact values (by simp +arith) m
  | call callee paren args =>
    refine level_cons (by simp +arith [Task.size]) (level_thereafter ?_)
    intro v m' ran
    rw [← depth_evaluate ran]
    apply values
    intro e member
    have := List.sizeOf_lt_of_mem member
    simp
    omega
  | grouping => exact values (by simp) m
  | literal => exact level_nil
  | list bracket elements =>
    apply values
    intro e member
    have := List.sizeOf_lt_of_mem member
    simp
    omega
  | unary => exact values (by simp +arith) m
  | «variable» => exact level_nil
  | object brace declarations =>
    apply level_members
    · intro name e member
      have := List.sizeOf_lt_of_mem member
      simp [Task.size] at this ⊢
      omega
    · intro s member
      have := List.sizeOf_lt_of_mem member
      simp [Task.size]
      omega

/-- The parts of a statement are smaller and begin at its depth. -/
theorem own_smaller_flow (n : Nat) (s : Stmt) (m : Machine) :
    Level (fun t => t.size < sizeOf s) m.depth (own n ⟨.flow s, m⟩) := by
  have values {es : List Expr} (each : ∀ e ∈ es, sizeOf e < sizeOf s) (m : Machine) :
      Level (fun t => t.size < sizeOf s) m.depth (valueStages n es m) :=
    level_values each m
  cases s with
  | block body =>
    apply level_flows (m := m.entering _)
    intro s member
    have := List.sizeOf_lt_of_mem member
    simp [Task.size]
    omega
  | expression => exact values (by simp) m
  | function => exact level_nil
  | branch condition thenBranch elseBranch =>
    refine level_cons (by simp +arith [Task.size]) (level_thereafter ?_)
    intro v m' ran
    rw [← depth_evaluate ran]
    split
    · exact level_cons (by simp +arith [Task.size]) level_nil
    · cases elseBranch with
      | none => exact level_nil
      | some elseBranch => exact level_cons (by simp +arith [Task.size]) level_nil
  | returns _ e =>
    apply values
    rintro e' member
    cases e <;> simp_all
    omega
  | var _ initializer =>
    apply values
    rintro e' member
    cases initializer <;> simp_all
    omega
  | loop =>
    exact level_rounds (by simp +arith [Task.size]) (by simp +arith [Task.size]) n m

/-- The parts of a task outside the function it calls are smaller and begin at its depth. -/
theorem own_smaller (n : Nat) (st : Stage) :
    Level (fun t => t.size < st.task.size) st.machine.depth (st.own n) := by
  obtain ⟨task, m⟩ := st
  cases task with
  | value e => exact own_smaller_value n e m
  | flow s => exact own_smaller_flow n s m

/-- The statements of a function that is called begin one call deeper, which is not too deep. -/
theorem body_deeper (n : Nat) (st : Stage) : ∀ part ∈ st.body n,
    st.machine.depth < maxCallDepth ∧ part.machine.depth = st.machine.depth + 1 := by
  intro part member
  unfold body at member
  split at member
  · rename_i callee paren args m
    cases calleeRan : evaluate n callee m with
    | error => simp [calleeRan, thereafter] at member
    | ok function m₁ =>
      cases argsRan : args.mapM (evaluate n) m₁ with
      | error => simp [calleeRan, argsRan, thereafter] at member
      | ok vs m₂ =>
        simp only [calleeRan, argsRan, thereafter] at member
        have deeper := level_body function vs m₂ part member
        rwa [depth_mapM argsRan, depth_evaluate calleeRan] at deeper
  · cases member

theorem depth_left (n : Nat) (st : Stage) : (st.left n).depth = st.machine.depth := by
  obtain ⟨e | s, m⟩ := st
  · exact (restored_evaluate n e m).depth
  · exact (restored_execute n s m).depth

/-- The depth at the beginning of each task is the number of calls under way. -/
theorem depth_nest {st : Stage} {calls : Nat} (same : st.machine.depth = calls)
    (few : calls ≤ maxCallDepth) (n : Nat) : ∀ active ∈ st.nest n calls,
      active.2.2.machine.depth = active.1 ∧ active.1 ≤ maxCallDepth := by
  induction n generalizing st calls with
  | zero => simpa [nest] using ⟨same, few⟩
  | succ n ih =>
    intro active member
    simp only [nest, List.mem_cons, List.mem_append, List.mem_flatMap] at member
    rcases member with rfl | ⟨part, isOwn, within⟩ | ⟨part, isBody, within⟩
    · exact ⟨same, few⟩
    · have level := (own_smaller n st part isOwn).2
      exact ih (level.trans same) few active within
    · obtain ⟨shallow, deeper⟩ := body_deeper n st part isBody
      exact ih (by rw [deeper, same]) (same ▸ shallow) active within

end Stage

namespace Run

theorem depth_nest {m : Machine} (idle : m.depth = 0) (n : Nat) (p : List Stmt) :
    ∀ active ∈ nest n p m,
      active.2.2.machine.depth = active.1 ∧ active.1 ≤ maxCallDepth := by
  intro active member
  obtain ⟨st, isStage, within⟩ := List.mem_flatMap.mp member
  have level : Level (fun _ => True) m.depth (programStages n p m) :=
    level_program (fun _ _ => trivial) m
  exact Stage.depth_nest ((level st isStage).2.trans idle) (Nat.zero_le _) n active within

/-- A call too many fails at once: no parameter is bound, and no statement runs. -/
theorem call_overflow {execute : Stmt → Run Flow} {callee : Value} {args : List Value}
    {paren : Token} {m : Machine} {id : FunctionId} {declaration : FunctionDecl} {closure : FrameId}
    (isFunction : callee.payload = .function id)
    (found : m.heap.functions[id]? = some (.user declaration closure))
    (fits : args.length = declaration.arity) (deep : maxCallDepth ≤ m.depth) :
    call execute callee args paren m = .error (.fault ⟨.stackOverflow, paren⟩) m := by
  have taken : args.length = (Callable.user declaration closure).arity := fits
  rw [call_apply isFunction _ _ found, if_pos taken]
  change (if maxCallDepth ≤ m.depth then _ else _ : Run Value) m = _
  rw [if_pos deep]
  rfl

end Run

end SoftScript
