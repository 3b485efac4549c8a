import SoftScript.Proofs.Run.Blind
import SoftScript.Proofs.Run.Restored

/-! Why runs end early. A task that ends early has begun another one that ended so too, or the step
it takes itself is to blame. Going down along the tasks in its course, one comes to the step that
failed, or to a task that was given no bound at all. -/
namespace SoftScript

/-- The causes that only guard against trees that no parser makes. -/
def Fault.Cause.isDefensive : Fault.Cause → Bool
  | .invalidAssignmentTarget | .unsupportedOperator _ => true
  | _ => false

/-- A fault that any program may run into. -/
def Halt.Ordinary : Halt → Prop
  | .fault ⟨cause, _⟩ => cause.isDefensive = false
  | .exhausted => False

def Stmt.isLoop : Stmt → Bool
  | .loop .. => true
  | _ => false

namespace Task

/-- Its own step is defined for a task of this shape. -/
def isShaped : Task → Bool
  | .value (.assign target _) => target.isAssignable
  | .value (.binary _ op _) => Token.binaryOperators.contains op.kind
  | .value (.unary op _) => Token.unaryOperators.contains op.kind
  | _ => true

def isLoop : Task → Bool
  | .value _ => false
  | .flow s => s.isLoop

end Task

/-- What a task can end with on its own account. A write to an output that is not total may have no
end. -/
def Stage.Raises (st : Stage) : Halt → Prop
  | .fault ⟨cause, _⟩ => cause.isDefensive = true → st.task.isShaped = false
  | .exhausted => st.task.isLoop = true ∨ ¬st.machine.output.IsTotal

theorem Stage.raises_of_ordinary {st : Stage} {halt : Halt} (ordinary : halt.Ordinary) :
    st.Raises halt := by
  cases halt with
  | fault found =>
    intro defensive
    rw [show found.cause.isDefensive = false from ordinary] at defensive
    contradiction
  | exhausted => exact ordinary.elim

namespace Run

variable {α β : Type}

/-! An output stays the same but for what is written to it. -/

theorem limit_law (f : Expr → Bool) (g : Bool → Stmt → Bool) :
    Law f g fun _ m m' => m'.output.limit = m.output.limit where
  refl _ _ := rfl
  trans first second := second.trans first
  weaken h := h
  body _ _ h := h
  newBuiltin _ _ := rfl
  newFunction _ _ _ := rfl
  newList _ _ := rfl
  newObject _ _ := rfl
  modifyItems _ _ _ := rfl
  assignMember _ _ _ _ := rfl
  rebind _ _ _ _ _ := rfl
  bind _ _ _ _ := rfl
  readClock _ := rfl
  write _ _ same := same
  block inner := inner
  call _ inner := inner

theorem limit_evaluate (n : Nat) (e : Expr) (m : Machine) :
    (after (evaluate n e m)).output.limit = m.output.limit :=
  (((limit_law _ _).obeys_all n).1 e false m (upholds_nothing_all.1 e _) (declares_nothing _)).2

theorem limit_mapM (n : Nat) (es : List Expr) (m : Machine) :
    (after (es.mapM (evaluate n) m)).output.limit = m.output.limit :=
  ((limit_law _ _).obeys_mapM ((limit_law _ _).obeys_all n).1
    (upholds_nothing_all.2.2.2 es false) (declares_nothing _)).2

/-- Why a run ended early, if it did. -/
def halt? : EStateM.Result Halt Machine α → Option Halt
  | .ok _ _ => none
  | .error halt _ => some halt

theorem error_of_halt? {ended : EStateM.Result Halt Machine α} {halt : Halt}
    (stopped : halt? ended = some halt) : ∃ m, ended = .error halt m := by
  cases ended with
  | ok a m => cases stopped
  | error e m =>
    cases stopped
    exact ⟨m, rfl⟩

/-! Steps that end early for ordinary faults only. -/

def Plain (run : Run α) : Prop := ∀ m, ∀ halt ∈ halt? (run m), halt.Ordinary

theorem Plain.ordinary {run : Run α} {m : Machine} {halt : Halt} (plain : Plain run)
    (ended : halt? (run m) = some halt) : halt.Ordinary :=
  plain m halt ended

theorem plain_of_ok {run : Run α} (ok : ∀ m, halt? (run m) = none) : Plain run := by
  intro m halt ended
  rw [ok m] at ended
  contradiction

theorem plain_pure (a : α) : Plain (pure a : Run α) := plain_of_ok fun _ => rfl

theorem plain_fail {cause : Fault.Cause} (ordinary : cause.isDefensive = false) (token : Token) :
    Plain (fail cause token : Run α) := by
  rintro m halt ⟨⟩
  exact ordinary

theorem plain_bind {x : Run α} {next : α → Run β} (first : Plain x) (later : ∀ a, Plain (next a)) :
    Plain (x >>= next) := by
  intro m halt ended
  rw [bind_apply] at ended
  cases ran : x m with
  | ok a m' =>
    rw [ran] at ended
    exact later a m' halt ended
  | error e m' =>
    rw [ran] at ended
    exact first m halt (by rw [ran]; exact ended)

theorem plain_get : Plain (get : Run Machine) := plain_of_ok fun _ => rfl

theorem plain_set (m : Machine) : Plain (set m : Run PUnit) := plain_of_ok fun _ => rfl

theorem plain_heap : Plain heap := plain_of_ok fun _ => rfl

theorem plain_text (v : Value) : Plain (text v) := plain_of_ok fun _ => rfl

theorem plain_newFunction (callable : Callable) : Plain (newFunction callable) :=
  plain_of_ok fun _ => rfl

theorem plain_newList (items : Array Value) : Plain (newList items) := plain_of_ok fun _ => rfl

theorem plain_newObject (members : Bindings) : Plain (newObject members) :=
  plain_of_ok fun _ => rfl

theorem plain_modifyItems (id : ListId) (f : Array Value → Array Value) :
    Plain (modifyItems id f) :=
  plain_of_ok fun _ => rfl

theorem plain_readClock : Plain readClock := plain_of_ok fun _ => rfl

theorem plain_lookup (name : Token) : Plain (lookup name) := by
  apply plain_bind plain_get
  intro m
  split
  · exact plain_pure _
  · exact plain_fail rfl _

theorem plain_define (name : Token) (value : Value) : Plain (define name value) := by
  apply plain_bind plain_get
  intro m
  split
  · exact plain_fail rfl _
  · exact plain_set _

theorem plain_assign (name : Token) (value : Value) : Plain (assign name value) := by
  apply plain_bind plain_get
  intro m
  split
  · exact plain_set _
  · exact plain_fail rfl _

theorem plain_undefinedMember (v : Value) (member : Token) : Plain (undefinedMember v member) :=
  plain_fail rfl _

theorem plain_dotAccess (v : Value) (dot member : Token) : Plain (dotAccess v dot member) := by
  unfold dotAccess
  split
  · split
    · exact plain_pure _
    · exact plain_undefinedMember _ _
  · split
    · exact plain_bind plain_heap fun _ => plain_pure _
    · split
      · exact plain_newFunction _
      · exact plain_undefinedMember _ _
  · apply plain_bind plain_heap
    intro h
    split
    · exact plain_pure _
    · exact plain_undefinedMember _ _
  · exact plain_fail rfl _

theorem plain_itemAt (v : Value) (bracket : Token) (index : Value) (items : Array Value) :
    Plain (itemAt v bracket index items) := by
  unfold itemAt
  split
  · exact plain_bind (plain_text _) fun _ => plain_fail rfl _
  · split
    · exact plain_pure _
    · exact plain_fail rfl _

theorem plain_indexAccess (v : Value) (bracket : Token) (index : Value) :
    Plain (indexAccess v bracket index) := by
  unfold indexAccess
  split
  · exact plain_bind plain_heap fun _ => plain_itemAt _ _ _ _
  · exact plain_bind plain_heap fun _ => plain_itemAt _ _ _ _
  · exact plain_fail rfl _

theorem plain_assignMember (v : Value) (dot member : Token) (value : Value) :
    Plain (assignMember v dot member value) := by
  unfold assignMember
  split
  · apply plain_bind plain_heap
    intro h
    split
    · exact plain_of_ok fun _ => rfl
    · exact plain_bind (plain_undefinedMember _ _) fun _ => plain_pure _
  · exact plain_fail rfl _

theorem plain_checked (op : Token) (result : Option Integer) : Plain (checked op result) := by
  cases result with
  | none => exact plain_fail rfl _
  | some value => exact plain_pure _

theorem plain_itemsOf (v : Value) : Plain (itemsOf v) := by
  unfold itemsOf
  split
  · exact plain_bind plain_heap fun _ => plain_pure _
  · exact plain_pure _

/-- A new list made of what two operands hold. -/
theorem plain_joined (left right : Value) (join : Array Value → Array Value → Array Value) :
    Plain (do newList (join (← itemsOf left) (← itemsOf right))) :=
  plain_bind (plain_itemsOf _) fun _ => plain_bind (plain_itemsOf _) fun _ => plain_newList _

theorem plain_plus (op : Token) (left right : Value) : Plain (plus op left right) := by
  have texts : Plain (do return Value.string ((← text left) ++ (← text right))) :=
    plain_bind (plain_text _) fun _ => plain_bind (plain_text _) fun _ => plain_pure _
  unfold plus
  split
  · exact plain_checked _ _
  · exact texts
  · exact texts
  · exact plain_joined _ _ _
  · exact plain_joined _ _ _
  · exact plain_fail rfl _

theorem plain_either (left right : Value) : Plain (either left right) := by
  unfold either
  split
  · exact plain_joined _ _ fun items others => distinct (items ++ others)
  · exact plain_pure _

theorem plain_both (left right : Value) : Plain (both left right) := by
  unfold both
  split
  · exact plain_joined _ _ fun others items => items.filter fun item => !others.any (·.same item)
  · exact plain_pure _

theorem plain_arithmetic {op : Token} (left right : Value)
    (known : op.kind ∈ [.minus, .star, .slash, .percent, .greater, .greaterEqual, .lesser,
      .lesserEqual]) : Plain (arithmetic op left right) := by
  unfold arithmetic
  split
  · exact plain_fail rfl _
  · exact plain_fail rfl _
  · split
    · exact plain_checked _ _
    · exact plain_checked _ _
    · split
      · exact plain_fail rfl _
      · exact plain_checked _ _
    · split
      · exact plain_fail rfl _
      · exact plain_checked _ _
    · exact plain_pure _
    · exact plain_pure _
    · exact plain_pure _
    · exact plain_pure _
    · simp_all

theorem plain_binary {op : Token} (left right : Value)
    (known : Token.binaryOperators.contains op.kind = true) : Plain (binary op left right) := by
  unfold binary
  split
  · exact plain_pure _
  · exact plain_pure _
  · exact plain_plus _ _ _
  · exact plain_either _ _
  · exact plain_both _ _
  case h_14 =>
    simp_all [Token.binaryOperators, Parse.Level.all, Parse.Level.operators]
  all_goals exact plain_arithmetic left right (by simp_all)

theorem binary_unknown {op : Token} (left right : Value)
    (unknown : Token.binaryOperators.contains op.kind = false) :
    binary op left right = fail (.unsupportedOperator op.lexeme) op := by
  unfold binary
  split <;> simp_all [Token.binaryOperators, Parse.Level.all, Parse.Level.operators]

theorem plain_unary {op : Token} (operand : Value)
    (known : Token.unaryOperators.contains op.kind = true) : Plain (unary op operand) := by
  unfold unary
  split
  · exact plain_pure _
  · split
    · exact plain_checked _ _
    · exact plain_fail rfl _
  · simp_all [Token.unaryOperators]

theorem unary_unknown {op : Token} (operand : Value)
    (unknown : Token.unaryOperators.contains op.kind = false) :
    unary op operand = fail (.unsupportedOperator op.lexeme) op := by
  unfold unary
  split <;> simp_all [Token.unaryOperators]

theorem plain_insertItem (list : ListId) (index value : Value) (paren : Token) :
    Plain (insertItem list index value paren) := by
  unfold insertItem
  split
  · exact plain_bind (plain_text _) fun _ => plain_fail rfl _
  · apply plain_bind plain_heap
    intro h
    dsimp only
    split
    · exact plain_modifyItems _ _
    · exact plain_fail rfl _

theorem halt?_answer (run : Run Unit) (m : Machine) :
    halt? ((do run; return Value.null : Run Value) m) = halt? (run m) := by
  rw [bind_apply]
  cases run m <;> rfl

/-- A write ends early for an ordinary fault, or it has no end. -/
theorem halt_write {text : String} {token : Token} {m : Machine} {halt : Halt}
    (ended : halt? (write text token m) = some halt) :
    halt.Ordinary ∨ halt = .exhausted ∧ ¬m.output.IsTotal := by
  rw [write_apply] at ended
  cases outcome : m.output.write text with
  | none =>
    rw [outcome] at ended
    cases ended
    refine .inr ⟨rfl, fun total => ?_⟩
    have ends := total m.output.written text
    rw [show m.output.write text = none from outcome] at ends
    cases ends
  | some result =>
    obtain ⟨_ | error, output⟩ := result
    all_goals
      rw [outcome] at ended
      cases ended
    exact .inl rfl

theorem halt_callNative {native : Native} {args : List Value} {paren : Token} {m : Machine}
    {halt : Halt} (ended : halt? (callNative native args paren m) = some halt) :
    halt.Ordinary ∨ halt = .exhausted ∧ ¬m.output.IsTotal := by
  have answer {run : Run Unit} (plain : Plain run) : Plain (do run; return Value.null) :=
    plain_bind plain fun _ => plain_pure _
  cases native with
  | clock => exact .inl ((plain_bind plain_readClock fun _ => plain_pure _).ordinary ended)
  | print => exact halt_write ((halt?_answer _ m).symm.trans ended)
  | add list => exact .inl ((answer (plain_modifyItems _ _)).ordinary ended)
  | addRange list =>
    refine .inl (Plain.ordinary ?_ ended)
    unfold callNative
    dsimp only
    split
    · exact plain_bind plain_heap fun _ => answer (plain_modifyItems _ _)
    · exact plain_fail rfl _
  | insert list => exact .inl ((answer (plain_insertItem _ _ _ _)).ordinary ended)
  | remove list => exact .inl ((answer (plain_modifyItems _ _)).ordinary ended)

theorem plain_bindFunction (declaration : FunctionDecl) : Plain (bindFunction declaration) :=
  plain_of_ok fun _ => rfl

theorem plain_bindParameters (params : List Token) (args : List Value) (bound : Bindings) :
    Plain (bindParameters params args bound) := by
  fun_induction bindParameters params args bound with
  | case1 => exact plain_fail rfl _
  | case2 _ _ _ _ _ _ ih => exact ih
  | case3 => exact plain_pure _

theorem plain_addMember (members : Bindings) (name : Token) (value : Value) :
    Plain (addMember members name value) := by
  unfold addMember
  split
  · exact plain_fail rfl _
  · exact plain_pure _

end Run

open Run

/-- Why a task ended early, if it did. -/
def Stage.halt? (n : Nat) (st : Stage) : Option Halt :=
  match st.task with
  | .value e => Run.halt? (evaluate n e st.machine)
  | .flow s => Run.halt? (execute n s st.machine)

namespace Run

variable {α β : Type} {m : Machine} {n : Nat} {own : Halt → Prop}

/-- If a run ends early, so does one of these stages, or it is a reason of its own. -/
def Blames (n : Nat) (own : Halt → Prop) (run : Run α) (m : Machine) (stages : List Stage) :
    Prop :=
  ∀ halt ∈ halt? (run m), own halt ∨ ∃ st ∈ stages, st.halt? n = some halt

theorem blames_pure (a : α) : Blames n own (pure a) m [] := by
  rintro halt ⟨⟩

/-- A run without stages. -/
theorem Plain.blames {run : Run α} (plain : Plain run)
    (ordinary : ∀ halt : Halt, halt.Ordinary → own halt) : Blames n own run m [] :=
  fun halt ended => .inl (ordinary halt (plain m halt ended))

theorem blames_value (e : Expr) (m : Machine) : Blames n own (evaluate n e) m [⟨.value e, m⟩] :=
  fun _ ended => .inr ⟨_, List.mem_cons_self, ended⟩

theorem blames_flow (s : Stmt) (m : Machine) : Blames n own (execute n s) m [⟨.flow s, m⟩] :=
  fun _ ended => .inr ⟨_, List.mem_cons_self, ended⟩

theorem blames_bind {x : Run α} {next : α → Run β} {L : List Stage} {L' : α → Machine → List Stage}
    (first : Blames n own x m L)
    (second : ∀ a m', x m = .ok a m' → Blames n own (next a) m' (L' a m')) :
    Blames n own (x >>= next) m (L ++ thereafter (x m) L') := by
  intro halt ended
  rw [bind_apply] at ended
  cases ran : x m with
  | ok a m' =>
    rw [ran] at ended
    rcases second a m' ran halt ended with self | ⟨st, member, same⟩
    · exact .inl self
    · exact .inr ⟨st, List.mem_append_right _ member, same⟩
  | error e m' =>
    rw [ran] at ended
    rcases first halt (by rw [ran]; exact ended) with self | ⟨st, member, same⟩
    · exact .inl self
    · exact .inr ⟨st, List.mem_append_left _ member, same⟩

/-- What follows the last stage. -/
theorem blames_last {x : Run α} {next : α → Run β} {L : List Stage} (first : Blames n own x m L)
    (second : ∀ a m', x m = .ok a m' → Blames n own (next a) m' []) :
    Blames n own (x >>= next) m L := by
  have blames : Blames n own (x >>= next) m (L ++ thereafter (x m) fun _ _ => []) :=
    blames_bind first second
  rwa [thereafter_nil, List.append_nil] at blames

theorem blames_get {next : Machine → Run α} {L : List Stage} (later : Blames n own (next m) m L) :
    Blames n own (get >>= next) m L :=
  later

theorem blames_heap {next : Heap → Run α} {L : List Stage}
    (later : Blames n own (next m.heap) m L) : Blames n own (heap >>= next) m L :=
  later

theorem blames_of_halt {x y : Run α} {m' : Machine} {L : List Stage}
    (same : halt? (y m) = halt? (x m')) (inner : Blames n own x m' L) : Blames n own y m L := by
  intro halt ended
  rw [same] at ended
  exact inner halt ended

theorem halt?_inScope (frame : FrameId) (run : Run α) (m : Machine) :
    halt? (inScope frame run m) = halt? (run { m with scope := frame }) := by
  unfold inScope
  cases run { m with scope := frame } <;> rfl

theorem halt?_deeper (run : Run α) (m : Machine) :
    halt? (deeper run m) = halt? (run { m with depth := m.depth + 1 }) := by
  unfold deeper
  cases run { m with depth := m.depth + 1 } <;> rfl

/-! The parts of each task. -/

theorem blames_mapM (es : List Expr) (m : Machine) :
    Blames n own (es.mapM (evaluate n)) m (valueStages n es m) := by
  induction es generalizing m with
  | nil => exact blames_pure _
  | cons e rest ih =>
    rw [List.mapM_cons]
    apply blames_bind (blames_value e m)
    intro v m' _
    exact blames_last (ih m') fun _ _ _ => blames_pure _

theorem blames_statements (p : List Stmt) (m : Machine) :
    Blames n own (statements (execute n) p) m (flowStages n p m) := by
  induction p generalizing m with
  | nil => exact blames_pure _
  | cons s rest ih =>
    apply blames_bind (blames_flow s m)
    intro flow m' _
    cases flow with
    | completed => exact ih m'
    | returned v => exact blames_pure _

theorem blames_program (p : List Stmt) (m : Machine) :
    Blames n own (interpret n p) m (programStages n p m) := by
  induction p generalizing m with
  | nil => exact blames_pure _
  | cons s rest ih =>
    apply blames_bind (blames_flow s m)
    intro _ m' _
    exact ih m'

theorem blames_initial (initializer : Option Expr) (m : Machine) :
    Blames n own (initial (evaluate n) initializer) m (valueStages n initializer.toList m) := by
  cases initializer with
  | none => exact blames_pure _
  | some e =>
    rw [Option.toList_some, valueStages_one]
    exact blames_value e m

theorem blames_one (e : Expr) {next : Value → Run α} (m : Machine)
    (later : ∀ v m', Blames n own (next v) m' []) :
    Blames n own (evaluate n e >>= next) m (valueStages n [e] m) := by
  rw [valueStages_one]
  exact blames_last (blames_value e m) fun v m' _ => later v m'

theorem blames_two (a b : Expr) {next : Value → Value → Run α} (m : Machine)
    (later : ∀ v w m', Blames n own (next v w) m' []) :
    Blames n own (do next (← evaluate n a) (← evaluate n b)) m (valueStages n [a, b] m) := by
  rw [valueStages_two]
  apply blames_bind (blames_value a m)
  intro v m' _
  exact blames_last (blames_value b m') fun w m'' _ => later v w m''

/-- Only here a task runs out of its bound by itself: it comes round too often. -/
theorem blames_repeatWhile (condition : Expr) (body : Stmt) (loops : own .exhausted)
    (rounds : Nat) (m : Machine) :
    Blames n own (repeatWhile (evaluate n condition) (execute n body) rounds) m
      (roundStages n condition body rounds m) := by
  induction rounds generalizing m with
  | zero =>
    rintro halt ⟨⟩
    exact .inl loops
  | succ rounds ih =>
    apply blames_bind (blames_value condition m)
    intro v m' _
    split
    · apply blames_bind (blames_flow body m')
      intro flow m'' _
      cases flow with
      | completed => exact ih m''
      | returned v => exact blames_pure _
    · exact blames_pure _

/-! Parts with plain steps between them. -/

section

variable (ordinary : ∀ halt : Halt, halt.Ordinary → own halt)

include ordinary

/-- What goes before the first stage. -/
theorem blames_first {x : Run α} {next : α → Run β} {L : α → Machine → List Stage}
    (first : Plain x) (second : ∀ a m', x m = .ok a m' → Blames n own (next a) m' (L a m')) :
    Blames n own (x >>= next) m (thereafter (x m) L) :=
  blames_bind (first.blames ordinary) second

theorem blames_objectMembers (declarations : List Stmt) (members : Bindings) (m : Machine) :
    Blames n own (objectMembers (evaluate n) (execute n) declarations members) m
      (memberStages n declarations members m) := by
  induction declarations generalizing m members with
  | nil => exact blames_pure _
  | cons declaration rest ih =>
    have onward (name : Token) (value : Value) (m' : Machine) : Blames n own (do
        objectMembers (evaluate n) (execute n) rest (← addMember members name value)) m'
          (thereafter (addMember members name value m') (memberStages n rest)) :=
      blames_first ordinary (plain_addMember _ _ _) fun members' m'' _ => ih members' m''
    cases declaration with
    | var name initializer =>
      exact blames_bind (blames_initial initializer m) fun v m' _ => onward name (v.named name) m'
    | function name params body =>
      exact blames_first ordinary (plain_bindFunction _) fun v m' _ => onward name v m'
    | block | expression | branch | returns | loop =>
      exact blames_bind (blames_flow _ m) fun _ m' _ => ih members m'

theorem blames_callFunction (declaration : FunctionDecl) (closure : FrameId) (args : List Value)
    (paren : Token) (m : Machine) :
    Blames n own (callFunction (execute n) declaration closure args paren) m
      (if maxCallDepth ≤ m.depth then []
      else thereafter (bindParameters declaration.params args [] m) fun bound m =>
        flowStages n declaration.body (m.calling ⟨bound, some closure⟩)) := by
  apply blames_get
  split
  · exact (plain_fail rfl _).blames ordinary
  · apply blames_first ordinary (plain_bindParameters _ _ _)
    intro bound m' _
    have called : Blames n own (do
        let frame ← newFrame ⟨bound, some closure⟩
        deeper (inScope frame (statements (execute n) declaration.body))) m'
        (flowStages n declaration.body (m'.calling ⟨bound, some closure⟩)) := by
      apply blames_of_halt _ (blames_statements declaration.body (m'.calling ⟨bound, some closure⟩))
      exact (halt?_deeper _ _).trans (halt?_inScope _ _ _)
    rw [← bind_assoc]
    apply blames_last called
    intro flow m'' _
    cases flow with
    | completed => exact blames_pure _
    | returned v => exact blames_pure _

theorem blames_call (callee : Value) (args : List Value) (paren : Token) (m : Machine)
    (endless : ¬m.output.IsTotal → own .exhausted) :
    Blames n own (Run.call (execute n) callee args paren) m (bodyStages n callee args m) := by
  have refused {cause : Fault.Cause} (usual : cause.isDefensive = false) :
      Blames n own (fail cause paren : Run Value) m [] :=
    (plain_fail usual _).blames ordinary
  unfold Run.call bodyStages
  cases callee.payload with
  | function id =>
    apply blames_heap
    dsimp only
    cases m.heap.functions[id]? with
    | none => exact refused rfl
    | some callable =>
      dsimp only
      by_cases other : args.length ≠ callable.arity
      · rw [if_pos other, if_pos other]
        exact refused rfl
      · rw [if_neg other, if_neg other]
        cases callable with
        | builtin native =>
          intro halt ended
          rcases halt_callNative ended with usual | ⟨rfl, broken⟩
          · exact .inl (ordinary halt usual)
          · exact .inl (endless broken)
        | user declaration closure =>
          exact blames_callFunction ordinary declaration closure args paren m
  | int | bool | string | list | object | null => exact refused rfl

end

/-- A step that a task of another shape is refused. -/
theorem blames_step {st : Stage} {run : Run α} {op : Token}
    (plain : st.task.isShaped = true → Plain run)
    (refused : st.task.isShaped = false → run = fail (.unsupportedOperator op.lexeme) op) :
    Blames n st.Raises run m [] := by
  cases shaped : st.task.isShaped with
  | true => exact (plain shaped).blames fun _ => Stage.raises_of_ordinary
  | false =>
    rw [refused shaped]
    rintro halt ⟨⟩
    exact .inl fun _ => shaped

theorem blames_evaluate (e : Expr) (m : Machine) :
    Blames n (Stage.Raises ⟨.value e, m⟩) (evaluate (n + 1) e) m
      (Stage.parts n ⟨.value e, m⟩) := by
  have ordinary (halt : Halt) : halt.Ordinary → Stage.Raises ⟨.value e, m⟩ halt :=
    Stage.raises_of_ordinary
  cases e with
  | assign target e =>
    cases target with
    | «variable» name =>
      exact blames_one e m fun v m' =>
        (plain_bind (plain_assign name v) fun _ => plain_pure _).blames ordinary
    | access left dot member =>
      exact blames_two e left m fun v object m' =>
        (plain_bind (plain_assignMember object dot member v) fun _ => plain_pure _).blames ordinary
    | assign | binary | index | call | grouping | literal | list | unary | object =>
      apply blames_one e m
      rintro v m' halt ⟨⟩
      exact .inl fun _ => rfl
  | binary left op right =>
    exact blames_two left right m fun a b m' =>
      blames_step (plain_binary a b) (binary_unknown a b)
  | index left bracket position =>
    exact blames_two left position m fun a b m' => (plain_indexAccess a bracket b).blames ordinary
  | access left dot member =>
    exact blames_one left m fun v m' => (plain_dotAccess v dot member).blames ordinary
  | call callee paren args =>
    apply blames_bind (blames_value callee m)
    intro function m' ran
    apply blames_bind (blames_mapM args m')
    intro vs m'' ran'
    have same : m''.output.limit = m.output.limit := by
      have first := limit_evaluate n callee m
      have second := limit_mapM n args m'
      rw [ran] at first
      rw [ran'] at second
      exact second.trans first
    exact blames_call ordinary function vs paren m'' fun broken =>
      .inr fun total => broken ((Output.isTotal_congr same).mpr total)
  | grouping inner =>
    rw [Stage.parts, valueStages_one]
    exact blames_value inner m
  | literal => exact blames_pure _
  | list _ elements =>
    exact blames_last (blames_mapM elements m) fun _ _ _ => (plain_newList _).blames ordinary
  | unary op operand =>
    exact blames_one operand m fun v m' => blames_step (plain_unary v) (unary_unknown v)
  | «variable» name => exact (plain_lookup name).blames ordinary
  | object _ declarations =>
    exact blames_last (blames_objectMembers ordinary declarations [] m) fun _ _ _ =>
      (plain_newObject _).blames ordinary

theorem blames_execute (s : Stmt) (m : Machine) :
    Blames n (Stage.Raises ⟨.flow s, m⟩) (execute (n + 1) s) m
      (Stage.parts n ⟨.flow s, m⟩) := by
  have ordinary (halt : Halt) : halt.Ordinary → Stage.Raises ⟨.flow s, m⟩ halt :=
    Stage.raises_of_ordinary
  have declaring (name : Token) (v : Value) (m' : Machine) : Blames n (Stage.Raises ⟨.flow s, m⟩)
      (do define name v; return Flow.completed) m' [] :=
    (plain_bind (plain_define name v) fun _ => plain_pure _).blames ordinary
  cases s with
  | block body =>
    apply blames_of_halt (halt?_inScope _ _ _)
    exact blames_statements body (m.entering ⟨[], some m.scope⟩)
  | expression e => exact blames_one e m fun _ _ => blames_pure _
  | function name params body =>
    exact blames_last ((plain_bindFunction _).blames ordinary) fun function m' _ =>
      declaring name function m'
  | branch condition thenBranch elseBranch =>
    apply blames_bind (blames_value condition m)
    intro v m' _
    split
    · exact blames_flow thenBranch m'
    · cases elseBranch with
      | none => exact blames_pure _
      | some elseBranch => exact blames_flow elseBranch m'
  | returns _ e => exact blames_last (blames_initial e m) fun _ _ _ => blames_pure _
  | var name initializer =>
    exact blames_last (blames_initial initializer m) fun v m' _ => declaring name (v.named name) m'
  | loop condition body =>
    have loops : Stage.Raises ⟨.flow (.loop condition body), m⟩ .exhausted := .inl rfl
    exact blames_repeatWhile condition body loops n m

end Run

namespace Stage

variable {st : Stage} {halt : Halt} {n : Nat}

/-- A task ends early because of its own step or because of one of its parts. -/
theorem halt?_succ (ended : st.halt? (n + 1) = some halt) :
    st.Raises halt ∨ ∃ part ∈ st.parts n, part.halt? n = some halt := by
  obtain ⟨task, m⟩ := st
  cases task with
  | value e => exact blames_evaluate e m halt ended
  | flow s => exact blames_execute s m halt ended

/-- If a task ends early, a step in its course is to blame, or a task that has no bound left. -/
theorem blame (ended : st.halt? n = some halt) : ∃ begun ∈ st.course n,
    begun.2.Raises halt ∨ begun.1 = 0 ∧ halt = .exhausted := by
  induction n generalizing st with
  | zero =>
    refine ⟨(0, st), List.mem_singleton_self _, .inr ⟨rfl, ?_⟩⟩
    obtain ⟨_ | _, m⟩ := st <;> cases ended <;> rfl
  | succ n ih =>
    rcases halt?_succ ended with own | ⟨part, isPart, same⟩
    · exact ⟨(n + 1, st), List.mem_cons_self, .inl own⟩
    · obtain ⟨begun, member, raised⟩ := ih same
      exact ⟨begun, List.mem_cons_of_mem _ (List.mem_flatMap.mpr ⟨part, isPart, member⟩), raised⟩

end Stage

namespace Run

/-- A program ends early only because one of its statements does. -/
theorem halt?_interpret {n : Nat} {p : List Stmt} {m : Machine} {halt : Halt}
    (ended : halt? (interpret n p m) = some halt) :
    ∃ st ∈ programStages n p m, st.halt? n = some halt := by
  have blames : Blames n (fun _ => False) (interpret n p) m (programStages n p m) :=
    blames_program p m
  exact (blames halt ended).resolve_left id

end Run

end SoftScript
