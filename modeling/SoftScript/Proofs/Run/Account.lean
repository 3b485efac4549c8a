import SoftScript.Proofs.Heap.Members
import SoftScript.Proofs.Run.Blind
import SoftScript.Proofs.Run.Declared

/-! Accounts of runs. What a run prints, the objects it makes and the members it assigns are events,
told in the order of time; each task tells those of its parts and then its own. An account ties a
property of runs to their events. If the steps of the machine have it, evaluation and execution do. -/
namespace SoftScript

/-- What happens in the course of a run. -/
inductive Event where
  /-- A call of `print`, known by its closing parenthesis, and the line it writes. -/
  | print (paren : Token) (line : String)
  /-- An object made by a literal, and the members it begins with. -/
  | make (declarations : List Stmt) (members : Bindings)
  /-- A value assigned to a member that an object has. -/
  | assign (id : ObjectId) (member : Token) (value : Value)

/-- Members that have the names which an object literal declares, each once and in their order. -/
structure Bindings.Shape (declarations : List Stmt) (members : Bindings) : Prop where
  names : members.names.Perm ((declarations.filterMap Stmt.declared?).map Token.lexeme)
  ascending : members.Ascending

/-- Members as they are when an object has just been made. -/
structure Bindings.MadeOf (declarations : List Stmt) (members : Bindings) : Prop
    extends members.Shape declarations where
  own : members.OwnNamed

namespace Run

variable {α β : Type}

/-- The line that a built-in function prints. -/
def nativeEvents (native : Native) (args : List Value) (paren : Token) (m : Machine) :
    List Event :=
  match native with
  | .print => [.print paren (m.heap.text (args[0]?.getD Value.null).payload ++ "\n")]
  | _ => []

/-- What a call does by itself, apart from the body of the function. -/
def callEvents (callee : Value) (args : List Value) (paren : Token) (m : Machine) : List Event :=
  match callee.payload with
  | .function id =>
    match m.heap.functions[id]? with
    | none => []
    | some callable =>
      if args.length ≠ callable.arity then []
      else match callable with
        | .builtin native => nativeEvents native args paren m
        | .user _ _ => []
  | _ => []

def assignEvents (v : Value) (member : Token) (value : Value) (m : Machine) : List Event :=
  match v.payload with
  | .object id =>
    if (m.heap.members id).contains member.lexeme then [.assign id member value] else []
  | _ => []

end Run

open Run

namespace Stage

/-- What a task does by itself once its parts have ended. -/
def ownEvents (n : Nat) : Stage → List Event
  | ⟨.value (.assign (.access left _ member) e), m⟩ =>
    thereafter (evaluate n e m) fun value m =>
      thereafter (evaluate n left m) fun object m => assignEvents object member value m
  | ⟨.value (.call callee paren args), m⟩ =>
    thereafter (evaluate n callee m) fun callee m =>
      thereafter (args.mapM (evaluate n) m) fun args m => callEvents callee args paren m
  | ⟨.value (.object _ declarations), m⟩ =>
    thereafter (objectMembers (evaluate n) (execute n) declarations [] m) fun members _ =>
      [.make declarations members]
  | _ => []

/-- What happens in the course of a task. -/
def events : Nat → Stage → List Event
  | 0, _ => []
  | n + 1, st => (st.parts n).flatMap (events n) ++ st.ownEvents n

end Stage

/-- What happens in the course of a program. -/
def Run.events (n : Nat) (p : List Stmt) (m : Machine) : List Event :=
  (programStages n p m).flatMap (Stage.events n)

namespace Run

variable {m : Machine} {n : Nat}

/-- Something that holds of runs, the tasks they begin, and the events after the last of these. -/
structure Account (n : Nat)
    (H : ⦃α : Type⦄ → Run α → Machine → List Stage → List Event → Prop) : Prop where
  calm : ∀ {α : Type} {run : Run α} (m : Machine), Calm run → H run m [] []
  value : ∀ e m, H (evaluate n e) m [⟨.value e, m⟩] []
  flow : ∀ s m, H (execute n s) m [⟨.flow s, m⟩] []
  look : ∀ {α : Type} {next : Machine → Run α} {m L own},
    (∀ m output, next { m with output } = next m) → H (next m) m L own → H (get >>= next) m L own
  bind : ∀ {α β : Type} {x : Run α} {next : α → Run β} {m L} {L' : α → Machine → List Stage}
    {own : α → Machine → List Event}, H x m L [] →
    (∀ a m', x m = .ok a m' → H (next a) m' (L' a m') (own a m')) →
    H (x >>= next) m (L ++ thereafter (x m) L') (thereafter (x m) own)
  answer : ∀ {α β : Type} {x : Run α} {m L own} (a : β), H x m L own →
    H (do let _ ← x; return a) m L own
  write : ∀ line paren m, H (write line paren) m [] [.print paren line]
  newObject : ∀ {members declarations} m, members.MadeOf declarations →
    H (newObject members) m [] [.make declarations members]
  assignMember : ∀ v dot member value m,
    H (assignMember v dot member value) m [] (assignEvents v member value m)
  assign : ∀ name value m, H (assign name value) m [] []
  define : ∀ {name value} m, value.name = some name → H (define name value) m [] []
  block : ∀ {α : Type} {run : Run α} {m L}, H run (m.entering ⟨[], some m.scope⟩) L [] →
    H (do let frame ← newFrame ⟨[], some (← get).scope⟩; inScope frame run) m L []
  called : ∀ {α : Type} {run : Run α} {m L bound} {closure : FrameId}, bound.OwnNamed →
    H run (m.calling ⟨bound, some closure⟩) L [] →
    H (do let frame ← newFrame ⟨bound, some closure⟩; deeper (inScope frame run)) m L []

/-- Binding parameters names the arguments. -/
theorem ownNamed_bindParameters {params : List Token} {args : List Value} {bound b : Bindings}
    {m' : Machine} (own : bound.OwnNamed) (ran : bindParameters params args bound m = .ok b m') :
    b.OwnNamed := by
  fun_induction bindParameters params args bound with
  | case1 => cases ran
  | case2 _ _ _ _ _ _ ih => exact ih (own.insert rfl) ran
  | case3 =>
    cases ran
    exact own

theorem bind_eq_ok {x : Run α} {next : α → Run β} {b : β} {m'' : Machine}
    (ran : (x >>= next) m = .ok b m'') : ∃ a m', x m = .ok a m' ∧ next a m' = .ok b m'' := by
  rw [bind_apply] at ran
  split at ran
  · rename_i a m' first
    exact ⟨a, m', first, ran⟩
  · cases ran

/-- What the declarations of an object literal add to the members there are. -/
structure Adds (declarations : List Stmt) (members members' : Bindings) : Prop where
  names : members'.names.Perm
    ((declarations.filterMap Stmt.declared?).map Token.lexeme ++ members.names)
  ascending : members.Ascending → members'.Ascending
  own : members.OwnNamed → members'.OwnNamed

theorem adds_addMember {members members' : Bindings} {name : Token} {v : Value} {m' : Machine}
    (known : v.name = some name) (ran : addMember members name v m = .ok members' m') :
    members'.names.Perm (name.lexeme :: members.names) ∧
      (members.Ascending → members'.Ascending) ∧ (members.OwnNamed → members'.OwnNamed) := by
  unfold addMember at ran
  split at ran
  · cases ran
  · rename_i absent
    cases ran
    exact ⟨members.perm_names_insert (by simpa using absent) v, fun ascending => ascending.insert _ _,
      fun own => own.insert known⟩

theorem adds_objectMembers {evaluate : Expr → Run Value} {execute : Stmt → Run Flow}
    {declarations : List Stmt} {members members' : Bindings} {m' : Machine}
    (ran : objectMembers evaluate execute declarations members m = .ok members' m') :
    Adds declarations members members' := by
  induction declarations generalizing m members with
  | nil =>
    cases ran
    exact ⟨List.Perm.refl _, id, id⟩
  | cons declaration rest ih =>
    -- A declaration is added first, and the rest after it.
    have onward (name : Token) (v : Value) (m₁ : Machine) (known : v.name = some name)
        (isDeclared : declaration.declared? = some name)
        (ran : (do objectMembers evaluate execute rest (← addMember members name v)) m₁ =
          .ok members' m') : Adds (declaration :: rest) members members' := by
      obtain ⟨more, m₂, added, later⟩ := bind_eq_ok ran
      obtain ⟨names, ascending, own⟩ := adds_addMember known added
      obtain ⟨names', ascending', own'⟩ := ih later
      refine ⟨?_, ascending' ∘ ascending, own' ∘ own⟩
      rw [List.filterMap_cons_some isDeclared, List.map_cons, List.cons_append]
      exact names'.trans ((names.append_left _).trans List.perm_middle)
    cases declaration with
    | var name initializer =>
      obtain ⟨v, m₁, _, later⟩ := bind_eq_ok ran
      exact onward name (v.named name) m₁ rfl rfl later
    | function name params body =>
      obtain ⟨v, m₁, bound, later⟩ := bind_eq_ok ran
      cases bound
      exact onward name _ _ rfl rfl later
    | block | expression | branch | returns | loop =>
      obtain ⟨_, m₁, _, later⟩ := bind_eq_ok ran
      obtain ⟨names, ascending, own⟩ := ih later
      exact ⟨names, ascending, own⟩

theorem madeOf_objectMembers {evaluate : Expr → Run Value} {execute : Stmt → Run Flow}
    {declarations : List Stmt} {members : Bindings} {m' : Machine}
    (ran : objectMembers evaluate execute declarations [] m = .ok members m') :
    members.MadeOf declarations := by
  obtain ⟨names, ascending, own⟩ := adds_objectMembers ran
  rw [Bindings.names_nil, List.append_nil] at names
  exact ⟨⟨names, ascending .nil⟩, own Bindings.ownNamed_nil⟩

namespace Account

variable {H : ⦃α : Type⦄ → Run α → Machine → List Stage → List Event → Prop}
  (account : Account n H)

include account

theorem pure (a : α) (m : Machine) : H (Pure.pure a : Run α) m [] [] :=
  account.calm m (calm_pure a)

/-- What goes before the first task. -/
theorem first {x : Run α} {next : α → Run β} {L : α → Machine → List Stage}
    {own : α → Machine → List Event} (calm : Calm x)
    (later : ∀ a m', x m = .ok a m' → H (next a) m' (L a m') (own a m')) :
    H (x >>= next) m (thereafter (x m) L) (thereafter (x m) own) :=
  account.bind (account.calm m calm) later

theorem heap {next : Heap → Run α} {L : List Stage} {own : List Event}
    (later : H (next m.heap) m L own) : H (Run.heap >>= next) m L own := by
  have whole : H (Run.heap >>= next) m (thereafter (Run.heap m) fun _ _ => L)
      (thereafter (Run.heap m) fun _ _ => own) := by
    apply account.first calm_heap
    rintro h m' ⟨⟩
    exact later
  exact whole

/-- What follows the last task. -/
theorem last {x : Run α} {next : α → Run β} {L : List Stage} {own : α → Machine → List Event}
    (before : H x m L []) (later : ∀ a m', x m = .ok a m' → H (next a) m' [] (own a m')) :
    H (x >>= next) m L (thereafter (x m) own) := by
  have whole : H (x >>= next) m (L ++ thereafter (x m) fun _ _ => []) (thereafter (x m) own) :=
    account.bind before later
  rwa [thereafter_nil, List.append_nil] at whole

/-- Tasks with no events after them. -/
theorem quiet {x : Run α} {next : α → Run β} {L : List Stage} {L' : α → Machine → List Stage}
    (before : H x m L []) (later : ∀ a m', x m = .ok a m' → H (next a) m' (L' a m') []) :
    H (x >>= next) m (L ++ thereafter (x m) L') [] := by
  have whole : H (x >>= next) m (L ++ thereafter (x m) L') (thereafter (x m) fun _ _ => []) :=
    account.bind before later
  rwa [thereafter_nil] at whole

/-- Nothing of note follows the last task. -/
theorem ending {x : Run α} {next : α → Run β} {L : List Stage} (before : H x m L [])
    (later : ∀ a m', x m = .ok a m' → H (next a) m' [] []) : H (x >>= next) m L [] := by
  have whole : H (x >>= next) m (L ++ thereafter (x m) fun _ _ => []) [] :=
    account.quiet before later
  rwa [thereafter_nil, List.append_nil] at whole

theorem one (e : Expr) {next : Value → Run α} (m : Machine) (later : ∀ v m', H (next v) m' [] []) :
    H (evaluate n e >>= next) m (valueStages n [e] m) [] := by
  rw [valueStages_one]
  exact account.ending (account.value e m) fun v m' _ => later v m'

theorem two (a b : Expr) {next : Value → Value → Run α}
    {own : Value → Value → Machine → List Event} (m : Machine)
    (later : ∀ v w m', H (next v w) m' [] (own v w m')) :
    H (do next (← evaluate n a) (← evaluate n b)) m (valueStages n [a, b] m)
      (thereafter (evaluate n a m) fun v m' => thereafter (evaluate n b m') (own v)) := by
  rw [valueStages_two]
  apply account.bind (account.value a m)
  intro v m' _
  exact account.last (account.value b m') fun w m'' _ => later v w m''

theorem calmTwo (a b : Expr) {next : Value → Value → Run α} (m : Machine)
    (later : ∀ v w, Calm (next v w)) :
    H (do next (← evaluate n a) (← evaluate n b)) m (valueStages n [a, b] m) [] := by
  have whole : H (do next (← evaluate n a) (← evaluate n b)) m (valueStages n [a, b] m)
      (thereafter (evaluate n a m) fun _ m' => thereafter (evaluate n b m') fun _ _ => []) :=
    account.two a b m fun v w m' => account.calm m' (later v w)
  simpa using whole

theorem mapM (es : List Expr) (m : Machine) :
    H (es.mapM (evaluate n)) m (valueStages n es m) [] := by
  induction es generalizing m with
  | nil => exact account.pure _ m
  | cons e rest ih =>
    rw [List.mapM_cons]
    apply account.quiet (account.value e m)
    intro v m' _
    exact account.ending (ih m') fun _ m'' _ => account.pure _ m''

theorem statements (p : List Stmt) (m : Machine) :
    H (statements (execute n) p) m (flowStages n p m) [] := by
  induction p generalizing m with
  | nil => exact account.pure _ m
  | cons s rest ih =>
    apply account.quiet (account.flow s m)
    intro flow m' _
    cases flow with
    | completed => exact ih m'
    | returned v => exact account.pure _ m'

theorem interpret (p : List Stmt) (m : Machine) :
    H (interpret n p) m (programStages n p m) [] := by
  induction p generalizing m with
  | nil => exact account.pure _ m
  | cons s rest ih =>
    apply account.quiet (account.flow s m)
    intro _ m' _
    exact ih m'

theorem initial (initializer : Option Expr) (m : Machine) :
    H (initial (evaluate n) initializer) m (valueStages n initializer.toList m) [] := by
  cases initializer with
  | none => exact account.pure _ m
  | some e =>
    rw [Option.toList_some, valueStages_one]
    exact account.value e m

theorem objectMembers (declarations : List Stmt) (members : Bindings) (m : Machine) :
    H (objectMembers (evaluate n) (execute n) declarations members) m
      (memberStages n declarations members m) [] := by
  induction declarations generalizing m members with
  | nil => exact account.pure _ m
  | cons declaration rest ih =>
    have onward (name : Token) (value : Value) (m' : Machine) : H (do
        Run.objectMembers (evaluate n) (execute n) rest (← addMember members name value)) m'
          (thereafter (addMember members name value m') (memberStages n rest)) [] :=
      account.quiet (account.calm m' (calm_addMember members name value))
        fun members' m'' _ => ih members' m''
    cases declaration with
    | var name initializer =>
      exact account.quiet (account.initial initializer m) fun v m' _ => onward name (v.named name) m'
    | function name params body =>
      exact account.quiet (account.calm m (calm_bindFunction _)) fun v m' _ => onward name v m'
    | block | expression | branch | returns | loop =>
      exact account.quiet (account.flow _ m) fun _ m' _ => ih members m'

theorem repeatWhile (condition : Expr) (body : Stmt) (rounds : Nat) (m : Machine) :
    H (repeatWhile (evaluate n condition) (execute n body) rounds) m
      (roundStages n condition body rounds m) [] := by
  induction rounds generalizing m with
  | zero => exact account.calm m calm_exhausted
  | succ rounds ih =>
    apply account.quiet (account.value condition m)
    intro v m' _
    split
    · apply account.quiet (account.flow body m')
      intro flow m'' _
      cases flow with
      | completed => exact ih m''
      | returned v => exact account.pure _ m''
    · exact account.pure _ m'

theorem callFunction (declaration : FunctionDecl) (closure : FrameId) (args : List Value)
    (paren : Token) (m : Machine) :
    H (callFunction (execute n) declaration closure args paren) m
      (if maxCallDepth ≤ m.depth then []
      else thereafter (bindParameters declaration.params args [] m) fun bound m =>
        flowStages n declaration.body (m.calling ⟨bound, some closure⟩)) [] := by
  apply account.look fun _ _ => rfl
  split
  · exact account.calm m (calm_fail _ _)
  · apply account.quiet (account.calm m (calm_bindParameters _ _ _))
    intro bound m' ran
    rw [← bind_assoc]
    apply account.ending (account.called
      (ownNamed_bindParameters Bindings.ownNamed_nil ran) (account.statements declaration.body _))
    intro flow m'' _
    cases flow with
    | completed => exact account.pure _ m''
    | returned v => exact account.pure _ m''

theorem callNative (native : Native) (args : List Value) (paren : Token) (m : Machine) :
    H (callNative native args paren) m [] (nativeEvents native args paren m) := by
  cases native with
  | print =>
    exact account.first (calm_text _) fun line m' _ => account.answer _ (account.write _ paren m')
  | clock | add | addRange | insert | remove =>
    exact account.calm m (calm_callNative (by simp) args paren)

theorem call (callee : Value) (args : List Value) (paren : Token) (m : Machine) :
    H (call (execute n) callee args paren) m (bodyStages n callee args m)
      (callEvents callee args paren m) := by
  have refused (cause : Fault.Cause) : H (fail cause paren : Run Value) m [] [] :=
    account.calm m (calm_fail _ _)
  unfold Run.call bodyStages callEvents
  cases callee.payload with
  | function id =>
    apply account.heap
    dsimp only
    cases m.heap.functions[id]? with
    | none => exact refused _
    | some callable =>
      dsimp only
      by_cases other : args.length ≠ callable.arity
      · rw [if_pos other, if_pos other, if_pos other]
        exact refused _
      · rw [if_neg other, if_neg other, if_neg other]
        cases callable with
        | builtin native => exact account.callNative native args paren m
        | user declaration closure => exact account.callFunction declaration closure args paren m
  | int | bool | string | list | object | null => exact refused _

/-- A property of which there is an account holds of the evaluation of every expression. -/
theorem evaluate (e : Expr) (m : Machine) :
    H (evaluate (n + 1) e) m (Stage.parts n ⟨.value e, m⟩) (Stage.ownEvents n ⟨.value e, m⟩) := by
  cases e with
  | assign target e =>
    cases target with
    | «variable» name =>
      exact account.one e m fun v m' => account.answer _ (account.assign name v m')
    | access left dot member =>
      exact account.two e left m fun v object m' =>
        account.answer _ (account.assignMember object dot member v m')
    | assign | binary | index | call | grouping | literal | list | unary | object =>
      exact account.one e m fun v m' => account.answer v (account.calm m' (calm_fail _ _))
  | binary left op right => exact account.calmTwo left right m (calm_binary op)
  | index left bracket position =>
    exact account.calmTwo left position m fun v => calm_indexAccess v bracket
  | access left dot member =>
    exact account.one left m fun v m' => account.calm m' (calm_dotAccess v dot member)
  | call callee paren args =>
    apply account.bind (account.value callee m)
    intro function m' _
    apply account.bind (account.mapM args m')
    intro vs m'' _
    exact account.call function vs paren m''
  | grouping inner =>
    rw [Stage.parts, valueStages_one]
    exact account.value inner m
  | literal => exact account.pure _ m
  | list _ elements =>
    exact account.ending (account.mapM elements m) fun _ m' _ => account.calm m' (calm_newList _)
  | unary op operand => exact account.one operand m fun v m' => account.calm m' (calm_unary op v)
  | «variable» name => exact account.calm m (calm_lookup name)
  | object _ declarations =>
    exact account.last (account.objectMembers declarations [] m) fun members m' ran =>
      account.newObject m' (madeOf_objectMembers ran)

/-- It holds of the execution of every statement too. -/
theorem execute (s : Stmt) (m : Machine) :
    H (execute (n + 1) s) m (Stage.parts n ⟨.flow s, m⟩) (Stage.ownEvents n ⟨.flow s, m⟩) := by
  cases s with
  | block body => exact account.block (account.statements body _)
  | expression e => exact account.one e m fun _ m' => account.pure _ m'
  | function name params body =>
    apply account.ending (account.calm m (calm_bindFunction _))
    rintro function m' ⟨⟩
    exact account.answer _ (account.define _ rfl)
  | branch condition thenBranch elseBranch =>
    apply account.quiet (account.value condition m)
    intro v m' _
    split
    · exact account.flow thenBranch m'
    · cases elseBranch with
      | none => exact account.pure _ m'
      | some elseBranch => exact account.flow elseBranch m'
  | returns _ e => exact account.ending (account.initial e m) fun _ m' _ => account.pure _ m'
  | var name initializer =>
    exact account.ending (account.initial initializer m) fun v m' _ =>
      account.answer _ (account.define m' rfl)
  | loop condition body => exact account.repeatWhile condition body n m

end Account

end Run

end SoftScript
