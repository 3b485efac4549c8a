import SoftScript.Proofs.Printing.Printable
import SoftScript.Proofs.Run.Local
import SoftScript.Proofs.Run.Writing

/-! Laws of runs. A law relates the machine before a run to the machine after it, however the run
ends. It says less of declarations than of everything else, since they alone add to the scope they
stand in. A law that every step of the machine keeps is kept by evaluation and execution. -/
namespace SoftScript

/-- The statements that a statement executes in its own scope. -/
def Stmt.bodies : Stmt → List Stmt
  | .branch _ thenBranch none => [thenBranch]
  | .branch _ thenBranch (some elseBranch) => [thenBranch, elseBranch]
  | .loop _ body => [body]
  | _ => []

/-- Every declared function has a body that meets the conditions. -/
def Heap.Declares (f : Expr → Bool) (g : Bool → Stmt → Bool) (h : Heap) : Prop :=
  ∀ (id : FunctionId) declaration closure, h.functions[id]? = some (.user declaration closure) →
    Stmt.allUphold f g true declaration.body = true

/-- The machine in a scope that has just been made. -/
def Machine.entering (m : Machine) (frame : Frame) : Machine :=
  { m with heap := (m.heap.newFrame frame).2, scope := m.heap.frames.size }

/-- The machine in the scope of a call. -/
def Machine.calling (m : Machine) (frame : Frame) : Machine :=
  { m.entering frame with depth := m.depth + 1 }

namespace Run

variable {α β : Type} {f : Expr → Bool} {g : Bool → Stmt → Bool}
  {Q : Bool → Machine → Machine → Prop} {d : Bool} {m m' : Machine}

/-- What the steps of a machine do under a law: `Q true` holds of declarations, `Q false` of all
else. The trees in question meet conditions on their nodes. -/
structure Law (f : Expr → Bool) (g : Bool → Stmt → Bool) (Q : Bool → Machine → Machine → Prop) :
    Prop where
  refl : ∀ d m, Q d m m
  trans : ∀ {d m m' m''}, Q d m m' → Q d m' m'' → Q d m m''
  weaken : ∀ {m m'}, Q false m m' → Q true m m'
  body : ∀ {inside s b m m'}, g inside s = true → b ∈ s.bodies →
    Q b.isDeclaration m m' → Q false m m'
  newBuiltin : ∀ (m : Machine) native,
    Q false m { m with heap := (m.heap.newFunction (.builtin native)).2 }
  newFunction : ∀ (m : Machine) declaration, Stmt.allUphold f g true declaration.body = true →
    Q false m { m with heap := (m.heap.newFunction (.user declaration m.scope)).2 }
  newList : ∀ (m : Machine) items, Q false m { m with heap := (m.heap.newList items).2 }
  newObject : ∀ (m : Machine) members, Q false m { m with heap := (m.heap.newObject members).2 }
  modifyItems : ∀ (m : Machine) id change,
    Q false m { m with heap := m.heap.modifyItems id change }
  assignMember : ∀ (m : Machine) id name value,
    Q false m { m with heap := m.heap.modifyMembers id (·.modify name fun _ => value) }
  rebind : ∀ (m : Machine) name holder payload, m.heap.holder? m.scope name = some holder →
    Q false m { m with heap := m.heap.rebind holder name payload }
  bind : ∀ (m : Machine) name value, (m.heap.bindings m.scope).contains name = false →
    Q true m { m with heap := m.heap.bind m.scope name value }
  readClock : ∀ m : Machine, Q false m { m with readings := m.readings + 1 }
  write : ∀ (m : Machine) output, output.limit = m.output.limit → Q false m { m with output }
  block : ∀ {m m' : Machine}, Q true (m.entering ⟨[], some m.scope⟩) m' →
    Q false m { m' with scope := m.scope }
  call : ∀ {m m' : Machine} {id : FunctionId} {declaration closure bound},
    m.heap.functions[id]? = some (.user declaration closure) →
    Q true (m.calling ⟨bound, some closure⟩) m' →
    Q false m { m' with scope := m.scope, depth := m'.depth - 1 }

/-- A run keeps the law, and the conditions on declared functions. -/
def Obeys (f : Expr → Bool) (g : Bool → Stmt → Bool) (Q : Bool → Machine → Machine → Prop)
    (d : Bool) (run : Run α) (m : Machine) : Prop :=
  m.heap.Declares f g → (after (run m)).heap.Declares f g ∧ Q d m (after (run m))

theorem declares_of_functions {h h' : Heap} (declares : h.Declares f g)
    (same : h'.functions = h.functions) : h'.Declares f g := by
  unfold Heap.Declares
  rw [same]
  exact declares

/-- A single step that makes no function. -/
theorem obeys_step {run : Run α} (left : after (run m) = m')
    (same : m'.heap.functions = m.heap.functions) (step : Q d m m') : Obeys f g Q d run m := by
  intro declares
  rw [left]
  exact ⟨declares_of_functions declares same, step⟩

/-! What single steps leave. -/

theorem after_inScope (frame : FrameId) (run : Run α) : after (inScope frame run m) =
    { after (run { m with scope := frame }) with scope := m.scope } := by
  unfold inScope
  cases run { m with scope := frame } <;> rfl

theorem after_deeper (run : Run α) : after (deeper run m) =
    { after (run { m with depth := m.depth + 1 }) with
      depth := (after (run { m with depth := m.depth + 1 })).depth - 1 } := by
  unfold deeper
  cases run { m with depth := m.depth + 1 } <;> rfl

/-- Binding parameters leaves the machine alone. -/
theorem machine_bindParameters {params : List Token} {args : List Value} {bound b : Bindings}
    (ran : bindParameters params args bound m = .ok b m') : m' = m := by
  fun_induction bindParameters params args bound with
  | case1 => cases ran
  | case2 _ _ _ _ _ _ ih => exact ih ran
  | case3 => cases ran; rfl

/-! Looking at the machine. -/

theorem obeys_get {next : Machine → Run β} (later : Obeys f g Q d (next m) m) :
    Obeys f g Q d (get >>= next) m :=
  later

theorem obeys_heap {next : Heap → Run β} (later : Obeys f g Q d (next m.heap) m) :
    Obeys f g Q d (heap >>= next) m :=
  later

theorem obeys_text {next : String → Run β} (v : Value)
    (later : ∀ text, Obeys f g Q d (next text) m) : Obeys f g Q d (text v >>= next) m :=
  later _

theorem obeys_itemsOf {next : Array Value → Run β} (v : Value)
    (later : ∀ items, Obeys f g Q d (next items) m) : Obeys f g Q d (itemsOf v >>= next) m := by
  unfold itemsOf
  split
  · exact later _
  · exact later _

/-- What is said of a run may use the conditions on declared functions. -/
theorem obeys_of_declares {run : Run α}
    (h : m.heap.Declares f g → Obeys f g Q d run m) : Obeys f g Q d run m :=
  fun declares => h declares declares

namespace Law

variable (law : Law f g Q)

include law

theorem any (h : Q false m m') : Q d m m' := by
  cases d with
  | false => exact h
  | true => exact law.weaken h

theorem pure (a : α) : Obeys f g Q d (pure a) m :=
  obeys_step rfl rfl (law.refl d m)

theorem throw (halt : Halt) : Obeys f g Q d (throw halt : Run α) m :=
  obeys_step rfl rfl (law.refl d m)

theorem fail (cause : Fault.Cause) (token : Token) :
    Obeys f g Q d (fail cause token : Run α) m :=
  law.throw _

theorem exhausted : Obeys f g Q d (exhausted : Run α) m := law.throw _

theorem seq {x : Run α} {next : α → Run β} (first : Obeys f g Q d x m)
    (later : ∀ a m', x m = .ok a m' → Obeys f g Q d (next a) m') :
    Obeys f g Q d (x >>= next) m := by
  intro declares
  obtain ⟨declares', kept⟩ := first declares
  rw [bind_apply]
  cases ran : x m with
  | error e m' =>
    rw [ran] at declares' kept
    exact ⟨declares', kept⟩
  | ok a m' =>
    rw [ran] at declares' kept
    obtain ⟨declares'', kept'⟩ := later a m' ran declares'
    exact ⟨declares'', law.trans kept kept'⟩

theorem relaxed {x : Run α} (h : Obeys f g Q false x m) : Obeys f g Q d x m := by
  intro declares
  obtain ⟨declares', kept⟩ := h declares
  exact ⟨declares', law.any kept⟩

/-- A run that is followed by an answer only. -/
theorem answer {x : Run α} (a : β) (first : Obeys f g Q d x m) :
    Obeys f g Q d (do let _ ← x; return a) m :=
  law.seq first fun _ _ _ => law.pure a

/-! The steps that touch the heap. -/

theorem obeys_newBuiltin (native : Native) :
    Obeys f g Q false (Run.newFunction (.builtin native)) m := by
  intro declares
  refine ⟨?_, law.newBuiltin m native⟩
  intro id declaration closure found
  rcases (Array.getElem?_push ..).symm.trans found with found
  split at found
  · cases found
  · exact declares id declaration closure found

theorem obeys_newUser {declaration : FunctionDecl}
    (upheld : Stmt.allUphold f g true declaration.body = true) :
    Obeys f g Q false (Run.newFunction (.user declaration m.scope)) m := by
  intro declares
  refine ⟨?_, law.newFunction m declaration upheld⟩
  intro id declaration' closure found
  rcases (Array.getElem?_push ..).symm.trans found with found
  split at found
  · cases found
    exact upheld
  · exact declares id declaration' closure found

theorem obeys_newList (items : Array Value) : Obeys f g Q false (Run.newList items) m :=
  obeys_step rfl rfl (law.newList m items)

theorem obeys_newObject (members : Bindings) : Obeys f g Q false (Run.newObject members) m :=
  obeys_step rfl rfl (law.newObject m members)

theorem obeys_modifyItems (id : ListId) (change : Array Value → Array Value) :
    Obeys f g Q false (Run.modifyItems id change) m :=
  obeys_step rfl rfl (law.modifyItems m id change)

theorem obeys_lookup (name : Token) : Obeys f g Q false (lookup name) m := by
  apply obeys_get
  split
  · exact law.pure _
  · exact law.fail _ _

theorem obeys_define (name : Token) (value : Value) : Obeys f g Q true (define name value) m := by
  apply obeys_get
  split
  · exact law.fail _ _
  · rename_i unbound
    exact obeys_step rfl rfl (law.bind m name.lexeme value (by simpa using unbound))

theorem obeys_assign (name : Token) (value : Value) : Obeys f g Q false (assign name value) m := by
  apply obeys_get
  split
  · rename_i holder found
    exact obeys_step rfl rfl (law.rebind m name.lexeme holder value.payload found)
  · exact law.fail _ _

theorem obeys_readClock : Obeys f g Q false Run.readClock m :=
  obeys_step rfl rfl (law.readClock m)

theorem obeys_write (text : String) (token : Token) :
    Obeys f g Q false (Run.write text token) m := by
  apply obeys_get
  cases ended : m.output.write text with
  | none => exact law.exhausted
  | some outcome =>
    obtain ⟨error, output⟩ := outcome
    apply law.seq (obeys_step rfl rfl (law.write m output (Output.limit_write ended)))
    intro _ m' _
    split
    · exact law.fail _ _
    · exact law.pure _

/-! Operations on values. -/

theorem obeys_dotAccess (v : Value) (dot member : Token) :
    Obeys f g Q false (dotAccess v dot member) m := by
  unfold dotAccess
  split
  · split
    · exact law.pure _
    · exact law.fail _ _
  · split
    · exact obeys_heap (law.pure _)
    · split
      · exact law.obeys_newBuiltin _
      · exact law.fail _ _
  · apply obeys_heap
    split
    · exact law.pure _
    · exact law.fail _ _
  · exact law.fail _ _

theorem obeys_itemAt (v : Value) (bracket : Token) (index : Value) (items : Array Value) :
    Obeys f g Q false (itemAt v bracket index items) m := by
  unfold itemAt
  split
  · exact obeys_text _ fun _ => law.fail _ _
  · split
    · exact law.pure _
    · exact law.fail _ _

theorem obeys_indexAccess (v : Value) (bracket : Token) (index : Value) :
    Obeys f g Q false (indexAccess v bracket index) m := by
  unfold indexAccess
  split
  · exact obeys_heap (law.obeys_itemAt _ _ _ _)
  · exact obeys_heap (law.obeys_itemAt _ _ _ _)
  · exact law.fail _ _

theorem obeys_assignMember (v : Value) (dot member : Token) (value : Value) :
    Obeys f g Q false (Run.assignMember v dot member value) m := by
  unfold Run.assignMember
  split
  · apply obeys_heap
    split
    · exact obeys_step rfl rfl (law.assignMember m _ _ _)
    · exact law.answer _ (law.fail _ _)
  · exact law.fail _ _

theorem obeys_checked (op : Token) (result : Option Integer) :
    Obeys f g Q false (checked op result) m := by
  cases result with
  | none => exact law.fail _ _
  | some value => exact law.pure _

theorem obeys_arithmetic (op : Token) (left right : Value) :
    Obeys f g Q false (arithmetic op left right) m := by
  unfold arithmetic
  split
  · exact law.fail _ _
  · exact law.fail _ _
  · split
    · exact law.obeys_checked _ _
    · exact law.obeys_checked _ _
    · split
      · exact law.fail _ _
      · exact law.obeys_checked _ _
    · split
      · exact law.fail _ _
      · exact law.obeys_checked _ _
    · exact law.pure _
    · exact law.pure _
    · exact law.pure _
    · exact law.pure _
    · exact law.fail _ _

theorem obeys_plus (op : Token) (left right : Value) : Obeys f g Q false (plus op left right) m := by
  have joined : Obeys f g Q false
      (do Run.newList ((← itemsOf left) ++ (← itemsOf right))) m :=
    obeys_itemsOf _ fun _ => obeys_itemsOf _ fun _ => law.obeys_newList _
  unfold plus
  split
  · exact law.obeys_checked _ _
  · exact obeys_text _ fun _ => obeys_text _ fun _ => law.pure _
  · exact obeys_text _ fun _ => obeys_text _ fun _ => law.pure _
  · exact joined
  · exact joined
  · exact law.fail _ _

theorem obeys_either (left right : Value) : Obeys f g Q false (either left right) m := by
  unfold either
  split
  · exact obeys_itemsOf _ fun _ => obeys_itemsOf _ fun _ => law.obeys_newList _
  · exact law.pure _

theorem obeys_both (left right : Value) : Obeys f g Q false (both left right) m := by
  unfold both
  split
  · exact obeys_itemsOf _ fun _ => obeys_itemsOf _ fun _ => law.obeys_newList _
  · exact law.pure _

theorem obeys_binary (op : Token) (left right : Value) :
    Obeys f g Q false (binary op left right) m := by
  unfold binary
  split
  · exact law.pure _
  · exact law.pure _
  · exact law.obeys_plus op left right
  · exact law.obeys_either left right
  · exact law.obeys_both left right
  all_goals first | exact law.obeys_arithmetic op left right | exact law.fail _ _

theorem obeys_unary (op : Token) (operand : Value) : Obeys f g Q false (unary op operand) m := by
  unfold unary
  split
  · exact law.pure _
  · split
    · exact law.obeys_checked _ _
    · exact law.fail _ _
  · exact law.fail _ _

theorem obeys_insertItem (list : ListId) (index value : Value) (paren : Token) :
    Obeys f g Q false (insertItem list index value paren) m := by
  unfold insertItem
  split
  · exact obeys_text _ fun _ => law.fail _ _
  · apply obeys_heap
    dsimp only
    split
    · exact law.obeys_modifyItems _ _
    · exact law.fail _ _

theorem obeys_callNative (native : Native) (args : List Value) (paren : Token) :
    Obeys f g Q false (callNative native args paren) m := by
  cases native with
  | clock => exact law.seq law.obeys_readClock fun _ _ _ => law.pure _
  | print => exact obeys_text _ fun _ => law.answer _ (law.obeys_write _ _)
  | add list => exact law.answer _ (law.obeys_modifyItems _ _)
  | addRange list =>
    unfold callNative
    dsimp only
    split
    · exact obeys_heap (law.answer _ (law.obeys_modifyItems _ _))
    · exact law.fail _ _
  | insert list => exact law.answer _ (law.obeys_insertItem _ _ _ _)
  | remove list => exact law.answer _ (law.obeys_modifyItems _ _)

/-! Scopes. A law of declarations in a new scope is one of all else in the scope around it. -/

theorem obeys_block {run : Run α}
    (inner : Obeys f g Q true run (m.entering ⟨[], some m.scope⟩)) :
    Obeys f g Q false (do
      let frame ← newFrame ⟨[], some (← get).scope⟩
      inScope frame run) m := by
  intro declares
  obtain ⟨declares', kept⟩ := inner declares
  have left := after_inScope (m := { m with heap := (m.heap.newFrame ⟨[], some m.scope⟩).2 })
    m.heap.frames.size run
  refine ⟨?_, ?_⟩
  · exact left ▸ declares'
  · exact left ▸ law.block kept

theorem obeys_called {run : Run α} {next : α → Run β} {id : FunctionId} {closure : FrameId}
    {bound : Bindings} (found : m.heap.functions[id]? = some (.user declaration closure))
    (inner : Obeys f g Q true run (m.calling ⟨bound, some closure⟩))
    (later : ∀ a m', Obeys f g Q false (next a) m') :
    Obeys f g Q false (do
      let frame ← newFrame ⟨bound, some closure⟩
      next (← deeper (inScope frame run))) m := by
  have entered : Obeys f g Q false (do
      let frame ← newFrame ⟨bound, some closure⟩
      deeper (inScope frame run)) m := by
    intro declares
    obtain ⟨declares', kept⟩ := inner declares
    have left := after_deeper (m := { m with heap := (m.heap.newFrame ⟨bound, some closure⟩).2 })
      (inScope m.heap.frames.size run)
    rw [after_inScope] at left
    refine ⟨?_, ?_⟩
    · exact left ▸ declares'
    · have step := law.call found kept
      exact left ▸ step
  rw [← bind_assoc]
  exact law.seq entered fun a m' _ => later a m'

end Law

/-! Evaluation and execution. -/

/-- Expressions that meet the conditions keep the law. -/
def ObeysValues (f : Expr → Bool) (g : Bool → Stmt → Bool) (Q : Bool → Machine → Machine → Prop)
    (evaluate : Expr → Run Value) : Prop :=
  ∀ e inside m, e.upholds f g inside = true → Obeys f g Q false (evaluate e) m

def ObeysFlows (f : Expr → Bool) (g : Bool → Stmt → Bool) (Q : Bool → Machine → Machine → Prop)
    (execute : Stmt → Run Flow) : Prop :=
  ∀ s inside m, s.upholds f g inside = true → Obeys f g Q s.isDeclaration (execute s) m

namespace Law

variable {evaluate : Expr → Run Value} {execute : Stmt → Run Flow} (law : Law f g Q)

include law

theorem obeys_statements (flows : ObeysFlows f g Q execute) {p : List Stmt} {inside : Bool}
    (upheld : Stmt.allUphold f g inside p = true) : Obeys f g Q true (statements execute p) m := by
  induction p generalizing m with
  | nil => exact law.pure _
  | cons s rest ih =>
    simp only [Stmt.allUphold, Bool.and_eq_true] at upheld
    have first : Obeys f g Q true (execute s) m := by
      have kept := flows s inside m upheld.1
      cases declares : s.isDeclaration with
      | true => exact declares ▸ kept
      | false => exact law.relaxed (declares ▸ kept)
    apply law.seq first
    intro flow m' _
    cases flow with
    | completed => exact ih upheld.2
    | returned v => exact law.pure _

theorem obeys_bindFunction {declaration : FunctionDecl}
    (upheld : Stmt.allUphold f g true declaration.body = true) :
    Obeys f g Q false (bindFunction declaration) m := by
  apply obeys_get
  exact law.seq (law.obeys_newUser upheld) fun _ _ _ => law.pure _

theorem obeys_bindParameters (params : List Token) (args : List Value) (bound : Bindings) :
    Obeys f g Q false (bindParameters params args bound) m := by
  fun_induction bindParameters params args bound with
  | case1 => exact law.fail _ _
  | case2 _ _ _ _ _ _ ih => exact ih
  | case3 => exact law.pure _

theorem obeys_callFunction (flows : ObeysFlows f g Q execute) {id : FunctionId}
    {declaration : FunctionDecl} {closure : FrameId}
    (found : m.heap.functions[id]? = some (.user declaration closure)) (args : List Value)
    (paren : Token) : Obeys f g Q false (callFunction execute declaration closure args paren) m := by
  apply obeys_get
  split
  · exact law.fail _ _
  · apply obeys_of_declares
    intro declares
    have upheld := declares id declaration closure found
    apply law.seq (law.obeys_bindParameters _ _ _)
    intro bound m' ran
    rw [machine_bindParameters ran]
    apply law.obeys_called found (law.obeys_statements flows upheld)
    intro flow m''
    cases flow with
    | completed => exact law.pure _
    | returned v => exact law.pure _

theorem obeys_call (flows : ObeysFlows f g Q execute) (callee : Value) (args : List Value)
    (paren : Token) : Obeys f g Q false (Run.call execute callee args paren) m := by
  unfold Run.call
  split
  · apply obeys_heap
    split
    · exact law.fail _ _
    · rename_i callable found
      split
      · exact law.fail _ _
      · split
        · exact law.obeys_callNative _ _ _
        · exact law.obeys_callFunction flows found _ _
  · exact law.fail _ _

theorem obeys_addMember (members : Bindings) (name : Token) (value : Value) :
    Obeys f g Q false (addMember members name value) m := by
  unfold addMember
  split
  · exact law.fail _ _
  · exact law.pure _

theorem obeys_objectMembers (values : ObeysValues f g Q evaluate) (flows : ObeysFlows f g Q execute)
    {declarations : List Stmt} {inside : Bool}
    (upheld : Stmt.allUphold f g inside declarations = true) (members : Bindings) :
    Obeys f g Q false (objectMembers evaluate execute declarations members) m := by
  induction declarations generalizing m members with
  | nil => exact law.pure _
  | cons declaration rest ih =>
    simp only [Stmt.allUphold, Bool.and_eq_true] at upheld
    have onward (name : Token) (value : Value) (m' : Machine) : Obeys f g Q false (do
        objectMembers evaluate execute rest (← addMember members name value)) m' :=
      law.seq (law.obeys_addMember _ _ _) fun members' m'' _ => ih upheld.2 members'
    cases declaration with
    | var name initializer =>
      have first : Obeys f g Q false (initial evaluate initializer) m := by
        cases initializer with
        | none => exact law.pure _
        | some e =>
          simp only [Stmt.upholds, Bool.and_eq_true] at upheld
          exact values e inside m upheld.1.2
      exact law.seq first fun v m' _ => onward name (v.named name) m'
    | function name params body =>
      simp only [Stmt.upholds, Bool.and_eq_true] at upheld
      exact law.seq (law.obeys_bindFunction upheld.1.2) fun v m' _ => onward name v m'
    | block | expression | branch | returns | loop =>
      exact law.seq (flows _ inside m upheld.1) fun _ m' _ => ih upheld.2 members

theorem obeys_repeatWhile {condition : Run Value} {body : Run Flow}
    (values : ∀ m, Obeys f g Q false condition m) (flows : ∀ m, Obeys f g Q false body m) (n : Nat) :
    Obeys f g Q false (repeatWhile condition body n) m := by
  induction n generalizing m with
  | zero => exact law.exhausted
  | succ n ih =>
    apply law.seq (values m)
    intro v m' _
    split
    · apply law.seq (flows m')
      intro flow m'' _
      cases flow with
      | completed => exact ih
      | returned v => exact law.pure _
    · exact law.pure _

theorem obeys_mapM (values : ObeysValues f g Q evaluate) {es : List Expr} {inside : Bool}
    (upheld : Expr.allUphold f g inside es = true) : Obeys f g Q false (es.mapM evaluate) m := by
  induction es generalizing m with
  | nil => exact law.pure _
  | cons e rest ih =>
    simp only [Expr.allUphold, Bool.and_eq_true] at upheld
    rw [List.mapM_cons]
    apply law.seq (values e inside m upheld.1)
    intro v m' _
    exact law.seq (ih upheld.2) fun _ _ _ => law.pure _

theorem values_succ (values : ObeysValues f g Q (Run.evaluate n))
    (flows : ObeysFlows f g Q (Run.execute n)) : ObeysValues f g Q (Run.evaluate (n + 1)) := by
  intro e inside m upheld
  cases e with
  | assign target e =>
    simp only [Expr.upholds, Bool.and_eq_true] at upheld
    apply law.seq (values e inside m upheld.2)
    intro v m' _
    cases target with
    | «variable» name => exact law.answer _ (law.obeys_assign name v)
    | access left dot member =>
      simp only [Expr.upholds, Bool.and_eq_true] at upheld
      apply law.seq (values left inside m' upheld.1.2.2)
      intro object m'' _
      exact law.answer _ (law.obeys_assignMember object dot member v)
    | assign | binary | index | call | grouping | literal | list | unary | object =>
      exact law.answer v (law.fail (α := PUnit) _ _)
  | binary left op right =>
    simp only [Expr.upholds, Bool.and_eq_true] at upheld
    apply law.seq (values left inside m upheld.1.2)
    intro a m' _
    exact law.seq (values right inside m' upheld.2) fun b m'' _ => law.obeys_binary op a b
  | index left bracket position =>
    simp only [Expr.upholds, Bool.and_eq_true] at upheld
    apply law.seq (values left inside m upheld.1.2)
    intro a m' _
    exact law.seq (values position inside m' upheld.2) fun b m'' _ => law.obeys_indexAccess a bracket b
  | access left dot member =>
    simp only [Expr.upholds, Bool.and_eq_true] at upheld
    exact law.seq (values left inside m upheld.2) fun v m' _ => law.obeys_dotAccess v dot member
  | call callee paren args =>
    simp only [Expr.upholds, Bool.and_eq_true] at upheld
    apply law.seq (values callee inside m upheld.1.2)
    intro function m' _
    apply law.seq (law.obeys_mapM values upheld.2)
    intro vs m'' _
    exact law.obeys_call flows function vs paren
  | grouping inner =>
    simp only [Expr.upholds, Bool.and_eq_true] at upheld
    exact values inner inside m upheld.2
  | literal => exact law.pure _
  | list _ elements =>
    simp only [Expr.upholds, Bool.and_eq_true] at upheld
    exact law.seq (law.obeys_mapM values upheld.2) fun _ _ _ => law.obeys_newList _
  | unary op operand =>
    simp only [Expr.upholds, Bool.and_eq_true] at upheld
    exact law.seq (values operand inside m upheld.2) fun v m' _ => law.obeys_unary op v
  | «variable» name => exact law.obeys_lookup name
  | object _ declarations =>
    simp only [Expr.upholds, Bool.and_eq_true] at upheld
    exact law.seq (law.obeys_objectMembers values flows upheld.2 []) fun _ _ _ => law.obeys_newObject _

/-- A branch or the body of a loop adds nothing to the scope around it. -/
theorem flows_body (flows : ObeysFlows f g Q execute) {s b : Stmt} {inside : Bool}
    (node : g inside s = true) (member : b ∈ s.bodies) (upheld : b.upholds f g inside = true)
    (m : Machine) : Obeys f g Q false (execute b) m := by
  intro declares
  obtain ⟨declares', kept⟩ := flows b inside m upheld declares
  exact ⟨declares', law.body node member kept⟩

theorem flows_succ (values : ObeysValues f g Q (Run.evaluate n))
    (flows : ObeysFlows f g Q (Run.execute n)) : ObeysFlows f g Q (Run.execute (n + 1)) := by
  intro s inside m upheld
  cases s with
  | block body =>
    simp only [Stmt.upholds, Bool.and_eq_true] at upheld
    exact law.obeys_block (law.obeys_statements flows upheld.2)
  | expression e =>
    simp only [Stmt.upholds, Bool.and_eq_true] at upheld
    exact law.answer _ (values e inside m upheld.2)
  | function name params body =>
    simp only [Stmt.upholds, Bool.and_eq_true] at upheld
    apply law.seq (law.relaxed (law.obeys_bindFunction upheld.2))
    intro function m' _
    exact law.answer _ (law.obeys_define name function)
  | branch condition thenBranch elseBranch =>
    cases elseBranch with
    | none =>
      simp only [Stmt.upholds, Bool.and_eq_true] at upheld
      apply law.seq (values condition inside m upheld.1.2)
      intro v m' _
      split
      · exact law.flows_body flows upheld.1.1 List.mem_cons_self upheld.2 m'
      · exact law.pure _
    | some elseBranch =>
      simp only [Stmt.upholds, Bool.and_eq_true] at upheld
      apply law.seq (values condition inside m upheld.1.1.2)
      intro v m' _
      split
      · exact law.flows_body flows upheld.1.1.1 List.mem_cons_self upheld.1.2 m'
      · exact law.flows_body flows upheld.1.1.1 (by simp [Stmt.bodies]) upheld.2 m'
  | returns _ e =>
    cases e with
    | none => exact law.pure _
    | some e =>
      simp only [Stmt.upholds, Bool.and_eq_true] at upheld
      exact law.seq (values e inside m upheld.2) fun _ _ _ => law.pure _
  | var name initializer =>
    have first : Obeys f g Q true (initial (Run.evaluate n) initializer) m := by
      cases initializer with
      | none => exact law.pure _
      | some e =>
        simp only [Stmt.upholds, Bool.and_eq_true] at upheld
        exact law.relaxed (values e inside m upheld.2)
    apply law.seq first
    intro v m' _
    exact law.answer _ (law.obeys_define name (v.named name))
  | loop condition body =>
    simp only [Stmt.upholds, Bool.and_eq_true] at upheld
    apply law.obeys_repeatWhile
    · exact fun m' => values condition inside m' upheld.1.2
    · exact law.flows_body flows upheld.1.1 List.mem_cons_self upheld.2

/-- A law that every step keeps is kept by whole runs. -/
theorem obeys_all (n : Nat) :
    ObeysValues f g Q (Run.evaluate n) ∧ ObeysFlows f g Q (Run.execute n) := by
  induction n with
  | zero => exact ⟨fun _ _ _ _ => law.exhausted, fun _ _ _ _ => law.exhausted⟩
  | succ n ih => exact ⟨law.values_succ ih.1 ih.2, law.flows_succ ih.1 ih.2⟩

theorem obeys_interpret (n : Nat) {p : List Stmt} {inside : Bool}
    (upheld : Stmt.allUphold f g inside p = true) : Obeys f g Q true (interpret n p) m := by
  induction p generalizing m with
  | nil => exact law.pure _
  | cons s rest ih =>
    simp only [Stmt.allUphold, Bool.and_eq_true] at upheld
    have first : Obeys f g Q true (Run.execute n s) m := by
      have kept := (law.obeys_all n).2 s inside m upheld.1
      cases declares : s.isDeclaration with
      | true => exact declares ▸ kept
      | false => exact law.relaxed (declares ▸ kept)
    exact law.seq first fun _ _ _ => ih upheld.2

end Law

/-- Whatever the conditions on declared functions are, every step keeps them. -/
theorem declares_law (f : Expr → Bool) (g : Bool → Stmt → Bool) : Law f g fun _ _ _ => True := by
  constructor <;> intros <;> trivial

end Run

end SoftScript
