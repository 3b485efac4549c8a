import SoftScript.Proofs.Heap.Hollow
import SoftScript.Proofs.Run.Declared

/-! Runs take no notice of an empty scope. With that scope taken out a run goes the same way, and
leaves what it left before with the scope taken out. The empty scope may even be the current one,
as long as nothing is declared in it. -/
namespace SoftScript

/-- A machine without one of its scopes. Where it was the current one, the scope around it is. -/
def Machine.without (gone outer : Nat) (m : Machine) : Machine :=
  { m with heap := m.heap.without gone outer, scope := skip gone outer m.scope }

namespace Run

variable {α β : Type} {gone outer scope : Nat}

/-- Two runs that do the same in a scope, the second one without the empty scope. -/
def Skips (gone outer scope : Nat) (x x' : Run α) : Prop :=
  ∀ m : Machine, m.scope = scope → m.heap.Hollow gone outer →
    x' (m.without gone outer) = leaving (·.without gone outer) (x m) ∧
      (after (x m)).heap.Hollow gone outer ∧ (after (x m)).scope = scope

theorem skips_pure (a : α) : Skips gone outer scope (pure a) (pure a) :=
  fun _ here hollow => ⟨rfl, hollow, here⟩

theorem skips_fail (cause : Fault.Cause) (token : Token) :
    Skips gone outer scope (fail cause token : Run α) (fail cause token) :=
  fun _ here hollow => ⟨rfl, hollow, here⟩

theorem skips_exhausted : Skips gone outer scope (exhausted : Run α) exhausted :=
  fun _ here hollow => ⟨rfl, hollow, here⟩

theorem skips_bind {x x' : Run α} {next next' : α → Run β} (first : Skips gone outer scope x x')
    (later : ∀ a, Skips gone outer scope (next a) (next' a)) :
    Skips gone outer scope (x >>= next) (x' >>= next') := by
  intro m here hollow
  obtain ⟨same, hollow', here'⟩ := first m here hollow
  rw [bind_apply, bind_apply, same]
  cases ran : x m with
  | ok a m' =>
    rw [ran] at hollow' here'
    exact later a m' here' hollow'
  | error e m' =>
    rw [ran] at hollow' here'
    exact ⟨rfl, hollow', here'⟩

theorem skips_get {next next' : Machine → Run α}
    (later : ∀ m : Machine, m.scope = scope → m.heap.Hollow gone outer →
      Skips gone outer scope (next m) (next' (m.without gone outer))) :
    Skips gone outer scope (get >>= next) (get >>= next') :=
  fun m here hollow => later m here hollow m here hollow

theorem skips_heap {next next' : Heap → Run α}
    (later : ∀ h : Heap, Skips gone outer scope (next h) (next' (h.without gone outer))) :
    Skips gone outer scope (heap >>= next) (heap >>= next') :=
  fun m here hollow => later m.heap m here hollow

theorem skips_text {next next' : String → Run α} (v : Value)
    (later : ∀ s, Skips gone outer scope (next s) (next' s)) :
    Skips gone outer scope (text v >>= next) (text v >>= next') := by
  intro m here hollow
  have same := later (m.heap.text v.payload) m here hollow
  change next' ((m.heap.without gone outer).text v.payload) _ = _ ∧ _
  rw [Heap.text_without]
  exact same

theorem skips_itemsOf {next next' : Array Value → Run α} (v : Value)
    (later : ∀ items, Skips gone outer scope (next items) (next' items)) :
    Skips gone outer scope (itemsOf v >>= next) (itemsOf v >>= next') := by
  unfold itemsOf
  split
  · exact fun m here hollow => later _ m here hollow
  · exact later _

/-- A step that changes no scope. -/
theorem skips_step {x x' : Run α} (a : Machine → α) (step : Machine → Machine)
    (ran : ∀ m, x m = .ok (a m) (step m))
    (ran' : ∀ m : Machine, m.scope = scope →
      x' (m.without gone outer) = .ok (a m) ((step m).without gone outer))
    (frames : ∀ m, (step m).heap.frames = m.heap.frames) (still : ∀ m, (step m).scope = m.scope) :
    Skips gone outer scope x x' := by
  intro m here hollow
  rw [ran, ran' m here]
  exact ⟨rfl, hollow.of_frames (frames m), (still m).trans here⟩

theorem skips_newList (items : Array Value) :
    Skips gone outer scope (newList items) (newList items) :=
  skips_step _ _ (fun _ => rfl) (fun _ _ => rfl) (fun _ => rfl) fun _ => rfl

theorem skips_newObject (members : Bindings) :
    Skips gone outer scope (newObject members) (newObject members) :=
  skips_step _ _ (fun _ => rfl) (fun _ _ => rfl) (fun _ => rfl) fun _ => rfl

theorem skips_modifyItems (id : ListId) (change : Array Value → Array Value) :
    Skips gone outer scope (modifyItems id change) (modifyItems id change) :=
  skips_step _ _ (fun _ => rfl) (fun _ _ => rfl) (fun _ => rfl) fun _ => rfl

theorem skips_modifyMembers (id : ObjectId) (change : Bindings → Bindings) :
    Skips gone outer scope (modifyMembers id change) (modifyMembers id change) :=
  skips_step _ _ (fun _ => rfl) (fun _ _ => rfl) (fun _ => rfl) fun _ => rfl

theorem skips_readClock : Skips gone outer scope readClock readClock :=
  skips_step _ _ (fun _ => rfl) (fun _ _ => rfl) (fun _ => rfl) fun _ => rfl

theorem skips_newFunction (c : Callable) :
    Skips gone outer scope (newFunction c) (newFunction (c.skipping gone outer)) := by
  refine skips_step (fun m => .of (.function m.heap.functions.size))
    (fun m => { m with heap := (m.heap.newFunction c).2 }) (fun _ => rfl) (fun m _ => ?_)
    (fun _ => rfl) fun _ => rfl
  have size : (m.heap.without gone outer).functions.size = m.heap.functions.size :=
    Array.size_map
  change EStateM.Result.ok (Value.of (.function (m.heap.without gone outer).functions.size))
    { m.without gone outer with
      heap := ((m.heap.without gone outer).newFunction (c.skipping gone outer)).2 } = _
  rw [size, ← Heap.newFunction_without]
  rfl

theorem skips_bindFunction (declaration : FunctionDecl) :
    Skips gone outer scope (bindFunction declaration) (bindFunction declaration) := by
  apply skips_get
  intro m here _
  exact skips_bind (skips_newFunction (.user declaration m.scope)) fun _ => skips_pure _

theorem skips_write (line : String) (token : Token) :
    Skips gone outer scope (write line token) (write line token) := by
  intro m here hollow
  have output : (m.without gone outer).output = m.output := rfl
  rw [write_apply, write_apply, output]
  rcases m.output.write line with _ | ⟨_ | error, output⟩
  all_goals exact ⟨rfl, hollow, here⟩

/-! Names. -/

theorem skips_lookup (name : Token) : Skips gone outer scope (lookup name) (lookup name) := by
  intro m here hollow
  have found : (m.without gone outer).heap.lookup? (m.without gone outer).scope name.lexeme =
      m.heap.lookup? m.scope name.lexeme := hollow.lookup?_without _ _
  rw [lookup_apply, lookup_apply, found]
  cases m.heap.lookup? m.scope name.lexeme with
  | none => exact ⟨rfl, hollow, here⟩
  | some v => exact ⟨rfl, hollow, here⟩

theorem skips_assign (name : Token) (value : Value) :
    Skips gone outer scope (assign name value) (assign name value) := by
  intro m here hollow
  have moved : (m.without gone outer).heap.holder? (m.without gone outer).scope name.lexeme =
      (m.heap.holder? m.scope name.lexeme).map (skip gone outer) := hollow.holder?_without _ _
  rw [assign_apply, assign_apply, moved]
  cases found : m.heap.holder? m.scope name.lexeme with
  | none => exact ⟨rfl, hollow, here⟩
  | some holder =>
    have other := hollow.holder?_ne found
    have kept : (m.heap.rebind holder name.lexeme value.payload).Hollow gone outer :=
      hollow.modifyBindings other _
    refine ⟨?_, kept, here⟩
    simp only [Option.map_some, leaving, Machine.without, Heap.rebind,
      Heap.modifyBindings_without other]

/-- Names are not declared in the empty scope. -/
theorem skips_define (other : scope ≠ gone) (name : Token) (value : Value) :
    Skips gone outer scope (define name value) (define name value) := by
  intro m here hollow
  rw [← here] at other
  rw [define_apply, define_apply]
  change (if ((m.heap.without gone outer).bindings (skip gone outer m.scope)).contains _ = true
    then _ else _) = _ ∧ _
  rw [Heap.bindings_without other]
  split
  · exact ⟨rfl, hollow, here⟩
  · have kept : (m.heap.bind m.scope name.lexeme value).Hollow gone outer :=
      hollow.modifyBindings other _
    refine ⟨?_, kept, here⟩
    simp only [leaving, Machine.without, Heap.bind, Heap.modifyBindings_without other]

/-! Scopes. -/

/-- A new scope is another one than the empty one, and lies in the same scope as before. -/
theorem skips_newFrame {next next' : FrameId → Run α} (bound : Bindings) (around : FrameId)
    (later : ∀ id ≠ gone, Skips gone outer scope (next id) (next' (skip gone outer id))) :
    Skips gone outer scope (newFrame ⟨bound, some around⟩ >>= next)
      (newFrame ⟨bound, some (skip gone outer around)⟩ >>= next') := by
  intro m here hollow
  have there := hollow.there
  have place : (m.heap.without gone outer).frames.size = skip gone outer m.heap.frames.size := by
    have := hollow.size_without
    rw [skip_of_gt there]
    omega
  have entered : { m.without gone outer with heap := ((m.heap.without gone outer).newFrame
      ⟨bound, some (skip gone outer around)⟩).2 } =
      { m with heap := (m.heap.newFrame ⟨bound, some around⟩).2 }.without gone outer := by
    simp only [Machine.without, hollow.newFrame_without]
    rfl
  have made := later m.heap.frames.size (Nat.ne_of_gt there)
    { m with heap := (m.heap.newFrame ⟨bound, some around⟩).2 } here (hollow.newFrame _)
  change next' (m.heap.without gone outer).frames.size _ = _ ∧ _
  rw [place]
  exact entered ▸ made

theorem skips_inScope {frame : FrameId} {x x' : Run α} (inner : Skips gone outer frame x x') :
    Skips gone outer scope (inScope frame x) (inScope (skip gone outer frame) x') := by
  intro m here hollow
  obtain ⟨same, hollow', _⟩ := inner { m with scope := frame } rfl hollow
  have same : x' { m.without gone outer with scope := skip gone outer frame } =
      leaving (·.without gone outer) (x { m with scope := frame }) := same
  unfold inScope
  simp only [same]
  cases ran : x { m with scope := frame } with
  | ok a m' =>
    rw [ran] at hollow'
    exact ⟨rfl, hollow', here⟩
  | error e m' =>
    rw [ran] at hollow'
    exact ⟨rfl, hollow', here⟩

theorem skips_deeper {x x' : Run α} (inner : Skips gone outer scope x x') :
    Skips gone outer scope (deeper x) (deeper x') := by
  intro m here hollow
  obtain ⟨same, hollow', here'⟩ := inner { m with depth := m.depth + 1 } here hollow
  have same : x' { m.without gone outer with depth := (m.without gone outer).depth + 1 } =
      leaving (·.without gone outer) (x { m with depth := m.depth + 1 }) := same
  unfold deeper
  rw [same]
  cases ran : x { m with depth := m.depth + 1 } with
  | ok a m' =>
    rw [ran] at hollow' here'
    exact ⟨rfl, hollow', here'⟩
  | error e m' =>
    rw [ran] at hollow' here'
    exact ⟨rfl, hollow', here'⟩

/-! Operations on values. -/

theorem skips_newBuiltin (native : Native) :
    Skips gone outer scope (newFunction (.builtin native)) (newFunction (.builtin native)) :=
  skips_newFunction (.builtin native)

theorem skips_dotAccess (v : Value) (dot member : Token) :
    Skips gone outer scope (dotAccess v dot member) (dotAccess v dot member) := by
  unfold dotAccess
  split
  · split
    · exact skips_pure _
    · exact skips_fail _ _
  · split
    · exact skips_heap fun _ => skips_pure _
    · split
      · exact skips_newBuiltin _
      · exact skips_fail _ _
  · apply skips_heap
    intro h
    rw [Heap.members_without]
    split
    · exact skips_pure _
    · exact skips_fail _ _
  · exact skips_fail _ _

theorem skips_itemAt (v : Value) (bracket : Token) (index : Value) (items : Array Value) :
    Skips gone outer scope (itemAt v bracket index items) (itemAt v bracket index items) := by
  unfold itemAt
  split
  · exact skips_text _ fun _ => skips_fail _ _
  · split
    · exact skips_pure _
    · exact skips_fail _ _

theorem skips_indexAccess (v : Value) (bracket : Token) (index : Value) :
    Skips gone outer scope (indexAccess v bracket index) (indexAccess v bracket index) := by
  unfold indexAccess
  split
  · exact skips_heap fun _ => skips_itemAt _ _ _ _
  · exact skips_heap fun _ => skips_itemAt _ _ _ _
  · exact skips_fail _ _

theorem skips_assignMember (v : Value) (dot member : Token) (value : Value) :
    Skips gone outer scope (assignMember v dot member value)
      (assignMember v dot member value) := by
  unfold assignMember
  split
  · apply skips_heap
    intro h
    rw [Heap.members_without]
    split
    · exact skips_modifyMembers _ _
    · exact skips_bind (skips_fail _ _) fun _ => skips_pure _
  · exact skips_fail _ _

theorem skips_checked (op : Token) (result : Option Integer) :
    Skips gone outer scope (checked op result) (checked op result) := by
  cases result with
  | none => exact skips_fail _ _
  | some value => exact skips_pure _

theorem skips_arithmetic (op : Token) (left right : Value) :
    Skips gone outer scope (arithmetic op left right) (arithmetic op left right) := by
  unfold arithmetic
  split
  · exact skips_fail _ _
  · exact skips_fail _ _
  · split
    · exact skips_checked _ _
    · exact skips_checked _ _
    · split
      · exact skips_fail _ _
      · exact skips_checked _ _
    · split
      · exact skips_fail _ _
      · exact skips_checked _ _
    · exact skips_pure _
    · exact skips_pure _
    · exact skips_pure _
    · exact skips_pure _
    · exact skips_fail _ _

theorem skips_plus (op : Token) (left right : Value) :
    Skips gone outer scope (plus op left right) (plus op left right) := by
  unfold plus
  split
  · exact skips_checked _ _
  · exact skips_text _ fun _ => skips_text _ fun _ => skips_pure _
  · exact skips_text _ fun _ => skips_text _ fun _ => skips_pure _
  · exact skips_itemsOf _ fun _ => skips_itemsOf _ fun _ => skips_newList _
  · exact skips_itemsOf _ fun _ => skips_itemsOf _ fun _ => skips_newList _
  · exact skips_fail _ _

theorem skips_either (left right : Value) :
    Skips gone outer scope (either left right) (either left right) := by
  unfold either
  split
  · exact skips_itemsOf _ fun _ => skips_itemsOf _ fun _ => skips_newList _
  · exact skips_pure _

theorem skips_both (left right : Value) :
    Skips gone outer scope (both left right) (both left right) := by
  unfold both
  split
  · exact skips_itemsOf _ fun _ => skips_itemsOf _ fun _ => skips_newList _
  · exact skips_pure _

theorem skips_binary (op : Token) (left right : Value) :
    Skips gone outer scope (binary op left right) (binary op left right) := by
  unfold binary
  split
  · exact skips_pure _
  · exact skips_pure _
  · exact skips_plus op left right
  · exact skips_either left right
  · exact skips_both left right
  case h_14 => exact skips_fail _ _
  all_goals exact skips_arithmetic op left right

theorem skips_unary (op : Token) (operand : Value) :
    Skips gone outer scope (unary op operand) (unary op operand) := by
  unfold unary
  split
  · exact skips_pure _
  · split
    · exact skips_checked _ _
    · exact skips_fail _ _
  · exact skips_fail _ _

theorem skips_insertItem (list : ListId) (index value : Value) (paren : Token) :
    Skips gone outer scope (insertItem list index value paren)
      (insertItem list index value paren) := by
  unfold insertItem
  split
  · exact skips_text _ fun _ => skips_fail _ _
  · apply skips_heap
    intro h
    dsimp only
    rw [Heap.items_without]
    split
    · exact skips_modifyItems _ _
    · exact skips_fail _ _

theorem skips_callNative (native : Native) (args : List Value) (paren : Token) :
    Skips gone outer scope (callNative native args paren) (callNative native args paren) := by
  have answer {x : Run Unit} (first : Skips gone outer scope x x) :
      Skips gone outer scope (do x; return Value.null) (do x; return Value.null) :=
    skips_bind first fun _ => skips_pure _
  cases native with
  | clock => exact skips_bind skips_readClock fun _ => skips_pure _
  | print => exact skips_text _ fun _ => answer (skips_write _ _)
  | add list => exact answer (skips_modifyItems _ _)
  | addRange list =>
    unfold callNative
    dsimp only
    split
    · exact skips_heap fun _ => answer (skips_modifyItems _ _)
    · exact skips_fail _ _
  | insert list => exact answer (skips_insertItem _ _ _ _)
  | remove list => exact answer (skips_modifyItems _ _)

/-! Evaluation and execution. -/

/-- Expressions in whose statements nothing but blocks and functions declares names. -/
def SkipsValues (gone outer : Nat) (evaluate : Expr → Run Value) : Prop :=
  ∀ e inside scope,
    (scope = gone → e.upholds (fun _ => true) (fun _ => Stmt.sparesScope) inside = true) →
    Skips gone outer scope (evaluate e) (evaluate e)

def SkipsFlows (gone outer : Nat) (execute : Stmt → Run Flow) : Prop :=
  ∀ s inside scope, (scope = gone → s.isDeclaration = false ∧
      s.upholds (fun _ => true) (fun _ => Stmt.sparesScope) inside = true) →
    Skips gone outer scope (execute s) (execute s)

section

variable {evaluate : Expr → Run Value} {execute : Stmt → Run Flow}

theorem skips_statements (flows : SkipsFlows gone outer execute) (inside : Bool) {p : List Stmt}
    (spare : ∀ s ∈ p, scope = gone → s.isDeclaration = false ∧
      s.upholds (fun _ => true) (fun _ => Stmt.sparesScope) inside = true) :
    Skips gone outer scope (statements execute p) (statements execute p) := by
  induction p with
  | nil => exact skips_pure _
  | cons s rest ih =>
    simp only [List.mem_cons, forall_eq_or_imp] at spare
    apply skips_bind (flows s inside scope spare.1)
    intro flow
    cases flow with
    | completed => exact ih spare.2
    | returned v => exact skips_pure _

/-- In another scope than the empty one anything may be executed. -/
theorem skips_statements_of_ne (flows : SkipsFlows gone outer execute) (other : scope ≠ gone)
    (p : List Stmt) : Skips gone outer scope (statements execute p) (statements execute p) :=
  skips_statements flows true fun _ _ here => absurd here other

theorem skips_bindParameters (params : List Token) (args : List Value) (bound : Bindings) :
    Skips gone outer scope (bindParameters params args bound)
      (bindParameters params args bound) := by
  fun_induction bindParameters params args bound with
  | case1 => exact skips_fail _ _
  | case2 _ _ _ _ _ _ ih => exact ih
  | case3 => exact skips_pure _

theorem skips_callFunction (flows : SkipsFlows gone outer execute) (declaration : FunctionDecl)
    (closure : FrameId) (args : List Value) (paren : Token) :
    Skips gone outer scope (callFunction execute declaration closure args paren)
      (callFunction execute declaration (skip gone outer closure) args paren) := by
  apply skips_get
  intro m _ _
  have depth : (m.without gone outer).depth = m.depth := rfl
  rw [depth]
  split
  · exact skips_fail _ _
  · apply skips_bind (skips_bindParameters _ _ _)
    intro bound
    apply skips_newFrame
    intro id other
    apply skips_bind (skips_deeper (skips_inScope (skips_statements_of_ne flows other _)))
    intro flow
    cases flow with
    | completed => exact skips_pure _
    | returned v => exact skips_pure _

theorem skips_call (flows : SkipsFlows gone outer execute) (callee : Value) (args : List Value)
    (paren : Token) :
    Skips gone outer scope (call execute callee args paren) (call execute callee args paren) := by
  unfold call
  split
  · rename_i id _
    apply skips_heap
    intro h
    rw [Heap.function?_without]
    cases h.functions[id]? with
    | none => exact skips_fail _ _
    | some callable =>
      simp only [Option.map_some, Callable.arity_skipping]
      split
      · exact skips_fail _ _
      · cases callable with
        | builtin native => exact skips_callNative _ _ _
        | user declaration closure => exact skips_callFunction flows declaration closure args paren
  · exact skips_fail _ _

theorem skips_addMember (members : Bindings) (name : Token) (value : Value) :
    Skips gone outer scope (addMember members name value) (addMember members name value) := by
  unfold addMember
  split
  · exact skips_fail _ _
  · exact skips_pure _

theorem skips_initial (values : SkipsValues gone outer evaluate) {initializer : Option Expr}
    (inside : Bool) (spare : ∀ e ∈ initializer, scope = gone →
      e.upholds (fun _ => true) (fun _ => Stmt.sparesScope) inside = true) :
    Skips gone outer scope (initial evaluate initializer) (initial evaluate initializer) := by
  cases initializer with
  | none => exact skips_pure _
  | some e => exact values e inside scope (spare e rfl)

theorem skips_objectMembers (values : SkipsValues gone outer evaluate)
    (flows : SkipsFlows gone outer execute) {declarations : List Stmt} {inside : Bool}
    (spare : scope = gone →
      Stmt.allUphold (fun _ => true) (fun _ => Stmt.sparesScope) inside declarations = true)
    (members : Bindings) :
    Skips gone outer scope (objectMembers evaluate execute declarations members)
      (objectMembers evaluate execute declarations members) := by
  induction declarations generalizing members with
  | nil => exact skips_pure _
  | cons declaration rest ih =>
    simp only [Stmt.allUphold, Bool.and_eq_true, imp_and] at spare
    have onward (name : Token) (value : Value) : Skips gone outer scope
        (do objectMembers evaluate execute rest (← addMember members name value))
        (do objectMembers evaluate execute rest (← addMember members name value)) :=
      skips_bind (skips_addMember _ _ _) fun members' => ih spare.2 members'
    cases declaration with
    | var name initializer =>
      refine skips_bind (skips_initial values inside ?_) fun v => onward name (v.named name)
      rintro e ⟨⟩ here
      simpa [Stmt.upholds, Stmt.sparesScope, Stmt.bodies] using spare.1 here
    | function name params body => exact skips_bind (skips_bindFunction _) fun v => onward name v
    | block | expression | branch | returns | loop =>
      exact skips_bind (flows _ inside scope fun here => ⟨rfl, spare.1 here⟩) fun _ =>
        ih spare.2 members

theorem skips_mapM (values : SkipsValues gone outer evaluate) {es : List Expr} {inside : Bool}
    (spare : scope = gone →
      Expr.allUphold (fun _ => true) (fun _ => Stmt.sparesScope) inside es = true) :
    Skips gone outer scope (es.mapM evaluate) (es.mapM evaluate) := by
  induction es with
  | nil => exact skips_pure _
  | cons e rest ih =>
    simp only [Expr.allUphold, Bool.and_eq_true, imp_and] at spare
    rw [List.mapM_cons]
    apply skips_bind (values e inside scope spare.1)
    intro v
    exact skips_bind (ih spare.2) fun _ => skips_pure _

theorem skips_repeatWhile {condition : Run Value} {body : Run Flow}
    (values : Skips gone outer scope condition condition)
    (flows : Skips gone outer scope body body) (n : Nat) :
    Skips gone outer scope (repeatWhile condition body n) (repeatWhile condition body n) := by
  induction n with
  | zero => exact skips_exhausted
  | succ n ih =>
    apply skips_bind values
    intro v
    split
    · apply skips_bind flows
      intro flow
      cases flow with
      | completed => exact ih
      | returned v => exact skips_pure _
    · exact skips_pure _

end

theorem skipsValues_succ {n : Nat} (values : SkipsValues gone outer (evaluate n))
    (flows : SkipsFlows gone outer (execute n)) : SkipsValues gone outer (evaluate (n + 1)) := by
  intro e inside scope spare
  cases e with
  | assign target value =>
    simp only [Expr.upholds, Bool.and_eq_true, imp_and] at spare
    apply skips_bind (values value inside scope spare.2)
    intro v
    cases target with
    | «variable» name => exact skips_bind (skips_assign name v) fun _ => skips_pure _
    | access left dot member =>
      simp only [Expr.upholds, Bool.and_eq_true, imp_and] at spare
      apply skips_bind (values left inside scope spare.1.2.2)
      intro object
      exact skips_bind (skips_assignMember object dot member v) fun _ => skips_pure _
    | assign | binary | index | call | grouping | literal | list | unary | object =>
      exact skips_bind (skips_fail (α := PUnit) _ _) fun _ => skips_pure _
  | binary left op right =>
    simp only [Expr.upholds, Bool.and_eq_true, imp_and] at spare
    apply skips_bind (values left inside scope spare.1.2)
    intro a
    exact skips_bind (values right inside scope spare.2) fun b => skips_binary op a b
  | index left bracket position =>
    simp only [Expr.upholds, Bool.and_eq_true, imp_and] at spare
    apply skips_bind (values left inside scope spare.1.2)
    intro a
    exact skips_bind (values position inside scope spare.2) fun b => skips_indexAccess a bracket b
  | access left dot member =>
    simp only [Expr.upholds, Bool.and_eq_true, imp_and] at spare
    exact skips_bind (values left inside scope spare.2) fun v => skips_dotAccess v dot member
  | call callee paren args =>
    simp only [Expr.upholds, Bool.and_eq_true, imp_and] at spare
    apply skips_bind (values callee inside scope spare.1.2)
    intro function
    exact skips_bind (skips_mapM values spare.2) fun vs => skips_call flows function vs paren
  | grouping inner =>
    simp only [Expr.upholds, Bool.and_eq_true, imp_and] at spare
    exact values inner inside scope spare.2
  | literal => exact skips_pure _
  | list _ elements =>
    simp only [Expr.upholds, Bool.and_eq_true, imp_and] at spare
    exact skips_bind (skips_mapM values spare.2) fun _ => skips_newList _
  | unary op operand =>
    simp only [Expr.upholds, Bool.and_eq_true, imp_and] at spare
    exact skips_bind (values operand inside scope spare.2) fun v => skips_unary op v
  | «variable» name => exact skips_lookup name
  | object _ declarations =>
    simp only [Expr.upholds, Bool.and_eq_true, imp_and] at spare
    exact skips_bind (skips_objectMembers values flows spare.2 []) fun _ => skips_newObject _

/-- In the empty scope a branch or the body of a loop declares nothing. -/
theorem skipsFlows_body {execute : Stmt → Run Flow} (flows : SkipsFlows gone outer execute)
    {s b : Stmt} {inside : Bool}
    (node : scope = gone → s.sparesScope = true) (member : b ∈ s.bodies)
    (spare : scope = gone → b.upholds (fun _ => true) (fun _ => Stmt.sparesScope) inside = true) :
    Skips gone outer scope (execute b) (execute b) := by
  apply flows b inside scope
  intro here
  exact ⟨by simpa using List.all_eq_true.mp (node here) b member, spare here⟩

theorem skipsFlows_succ {n : Nat} (values : SkipsValues gone outer (evaluate n))
    (flows : SkipsFlows gone outer (execute n)) : SkipsFlows gone outer (execute (n + 1)) := by
  intro s inside scope spare
  cases s with
  | block body =>
    apply skips_get
    intro m here _
    apply skips_newFrame
    intro id other
    exact skips_inScope (skips_statements_of_ne flows other body)
  | expression e =>
    simp only [Stmt.upholds, Bool.and_eq_true, imp_and] at spare
    exact skips_bind (values e inside scope spare.2.2) fun _ => skips_pure _
  | function name params body =>
    have other : scope ≠ gone := fun here => by simpa [Stmt.isDeclaration] using (spare here).1
    apply skips_bind (skips_bindFunction _)
    intro function
    exact skips_bind (skips_define other name function) fun _ => skips_pure _
  | branch condition thenBranch elseBranch =>
    cases elseBranch with
    | none =>
      simp only [Stmt.upholds, Bool.and_eq_true, imp_and] at spare
      apply skips_bind (values condition inside scope spare.2.1.2)
      intro v
      split
      · exact skipsFlows_body flows spare.2.1.1 List.mem_cons_self spare.2.2
      · exact skips_pure _
    | some elseBranch =>
      simp only [Stmt.upholds, Bool.and_eq_true, imp_and] at spare
      apply skips_bind (values condition inside scope spare.2.1.1.2)
      intro v
      split
      · exact skipsFlows_body flows spare.2.1.1.1 List.mem_cons_self spare.2.1.2
      · exact skipsFlows_body flows spare.2.1.1.1 (by simp [Stmt.bodies]) spare.2.2
  | returns _ e =>
    refine skips_bind (skips_initial values inside ?_) fun _ => skips_pure _
    rintro e ⟨⟩ here
    simpa [Stmt.upholds, Stmt.sparesScope, Stmt.bodies] using (spare here).2
  | var name initializer =>
    have other : scope ≠ gone := fun here => by simpa [Stmt.isDeclaration] using (spare here).1
    apply skips_bind (skips_initial values inside fun _ _ here => absurd here other)
    intro v
    exact skips_bind (skips_define other name _) fun _ => skips_pure _
  | loop condition body =>
    simp only [Stmt.upholds, Bool.and_eq_true, imp_and] at spare
    apply skips_repeatWhile
    · exact values condition inside scope spare.2.1.2
    · exact skipsFlows_body flows spare.2.1.1 List.mem_cons_self spare.2.2

/-- No run takes notice of an empty scope, whatever the bound. -/
theorem skips_all (gone outer n : Nat) :
    SkipsValues gone outer (evaluate n) ∧ SkipsFlows gone outer (execute n) := by
  induction n with
  | zero => exact ⟨fun _ _ _ _ => skips_exhausted, fun _ _ _ _ => skips_exhausted⟩
  | succ n ih => exact ⟨skipsValues_succ ih.1 ih.2, skipsFlows_succ ih.1 ih.2⟩

end Run

end SoftScript
