import SoftScript.Proofs.Run.Values

/-! Execution is local. What a statement can read and write is what the current scope reaches, and
what a call can is what the called function and its arguments reach. New cells come on top. -/
namespace SoftScript

/-- What a statement hands over refers into the region only. -/
def Flow.Held (S : Cell → Prop) (h : Heap) : Flow → Prop
  | .completed => True
  | .returned v => v.Held S h

namespace Run

variable {S : Cell → Prop} {m : Machine} {evaluate : Expr → Run Value} {execute : Stmt → Run Flow}

def Flows (S : Cell → Prop) (run : Run Flow) (m : Machine) : Prop :=
  Within S run m fun flow h => flow.Held S h

/-- Expressions stay within every region that holds the scope they are evaluated in. -/
def Evaluates (S : Cell → Prop) (evaluate : Expr → Run Value) : Prop :=
  ∀ e m, m.heap.Holds S (.frame m.scope) → Yields S (evaluate e) m

def Executes (S : Cell → Prop) (execute : Stmt → Run Flow) : Prop :=
  ∀ s m, m.heap.Holds S (.frame m.scope) → Flows S (execute s) m

theorem flows_statements (body : Executes S execute) (p : List Stmt)
    (here : m.heap.Holds S (.frame m.scope)) : Flows S (statements execute p) m := by
  induction p generalizing m with
  | nil => exact within_pure trivial
  | cons s rest ih =>
    apply (body s m here).bind
    intro flow m' onward held
    cases flow with
    | completed => exact ih (onward.here here)
    | returned v => exact within_pure held

/-- A block or the body of a function: statements in a scope of their own. -/
theorem flows_inScope (body : Executes S execute) (p : List Stmt) {frame : FrameId}
    (there : m.heap.Holds S (.frame frame)) : Flows S (inScope frame (statements execute p)) m :=
  Within.inScope (flows_statements body p there)

theorem yields_bindFunction (here : m.heap.Holds S (.frame m.scope)) (declaration : FunctionDecl) :
    Yields S (bindFunction declaration) m := by
  apply within_get
  apply Within.bind (yields_newFunction ?_)
  · intro function m' _ held
    exact within_pure (held.named _)
  · rintro c ⟨⟩
    exact here

theorem within_bindParameters {args : List Value} {bound : Bindings}
    (heldArgs : ∀ v ∈ args, v.Held S m.heap) (held : bound.Held S m.heap) (params : List Token) :
    Within S (bindParameters params args bound) m fun b h => b.Held S h := by
  induction params generalizing args bound with
  | nil => exact within_pure held
  | cons param params ih =>
    cases args with
    | nil => exact within_pure held
    | cons arg args =>
      simp only [List.mem_cons, forall_eq_or_imp] at heldArgs
      unfold bindParameters
      split
      · exact within_fail _ _
      · exact ih heldArgs.2 (held.insert (heldArgs.1.named param) _)

theorem yields_callFunction {closure : FrameId} {args : List Value} (body : Executes S execute)
    (around : m.heap.Holds S (.frame closure)) (heldArgs : ∀ v ∈ args, v.Held S m.heap)
    (declaration : FunctionDecl) (paren : Token) :
    Yields S (callFunction execute declaration closure args paren) m := by
  have bound := within_bindParameters heldArgs Bindings.held_nil declaration.params
  apply within_get
  split
  · exact within_fail _ _
  · apply bound.bind
    intro b m₁ onward held
    apply (within_newFrame (Content.held_frame.mpr ⟨?_, held⟩)).bind
    · intro frame m₂ _ there
      apply (Within.deeper (flows_inScope body declaration.body there)).bind
      intro flow m₃ _ held
      cases flow with
      | completed => exact within_pure Value.held_null
      | returned v => exact within_pure held
    · rintro outer ⟨⟩
      exact around.mono onward.heap

theorem yields_call {callee : Value} {args : List Value} (body : Executes S execute)
    (held : ∀ id callable, callee.payload = .function id → m.heap.functions[id]? = some callable →
      ∀ c, callable.cell? = some c → m.heap.Holds S c)
    (heldArgs : ∀ v ∈ args, v.Held S m.heap) (paren : Token) :
    Yields S (call execute callee args paren) m := by
  unfold call
  split
  · rename_i id isFunction
    apply within_heap
    split
    · exact within_fail _ _
    · rename_i callable found
      have known := held id callable isFunction found
      split
      · exact within_fail _ _
      · split
        · exact yields_callNative known heldArgs paren
        · exact yields_callFunction body (known _ rfl) heldArgs _ paren
  · exact within_fail _ _

theorem within_addMember {members : Bindings} {v : Value} (held : members.Held S m.heap)
    (value : v.Held S m.heap) (name : Token) :
    Within S (addMember members name v) m fun b h => b.Held S h := by
  unfold addMember
  split
  · exact within_fail _ _
  · exact within_pure (held.insert value _)

theorem yields_initial (value : Evaluates S evaluate) (here : m.heap.Holds S (.frame m.scope))
    (initializer : Option Expr) : Yields S (initial evaluate initializer) m := by
  cases initializer with
  | none => exact within_pure Value.held_null
  | some e => exact value e m here

theorem within_objectMembers (value : Evaluates S evaluate) (body : Executes S execute)
    (here : m.heap.Holds S (.frame m.scope)) {members : Bindings} (held : members.Held S m.heap)
    (declarations : List Stmt) :
    Within S (objectMembers evaluate execute declarations members) m fun b h => b.Held S h := by
  induction declarations generalizing m members with
  | nil => exact within_pure held
  | cons declaration rest ih =>
    cases declaration with
    | var name initializer =>
      apply (yields_initial value here initializer).bind
      intro v m₁ onward heldValue
      apply (within_addMember (held.mono onward.heap) (heldValue.named name) name).bind
      intro members' m₂ onward' held'
      exact ih (onward'.here (onward.here here)) held'
    | function name params body =>
      apply (yields_bindFunction here _).bind
      intro function m₁ onward heldValue
      apply (within_addMember (held.mono onward.heap) heldValue name).bind
      intro members' m₂ onward' held'
      exact ih (onward'.here (onward.here here)) held'
    | block | expression | branch | returns | loop =>
      apply (body _ m here).bind
      intro _ m₁ onward _
      exact ih (onward.here here) (held.mono onward.heap)

theorem flows_repeatWhile {condition : Run Value} {body : Run Flow}
    (value : ∀ m, m.heap.Holds S (.frame m.scope) → Yields S condition m)
    (flows : ∀ m, m.heap.Holds S (.frame m.scope) → Flows S body m)
    (here : m.heap.Holds S (.frame m.scope)) (n : Nat) : Flows S (repeatWhile condition body n) m := by
  induction n generalizing m with
  | zero => exact within_exhausted
  | succ n ih =>
    apply (value m here).bind
    intro v m₁ onward _
    have here₁ := onward.here here
    split
    · apply (flows m₁ here₁).bind
      intro flow m₂ onward' held
      cases flow with
      | completed => exact ih (onward'.here here₁)
      | returned v => exact within_pure held
    · exact within_pure trivial

theorem within_mapM (value : Evaluates S evaluate) (here : m.heap.Holds S (.frame m.scope))
    (es : List Expr) : Within S (es.mapM evaluate) m fun vs h => ∀ v ∈ vs, v.Held S h := by
  induction es generalizing m with
  | nil => exact within_pure (by simp)
  | cons e rest ih =>
    rw [List.mapM_cons]
    apply (value e m here).bind
    intro v m₁ onward held
    apply (ih (onward.here here)).bind
    intro vs m₂ onward' helds
    apply within_pure
    intro w member
    rcases List.mem_cons.mp member with rfl | later
    · exact held.mono onward'.heap
    · exact helds w later

theorem held_constant (value : Constant) {h : Heap} : (constant value).Held S h := by
  cases value <;> exact Value.held_of_cell? rfl

theorem evaluates_succ (value : Evaluates S (Run.evaluate n)) (body : Executes S (Run.execute n)) :
    Evaluates S (Run.evaluate (n + 1)) := by
  intro e m here
  cases e with
  | assign target e =>
    apply (value e m here).bind
    intro v m₁ onward held
    have here₁ := onward.here here
    have done {run : Run Unit} (stays : Stays S run m₁) : Yields S (do run; return v) m₁ := by
      apply Within.bind stays
      intro _ m₂ onward' _
      exact within_pure (held.mono onward'.heap)
    cases target with
    | «variable» name => exact done (stays_assign here₁ held name)
    | access left dot member =>
      apply (value left m₁ here₁).bind
      intro object m₂ onward' heldObject
      apply Within.bind (stays_assignMember heldObject (held.mono onward'.heap) dot member)
      intro _ m₃ onward'' _
      exact within_pure ((held.mono onward'.heap).mono onward''.heap)
    | assign | binary | index | call | grouping | literal | list | unary | object =>
      exact done (within_fail _ _)
  | binary left op right =>
    apply (value left m here).bind
    intro a m₁ onward heldLeft
    apply (value right m₁ (onward.here here)).bind
    intro b m₂ onward' heldRight
    exact yields_binary (heldLeft.mono onward'.heap) heldRight op
  | index left bracket position =>
    apply (value left m here).bind
    intro a m₁ onward heldLeft
    apply (value position m₁ (onward.here here)).bind
    intro b m₂ onward' _
    exact yields_indexAccess (heldLeft.mono onward'.heap) bracket b
  | access left dot member =>
    apply (value left m here).bind
    intro a m₁ _ held
    exact yields_dotAccess held dot member
  | call callee paren args =>
    apply (value callee m here).bind
    intro function m₁ onward heldFunction
    apply (within_mapM value (onward.here here) args).bind
    intro vs m₂ onward' heldArgs
    apply within_of_confined
    intro confined
    apply yields_call body ?_ heldArgs
    intro id callable isFunction found
    have there := heldFunction.mono onward'.heap (.function id) (by simp [Value.cell?, isFunction])
    exact confined.callable there.inside found
  | grouping inner => exact value inner m here
  | literal c _ => exact within_pure (held_constant c)
  | list _ elements =>
    apply (within_mapM value here elements).bind
    intro vs m₁ _ held
    exact yields_newList (by simpa using held)
  | unary op operand =>
    apply (value operand m here).bind
    intro v m₁ _ _
    exact yields_unary op v
  | «variable» name => exact yields_lookup here name
  | object _ declarations =>
    apply (within_objectMembers value body here Bindings.held_nil declarations).bind
    intro members m₁ _ held
    exact yields_newObject held

theorem executes_succ (value : Evaluates S (Run.evaluate n)) (body : Executes S (Run.execute n)) :
    Executes S (Run.execute (n + 1)) := by
  intro s m here
  cases s with
  | block p =>
    apply within_get
    apply (within_newFrame (Content.held_frame.mpr ⟨?_, Bindings.held_nil⟩)).bind
    · intro frame m₁ _ there
      exact flows_inScope body p there
    · rintro outer ⟨⟩
      exact here
  | expression e =>
    apply (value e m here).bind
    intro _ _ _ _
    exact within_pure trivial
  | function name params p =>
    apply (yields_bindFunction here _).bind
    intro function m₁ onward held
    apply Within.bind (stays_define (onward.here here) held name)
    intro _ _ _ _
    exact within_pure trivial
  | branch condition thenBranch elseBranch =>
    apply (value condition m here).bind
    intro v m₁ onward _
    split
    · exact body thenBranch m₁ (onward.here here)
    · cases elseBranch with
      | none => exact within_pure trivial
      | some elseBranch => exact body elseBranch m₁ (onward.here here)
  | returns _ e =>
    apply (yields_initial value here e).bind
    intro v m₁ _ held
    exact within_pure held
  | var name initializer =>
    apply (yields_initial value here initializer).bind
    intro v m₁ onward held
    apply Within.bind (stays_define (onward.here here) (held.named name) name)
    intro _ _ _ _
    exact within_pure trivial
  | loop condition p => exact flows_repeatWhile (value condition) (body p) here n

/-- Evaluation and execution stay within every region that holds the current scope. -/
theorem within_all (S : Cell → Prop) (n : Nat) :
    Evaluates S (Run.evaluate n) ∧ Executes S (Run.execute n) := by
  induction n with
  | zero =>
    constructor
    · intro e m _
      exact within_exhausted
    · intro s m _
      exact within_exhausted
  | succ n ih => exact ⟨evaluates_succ ih.1 ih.2, executes_succ ih.1 ih.2⟩

/-- The machine that a run leaves, however it ends. -/
def after {α : Type} : EStateM.Result Halt Machine α → Machine
  | .ok _ m | .error _ m => m

theorem Within.onward {α : Type} {run : Run α} {P : α → Heap → Prop} (h : Within S run m P)
    (confined : m.heap.Confined S) : m.Onward S (after (run m)) := by
  have ran := h confined
  cases ended : run m with
  | error e m' =>
    rw [ended] at ran
    exact ran
  | ok a m' =>
    rw [ended] at ran
    exact ran.1

end Run

/-- A machine whose scope is there and whose heap has no dangling references. -/
structure Machine.WellFormed (m : Machine) : Prop where
  scope : m.heap.Allocated (.frame m.scope)
  intact : m.heap.Intact

/-- What the current scope reaches, and room for new cells. -/
def Machine.region (m : Machine) : Cell → Prop := m.heap.Outreach (· = .frame m.scope)

theorem Machine.WellFormed.here {m : Machine} (formed : m.WellFormed) :
    m.heap.Holds m.region (.frame m.scope) :=
  Heap.Intact.holds_root rfl formed.scope

theorem Machine.WellFormed.onward {m m' : Machine} (formed : m.WellFormed)
    (onward : m.Onward S m') : m'.WellFormed where
  scope := by
    rw [onward.scope]
    exact onward.heap.grows _ formed.scope
  intact := onward.heap.intact formed.intact

namespace Run

variable {m : Machine}

theorem flows_execute (formed : m.WellFormed) (n : Nat) (s : Stmt) :
    Flows m.region (Run.execute n s) m :=
  (within_all m.region n).2 s m formed.here

/-- Well-formed machines stay well-formed. -/
theorem wellFormed_execute (formed : m.WellFormed) (n : Nat) (s : Stmt) :
    (after (Run.execute n s m)).WellFormed :=
  formed.onward ((flows_execute formed n s).onward (formed.intact.confined _))

/-- What the current scope does not reach is left alone by a statement. -/
theorem execute_apart (formed : m.WellFormed) (n : Nat) (s : Stmt) {c : Cell}
    (known : m.heap.Allocated c) (apart : ¬ m.heap.Reaches (.frame m.scope) c) :
    (after (Run.execute n s m)).heap.cell? c = m.heap.cell? c ∧
      ¬ (after (Run.execute n s m)).heap.Reaches
        (.frame (after (Run.execute n s m)).scope) c := by
  have onward := (flows_execute formed n s).onward (formed.intact.confined _)
  obtain ⟨unchanged, still⟩ := onward.heap.apart known (by simpa using apart)
  refine ⟨unchanged, ?_⟩
  rw [onward.scope]
  exact still _ rfl formed.scope

/-- A returned value refers to nothing but what the scope reached and what is new. -/
theorem execute_returned (formed : m.WellFormed) {m' : Machine} {v : Value}
    (returned : Run.execute n s m = .ok (.returned v) m') {root c : Cell}
    (refers : v.cell? = some root) (reaches : m'.heap.Reaches root c) :
    m.heap.Reaches (.frame m.scope) c ∨ ¬ m.heap.Allocated c ∧ m'.heap.Allocated c := by
  have ran := flows_execute formed n s (formed.intact.confined _)
  rw [returned] at ran
  obtain ⟨onward, held⟩ := ran
  have holds := onward.heap.confined.reaches (held root refers) reaches
  rcases holds.inside with ⟨_, rfl, reached⟩ | missing
  · exact .inl reached
  · exact .inr ⟨missing, holds.allocated⟩

/-- What neither a function's scope nor an argument reaches is left alone by a call. -/
theorem call_apart (intact : m.heap.Intact) (n : Nat) {callee : Value} {args : List Value}
    {id : FunctionId} {closure : FrameId} (isFunction : callee.payload = .function id)
    (found : m.heap.functions[id]? = some (.user declaration closure))
    (known : ∀ v ∈ args, ∀ root, v.cell? = some root → m.heap.Allocated root) (paren : Token)
    {c : Cell} (there : m.heap.Allocated c) (apart : ¬ m.heap.Reaches (.frame closure) c)
    (apartArgs : ∀ v ∈ args, ∀ root, v.cell? = some root → ¬ m.heap.Reaches root c) :
    (after (call (Run.execute n) callee args paren m)).heap.cell? c = m.heap.cell? c := by
  let roots (root : Cell) : Prop := root = .frame closure ∨ ∃ v ∈ args, v.cell? = some root
  have around := intact.closure found
  have heldArgs : ∀ v ∈ args, v.Held (m.heap.Outreach roots) m.heap := by
    intro v member root refers
    exact Heap.Intact.holds_root (.inr ⟨v, member, refers⟩) (known v member root refers)
  have called : Yields (m.heap.Outreach roots) (call (Run.execute n) callee args paren) m := by
    apply yields_call (within_all _ n).2 ?_ heldArgs
    intro other callable isFunction' found' d refers
    rw [isFunction] at isFunction'
    cases isFunction'
    rw [found] at found'
    cases found'
    cases refers
    exact Heap.Intact.holds_root (.inl rfl) around
  have onward := called.onward (intact.confined roots)
  refine (onward.heap.apart there ?_).1
  rintro root (rfl | ⟨v, member, refers⟩)
  · exact apart
  · exact apartArgs v member root refers

/-- Execution is local. However a statement ends, what was there and out of the current scope's
reach is unchanged and still out of reach, and a value it returns reaches nothing but what was in
reach and what is new. And a call of one closure changes nothing that another one captured, unless
the called one or an argument reaches it too. -/
theorem execution_local (n : Nat) (m : Machine) (formed : m.WellFormed) :
    (∀ s : Stmt,
      (∀ c, m.heap.Allocated c → ¬ m.heap.Reaches (.frame m.scope) c →
        (after (Run.execute n s m)).heap.cell? c = m.heap.cell? c ∧
          ¬ (after (Run.execute n s m)).heap.Reaches
            (.frame (after (Run.execute n s m)).scope) c) ∧
      (after (Run.execute n s m)).scope = m.scope ∧
      ∀ v m', Run.execute n s m = .ok (.returned v) m' →
        ∀ root c, v.cell? = some root → m'.heap.Reaches root c →
          m.heap.Reaches (.frame m.scope) c ∨ ¬ m.heap.Allocated c ∧ m'.heap.Allocated c) ∧
    ∀ (i j : FunctionId) (declaration declaration' : FunctionDecl) (closure closure' : FrameId),
      m.heap.functions[i]? = some (.user declaration closure) →
      m.heap.functions[j]? = some (.user declaration' closure') →
      ∀ (callee : Value) (args : List Value) (paren : Token), callee.payload = .function i →
        (∀ v ∈ args, ∀ root, v.cell? = some root → m.heap.Allocated root) →
        ∀ c, m.heap.Reaches (.frame closure') c → ¬ m.heap.Reaches (.frame closure) c →
          (∀ v ∈ args, ∀ root, v.cell? = some root → ¬ m.heap.Reaches root c) →
            (after (call (Run.execute n) callee args paren m)).heap.cell? c = m.heap.cell? c := by
  constructor
  · intro s
    refine ⟨fun c => execute_apart formed n s, ?_, fun v m' => execute_returned formed⟩
    exact ((flows_execute formed n s).onward (formed.intact.confined _)).scope
  · intro i j declaration declaration' closure closure' found found' callee args paren isFunction
      known c reaches apart apartArgs
    have there := formed.intact.reaches (formed.intact.closure found') reaches
    exact call_apart formed.intact n isFunction found known paren there apart apartArgs

end Run

/-- The heap that programs start with. -/
theorem Machine.heap_start (output : Output) (clock : Nat → Integer) :
    (Machine.start output clock).heap =
      ⟨#[⟨[("clock", .of (.function 0)), ("print", .of (.function 1))], none⟩],
        #[.builtin .clock, .builtin .print], #[], #[]⟩ := by
  rfl

theorem Machine.wellFormed_start (output : Output) (clock : Nat → Integer) :
    (Machine.start output clock).WellFormed where
  scope := by
    rw [Heap.Allocated, Machine.heap_start]
    rfl
  intact := by
    rw [Machine.heap_start]
    decide

namespace Run

/-- Two counters made by the same function: each counts in a scope of its own. -/
def twoCounters : Machine :=
  let n : Token := .read .identifier "n" 1 default
  let step : FunctionDecl := ⟨.read .identifier "step" 1 default, [],
    [.expression (.assign (.variable n)
      (.binary (.variable n) (.read .plus "+" 1 default) (.literal (.int 1) default))),
     .returns default (some (.variable n))]⟩
  let count : Frame := ⟨[("n", (Value.int 0).named n)], some 0⟩
  { Machine.start .unlimited fun _ => 0 with
    heap := ⟨#[⟨[], none⟩, count, count], #[.user step 1, .user step 2], #[], #[]⟩ }

theorem twoCounters_wellFormed : twoCounters.WellFormed where
  scope := rfl
  intact := by decide

/-- Neither a statement outside nor a call of the first counter touches the second one's scope. -/
theorem execution_local_twoCounters : twoCounters.WellFormed ∧
    (after (Run.execute 9 (.block [.var default none]) twoCounters)).heap.cell? (.frame 2) =
      twoCounters.heap.cell? (.frame 2) ∧
    (after (call (Run.execute 9) (.of (.function 0)) [] default twoCounters)).heap.cell? (.frame 2) =
      twoCounters.heap.cell? (.frame 2) := by
  have apart (id : FrameId) (first : id = 0 ∨ id = 1) :
      ¬ twoCounters.heap.Reaches (.frame id) (.frame 2) := by
    have closed : ∀ c ∈ [Cell.frame 0, .frame 1], ∀ content ∈ twoCounters.heap.cell? c,
        ∀ d ∈ content.cells, d ∈ [Cell.frame 0, .frame 1] := by decide
    exact Heap.not_reaches_of_closed closed (by simpa using first) (by decide)
  obtain ⟨statements, calls⟩ := execution_local 9 twoCounters twoCounters_wellFormed
  refine ⟨twoCounters_wellFormed, ?_, ?_⟩
  · exact ((statements _).1 (.frame 2) rfl (apart 0 (.inl rfl))).1
  · exact calls 0 1 _ _ 1 2 rfl rfl _ [] default rfl (by simp) (.frame 2) .refl
      (apart 1 (.inr rfl)) (by simp)

end Run

end SoftScript
