import SoftScript.Proofs.Session.Reached

/-! However a run ends, it comes back to the scope and the depth it began with. So between two runs
a session is always in its global scope, with no call under way. -/
namespace SoftScript

/-- Back in the same scope, with as many calls under way. -/
structure Machine.Restored (m m' : Machine) : Prop where
  globals : m'.globals = m.globals
  scope : m'.scope = m.scope
  depth : m'.depth = m.depth

theorem Machine.Restored.refl (m : Machine) : m.Restored m := ⟨rfl, rfl, rfl⟩

theorem Machine.Restored.trans {m m' m'' : Machine} (first : m.Restored m')
    (second : m'.Restored m'') : m.Restored m'' :=
  ⟨second.globals.trans first.globals, second.scope.trans first.scope,
    second.depth.trans first.depth⟩

/-- Every tree meets the conditions that ask for nothing. -/
theorem upholds_nothing_all :
    (∀ e : Expr, ∀ inside, e.upholds (fun _ => true) (fun _ _ => true) inside = true) ∧
    (∀ p : List Stmt, ∀ inside,
      Stmt.allUphold (fun _ => true) (fun _ _ => true) inside p = true) ∧
    (∀ s : Stmt, ∀ inside, s.upholds (fun _ => true) (fun _ _ => true) inside = true) ∧
    (∀ es : List Expr, ∀ inside,
      Expr.allUphold (fun _ => true) (fun _ _ => true) inside es = true) := by
  apply Expr.canonical.mutual_induct <;> intros <;>
    simp_all only [Expr.upholds, Expr.allUphold, Stmt.upholds, Stmt.allUphold, Bool.and_true]

theorem declares_nothing (h : Heap) : h.Declares (fun _ => true) (fun _ _ => true) :=
  fun _ _ _ _ => upholds_nothing_all.2.1 _ _

namespace Run

variable {m : Machine}

/-- Only entering a scope or a call changes the scope or the depth, and both are undone. -/
theorem restored_law :
    Law (fun _ => true) (fun _ _ => true) fun _ m m' => m.Restored m' where
  refl _ m := .refl m
  trans := .trans
  weaken h := h
  body _ _ h := h
  newBuiltin _ _ := ⟨rfl, rfl, rfl⟩
  newFunction _ _ _ := ⟨rfl, rfl, rfl⟩
  newList _ _ := ⟨rfl, rfl, rfl⟩
  newObject _ _ := ⟨rfl, rfl, rfl⟩
  modifyItems _ _ _ := ⟨rfl, rfl, rfl⟩
  assignMember _ _ _ _ := ⟨rfl, rfl, rfl⟩
  rebind _ _ _ _ _ := ⟨rfl, rfl, rfl⟩
  bind _ _ _ _ := ⟨rfl, rfl, rfl⟩
  readClock _ := ⟨rfl, rfl, rfl⟩
  write _ _ _ := ⟨rfl, rfl, rfl⟩
  block inner := ⟨inner.globals, rfl, inner.depth⟩
  call _ inner := by
    refine ⟨inner.globals, rfl, ?_⟩
    have deeper := inner.depth
    simp only [Machine.calling] at deeper
    simp [deeper]

theorem restored_evaluate (n : Nat) (e : Expr) (m : Machine) :
    m.Restored (after (evaluate n e m)) :=
  ((restored_law.obeys_all n).1 e false m (upholds_nothing_all.1 e _) (declares_nothing _)).2

theorem restored_execute (n : Nat) (s : Stmt) (m : Machine) :
    m.Restored (after (execute n s m)) :=
  ((restored_law.obeys_all n).2 s false m (upholds_nothing_all.2.2.1 s _) (declares_nothing _)).2

/-- Statements in any scope, a new one or one that exists. -/
theorem restored_inScope (n : Nat) (frame : FrameId) (body : List Stmt) (m : Machine) :
    m.Restored (after (inScope frame (statements (execute n) body) m)) := by
  have inner := (restored_law.obeys_statements (restored_law.obeys_all n).2
    (upholds_nothing_all.2.1 body false) (declares_nothing { m with scope := frame }.heap)).2
  rw [after_inScope]
  exact ⟨inner.globals, rfl, inner.depth⟩

theorem restored_call (n : Nat) (callee : Value) (args : List Value) (paren : Token) (m : Machine) :
    m.Restored (after (call (execute n) callee args paren m)) :=
  (restored_law.obeys_call (restored_law.obeys_all n).2 callee args paren (declares_nothing _)).2

theorem idle_reached {s : Session} (reached : s.Reached) :
    s.machine.scope = s.machine.globals ∧ s.machine.depth = 0 := by
  induction reached with
  | start => exact ⟨rfl, rfl⟩
  | step _ step ih =>
    obtain ⟨_, kept⟩ := restored_law.session_step (fun _ _ => upholds_nothing_all.2.1 _ _)
      (declares_nothing _) step
    rw [kept.scope, kept.depth, kept.globals]
    exact ih

/-- Evaluation, execution, a block and a call all restore scope and depth, whatever machine they
begin with and however they end; and in every state that a session reaches, the current scope is
the global one and no call is under way. -/
theorem scope_and_depth_restored :
    (∀ (n : Nat) (m : Machine),
      (∀ e, m.Restored (after (evaluate n e m))) ∧
      (∀ s, m.Restored (after (execute n s m))) ∧
      (∀ frame body, m.Restored (after (inScope frame (statements (execute n) body) m))) ∧
      (∀ callee args paren, m.Restored (after (call (execute n) callee args paren m)))) ∧
    ∀ s : Session, s.Reached → s.machine.scope = s.machine.globals ∧ s.machine.depth = 0 := by
  refine ⟨?_, fun s => idle_reached⟩
  intro n m
  exact ⟨fun e => restored_evaluate n e m, fun s => restored_execute n s m,
    fun frame body => restored_inScope n frame body m,
    fun callee args paren => restored_call n callee args paren m⟩

/-- A fault inside a loop, a block and two calls. -/
def nestedFault : String :=
  "fun f(n) { while (true) { var x = n; if (n == 0) { x / n; } return f(n - 1); } } f(1);"

/-- The session after that fault is back at the outside. -/
theorem scope_and_depth_restored_nestedFault :
    ∃ s : Session, (Session.start .unlimited fun _ => 0).run 40 "" nestedFault =
        some (.runtimeError, s) ∧
      s.Reached ∧ s.machine.scope = s.machine.globals ∧ s.machine.depth = 0 := by
  have failed : ((Session.start .unlimited fun _ => 0).run 40 "" nestedFault).map Prod.fst =
      some .runtimeError := by
    decide +kernel
  obtain ⟨⟨status, s⟩, ran, rfl⟩ := Option.map_eq_some_iff.mp failed
  have reached : s.Reached := .step (.start _ _) (.run ran)
  exact ⟨s, ran, reached, scope_and_depth_restored.2 s reached⟩

end Run

end SoftScript
