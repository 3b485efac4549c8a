import SoftScript.Proofs.Run.Slimmer

/-! Loops that take their increment along. Executed directly a `for` loop runs its initializer once
in a scope of its own, and then, as long as its condition is true, its body and its increment in
that scope. With body and increment in a block the rounds of a loop end in the same way. -/
namespace SoftScript.Run

variable {α β : Type} {m : Machine}

/-! Bounds. -/

theorem steady_const (x : Run α) : Steady fun _ => x := fun _ _ _ _ _ => rfl

theorem steady_bind {x : Nat → Run α} {next : Nat → α → Run β} (first : Steady x)
    (later : ∀ a, Steady fun n => next n a) : Steady fun n => x n >>= next n := by
  intro m n halts k le
  have same := first m n (isOver_bind halts) k le
  simp only [bind_apply, same] at halts ⊢
  cases ran : x n m with
  | error => rfl
  | ok a m' =>
    rw [ran] at halts
    exact later a m' n halts k le

theorem repeatWhile_steady {condition : Nat → Run Value} {body : Nat → Run Flow}
    (values : Steady condition) (flows : Steady body) {n k i j : Nat}
    (halts : isOver (repeatWhile (condition n) (body n) i m) = true) (le : n ≤ k) (more : i ≤ j) :
    repeatWhile (condition k) (body k) j m = repeatWhile (condition n) (body n) i m := by
  induction i generalizing j m with
  | zero => cases halts
  | succ i ih =>
    obtain ⟨j, rfl⟩ : ∃ l, j = l + 1 := ⟨j - 1, by omega⟩
    have same := values m n (isOver_bind halts) k le
    rw [repeatWhile, repeatWhile, bind_apply, bind_apply, same]
    rw [repeatWhile, bind_apply] at halts
    cases ran : condition n m with
    | error => rfl
    | ok v m' =>
      simp only [ran] at halts ⊢
      split at halts
      · rename_i true_
        have same' := flows m' n (isOver_bind halts) k le
        rw [if_pos true_, if_pos true_, bind_apply, bind_apply, same']
        rw [bind_apply] at halts
        cases ran' : body n m' with
        | error => rfl
        | ok flow m'' =>
          rw [ran'] at halts
          cases flow with
          | returned => rfl
          | completed => exact ih halts (by omega)
      · rename_i false_
        rw [if_neg false_, if_neg false_]

/-! Loops. -/

/-- The value that decides whether a loop goes on; without a condition it does. -/
def test (evaluate : Expr → Run Value) : Option Expr → Run Value
  | some condition => evaluate condition
  | none => return .bool true

/-- One round: the body and, unless it returns, the increment. -/
def round (evaluate : Expr → Run Value) (execute : Stmt → Run Flow) (body : Stmt)
    (increment : Option Expr) : Run Flow := do
  match ← execute body with
  | .completed =>
    if let some increment := increment then let _ ← evaluate increment
    return .completed
  | .returned value => return .returned value

/-- A `for` loop executed as it stands. -/
def directly (n : Nat) (initializer : Option Stmt) (condition increment : Option Expr)
    (body : Stmt) : Run Flow := do
  let loop := repeatWhile (test (evaluate n) condition)
    (round (evaluate n) (execute n) body increment) n
  match initializer with
  | none => loop
  | some initializer =>
    let frame ← newFrame ⟨[], some (← get).scope⟩
    inScope frame do
      let _ ← execute n initializer
      loop

theorem steady_test (condition : Option Expr) : Steady fun n => test (evaluate n) condition := by
  cases condition with
  | none => exact steady_const _
  | some condition => exact steady_evaluate condition

theorem round_steady {body : Stmt} {increment : Option Expr} {i j k l : Nat}
    (halts : isOver (round (evaluate i) (execute j) body increment m) = true) (le : i ≤ k)
    (le' : j ≤ l) : round (evaluate k) (execute l) body increment m =
      round (evaluate i) (execute j) body increment m := by
  have same := steady_execute body m j (isOver_bind halts) l le'
  simp only [round, bind_apply] at halts same ⊢
  rw [same]
  cases ran : execute j body m with
  | error => rfl
  | ok flow m' =>
    simp only [ran] at halts ⊢
    cases flow with
    | returned v => rfl
    | completed =>
      cases increment with
      | none => rfl
      | some increment =>
        exact steady_bind (steady_evaluate increment) (fun _ => steady_const _) m' i halts k le

theorem steady_round (body : Stmt) (increment : Option Expr) :
    Steady fun n => round (evaluate n) (execute n) body increment :=
  fun _ _ halts _ le => round_steady halts le le

theorem steady_inScope (frame : FrameId) {x : Nat → Run α} (inner : Steady x) :
    Steady fun n => inScope frame (x n) := by
  intro m n halts k le
  have left (n : Nat) : inScope frame (x n) m =
      leaving ({ · with scope := m.scope }) (x n { m with scope := frame }) := rfl
  simp only [left, isOver_leaving] at halts ⊢
  rw [inner _ n halts k le]

theorem steady_directly (initializer : Option Stmt) (condition increment : Option Expr)
    (body : Stmt) : Steady fun n => directly n initializer condition increment body := by
  have loop : Steady fun n => repeatWhile (test (evaluate n) condition)
      (round (evaluate n) (execute n) body increment) n :=
    fun m n halts k le => repeatWhile_steady (steady_test condition) (steady_round body increment)
      halts le le
  cases initializer with
  | none => exact loop
  | some initializer =>
    apply steady_bind (steady_const get)
    intro m
    apply steady_bind (steady_const _)
    intro frame
    apply steady_inScope
    exact steady_bind (steady_execute initializer) fun _ => loop

/-! One round. -/

/-- A later time of a machine: it is well-formed and in the same scope, and no scope is lost. -/
structure Continues (m m' : Machine) : Prop where
  formed : m'.WellFormed
  scope : m'.scope = m.scope
  size_le : m.heap.frames.size ≤ m'.heap.frames.size

theorem continues_of_onward {m' : Machine} (formed : m.WellFormed) (onward : m.Onward S m') :
    Continues m m' where
  formed := formed.onward onward
  scope := onward.scope
  size_le := by
    rcases size : m.heap.frames.size with _ | last
    · exact Nat.zero_le _
    · have there := onward.heap.grows (.frame last)
        (Heap.allocated_frame_iff.mpr (size ▸ Nat.lt_succ_self last))
      exact Nat.succ_le_of_lt (Heap.allocated_frame_iff.mp there)

theorem continues_evaluate (formed : m.WellFormed) (n : Nat) (e : Expr) :
    Continues m (after (evaluate n e m)) :=
  continues_of_onward formed
    (((within_all m.region n).1 e m formed.here).onward (formed.intact.confined _))

theorem continues_execute (formed : m.WellFormed) (n : Nat) (s : Stmt) :
    Continues m (after (execute n s m)) :=
  continues_of_onward formed ((flows_execute formed n s).onward (formed.intact.confined _))

/-- A body and an increment that declare nothing where they stand. -/
structure Spare (body : Stmt) (increment : Option Expr) : Prop where
  quiet : body.isDeclaration = false
  upheld : ∃ inside, body.upholds (fun _ => true) (fun _ => Stmt.sparesScope) inside = true ∧
    ∀ e ∈ increment, e.upholds (fun _ => true) (fun _ => Stmt.sparesScope) inside = true

section

variable {body : Stmt} {increment : Option Expr}

theorem round_none (n : Nat) : round (evaluate n) (execute n) body none = execute n body := by
  funext m
  simp only [round, bind_apply]
  cases execute n body m with
  | error => rfl
  | ok flow m' => cases flow <;> rfl

/-- Body and increment in a block are a round. -/
theorem statements_round (n : Nat) (increment : Expr) (m : Machine) :
    statements (execute (n + 1)) [body, .expression increment] m =
      round (evaluate n) (execute (n + 1)) body (some increment) m := by
  simp only [statements, round, bind_apply]
  cases execute (n + 1) body m with
  | error => rfl
  | ok flow m' =>
    cases flow with
    | returned => rfl
    | completed =>
      simp only [execute, bind_apply]
      cases evaluate n increment m' <;> rfl

theorem block_round (formed : m.WellFormed) {increment : Expr} (spare : Spare body (some increment))
    (n : Nat) : EndsSlim m.heap.frames.size
      (execute (n + 2) (.block [body, .expression increment]) m)
      (round (evaluate n) (execute (n + 1)) body (some increment) m) := by
  obtain ⟨other, inside, upheld, upheld'⟩ := spare
  have spares : ∀ s ∈ [body, .expression increment], s.isDeclaration = false ∧
      s.upholds (fun _ => true) (fun _ => Stmt.sparesScope) inside = true := by
    simp only [List.mem_cons, List.not_mem_nil, or_false, forall_eq_or_imp, forall_eq]
    refine ⟨⟨other, upheld⟩, rfl, ?_⟩
    simp [Stmt.upholds, Stmt.sparesScope, Stmt.bodies, upheld' increment rfl]
  rw [← statements_round]
  exact block_slim formed spares (n + 1)

theorem round_slim (formed : m.WellFormed) (spare : Spare body increment) {n : Nat}
    (halts : isOver (execute n (Grammar.withIncrement body increment) m) = true) :
    EndsSlim m.heap.frames.size (execute n (Grammar.withIncrement body increment) m)
      (round (evaluate n) (execute n) body increment m) := by
  cases increment with
  | none =>
    rw [round_none]
    exact .refl _
  | some increment =>
    rcases n with _ | _ | n
    · cases halts
    · cases halts
    · have ends := block_round formed spare n
      rw [Grammar.withIncrement, ends.isOver_eq] at halts
      rw [round_steady halts (Nat.le_add_right n 2) (Nat.le_succ _)]
      exact ends

theorem round_slim_of_direct (formed : m.WellFormed) (spare : Spare body increment) {n : Nat}
    (halts : isOver (round (evaluate n) (execute n) body increment m) = true) :
    EndsSlim m.heap.frames.size (execute (n + 2) (Grammar.withIncrement body increment) m)
      (round (evaluate n) (execute n) body increment m) := by
  cases increment with
  | none =>
    rw [round_none] at halts ⊢
    have same : execute (n + 2) body m = execute n body m :=
      steady_execute body m n halts (n + 2) (Nat.le_add_right n 2)
    rw [Grammar.withIncrement, same]
    exact .refl _
  | some increment =>
    rw [← round_steady halts (Nat.le_refl n) (Nat.le_succ n)]
    exact block_round formed spare n

end

/-! Whole loops. -/

variable {oldest : Nat}

/-- Two loops of which, round by round, the second has fewer scopes. Whether a run is over is known
of the first or of the second. -/
structure Paired (first : Bool) (condition condition' : Run Value) (body body' : Run Flow) :
    Prop where
  values : ∀ m : Machine, m.WellFormed →
    isOver (bif first then condition m else condition' m) = true → condition m = condition' m
  flows : ∀ m : Machine, m.WellFormed → isOver (bif first then body m else body' m) = true →
    EndsSlim m.heap.frames.size (body m) (body' m)
  going : ∀ m : Machine, m.WellFormed →
    Continues m (after (condition m)) ∧ Continues m (after (body m))
  skips : ∀ gone outer scope, scope ≠ gone →
    Skips gone outer scope condition' condition' ∧ Skips gone outer scope body' body'

namespace Paired

variable {first : Bool} {condition condition' : Run Value} {body body' : Run Flow}

/-- In an old scope the second loop does the same with fewer scopes. -/
theorem across (paired : Paired first condition condition' body body') {l l' : Machine}
    (slims : l.Slims oldest l') (old : l.scope < oldest) (n : Nat) :
    EndsSlim oldest (repeatWhile condition' body' n l) (repeatWhile condition' body' n l') := by
  apply endsSlim_of_skips slims old
  intro gone outer newer
  have both := paired.skips gone outer l.scope (Nat.ne_of_lt (Nat.lt_of_lt_of_le old newer))
  exact skips_repeatWhile both.1 both.2 n

theorem same_value (paired : Paired first condition condition' body body') (formed : m.WellFormed)
    {n : Nat} (halts : isOver (bif first then repeatWhile condition body (n + 1) m
      else repeatWhile condition' body' (n + 1) m) = true) : condition m = condition' m := by
  apply paired.values m formed
  cases first with
  | true => exact isOver_bind halts
  | false => exact isOver_bind halts

/-- By induction on the rounds: after each the two machines differ in new empty scopes, and across
these the second loop goes on as it would have gone on from the first machine. -/
theorem repeatWhile_slim (paired : Paired first condition condition' body body') {n : Nat}
    (formed : m.WellFormed) (old : m.scope < oldest) (le : oldest ≤ m.heap.frames.size)
    (halts : isOver (bif first then repeatWhile condition body n m
      else repeatWhile condition' body' n m) = true) :
    EndsSlim oldest (repeatWhile condition body n m) (repeatWhile condition' body' n m) := by
  induction n generalizing m with
  | zero => cases first <;> cases halts
  | succ n ih =>
    have same := paired.same_value formed halts
    have later := (paired.going m formed).1
    simp only [repeatWhile, bind_apply, same] at halts later ⊢
    cases ran : condition' m with
    | error => exact .error .refl
    | ok v m₁ =>
      simp only [ran] at halts later ⊢
      split
      · rename_i goesOn
        simp only [if_pos goesOn] at halts
        have ends : EndsSlim m₁.heap.frames.size (body m₁) (body' m₁) := by
          apply paired.flows m₁ later.formed
          cases first with
          | true => exact isOver_bind halts
          | false => exact isOver_bind halts
        have later' := (paired.going m₁ later.formed).2
        simp only [bind_apply] at halts later' ⊢
        generalize body m₁ = r at ends halts later' ⊢
        generalize body' m₁ = r' at ends halts ⊢
        replace ends := ends.mono (Nat.le_trans le later.size_le)
        cases ends with
        | error slims => exact .error slims
        | @ok flow l l' slims =>
          cases flow with
          | returned => exact .ok slims
          | completed =>
            have here : l.scope < oldest := by
              rw [show l.scope = m.scope from later'.scope.trans later.scope]
              exact old
            have across := paired.across slims here n
            refine (ih later'.formed here ?_ ?_).trans across
            · exact Nat.le_trans le (Nat.le_trans later.size_le later'.size_le)
            · cases first with
              | true => exact halts
              | false => exact across.isOver_eq.trans halts
      · exact .ok .refl

end Paired

/-- In an old scope a loop executed directly does the same without an empty scope. -/
theorem skips_test (gone outer : Nat) {scope : Nat} (other : scope ≠ gone) (n : Nat)
    (condition : Option Expr) :
    Skips gone outer scope (test (evaluate n) condition) (test (evaluate n) condition) := by
  cases condition with
  | none => exact skips_pure _
  | some condition =>
    exact (skips_all gone outer n).1 condition true scope fun here => absurd here other

theorem skips_round (gone outer : Nat) {scope : Nat} (other : scope ≠ gone) (n : Nat)
    (body : Stmt) (increment : Option Expr) :
    Skips gone outer scope (round (evaluate n) (execute n) body increment)
      (round (evaluate n) (execute n) body increment) := by
  apply skips_bind ((skips_all gone outer n).2 body true scope fun here => absurd here other)
  intro flow
  cases flow with
  | returned => exact skips_pure _
  | completed =>
    cases increment with
    | none => exact skips_pure _
    | some increment =>
      apply skips_bind ((skips_all gone outer n).1 increment true scope fun here =>
        absurd here other)
      exact fun _ => skips_pure _

/-- A condition that is left out is true. -/
theorem test_eq {keyword : Token} {condition : Option Expr} {n : Nat}
    (halts : isOver (evaluate n (condition.getD (Grammar.always keyword)) m) = true) :
    evaluate n (condition.getD (Grammar.always keyword)) m = test (evaluate n) condition m := by
  cases condition with
  | some condition => rfl
  | none =>
    cases n with
    | zero => cases halts
    | succ n => rfl

theorem test_eq_of_direct {keyword : Token} {condition : Option Expr} {n : Nat}
    (halts : isOver (test (evaluate n) condition m) = true) :
    evaluate (n + 2) (condition.getD (Grammar.always keyword)) m =
      test (evaluate n) condition m := by
  cases condition with
  | none => rfl
  | some condition => exact steady_evaluate condition m n halts (n + 2) (Nat.le_add_right n 2)

section

variable {body : Stmt} {increment : Option Expr} (keyword : Token) (condition : Option Expr)

/-- The loop with a block in it ends as the direct one does. -/
theorem loop_slim (formed : m.WellFormed) (old : m.scope < oldest)
    (le : oldest ≤ m.heap.frames.size) (spare : Spare body increment) {n i : Nat}
    (halts : isOver (repeatWhile (evaluate n (condition.getD (Grammar.always keyword)))
      (execute n (Grammar.withIncrement body increment)) i m) = true) :
    EndsSlim oldest (repeatWhile (evaluate n (condition.getD (Grammar.always keyword)))
        (execute n (Grammar.withIncrement body increment)) i m)
      (repeatWhile (test (evaluate n) condition) (round (evaluate n) (execute n) body increment)
        i m) := by
  have paired : Paired true (evaluate n (condition.getD (Grammar.always keyword)))
      (test (evaluate n) condition) (execute n (Grammar.withIncrement body increment))
      (round (evaluate n) (execute n) body increment) :=
    { values := fun m _ halts => test_eq halts
      flows := fun m formed halts => round_slim formed spare halts
      going := fun m formed => ⟨continues_evaluate formed n _, continues_execute formed n _⟩
      skips := fun gone outer scope other =>
        ⟨skips_test gone outer other n condition, skips_round gone outer other n body increment⟩ }
  exact paired.repeatWhile_slim formed old le halts

/-- It ends if the direct one does. -/
theorem loop_slim_of_direct (formed : m.WellFormed) (old : m.scope < oldest)
    (le : oldest ≤ m.heap.frames.size) (spare : Spare body increment) {n i : Nat}
    (halts : isOver (repeatWhile (test (evaluate n) condition)
      (round (evaluate n) (execute n) body increment) i m) = true) :
    EndsSlim oldest (repeatWhile (evaluate (n + 2) (condition.getD (Grammar.always keyword)))
        (execute (n + 2) (Grammar.withIncrement body increment)) i m)
      (repeatWhile (test (evaluate n) condition) (round (evaluate n) (execute n) body increment)
        i m) := by
  have paired : Paired false (evaluate (n + 2) (condition.getD (Grammar.always keyword)))
      (test (evaluate n) condition) (execute (n + 2) (Grammar.withIncrement body increment))
      (round (evaluate n) (execute n) body increment) :=
    { values := fun m _ halts => test_eq_of_direct halts
      flows := fun m formed halts => round_slim_of_direct formed spare halts
      going := fun m formed =>
        ⟨continues_evaluate formed (n + 2) _, continues_execute formed (n + 2) _⟩
      skips := fun gone outer scope other =>
        ⟨skips_test gone outer other n condition, skips_round gone outer other n body increment⟩ }
  exact paired.repeatWhile_slim formed old le halts

end

end SoftScript.Run
