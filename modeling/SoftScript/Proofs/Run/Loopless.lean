import SoftScript.Proofs.Likeness.Runs
import SoftScript.Proofs.Printing.Faithful
import SoftScript.Proofs.Run.Blame
import SoftScript.Proofs.Run.Depth
import SoftScript.Proofs.Session.History

/-! Without loops every program stops if its output is total. Going down into the parts of a task,
either the tree gets smaller or the calls that are still allowed get fewer. The trees of the
functions in a heap have a largest size, so a task has only so much work to do, and a bound that
large is never used up. -/
namespace SoftScript

/-- No loop stands anywhere in a program, the bodies of functions included. -/
def Stmt.Loopless (p : List Stmt) : Prop :=
  Stmt.allUphold (fun _ => true) (fun _ s => !s.isLoop) false p = true

instance (p : List Stmt) : Decidable (Stmt.Loopless p) := inferInstanceAs (Decidable (_ = _))

/-- Trees up to a size. -/
noncomputable def Expr.isSmall (size : Nat) (e : Expr) : Bool := decide (sizeOf e ≤ size)

/-- Trees up to a size that are no loops. -/
noncomputable def Stmt.isSmall (size : Nat) (_inside : Bool) (s : Stmt) : Bool :=
  !s.isLoop && decide (sizeOf s ≤ size)

/-- No part of a tree is larger than the tree. -/
theorem small_all (size : Nat) :
    (∀ e : Expr, ∀ inside, sizeOf e ≤ size →
      e.upholds (fun _ => true) (fun _ s => !s.isLoop) inside = true →
        e.upholds (Expr.isSmall size) (Stmt.isSmall size) inside = true) ∧
    (∀ p : List Stmt, ∀ inside, sizeOf p ≤ size →
      Stmt.allUphold (fun _ => true) (fun _ s => !s.isLoop) inside p = true →
        Stmt.allUphold (Expr.isSmall size) (Stmt.isSmall size) inside p = true) ∧
    (∀ s : Stmt, ∀ inside, sizeOf s ≤ size →
      s.upholds (fun _ => true) (fun _ s => !s.isLoop) inside = true →
        s.upholds (Expr.isSmall size) (Stmt.isSmall size) inside = true) ∧
    (∀ es : List Expr, ∀ inside, sizeOf es ≤ size →
      Expr.allUphold (fun _ => true) (fun _ s => !s.isLoop) inside es = true →
        Expr.allUphold (Expr.isSmall size) (Stmt.isSmall size) inside es = true) := by
  apply Expr.canonical.mutual_induct
  all_goals intros
  all_goals
    simp_all only [Expr.upholds, Expr.allUphold, Stmt.upholds, Stmt.allUphold, Expr.isSmall,
      Stmt.isSmall, Bool.and_eq_true, decide_eq_true_eq, true_and]
  all_goals rename_i bounded upheld
  all_goals simp at bounded
  all_goals grind

theorem Stmt.Loopless.small {p : List Stmt} (loopless : Stmt.Loopless p) {size : Nat}
    (fits : sizeOf p ≤ size) :
    Stmt.allUphold (Expr.isSmall size) (Stmt.isSmall size) false p = true :=
  (small_all size).2.1 p false fits loopless

theorem Heap.Declares.larger {h : Heap} {size size' : Nat} (le : size ≤ size')
    (declares : h.Declares (Expr.isSmall size) (Stmt.isSmall size)) :
    h.Declares (Expr.isSmall size') (Stmt.isSmall size') := by
  intro id declaration closure found
  apply allUphold_mono ?_ ?_ (declares id declaration closure found)
  · intro e small
    simp only [Expr.isSmall, decide_eq_true_eq] at small ⊢
    omega
  · intro inside s small
    simp only [Stmt.isSmall, Bool.and_eq_true, decide_eq_true_eq] at small ⊢
    exact ⟨small.1, by omega⟩

/-- The conditions under which a task on small trees is done without loops. -/
abbrev Run.Modest (size : Nat) (m : Machine) : Prop :=
  Ready (Expr.isSmall size) (Stmt.isSmall size) (·.output.IsTotal) m

/-- Such conditions last: a run does not change what an output takes. -/
theorem Run.modest_pace (f : Expr → Bool) (g : Bool → Stmt → Bool) :
    Pace f g (fun _ m m' => m'.output.limit = m.output.limit) (·.output.IsTotal)
      fun _ _ => True where
  toLaw := limit_law f g
  now _ := trivial
  later _ _ := trivial
  step total same := ⟨(Output.isTotal_congr same).mpr total, trivial⟩
  leave _ _ _ := trivial
  enter total := ⟨total, trivial⟩
  begin _ total _ _ := ⟨total, trivial⟩

/-- A task on a small tree is no loop. -/
theorem Run.Fit.small {t : Task} {size : Nat}
    (fit : Fit (Expr.isSmall size) (Stmt.isSmall size) t) : t.size ≤ size ∧ t.isLoop = false := by
  cases t with
  | value e =>
    obtain ⟨inside, upheld⟩ := fit
    refine ⟨?_, rfl⟩
    cases e <;> simp_all [Expr.upholds, Expr.isSmall, Task.size]
  | flow s =>
    obtain ⟨inside, upheld⟩ := fit
    have node : Stmt.isSmall size inside s = true := by
      cases s with
      | branch _ _ elseBranch => cases elseBranch <;> simp_all [Stmt.upholds]
      | returns _ value => cases value <;> simp_all [Stmt.upholds]
      | var _ initializer => cases initializer <;> simp_all [Stmt.upholds]
      | block | expression | function | loop => simp_all [Stmt.upholds]
    simpa [Stmt.isSmall, Task.size, Task.isLoop, and_comm] using node

namespace Stage

open Run

/-- What a task has to do, if no tree in the heap is larger than a size: its own tree, and as many
trees of that size as there are calls left. -/
noncomputable def work (size : Nat) (st : Stage) : Nat :=
  st.task.size + (maxCallDepth - st.machine.depth) * (size + 1)

variable {size : Nat} {st part : Stage} {n : Nat}

/-- A part has less to do than the whole. -/
theorem work_part (isPart : part ∈ st.parts n) (small : part.task.size ≤ size) :
    part.work size < st.work size := by
  rw [parts_eq, List.mem_append] at isPart
  rcases isPart with isOwn | isBody
  · obtain ⟨smaller, level⟩ := own_smaller n st part isOwn
    simp only [work, level]
    omega
  · obtain ⟨shallow, deeper⟩ := body_deeper n st part isBody
    have calls : maxCallDepth - st.machine.depth =
        (maxCallDepth - part.machine.depth) + 1 := by omega
    simp only [work, calls, Nat.add_mul]
    omega

/-- A bound that covers the work of a task covers that of every task in its course. -/
theorem work_course (ready : Modest size st.machine)
    (fit : Fit (Expr.isSmall size) (Stmt.isSmall size) st.task) (enough : st.work size ≤ n) :
    ∀ begun ∈ st.course n, begun.2.work size ≤ begun.1 ∧ begun.2.task.isLoop = false ∧
      begun.2.machine.output.IsTotal := by
  induction n generalizing st with
  | zero => simpa [course] using ⟨Nat.le_zero.mp enough, fit.small.2, ready.machine⟩
  | succ n ih =>
    intro begun member
    rcases List.mem_cons.mp member with rfl | later
    · exact ⟨enough, fit.small.2, ready.machine⟩
    · obtain ⟨part, isPart, within⟩ := List.mem_flatMap.mp later
      obtain ⟨ready', fit'⟩ := ((modest_pace _ _).parts_ready ready fit n).1 part isPart
      have less := work_part isPart fit'.small.1
      exact ih ready' fit' (by omega) begun within

/-- Such a bound is not used up. -/
theorem not_exhausted
    (ready : Modest size st.machine)
    (fit : Fit (Expr.isSmall size) (Stmt.isSmall size) st.task) (enough : st.work size ≤ n) :
    st.halt? n ≠ some .exhausted := by
  intro ended
  obtain ⟨begun, member, raised | ⟨none, _⟩⟩ := blame ended
  all_goals obtain ⟨covered, straight, total⟩ := work_course ready fit enough begun member
  · rcases raised with loops | broken
    · rw [straight] at loops
      contradiction
    · exact broken total
  · have pos := begun.2.task.size_pos
    simp only [work] at covered
    omega

end Stage

namespace Run

variable {n size : Nat} {p : List Stmt} {m : Machine}

/-- The bound under which a program on small trees is over. -/
def ampleFor (size : Nat) : Nat := size + maxCallDepth * (size + 1)

theorem isOver_interpret (modest : Modest size m)
    (small : Stmt.allUphold (Expr.isSmall size) (Stmt.isSmall size) false p = true)
    (enough : ampleFor size ≤ n) : isOver (interpret n p m) = true := by
  by_contra running
  obtain ⟨m', cut⟩ := exhausted_of_not_isOver (Bool.eq_false_iff.mpr running)
  have stopped : halt? (interpret n p m) = some .exhausted := by
    rw [cut]
    rfl
  obtain ⟨st, isStage, blamed⟩ := halt?_interpret stopped
  obtain ⟨ready, fit⟩ :=
    ((modest_pace _ _).passes_program (n := n) small m modest).1 st isStage
  have few : (maxCallDepth - st.machine.depth) * (size + 1) ≤ maxCallDepth * (size + 1) :=
    Nat.mul_le_mul_right _ (Nat.sub_le _ _)
  have tree := fit.small.1
  apply Stage.not_exhausted ready fit ?_ blamed
  simp only [Stage.work, ampleFor] at enough ⊢
  omega

end Run

namespace Session

/-- A source that is accepted and has no loop in it. -/
def Entry.Loopless (entry : Entry) : Prop :=
  match entry.contents with
  | .ok source =>
    (Parse.ofSource source).isValid = true ∧ Stmt.Loopless (Parse.ofSource source).statements
  | .error _ => False

variable {s : Session} {size : Nat}

/-- On a heap of small functions a source without loops ends under every large bound, in the same
way, and leaves a heap of functions that are not much larger. -/
theorem runFile_ends {entry : Entry} (loopless : entry.Loopless)
    (modest : Run.Modest size s.machine) :
    ∃ size' enough status s', Run.Modest size' s'.machine ∧
      (status = .completed ∨ status = .runtimeError) ∧
      ∀ n, enough ≤ n → s.runFile n entry.path entry.contents = some (status, s') := by
  obtain ⟨path, contents⟩ := entry
  cases contents with
  | error => exact loopless.elim
  | ok source =>
    obtain ⟨valid, loopless⟩ := loopless
    obtain ⟨size', grows, covers⟩ : ∃ size', size ≤ size' ∧
        sizeOf (Parse.ofSource source).statements ≤ size' :=
      ⟨max size _, Nat.le_max_left _ _, Nat.le_max_right _ _⟩
    have small := loopless.small covers
    have modest' : Run.Modest size' s.machine := ⟨modest.machine, modest.declares.larger grows⟩
    have left : Run.Modest size' (Run.after (Run.interpret (Run.ampleFor size')
        (Parse.ofSource source).statements s.machine)) :=
      ((Run.modest_pace _ _).ready_after
        ((Run.modest_pace _ _).obeys_interpret (Run.ampleFor size') small) modest').1
    have isOver := Run.isOver_interpret modest' small (Nat.le_refl (Run.ampleFor size'))
    have steady (n : Nat) (le : Run.ampleFor size' ≤ n) :=
      Run.steady_interpret _ s.machine _ isOver n le
    cases ended : Run.interpret (Run.ampleFor size') (Parse.ofSource source).statements s.machine with
    | ok _ m =>
      rw [ended] at left
      refine ⟨size', Run.ampleFor size', .completed, { s with machine := m }, left, .inl rfl, ?_⟩
      intro n le
      simp [runFile, run, valid, steady n le, ended]
    | error halt m =>
      rw [ended] at left isOver
      cases halt with
      | exhausted => cases isOver
      | fault fault =>
        refine ⟨size', Run.ampleFor size', .runtimeError,
          { s with machine := m }.report (.runtime path source fault), left, .inr rfl, ?_⟩
        intro n le
        simp [runFile, run, valid, steady n le, ended]

theorem history_ends {entries : List Entry} (loopless : ∀ entry ∈ entries, entry.Loopless)
    (modest : Run.Modest size s.machine) :
    ∃ enough turns, turns.map Turn.entry = entries ∧
      (∀ turn ∈ turns, turn.status = .completed ∨ turn.status = .runtimeError) ∧
      ∀ n, enough ≤ n → history n s entries = turns := by
  induction entries generalizing s size with
  | nil => exact ⟨0, [], rfl, by simp, fun _ _ => rfl⟩
  | cons entry rest ih =>
    simp only [List.mem_cons, forall_eq_or_imp] at loopless
    obtain ⟨size', enough, status, s', modest', ended, ran⟩ := runFile_ends loopless.1 modest
    obtain ⟨enough', turns, entered, all, same⟩ := ih loopless.2 modest'
    refine ⟨max enough enough', ⟨entry, s, status, s'⟩ :: turns, by simp [entered], ?_, ?_⟩
    · simpa using ⟨ended, all⟩
    · intro n le
      obtain ⟨le, le'⟩ := Nat.max_le.mp le
      rw [history, ran n le]
      simp only [same n le']

/-- Without loops every program stops, and calls go only so deep. Whatever sources are accepted and
have no loops, a new session with a total output ends each of them with completion or with a fault;
the bound on evaluation is of no account once it is large enough. In every state that a session
reaches and throughout the course of a program, the number of calls under way is the depth of the
machine, at the beginning and at the end of each task, and is at most 4096. A call of one function
more fails as a stack overflow and leaves the machine alone, whatever the function's parameters and
its body. -/
theorem loopless_sessions_end :
    (∀ output clock entries, output.IsTotal → (∀ entry ∈ entries, Entry.Loopless entry) →
      ∃ enough turns, turns.map Turn.entry = entries ∧
        (∀ turn ∈ turns, turn.status = .completed ∨ turn.status = .runtimeError) ∧
        ∀ n, enough ≤ n → history n (start output clock) entries = turns) ∧
    (∀ s : Session, s.Reached → ∀ n p,
      (Run.nest n p s.machine).map Prod.snd = Run.course n p s.machine ∧
      ∀ active ∈ Run.nest n p s.machine, active.2.2.machine.depth = active.1 ∧
        (active.2.2.left active.2.1).depth = active.1 ∧ active.1 ≤ 4096) ∧
    ∀ execute (callee : Value) args paren (m : Machine) (id : FunctionId) declaration closure,
      callee.payload = .function id →
      m.heap.functions[id]? = some (.user declaration closure) →
      args.length = declaration.params.length → 4096 ≤ m.depth →
        Run.call execute callee args paren m = .error (.fault ⟨.stackOverflow, paren⟩) m := by
  refine ⟨?_, ?_, ?_⟩
  · intro output clock entries total loopless
    have none : Run.Modest 0 (start output clock).machine :=
      ⟨total, declares_start _ _ output clock⟩
    exact history_ends loopless none
  · intro s reached n p
    refine ⟨Run.nest_course n p s.machine, ?_⟩
    intro active member
    obtain ⟨depth, few⟩ := Run.depth_nest (Run.idle_reached reached).2 n p active member
    exact ⟨depth, (Stage.depth_left _ _).trans depth, few⟩
  · intro execute callee args paren m id declaration closure isFunction found fits deep
    exact Run.call_overflow isFunction found fits deep

/-- A function that calls itself without end, and a call of it through a list in an object. -/
def endless : List Entry :=
  [⟨"", .ok "fun f(n) { return f(n + 1); }"⟩,
    ⟨"", .ok "var o = {var l = [f];}; o.l[0](1);"⟩]

/-- The machine in the last call that is allowed, with a function of two equal parameters. -/
def brink : Machine :=
  let m := Machine.start .unlimited fun _ => 0
  { m with
    heap := (m.heap.newFunction (.user ⟨default, [default, default], []⟩ 0)).2, depth := 4096 }

theorem loopless_sessions_end_endless :
    (∃ enough turns, turns.map Turn.entry = endless ∧
      (∀ turn ∈ turns, turn.status = .completed ∨ turn.status = .runtimeError) ∧
      ∀ n, enough ≤ n → history n (start .unlimited fun _ => 0) endless = turns) ∧
    (∀ n p, ∀ active ∈ Run.nest n p (Machine.start .unlimited fun _ => 0), active.1 ≤ 4096) ∧
    Run.call (Run.execute 9) (.of (.function 2)) [.null, .null] default brink =
      .error (.fault ⟨.stackOverflow, default⟩) brink := by
  obtain ⟨ends, depth, overflow⟩ := loopless_sessions_end
  refine ⟨ends _ _ _ (Output.isTotal_iff.mpr fun size => nofun) ?_, ?_, ?_⟩
  · simp only [endless, List.mem_cons, List.not_mem_nil, or_false, forall_eq_or_imp, forall_eq,
      Entry.Loopless]
    decide +kernel
  · intro n p active member
    exact ((depth _ (.start .unlimited fun _ => 0) n p).2 active member).2.2
  · exact overflow _ _ _ _ brink 2 ⟨default, [default, default], []⟩ 0 rfl rfl rfl (by decide)

end Session

end SoftScript
