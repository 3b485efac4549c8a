import SoftScript.Proofs.Run.Law
import SoftScript.Session

/-! The states that sessions pass through. Between two runs a session may say something of its own
and hand over the failures it has kept; its machine changes in no other way. -/
namespace SoftScript

namespace Session

/-- What can happen to a session between two of its states. -/
inductive Step : Session → Session → Prop
  | runFile (n : Nat) (path : String) (contents : Except DeviceError String) (status : Status) :
    s.runFile n path contents = some (status, s') → Step s s'
  | say (text : String) : Step s (s.say text)
  | emitter (emitter : Report.Emitter) : Step s { s with emitter }

/-- The states of a session from its start on. -/
inductive Reached : Session → Prop
  | start (output : Output) (clock : Nat → Integer) : Reached (start output clock)
  | step : Reached s → s.Step s' → Reached s'

variable {s s' : Session}

theorem Step.run {n : Nat} {path source : String} {status : Status}
    (ran : s.run n path source = some (status, s')) : s.Step s' :=
  .runFile n path (.ok source) status ran

/-- A run that ends leaves the machine to the program, or alone if there is no program. -/
theorem machine_run {n : Nat} {path source : String} {status : Status}
    (ran : s.run n path source = some (status, s')) : s'.machine =
      if (Parse.ofSource source).isValid then
        Run.after (Run.interpret n (Parse.ofSource source).statements s.machine)
      else s.machine := by
  simp only [Session.run] at ran
  split at ran
  · rename_i valid
    rw [if_pos valid]
    split at ran <;> cases ran
    · rename_i ended
      rw [ended]
      rfl
    · rename_i ended
      rw [ended]
      rfl
  · rename_i invalid
    rw [if_neg invalid]
    cases ran
    rfl

/-- Saying something changes no more of the machine than what its output holds. -/
theorem machine_say (s : Session) (text : String) : ∃ output : Output,
    output.limit = s.machine.output.limit ∧ (s.say text).machine = { s.machine with output } := by
  unfold Session.say
  cases ended : s.machine.output.write text with
  | none => exact ⟨s.machine.output, rfl, rfl⟩
  | some outcome => exact ⟨outcome.2, Output.limit_write ended, rfl⟩

/-- A step runs a program or changes no more of the machine than what its output holds. -/
theorem Step.machine (step : s.Step s') : (∃ output : Output,
      output.limit = s.machine.output.limit ∧ s'.machine = { s.machine with output }) ∨
    ∃ n source, (Parse.ofSource source).isValid = true ∧
      s'.machine = Run.after (Run.interpret n (Parse.ofSource source).statements s.machine) := by
  cases step with
  | runFile n path contents status ran =>
    cases contents with
    | ok source =>
      have left := machine_run ran
      split at left
      · rename_i valid
        exact .inr ⟨n, source, valid, left⟩
      · exact .inl ⟨s.machine.output, rfl, left⟩
    | error error =>
      cases ran
      exact .inl ⟨s.machine.output, rfl, rfl⟩
  | say text => exact .inl (machine_say s text)
  | emitter => exact .inl ⟨s.machine.output, rfl, rfl⟩

/-- The functions of a new session are all built in. -/
theorem declares_start (f : Expr → Bool) (g : Bool → Stmt → Bool) (output : Output)
    (clock : Nat → Integer) : (start output clock).machine.heap.Declares f g := by
  intro id declaration closure found
  rw [start, Machine.heap_start] at found
  rcases id with _ | _ | id <;> simp at found

end Session

namespace Run.Law

variable {f : Expr → Bool} {g : Bool → Stmt → Bool} {Q : Bool → Machine → Machine → Prop}
  {s s' : Session}

/-- A law that holds of runs of valid programs holds of sessions. -/
theorem session_step (law : Law f g Q)
    (formed : ∀ source, (Parse.ofSource source).isValid = true →
      Stmt.allUphold f g false (Parse.ofSource source).statements = true)
    (declares : s.machine.heap.Declares f g) (step : s.Step s') :
    s'.machine.heap.Declares f g ∧ Q true s.machine s'.machine := by
  rcases step.machine with ⟨output, limit, left⟩ | ⟨n, source, valid, left⟩
  · rw [left]
    exact ⟨declares, law.weaken (law.write s.machine output limit)⟩
  · rw [left]
    exact law.obeys_interpret n (formed source valid) declares

theorem declares_reached (law : Law f g Q)
    (formed : ∀ source, (Parse.ofSource source).isValid = true →
      Stmt.allUphold f g false (Parse.ofSource source).statements = true)
    (reached : s.Reached) : s.machine.heap.Declares f g := by
  induction reached with
  | start output clock => exact Session.declares_start f g output clock
  | step _ step ih => exact (law.session_step formed ih step).1

end Run.Law

end SoftScript
