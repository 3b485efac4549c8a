import SoftScript.Session

/-! The history of a session. What a source does depends on the machine alone, and of each run that
does not complete one failure is reported. So a source that is rejected can be left out of a history,
and another one put in, without a difference to any other run. -/
namespace SoftScript

namespace Report.Emitter

/-- Emits a failure if there is one. -/
def emit? (e : Emitter) : Option Failure → Emitter
  | some failure => e.emit failure
  | none => e

/-- What an emitter has kept since an earlier time. -/
def since (e earlier : Emitter) : List Failure := e.kept.toList.drop earlier.kept.size

theorem muted_emit? (e : Emitter) (failure? : Option Failure) :
    (e.emit? failure?).muted = e.muted := by
  cases failure? <;> rfl

theorem count_emit? (e : Emitter) (failure? : Option Failure) :
    (e.emit? failure?).count = e.count + failure?.toList.length := by
  cases failure? <;> rfl

theorem since_emit? (e : Emitter) (failure? : Option Failure) :
    (e.emit? failure?).since e = if e.muted then [] else failure?.toList := by
  cases failure? with
  | none => simp [emit?, since]
  | some failure =>
    simp only [emit?, since, emit]
    split <;> simp

end Report.Emitter

namespace Session

/-- A source that a session is asked to run, or why it cannot be read. -/
structure Entry where
  path : String
  contents : Except DeviceError String

/-- A source with errors. -/
def Entry.isRejected (entry : Entry) : Bool :=
  match entry.contents with
  | .ok source => !(Parse.ofSource source).isValid
  | .error _ => false

/-- One run of a session. -/
structure Turn where
  entry : Entry
  before : Session
  status : Status
  after : Session

/-- What can be told of a run: how it ended, the failures it reported, and the machine it left,
with the output and the globals in it. -/
def Turn.told (turn : Turn) : Entry × Status × List Report.Failure × Machine :=
  (turn.entry, turn.status, turn.after.emitter.since turn.before.emitter, turn.after.machine)

/-- Runs sources one after the other, up to one that does not end. -/
def history (n : Nat) : Session → List Entry → List Turn
  | _, [] => []
  | s, entry :: rest =>
    match s.runFile n entry.path entry.contents with
    | some (status, s') => ⟨entry, s, status, s'⟩ :: history n s' rest
    | none => []

theorem entries_history (n : Nat) (s : Session) (entries : List Entry) :
    (history n s entries).map Turn.entry <+: entries := by
  induction entries generalizing s with
  | nil => exact List.prefix_rfl
  | cons entry rest ih =>
    rw [history]
    split
    · exact List.cons_prefix_cons.mpr ⟨rfl, ih _⟩
    · exact List.nil_prefix

/-! What a run comes to does not depend on the failures before it. -/

structure Answer where
  status : Status
  machine : Machine
  failure? : Option Report.Failure

/-- What comes of a source on a machine. -/
def answer? (n : Nat) (entry : Entry) (m : Machine) : Option Answer :=
  match entry.contents with
  | .error error => some ⟨.deviceError, m, some (.device error)⟩
  | .ok source =>
    let program := Parse.ofSource source
    if program.isValid then
      match Run.interpret n program.statements m with
      | .ok _ m => some ⟨.completed, m, none⟩
      | .error (.fault fault) m =>
        some ⟨.runtimeError, m, some (.runtime entry.path source fault)⟩
      | .error .exhausted _ => none
    else some ⟨.syntaxError, m, some (.parse entry.path source program.errors)⟩

variable {n : Nat} {entry : Entry} {m : Machine} {answer : Answer} {s s' t : Session}

theorem runFile_eq (n : Nat) (entry : Entry) (s : Session) :
    s.runFile n entry.path entry.contents = (answer? n entry s.machine).map fun answer =>
      (answer.status, ⟨answer.machine, s.emitter.emit? answer.failure?⟩) := by
  obtain ⟨path, contents⟩ := entry
  cases contents with
  | error error => rfl
  | ok source =>
    simp only [runFile, run, answer?]
    split
    · split <;> simp_all [report, Report.Emitter.emit?]
    · rfl

/-- A failure is reported of every run that does not complete, and of no other. -/
theorem failures_of_answer (answered : answer? n entry m = some answer) :
    answer.failure?.toList.length = if answer.status = .completed then 0 else 1 := by
  unfold answer? at answered
  split at answered
  · cases answered
    rfl
  · dsimp only at answered
    split at answered
    · split at answered <;> cases answered <;> rfl
    · cases answered
      rfl

/-- A rejected source leaves the machine alone. -/
theorem answer_of_isRejected (rejected : entry.isRejected = true) (n : Nat) (m : Machine) :
    ∃ failure, answer? n entry m = some ⟨.syntaxError, m, some failure⟩ := by
  unfold Entry.isRejected at rejected
  unfold answer?
  split at rejected
  · rename_i source read
    rw [read]
    simp only [Bool.not_eq_true'] at rejected
    simp [rejected]
  · cases rejected

/-- Two sessions that differ in the failures they have reported only. -/
structure Even (s t : Session) : Prop where
  machine : s.machine = t.machine
  muted : s.emitter.muted = t.emitter.muted

/-- The runs that are not rejected, as far as they can be told. -/
def others (n : Nat) (s : Session) (entries : List Entry) :
    List (Entry × Status × List Report.Failure × Machine) :=
  ((history n s entries).filter (!·.entry.isRejected)).map Turn.told

theorem others_of_isRejected (rejected : entry.isRejected = true) (rest : List Entry) :
    ∃ s', s'.Even s ∧ others n s (entry :: rest) = others n s' rest := by
  obtain ⟨failure, answered⟩ := answer_of_isRejected rejected n s.machine
  refine ⟨⟨s.machine, s.emitter.emit? (some failure)⟩, ⟨rfl, s.emitter.muted_emit? _⟩, ?_⟩
  simp [others, history, runFile_eq, answered, rejected]

/-- Rejected sources can be left out. -/
theorem others_filter (entries : List Entry) (even : s.Even t) :
    others n s entries = others n t (entries.filter (!·.isRejected)) := by
  induction entries generalizing s t with
  | nil => rfl
  | cons entry rest ih =>
    cases rejected : entry.isRejected with
    | true =>
      obtain ⟨s', even', left⟩ := others_of_isRejected (n := n) (s := s) rejected rest
      rw [left, List.filter_cons_of_neg (by simp [rejected])]
      exact ih ⟨even'.machine.trans even.machine, even'.muted.trans even.muted⟩
    | false =>
      rw [List.filter_cons_of_pos (by simp [rejected])]
      simp only [others, history, runFile_eq, even.machine]
      cases answered : answer? n entry t.machine with
      | none => rfl
      | some answer =>
        have later : Even ⟨answer.machine, s.emitter.emit? answer.failure?⟩
            ⟨answer.machine, t.emitter.emit? answer.failure?⟩ :=
          ⟨rfl, by simp only [Report.Emitter.muted_emit?, even.muted]⟩
        have same := ih later
        simp only [others] at same
        simp [rejected, Turn.told, Report.Emitter.since_emit?, even.muted, same]

/-- A run that does not complete is counted once, and a run that completes is not. -/
theorem count_runFile {status : Status}
    (ran : s.runFile n entry.path entry.contents = some (status, s')) :
    s'.emitter.count = s.emitter.count + if status = .completed then 0 else 1 := by
  rw [runFile_eq] at ran
  obtain ⟨answer, answered, same⟩ := Option.map_eq_some_iff.mp ran
  obtain ⟨rfl, rfl⟩ := Prod.mk.inj same
  rw [← failures_of_answer answered]
  exact Report.Emitter.count_emit? _ _

theorem count_history {entries : List Entry} {past : List Turn} {turn : Turn}
    (passed : past ++ [turn] <+: history n s entries) : turn.after.emitter.count =
      s.emitter.count + (past ++ [turn]).countP (·.status ≠ .completed) := by
  induction entries generalizing s past with
  | nil => simp [history] at passed
  | cons entry rest ih =>
    rw [history] at passed
    split at passed
    · rename_i status s' ran
      have counted := count_runFile ran
      cases past with
      | nil =>
        obtain ⟨rfl, _⟩ := List.cons_prefix_cons.mp passed
        by_cases completed : status = .completed <;> simp_all
      | cons first past =>
        obtain ⟨rfl, later⟩ := List.cons_prefix_cons.mp passed
        rw [ih later, counted, List.cons_append, List.countP_cons]
        by_cases completed : status = .completed
        · simp [completed]
        · simp [completed]
          omega
    · simp at passed

/-- What a run that ends in a fault reports is that fault, at the machine it left. -/
theorem run_runtimeError {path source : String}
    (ran : s.run n path source = some (.runtimeError, s')) : ∃ fault,
      Run.interpret n (Parse.ofSource source).statements s.machine =
        .error (.fault fault) s'.machine ∧
      s'.emitter = s.emitter.emit (.runtime path source fault) := by
  simp only [run] at ran
  split at ran
  · split at ran
    · cases ran
    · rename_i fault m ended
      cases ran
      exact ⟨fault, ended, rfl⟩
    · cases ran
  · cases ran

theorem run_completed {path source : String}
    (ran : s.run n path source = some (.completed, s')) :
    Run.interpret n (Parse.ofSource source).statements s.machine = .ok () s'.machine ∧
      s'.emitter = s.emitter := by
  simp only [run] at ran
  split at ran
  · split at ran
    · rename_i m ended
      cases ran
      exact ⟨ended, rfl⟩
    · cases ran
    · cases ran
  · cases ran

/-- Rejected sources leave no trace, and every failure is reported once. A source with errors is not
run: the machine stays as it is, and all its errors, of which there is one at least, are emitted as
one failure. A run that ends in a fault emits that fault, and a run that completes emits nothing.
After any runs the count is the number of those that did not complete. And two lists of sources
that are the same but for rejected ones give all other runs the same ends, failures and machines,
with the same output and the same globals in them. -/
theorem rejected_leave_no_trace :
    (∀ n (s : Session) path source, (Parse.ofSource source).isValid = false →
      (Parse.ofSource source).errors ≠ [] ∧ s.run n path source = some (.syntaxError,
        { s with emitter := s.emitter.emit (.parse path source (Parse.ofSource source).errors) })) ∧
    (∀ n (s : Session) path source s', s.run n path source = some (.runtimeError, s') → ∃ fault,
      Run.interpret n (Parse.ofSource source).statements s.machine =
        .error (.fault fault) s'.machine ∧
      s'.emitter = s.emitter.emit (.runtime path source fault)) ∧
    (∀ n (s : Session) path source s', s.run n path source = some (.completed, s') →
      s'.emitter = s.emitter) ∧
    (∀ n (s : Session) entries past turn, past ++ [turn] <+: history n s entries →
      turn.after.emitter.count =
        s.emitter.count + (past ++ [turn]).countP (·.status ≠ .completed)) ∧
    ∀ n (s : Session) entries entries',
      entries.filter (!·.isRejected) = entries'.filter (!·.isRejected) →
        ((history n s entries).filter (!·.entry.isRejected)).map Turn.told =
          ((history n s entries').filter (!·.entry.isRejected)).map Turn.told := by
  refine ⟨?_, ?_, ?_, ?_, ?_⟩
  · intro n s path source invalid
    refine ⟨by simpa [Parse.Program.isValid] using invalid, ?_⟩
    simp [run, invalid, report]
  · intro n s path source s' ran
    exact run_runtimeError ran
  · intro n s path source s' ran
    exact (run_completed ran).2
  · intro n s entries past turn passed
    exact count_history passed
  · intro n s entries entries' same
    have even : s.Even s := ⟨rfl, rfl⟩
    calc others n s entries
      _ = others n s (entries.filter (!·.isRejected)) := others_filter entries even
      _ = others n s (entries'.filter (!·.isRejected)) := by rw [same]
      _ = others n s entries' := (others_filter entries' even).symm

/-- A source that completes, one that is rejected and one that fails. -/
def mixed : List Entry :=
  [⟨"", .ok "var x = 1;"⟩, ⟨"", .ok "x = (2;"⟩, ⟨"", .ok "x / 0;"⟩]

theorem rejected_leave_no_trace_mixed :
    (∃ s s', (start .unlimited fun _ => 0).run 9 "" "var x = 1;" = some (.completed, s) ∧
      s.emitter = .empty ∧ s.run 9 "" "x / 0;" = some (.runtimeError, s') ∧
      ∃ fault, s'.emitter = Report.Emitter.empty.emit (.runtime "" "x / 0;" fault)) ∧
    (∃ past turn, past ++ [turn] = history 9 (start .unlimited fun _ => 0) mixed ∧
      (past ++ [turn]).map Turn.status = [.completed, .syntaxError, .runtimeError] ∧
      turn.after.emitter.count = (past ++ [turn]).countP (·.status ≠ .completed)) ∧
    (Parse.ofSource "x = (2;").errors ≠ [] ∧
    ∀ s : Session, ((history 9 s mixed).filter (!·.entry.isRejected)).map Turn.told =
      ((history 9 s (mixed.eraseIdx 1)).filter (!·.entry.isRejected)).map Turn.told := by
  obtain ⟨rejects, fails, completes, counts, others⟩ := rejected_leave_no_trace
  have invalid : (Parse.ofSource "x = (2;").isValid = false := by decide +kernel
  refine ⟨?_, ?_, (rejects 9 (start .unlimited fun _ => 0) "" _ invalid).1, fun s => ?_⟩
  · have ended : ((start .unlimited fun _ => 0).run 9 "" "var x = 1;").bind (fun ran =>
        (ran.2.run 9 "" "x / 0;").map fun ran' => (ran.1, ran'.1)) =
          some (.completed, .runtimeError) := by
      decide +kernel
    obtain ⟨⟨status, s⟩, first, ended⟩ := Option.bind_eq_some_iff.mp ended
    obtain ⟨⟨status', s'⟩, second, same⟩ := Option.map_eq_some_iff.mp ended
    obtain ⟨rfl, rfl⟩ := Prod.mk.inj same
    have kept : s.emitter = .empty := completes 9 _ _ _ s first
    obtain ⟨fault, _, emitted⟩ := fails 9 s _ _ s' second
    exact ⟨s, s', first, kept, second, fault, kept ▸ emitted⟩
  · have ended : (history 9 (start .unlimited fun _ => 0) mixed).map Turn.status =
        [.completed, .syntaxError, .runtimeError] := by
      decide +kernel
    rcases List.eq_nil_or_concat (history 9 (start .unlimited fun _ => 0) mixed) with
      none | ⟨past, turn, all⟩
    · rw [none] at ended
      cases ended
    · rw [List.concat_eq_append] at all
      refine ⟨past, turn, all.symm, all ▸ ended, ?_⟩
      have counted := counts 9 (start .unlimited fun _ => 0) mixed past turn
        (all ▸ List.prefix_rfl)
      simpa [start, Report.Emitter.empty] using counted
  · apply others
    have rejected : Entry.isRejected ⟨"", .ok "x = (2;"⟩ = true := by
      simp [Entry.isRejected, invalid]
    simp only [mixed, List.eraseIdx, List.filter_cons, rejected, Bool.not_true, Bool.false_eq_true,
      if_false]

end Session

end SoftScript
