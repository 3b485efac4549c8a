import SoftScript.Proofs.Run.Account

/-! Runs on an output that holds something already. If the output takes everything, a run goes the same way
whatever stands in it, and adds the same to it. -/
namespace SoftScript

/-- The same machine with something in front of its output, which takes everything. -/
def Machine.onto (before : ByteArray) (m : Machine) : Machine :=
  { m with output := ⟨before ++ m.output.written, none⟩ }

namespace Run

variable {α β : Type} {before : ByteArray} {m b : Machine} {n : Nat}
  {bare full : EStateM.Result Halt Machine α}

/-- How a run ends on an output that takes everything, and how it ends with something in front. -/
structure Appends (before : ByteArray) (bare full : EStateM.Result Halt Machine α) : Prop where
  free : (after bare).output.limit = none
  same : full = leaving (·.onto before) bare

theorem appends_blind {run : Run α} (blind : Blind run) (free : m.output.limit = none) :
    Appends before (run m) (run (m.onto before)) := by
  have kept := blind.output m
  refine ⟨by rw [kept, free], ?_⟩
  rw [Machine.onto, blind]
  cases ended : run m with
  | ok a m' | error e m' =>
    rw [ended] at kept
    have kept : m'.output = m.output := kept
    simp only [leaving, Machine.onto, kept]

theorem appends_write (line : String) (paren : Token) (free : m.output.limit = none) :
    Appends before (write line paren m) (write line paren (m.onto before)) := by
  have bare : m.output.write line =
      some (none, { m.output with written := m.output.written ++ line.toUTF8 }) :=
    Output.write_unlimited free
  have full : (m.onto before).output.write line =
      some (none, ⟨before ++ m.output.written ++ line.toUTF8, none⟩) := Output.write_unlimited rfl
  rw [write_apply, write_apply, bare, full]
  refine ⟨free, ?_⟩
  simp only [leaving, Machine.onto, ByteArray.append_assoc]

theorem appends_bind {x : Run α} {next : α → Run β}
    (first : Appends before (x m) (x (m.onto before)))
    (second : ∀ a m', x m = .ok a m' → m'.output.limit = none →
      Appends before (next a m') (next a (m'.onto before))) :
    Appends before ((x >>= next) m) ((x >>= next) (m.onto before)) := by
  rw [bind_apply, bind_apply, first.same]
  have free := first.free
  cases ran : x m with
  | ok a m' =>
    rw [ran] at free
    exact second a m' ran free
  | error e m' =>
    rw [ran] at free
    exact ⟨free, rfl⟩

/-- What is done after a run to the machine it leaves. -/
theorem Appends.leaving (inner : Appends before bare full) (leave : Machine → Machine)
    (keeps : ∀ l, (leave l).output = l.output)
    (commutes : ∀ l, leave (l.onto before) = (leave l).onto before) :
    Appends before (Run.leaving leave bare) (Run.leaving leave full) := by
  obtain ⟨free, rfl⟩ := inner
  cases bare with
  | ok a m' | error e m' => exact ⟨(congrArg Output.limit (keeps m')).trans free,
      congrArg _ (commutes m')⟩

/-- What a run adds does not depend on what stands in front; its tasks and events do not matter. -/
def AppendsOnto (before : ByteArray) ⦃α : Type⦄ (run : Run α) (m : Machine) (_ : List Stage)
    (_ : List Event) : Prop :=
  m.output.limit = none → Appends before (run m) (run (m.onto before))

theorem appends_look {next : Machine → Run α} {L : List Stage} {own : List Event}
    (same : ∀ m output, next { m with output } = next m)
    (later : AppendsOnto before (next m) m L own) : AppendsOnto before (get >>= next) m L own := by
  intro free
  change Appends before (next m m) (next (m.onto before) (m.onto before))
  rw [show next (m.onto before) = next m from same m _]
  exact later free

theorem appends_block {run : Run α} {L : List Stage}
    (inner : AppendsOnto before run (m.entering ⟨[], some m.scope⟩) L []) :
    AppendsOnto before
      (do let frame ← newFrame ⟨[], some (← get).scope⟩; inScope frame run) m L [] :=
  fun free => (inner free).leaving ({ · with scope := m.scope }) (fun _ => rfl) fun _ => rfl

theorem appends_called {run : Run α} {L : List Stage} {bound : Bindings} {closure : FrameId}
    (inner : AppendsOnto before run (m.calling ⟨bound, some closure⟩) L []) :
    AppendsOnto before (do
      let frame ← newFrame ⟨bound, some closure⟩
      deeper (inScope frame run)) m L [] := by
  intro free
  have returned := (inner free).leaving ({ · with scope := m.scope }) (fun _ => rfl) fun _ => rfl
  exact returned.leaving (fun l => { l with depth := l.depth - 1 }) (fun _ => rfl) fun _ => rfl

theorem appends_account
    (value : ∀ e (m : Machine), m.output.limit = none →
      Appends before (evaluate n e m) (evaluate n e (m.onto before)))
    (flow : ∀ s (m : Machine), m.output.limit = none →
      Appends before (execute n s m) (execute n s (m.onto before))) :
    Account n (AppendsOnto before) where
  calm _ calm free := appends_blind calm.blind free
  value e m free := value e m free
  flow s m free := flow s m free
  look := appends_look
  bind first second free := appends_bind (first free) second
  answer a inner free :=
    appends_bind (inner free) fun _ _ _ free' => appends_blind (blind_pure a) free'
  write line paren _ free := appends_write line paren free
  newObject _ _ free := appends_blind (blind_newObject _) free
  assignMember v dot member value _ free := appends_blind (blind_assignMember v dot member value) free
  assign name value _ free := appends_blind (blind_assign name value) free
  define _ _ free := appends_blind (blind_define _ _) free
  block := appends_block
  called _ := appends_called

theorem appends_all (before : ByteArray) (n : Nat) :
    (∀ e (m : Machine), m.output.limit = none →
      Appends before (evaluate n e m) (evaluate n e (m.onto before))) ∧
    ∀ s (m : Machine), m.output.limit = none →
      Appends before (execute n s m) (execute n s (m.onto before)) := by
  induction n with
  | zero =>
    exact ⟨fun e m free => appends_blind calm_exhausted.blind free,
      fun s m free => appends_blind calm_exhausted.blind free⟩
  | succ n ih =>
    have account := appends_account ih.1 ih.2
    exact ⟨fun e m free => account.evaluate e m free, fun s m free => account.execute s m free⟩

/-- A program run on an output that holds something already. -/
theorem appends_interpret (before : ByteArray) (n : Nat) (p : List Stmt)
    (free : m.output.limit = none) :
    Appends before (interpret n p m) (interpret n p (m.onto before)) := by
  obtain ⟨value, flow⟩ := appends_all before n
  exact (appends_account value flow).interpret p m free

end Run

end SoftScript
