import SoftScript.Proofs.Run.Account

/-! Chronicles. A chronicle says something of a machine and of the events that have led to it. If it
holds at the beginning of a run, and each step of the machine keeps it, then it holds at all times of
the run with the events so far. -/
namespace SoftScript

namespace Run

variable {α β : Type} {T : List Event → Machine → Prop} {m m' : Machine} {n : Nat}
  {past own : List Event} {L L' : List Stage}

/-- Something that is kept up as things happen. It says nothing of lists, functions and output, nor
of the current scope. -/
structure Chronicle (T : List Event → Machine → Prop) : Prop where
  calm : ∀ {past} {m m' : Machine}, T past m → m'.heap.frames = m.heap.frames →
    m'.heap.objects = m.heap.objects → m'.globals = m.globals → T past m'
  print : ∀ {past m} paren line, T past m → T (past ++ [.print paren line]) m
  make : ∀ {past} {m : Machine} {declarations members}, members.MadeOf declarations → T past m →
    T (past ++ [.make declarations members]) { m with heap := (m.heap.newObject members).2 }
  assign : ∀ {past} {m : Machine} {id : ObjectId} {member : Token} (value : Value),
    (m.heap.members id).contains member.lexeme = true → T past m →
    T (past ++ [.assign id member value])
      { m with heap := m.heap.modifyMembers id (·.modify member.lexeme fun _ => value) }
  rebind : ∀ {past} {m : Machine} holder name payload, T past m →
    T past { m with heap := m.heap.rebind holder name payload }
  bind : ∀ {past} {m : Machine} {name : Token} {value : Value}, value.name = some name →
    (m.heap.bindings m.scope).contains name.lexeme = false → T past m →
    T past { m with heap := m.heap.bind m.scope name.lexeme value }
  newFrame : ∀ {past} {m : Machine} {bound : Bindings} (enclosing : FrameId), bound.OwnNamed →
    T past m → T past { m with heap := (m.heap.newFrame ⟨bound, some enclosing⟩).2 }

/-- Stages that lie one after the other, with events of their own after them: before each stage the
chronicle holds with what has happened so far, if it does after those before it, and so at the end. -/
def Laid (T : List Event → Machine → Prop) (n : Nat) :
    List Event → List Stage → List Event → Machine → Prop
  | past, [], own, m' => T (past ++ own) m'
  | past, st :: rest, own, m' => T past st.machine ∧
      (T (past ++ st.events n) (st.left n) → Laid T n (past ++ st.events n) rest own m')

theorem Laid.append (first : Laid T n past L [] m)
    (second : ∀ past, T past m → Laid T n past L' own m') : Laid T n past (L ++ L') own m' := by
  induction L generalizing past with
  | nil =>
    have held : T (past ++ []) m := first
    rw [List.append_nil] at held
    exact second past held
  | cons st rest ih => exact ⟨first.1, fun ended => ih (first.2 ended)⟩

theorem Laid.last (inner : Laid T n past L own m) (after : ∀ past, T past m → T past m') :
    Laid T n past L own m' := by
  induction L generalizing past with
  | nil => exact after _ inner
  | cons st rest ih => exact ⟨inner.1, fun ended => ih (inner.2 ended)⟩

/-- The stages of a run with the events after them. -/
def Tells (T : List Event → Machine → Prop) (n : Nat) ⦃α : Type⦄ (run : Run α) (m : Machine)
    (stages : List Stage) (own : List Event) : Prop :=
  ∀ past, T past m → Laid T n past stages own (after (run m))

theorem tells_bind {x : Run α} {next : α → Run β} {L' : α → Machine → List Stage}
    {own : α → Machine → List Event} (first : Tells T n x m L [])
    (second : ∀ a m', x m = .ok a m' → Tells T n (next a) m' (L' a m') (own a m')) :
    Tells T n (x >>= next) m (L ++ thereafter (x m) L') (thereafter (x m) own) := by
  intro past held
  have begun := first past held
  rw [bind_apply]
  cases ran : x m with
  | error e m' =>
    rw [ran] at begun
    rw [thereafter, thereafter, List.append_nil]
    exact begun
  | ok a m' =>
    rw [ran] at begun
    exact begun.append fun past held => second a m' ran past held

theorem tells_answer {x : Run α} (a : β) (inner : Tells T n x m L own) :
    Tells T n (do let _ ← x; return a) m L own := by
  have same : after ((do let _ ← x; return a : Run β) m) = after (x m) := by
    rw [bind_apply]
    cases x m <;> rfl
  intro past held
  rw [same]
  exact inner past held

namespace Chronicle

variable (chronicle : Chronicle T)

include chronicle

theorem tells_calm {run : Run α} (m : Machine) (calm : Calm run) : Tells T n run m [] [] := by
  intro past held
  change T (past ++ []) _
  rw [List.append_nil]
  exact chronicle.calm held (calm.frames m) (calm.objects m) (calm.globals m)

theorem tells_write (line : String) (paren : Token) (m : Machine) :
    Tells T n (write line paren) m [] [.print paren line] := by
  intro past held
  have printed := chronicle.print paren line held
  rw [write_apply]
  rcases m.output.write line with _ | ⟨_ | error, output⟩
  all_goals exact chronicle.calm printed rfl rfl rfl

theorem tells_assignMember (v : Value) (dot member : Token) (value : Value) (m : Machine) :
    Tells T n (assignMember v dot member value) m [] (assignEvents v member value m) := by
  intro past held
  change T (past ++ _) _
  rw [assignMember_apply, assignEvents]
  cases v.payload with
  | object id =>
    dsimp only
    by_cases there : (m.heap.members id).contains member.lexeme = true
    · rw [if_pos there, if_pos there]
      exact chronicle.assign value there held
    · rw [if_neg there, if_neg there, List.append_nil]
      exact held
  | int | bool | function | string | list | null =>
    rw [List.append_nil]
    exact held

theorem tells_assign (name : Token) (value : Value) (m : Machine) :
    Tells T n (Run.assign name value) m [] [] := by
  intro past held
  change T (past ++ []) _
  rw [assign_apply, List.append_nil]
  cases m.heap.holder? m.scope name.lexeme with
  | none => exact held
  | some holder => exact chronicle.rebind holder name.lexeme value.payload held

theorem tells_define {name : Token} {value : Value} (m : Machine) (known : value.name = some name) :
    Tells T n (define name value) m [] [] := by
  intro past held
  change T (past ++ []) _
  rw [define_apply, List.append_nil]
  by_cases there : (m.heap.bindings m.scope).contains name.lexeme = true
  · rw [if_pos there]
    exact held
  · rw [if_neg there]
    exact chronicle.bind known (by simpa using there) held

theorem tells_block {run : Run α} (inner : Tells T n run (m.entering ⟨[], some m.scope⟩) L []) :
    Tells T n (do let frame ← Run.newFrame ⟨[], some (← get).scope⟩; inScope frame run) m L [] := by
  intro past held
  have made := chronicle.newFrame m.scope Bindings.ownNamed_nil held
  have entered : T past (m.entering ⟨[], some m.scope⟩) := chronicle.calm made rfl rfl rfl
  have left := after_inScope (m := { m with heap := (m.heap.newFrame ⟨[], some m.scope⟩).2 })
    m.heap.frames.size run
  exact (inner past entered).last fun past held => left ▸ chronicle.calm held rfl rfl rfl

theorem tells_called {run : Run α} {bound : Bindings} {closure : FrameId} (own : bound.OwnNamed)
    (inner : Tells T n run (m.calling ⟨bound, some closure⟩) L []) :
    Tells T n (do
      let frame ← Run.newFrame ⟨bound, some closure⟩
      deeper (inScope frame run)) m L [] := by
  intro past held
  have made := chronicle.newFrame closure own held
  have entered : T past (m.calling ⟨bound, some closure⟩) := chronicle.calm made rfl rfl rfl
  have left := after_deeper (m := { m with heap := (m.heap.newFrame ⟨bound, some closure⟩).2 })
    (inScope m.heap.frames.size run)
  rw [after_inScope] at left
  exact (inner past entered).last fun past held => left ▸ chronicle.calm held rfl rfl rfl

theorem account : Account n (Tells T n) where
  calm m calm := chronicle.tells_calm m calm
  value e m past held := ⟨held, fun ended => by simpa [Laid, Stage.left] using ended⟩
  flow s m past held := ⟨held, fun ended => by simpa [Laid, Stage.left] using ended⟩
  look _ later := later
  bind := tells_bind
  answer := tells_answer
  write := chronicle.tells_write
  newObject _ made _ held := chronicle.make made held
  assignMember := chronicle.tells_assignMember
  assign := chronicle.tells_assign
  define := chronicle.tells_define
  block := chronicle.tells_block
  called := chronicle.tells_called

end Chronicle

/-- A task with a bound, told of before it begins and when it has ended. -/
structure Told (T : List Event → Machine → Prop) (past told : List Event) (begun : Nat × Stage)
    (early : List Event) : Prop where
  within : early ++ begun.2.events begun.1 <+: told
  before : T (past ++ early) begun.2.machine
  after : T (past ++ (early ++ begun.2.events begun.1)) (begun.2.left begun.1)

end Run

/-- A time of a run: what has happened until then, and the machine. -/
structure Time where
  told : List Event
  machine : Machine

/-- A time, told of from an earlier beginning on. -/
def Time.since (past : List Event) (time : Time) : Time := { time with told := past ++ time.told }

theorem Time.since_nil (time : Time) : time.since [] = time := rfl

/-- The times of stages that lie one after the other. -/
def Run.inTurn (times : Stage → List Time) (events : Stage → List Event) : List Stage → List Time
  | [] => []
  | st :: rest => times st ++ (inTurn times events rest).map (.since (events st))

/-- The times of a task, from its beginning to its end. -/
def Stage.times : Nat → Stage → List Time
  | 0, st => [⟨[], st.machine⟩, ⟨[], st.left 0⟩]
  | n + 1, st => ⟨[], st.machine⟩ :: Run.inTurn (times n) (events n) (st.parts n) ++
      [⟨st.events (n + 1), st.left (n + 1)⟩]

/-- The times of a program. -/
def Run.times (n : Nat) (p : List Stmt) (m : Machine) : List Time :=
  ⟨[], m⟩ :: inTurn (Stage.times n) (Stage.events n) (programStages n p m) ++
    [⟨events n p m, after (interpret n p m)⟩]

namespace Run

variable {T : List Event → Machine → Prop} {m : Machine} {n : Nat} {past own : List Event}
  {L : List Stage}

theorem told_inTurn {times : Stage → List Time} {events : Stage → List Event}
    (each : ∀ st ∈ L, ∀ time ∈ times st, time.told <+: events st) :
    ∀ time ∈ inTurn times events L, time.told <+: L.flatMap events := by
  induction L with
  | nil => simp [inTurn]
  | cons st rest ih =>
    obtain ⟨first, others⟩ := List.forall_mem_cons.mp each
    intro time member
    rw [List.flatMap_cons]
    rcases List.mem_append.mp member with now | later
    · exact (first time now).trans (List.prefix_append ..)
    · obtain ⟨time', inner, rfl⟩ := List.mem_map.mp later
      exact (List.prefix_append_right_inj _).mpr (ih others time' inner)

theorem told_stageTimes (n : Nat) (st : Stage) : ∀ time ∈ st.times n, time.told <+: st.events n := by
  induction n generalizing st with
  | zero => simp [Stage.times]
  | succ n ih =>
    intro time member
    simp only [Stage.times, List.cons_append, List.mem_cons, List.mem_append, List.not_mem_nil,
      or_false] at member
    rcases member with rfl | between | rfl
    · exact List.nil_prefix
    · exact (told_inTurn (fun part _ => ih part) time between).trans (List.prefix_append ..)
    · exact List.prefix_rfl

/-- What has happened until some time is the beginning of all that happens. -/
theorem told_times (n : Nat) (p : List Stmt) (m : Machine) :
    ∀ time ∈ times n p m, time.told <+: events n p m := by
  intro time member
  simp only [times, List.cons_append, List.mem_cons, List.mem_append, List.not_mem_nil,
    or_false] at member
  rcases member with rfl | between | rfl
  · exact List.nil_prefix
  · exact told_inTurn (fun st _ => told_stageTimes n st) time between
  · exact List.prefix_rfl

/-- A task keeps up the chronicle to its end, and so does every task in its course; the chronicle
holds at all its times. -/
structure Kept (T : List Event → Machine → Prop) (n : Nat) (st : Stage) : Prop where
  ended : ∀ past, T past st.machine → T (past ++ st.events n) (st.left n)
  course : ∀ past, T past st.machine → ∀ begun ∈ st.course n, ∃ early,
    Told T past (st.events n) begun early
  times : ∀ past, T past st.machine → ∀ time ∈ st.times n, T (past ++ time.told) time.machine

/-- What is told of a task itself. -/
theorem told_itself {st : Stage} (before : T past st.machine)
    (after : T (past ++ st.events n) (st.left n)) : Told T past (st.events n) (n, st) [] :=
  ⟨List.prefix_rfl, by rwa [List.append_nil], after⟩

theorem Told.later {told more : List Event} {begun : Nat × Stage} {early : List Event}
    (inner : Told T past told begun early) (isPart : told <+: more) : Told T past more begun early :=
  { inner with within := inner.within.trans isPart }

/-- If each of the stages keeps up the chronicle, it holds in their course and at the end. -/
theorem Laid.kept (laid : Laid T n past L own m) (all : ∀ st ∈ L, Kept T n st) :
    T (past ++ (L.flatMap (Stage.events n) ++ own)) m ∧
      (∀ begun ∈ L.flatMap (Stage.course n), ∃ early,
        Told T past (L.flatMap (Stage.events n)) begun early) ∧
      ∀ time ∈ inTurn (Stage.times n) (Stage.events n) L, T (past ++ time.told) time.machine := by
  induction L generalizing past with
  | nil => exact ⟨laid, by simp, by simp [inTurn]⟩
  | cons st rest ih =>
    obtain ⟨first, others⟩ := List.forall_mem_cons.mp all
    obtain ⟨ended, inner, times⟩ := ih (laid.2 (first.ended past laid.1)) others
    refine ⟨by simpa using ended, ?_, ?_⟩
    · intro begun member
      rw [List.flatMap_cons] at member ⊢
      rcases List.mem_append.mp member with now | later
      · obtain ⟨early, told⟩ := first.course past laid.1 begun now
        exact ⟨early, told.later (List.prefix_append ..)⟩
      · obtain ⟨early, within, before, after⟩ := inner begun later
        refine ⟨st.events n ++ early, ?_, ?_, ?_⟩
        · rw [List.append_assoc]
          exact (List.prefix_append_right_inj _).mpr within
        · rwa [← List.append_assoc]
        · rwa [List.append_assoc, ← List.append_assoc past]
    · intro time member
      rcases List.mem_append.mp member with now | later
      · exact first.times past laid.1 time now
      · obtain ⟨time', within, rfl⟩ := List.mem_map.mp later
        have held := times time' within
        rwa [List.append_assoc] at held

namespace Chronicle

variable (chronicle : Chronicle T)

include chronicle

theorem kept (n : Nat) (st : Stage) : Kept T n st := by
  induction n generalizing st with
  | zero =>
    have ended (past : List Event) (held : T past st.machine) :
        T (past ++ st.events 0) (st.left 0) := by
      have stays : st.left 0 = st.machine := by
        obtain ⟨_ | _, m⟩ := st <;> rfl
      rw [stays, Stage.events, List.append_nil]
      exact held
    refine ⟨ended, fun past held begun member => ?_, fun past held time member => ?_⟩
    · rw [List.mem_singleton.mp member]
      exact ⟨[], told_itself held (ended past held)⟩
    · have last := ended past held
      rw [Stage.times, List.mem_cons, List.mem_singleton] at member
      rcases member with rfl | rfl
      · rwa [List.append_nil]
      · exact last
  | succ n ih =>
    have inner (past : List Event) (held : T past st.machine) := by
      have laid : Laid T n past (st.parts n) (st.ownEvents n) (st.left (n + 1)) := by
        obtain ⟨task, m⟩ := st
        cases task with
        | value e => exact chronicle.account.evaluate e m past held
        | flow s => exact chronicle.account.execute s m past held
      exact laid.kept fun part _ => ih part
    refine ⟨fun past held => (inner past held).1, fun past held begun member => ?_,
      fun past held time member => ?_⟩
    · obtain ⟨ended, parts, _⟩ := inner past held
      rcases List.mem_cons.mp member with rfl | later
      · exact ⟨[], told_itself held ended⟩
      · obtain ⟨early, told⟩ := parts begun later
        exact ⟨early, told.later (List.prefix_append ..)⟩
    · obtain ⟨ended, _, times⟩ := inner past held
      simp only [Stage.times, List.cons_append, List.mem_cons, List.mem_append, List.not_mem_nil,
        or_false] at member
      rcases member with rfl | between | rfl
      · rwa [List.append_nil]
      · exact times time between
      · exact ended

/-- The chronicle of a whole program. -/
theorem program (held : T past m) (n : Nat) (p : List Stmt) :
    T (past ++ events n p m) (after (interpret n p m)) ∧
      (∀ begun ∈ course n p m, ∃ early, Told T past (events n p m) begun early) ∧
      ∀ time ∈ times n p m, T (past ++ time.told) time.machine := by
  have laid : Laid T n past (programStages n p m) [] (after (interpret n p m)) :=
    chronicle.account.interpret p m past held
  obtain ⟨ended, inner, between⟩ := laid.kept fun st _ => chronicle.kept n st
  rw [List.append_nil] at ended
  refine ⟨ended, inner, ?_⟩
  intro time member
  simp only [times, List.cons_append, List.mem_cons, List.mem_append, List.not_mem_nil,
    or_false] at member
  rcases member with rfl | inside | rfl
  · rwa [List.append_nil]
  · exact between time inside
  · exact ended

end Chronicle

end Run

/-! Sessions. -/

namespace Session

open Run

/-- What happens when a source is run. -/
def eventsOf (n : Nat) (contents : Except DeviceError String) (s : Session) : List Event :=
  match contents with
  | .ok source =>
    let program := Parse.ofSource source
    if program.isValid then events n program.statements s.machine else []
  | .error _ => []

/-- The times of a source that is run. -/
def timesOf (n : Nat) (contents : Except DeviceError String) (s : Session) : List Time :=
  match contents with
  | .ok source =>
    let program := Parse.ofSource source
    if program.isValid then times n program.statements s.machine else []
  | .error _ => []

/-- The states of a session, with all times that it has gone through and all that has happened. -/
inductive Recorded : Session → List Time → List Event → Prop
  | start (output : Output) (clock : Nat → Integer) :
    Recorded (start output clock) [⟨[], (start output clock).machine⟩] []
  | runFile (n : Nat) (path : String) (contents : Except DeviceError String) (status : Status) :
    Recorded s past told → s.runFile n path contents = some (status, s') →
      Recorded s' (past ++ (s.timesOf n contents).map (.since told)) (told ++ s.eventsOf n contents)
  | say (text : String) :
    Recorded s past told → Recorded (s.say text) (past ++ [⟨told, (s.say text).machine⟩]) told
  | emitter (emitter : Report.Emitter) : Recorded s past told → Recorded { s with emitter } past told

variable {s s' : Session} {past : List Time} {told : List Event}
  {T : List Event → Machine → Prop}

theorem Reached.recorded (reached : s.Reached) : ∃ past told, s.Recorded past told := by
  induction reached with
  | start output clock => exact ⟨_, _, .start output clock⟩
  | step _ step ih =>
    obtain ⟨past, told, recorded⟩ := ih
    cases step with
    | runFile n path contents status ran =>
      exact ⟨_, _, .runFile n path contents status recorded ran⟩
    | say text => exact ⟨_, _, .say text recorded⟩
    | emitter emitter => exact ⟨_, _, .emitter emitter recorded⟩

/-- What one run adds to the record. -/
theorem runFile_chronicle (chronicle : Chronicle T) {n : Nat} {path : String}
    {contents : Except DeviceError String} {status : Status} (held : T told s.machine)
    (ran : s.runFile n path contents = some (status, s')) :
    T (told ++ s.eventsOf n contents) s'.machine ∧ ∀ time ∈ s.timesOf n contents,
      T (told ++ time.told) time.machine ∧ time.told <+: s.eventsOf n contents := by
  cases contents with
  | error error =>
    cases ran
    exact ⟨by simpa [eventsOf, report] using held, by simp [timesOf]⟩
  | ok source =>
    have left := machine_run ran
    simp only [eventsOf, timesOf]
    by_cases valid : (Parse.ofSource source).isValid = true
    · rw [if_pos valid] at left ⊢
      rw [if_pos valid, left]
      obtain ⟨ended, _, all⟩ := chronicle.program held n (Parse.ofSource source).statements
      exact ⟨ended, fun time member => ⟨all time member, told_times n _ _ time member⟩⟩
    · rw [if_neg valid] at left ⊢
      rw [if_neg valid, left, List.append_nil]
      exact ⟨held, by simp⟩

/-- At all times of a session a chronicle holds with what has happened until then. -/
theorem Recorded.chronicle (recorded : s.Recorded past told) (chronicle : Chronicle T)
    (start : ∀ output clock, T [] (Machine.start output clock)) :
    T told s.machine ∧ ∀ time ∈ past, T time.told time.machine ∧ time.told <+: told := by
  induction recorded with
  | start output clock =>
    exact ⟨start output clock, by simpa [Session.start] using start output clock⟩
  | runFile n path contents status _ ran ih =>
    obtain ⟨held, all⟩ := ih
    obtain ⟨held', inner⟩ := runFile_chronicle chronicle held ran
    refine ⟨held', ?_⟩
    intro time member
    rcases List.mem_append.mp member with before | now
    · obtain ⟨holds, isEarly⟩ := all time before
      exact ⟨holds, isEarly.trans (List.prefix_append ..)⟩
    · obtain ⟨time', within, rfl⟩ := List.mem_map.mp now
      obtain ⟨holds, isEarly⟩ := inner time' within
      exact ⟨holds, (List.prefix_append_right_inj _).mpr isEarly⟩
  | @say before _ told text _ ih =>
    obtain ⟨held, all⟩ := ih
    obtain ⟨output, -, left⟩ := machine_say before text
    have still : T told (before.say text).machine := by
      rw [left]
      exact chronicle.calm held rfl rfl rfl
    refine ⟨still, ?_⟩
    intro time member
    rcases List.mem_append.mp member with earlier | now
    · exact all time earlier
    · rw [List.mem_singleton.mp now]
      exact ⟨still, List.prefix_rfl⟩
  | emitter emitter _ ih => exact ih

/-- The same while a program is run in the state that is reached. -/
theorem Recorded.times (recorded : s.Recorded past told) (chronicle : Chronicle T)
    (start : ∀ output clock, T [] (Machine.start output clock)) (n : Nat) (p : List Stmt) :
    ∀ time ∈ past ++ (times n p s.machine).map (.since told),
      T time.told time.machine ∧ time.told <+: told ++ events n p s.machine := by
  obtain ⟨held, all⟩ := recorded.chronicle chronicle start
  intro time member
  rcases List.mem_append.mp member with before | now
  · obtain ⟨holds, isEarly⟩ := all time before
    exact ⟨holds, isEarly.trans (List.prefix_append ..)⟩
  · obtain ⟨time', within, rfl⟩ := List.mem_map.mp now
    exact ⟨(chronicle.program held n p).2.2 time' within,
      (List.prefix_append_right_inj _).mpr (told_times n p _ time' within)⟩

end Session

end SoftScript
