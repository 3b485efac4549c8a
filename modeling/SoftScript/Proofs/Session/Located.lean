import SoftScript.Proofs.Grammar.Shown
import SoftScript.Proofs.Likeness.Runs
import SoftScript.Proofs.Session.History

/-! Where the faults of a session point. A machine keeps the tokens of all functions declared on it,
so a fault may be reported at a token of an earlier source. A diagnostic looks only at whether the
token would fit into the source that is run. -/
namespace SoftScript

open Likeness

variable {P : Token → Prop}

theorem Machine.alike_bindNatives {L : Likeness} {h : Heap} (alike : h.Alike L h)
    (frame : FrameId) : (bindNatives h frame).Alike L (bindNatives h frame) := by
  unfold bindNatives
  induction Native.globals generalizing h with
  | nil => exact alike
  | cons native rest ih => exact ih ((alike.newFunction .builtin).bind frame native.name (.of _))

/-- A new machine has no tokens. -/
theorem Machine.alike_start (L : Likeness) (output : Output) (clock : Nat → Integer) :
    (start output clock).Alike L (start output clock) where
  heap := by
    have empty : Heap.empty.Alike L Heap.empty := ⟨.nil, .nil, .nil, .nil⟩
    have global : Frame.Alike L ⟨[], none⟩ ⟨[], none⟩ := ⟨.nil, rfl⟩
    exact alike_bindNatives (empty.newFrame global) _
  globals := rfl
  scope := rfl
  depth := rfl
  output := rfl
  clock := rfl
  readings := rfl

/-- Where a token is placed both its ends are boundaries, and its line is the one shown there. -/
theorem Token.PlacedIn.inText {source : String} {t : Token} (placed : t.PlacedIn source) :
    Report.Failure.fits source t.span = true ∧
      (Report.linePlace source.toList t.span.start).number = t.line := by
  obtain ⟨t', member, line, span⟩ := placed
  obtain ⟨atStart, atStop, counted⟩ := Token.inText_of_mem member
  rw [line, span]
  exact ⟨by simp [Report.Failure.fits, atStart, atStop], counted.symm⟩

/-- A run reports faults only at tokens of its program and of the functions declared before, and
leaves no others in the machine. -/
theorem Run.bears_interpret {p : List Stmt} {m : Machine} (tree : ∀ s ∈ p, s.Bears P)
    (machine : m.Alike (only P) m) (n : Nat) :
    match interpret n p m with
    | .ok _ m' => m'.Alike (only P) m'
    | .error (.fault fault) m' => m'.Alike (only P) m' ∧ P fault.token
    | .error .exhausted _ => True := by
  cases halts : isOver (interpret n p m) with
  | false =>
    obtain ⟨m', cut⟩ := exhausted_of_not_isOver halts
    rw [cut]
    trivial
  | true =>
    obtain ⟨enough, small, ended⟩ := interpret_alike (Stmt.allAlike_of_bears tree) machine halts
    have itself := ended n (small id)
    generalize interpret n p m = r at itself
    cases itself with
    | ok _ alike => exact alike
    | fault place alike => exact ⟨alike, place.2⟩

namespace Session

variable {n : Nat} {entry : Entry} {m : Machine} {answer : Answer} {s : Session}

/-- A source that is run, since it has no errors. -/
def Entry.Runs (entry : Entry) (source : String) : Prop :=
  entry.contents = .ok source ∧ (Parse.ofSource source).isValid = true

/-- A token that stands where one of the sources run so far has one. -/
def PlacedAmong (turns : List Turn) (t : Token) : Prop :=
  ∃ turn ∈ turns, ∃ source, turn.entry.Runs source ∧ t.PlacedIn source

/-- What one run does to the tokens in a machine. -/
theorem answer_bears (synthetic : ∀ kind t, P t → P (.synthetic kind t))
    (all : ∀ source, entry.Runs source → ∀ t ∈ Token.tokenize source, P t)
    (machine : m.Alike (only P) m) (answered : answer? n entry m = some answer) :
    answer.machine.Alike (only P) answer.machine ∧
      (answer.status = .runtimeError → ∃ source fault, entry.Runs source ∧
        answer.failure? = some (.runtime entry.path source fault) ∧ P fault.token) := by
  obtain ⟨path, contents⟩ := entry
  cases contents with
  | error error =>
    cases answered
    exact ⟨machine, fun failed => by cases failed⟩
  | ok source =>
    simp only [answer?] at answered
    by_cases valid : (Parse.ofSource source).isValid = true
    · rw [if_pos valid] at answered
      have tokens := all source ⟨rfl, valid⟩
      have significant : ∀ t ∈ Token.significant (Token.tokenize source), P t :=
        fun t member => tokens t (List.mem_of_mem_filter member)
      have tree : ∀ s ∈ (Parse.ofSource source).statements, s.Bears P :=
        (Parse.ofTokens_shows (fun _ token => token) synthetic significant
          (Token.eof_mem_significant source)).1
      have kept := Run.bears_interpret tree machine n
      rcases ran : Run.interpret n (Parse.ofSource source).statements m with
        ⟨_, m'⟩ | ⟨fault | _, m'⟩
      · rw [ran] at kept answered
        cases answered
        exact ⟨kept, fun failed => by cases failed⟩
      · rw [ran] at kept answered
        cases answered
        exact ⟨kept.1, fun _ => ⟨source, fault, ⟨rfl, valid⟩, rfl, kept.2⟩⟩
      · rw [ran] at answered
        cases answered
    · rw [if_neg valid] at answered
      cases answered
      exact ⟨machine, fun failed => by cases failed⟩

/-- Over a history, faults are reported at tokens of the sources that were run. -/
theorem history_bears (synthetic : ∀ kind t, P t → P (.synthetic kind t)) {entries : List Entry}
    {past : List Turn} {turn : Turn} (machine : s.machine.Alike (only P) s.machine)
    (passed : past ++ [turn] <+: history n s entries)
    (all : ∀ earlier ∈ past ++ [turn], ∀ source, earlier.entry.Runs source →
      ∀ t ∈ Token.tokenize source, P t) (failed : turn.status = .runtimeError) :
    ∃ source fault, turn.entry.Runs source ∧
      turn.after.emitter = turn.before.emitter.emit (.runtime turn.entry.path source fault) ∧
      P fault.token := by
  induction entries generalizing s past with
  | nil => simp [history] at passed
  | cons entry rest ih =>
    rw [history, runFile_eq] at passed
    cases answered : answer? n entry s.machine with
    | none => simp [answered] at passed
    | some answer =>
      rw [answered] at passed
      cases past with
      | nil =>
        obtain ⟨rfl, _⟩ := List.cons_prefix_cons.mp passed
        have bears := answer_bears synthetic (all _ List.mem_cons_self) machine answered
        obtain ⟨source, fault, runs, failure, token⟩ := bears.2 failed
        refine ⟨source, fault, runs, ?_, token⟩
        simp [failure, Report.Emitter.emit?]
      | cons first past =>
        obtain ⟨rfl, later⟩ := List.cons_prefix_cons.mp passed
        have bears := answer_bears synthetic (all _ List.mem_cons_self) machine answered
        exact ih bears.1 later fun earlier member => all earlier (List.mem_cons_of_mem _ member)

/-- The faults of a session are located by where their tokens stand. Every fault that is reported
stands at a token of the source that is run or of one that was run before, and the text of its
diagnostic tells the line in that source. The diagnostic shows a place in the source that is run if
both ends of the token are boundaries of it. For a token of that source this is always so, and the
place is on the line that is told. A token that is not of that source comes from an earlier one, and
then the place, if it is shown, is not that of a token on the line that is told. So a diagnostic is
right exactly if its token is of the source that is run or the source has no such boundaries. -/
theorem faults_located {n : Nat} {output : Output} {clock : Nat → Integer} {entries : List Entry}
    {past : List Turn} {turn : Turn}
    (passed : past ++ [turn] <+: history n (start output clock) entries)
    (failed : turn.status = .runtimeError) :
    ∃ source fault d, turn.entry.Runs source ∧
      turn.after.emitter = turn.before.emitter.emit (.runtime turn.entry.path source fault) ∧
      (Report.Failure.runtime turn.entry.path source fault).diagnostics = [d] ∧
      d.text = "[line " ++ toString fault.token.line ++ "]" ∧
      PlacedAmong (past ++ [turn]) fault.token ∧
      (fault.token.PlacedIn source →
        d.location = some ⟨turn.entry.path, source, fault.token.span, none⟩ ∧
        (Report.linePlace source.toList fault.token.span.start).number = fault.token.line) ∧
      (¬ fault.token.PlacedIn source → PlacedAmong past fault.token ∧
        (d.location = none ↔ ¬ (Text.isBoundary source.toList fault.token.span.start = true ∧
          Text.isBoundary source.toList fault.token.span.stop = true))) ∧
      ((∀ l ∈ d.location, l.source = source ∧ ∃ t ∈ Token.tokenize source,
          l.span = t.span ∧ t.line = fault.token.line) ↔
        fault.token.PlacedIn source ∨ d.location = none) := by
  have all : ∀ earlier ∈ past ++ [turn], ∀ source, earlier.entry.Runs source →
      ∀ t ∈ Token.tokenize source, PlacedAmong (past ++ [turn]) t :=
    fun earlier member source runs t read =>
      ⟨earlier, member, source, runs, Token.placedIn_of_mem read⟩
  obtain ⟨source, fault, runs, emitted, among⟩ :=
    history_bears (fun _ _ placed => placed) (Machine.alike_start _ output clock) passed all failed
  refine ⟨source, fault, _, runs, emitted, rfl, rfl, among, ?_, ?_, ?_⟩
  · intro here
    exact ⟨if_pos here.inText.1, here.inText.2⟩
  · intro elsewhere
    refine ⟨?_, by simp [Report.Failure.fits]⟩
    obtain ⟨earlier, member, origin, ran, placed⟩ := among
    rcases List.mem_append.mp member with before | now
    · exact ⟨earlier, before, origin, ran, placed⟩
    · rw [List.mem_singleton.mp now] at ran
      have same : origin = source := Except.ok.inj (ran.1.symm.trans runs.1)
      exact absurd (same ▸ placed) elsewhere
  · constructor
    · intro right
      by_cases shown : Report.Failure.fits source fault.token.span = true
      · obtain ⟨_, t, read, span, line⟩ := right _ (if_pos shown)
        exact .inl ⟨t, read, line.symm, span⟩
      · exact .inr (if_neg shown)
    · rintro (⟨t, read, line, span⟩ | hidden) l shown
      · rw [if_pos (Token.PlacedIn.inText ⟨t, read, line, span⟩).1] at shown
        cases shown
        exact ⟨rfl, t, read, span, line.symm⟩
      · rw [hidden] at shown
        cases shown

/-- A function that fails, and a later source that calls it. The token at which it fails stands on the
fourth line of the first source, and the second, which has one line, is long enough to show it. -/
def strayed : List Entry :=
  [⟨"", .ok "\n\n\nfun f() \x7b return 1 / 0; \x7d"⟩, ⟨"", .ok "f(); // the call fails inside f"⟩]

theorem faults_located_strayed : ∃ past turn source fault d,
    past ++ [turn] = history 20 (start .unlimited fun _ => 0) strayed ∧
    turn.status = .runtimeError ∧ turn.entry.Runs source ∧
    (Report.Failure.runtime turn.entry.path source fault).diagnostics = [d] ∧
    fault.token.line = 4 ∧ fault.token.span = ⟨22, 23⟩ ∧
    ¬ fault.token.PlacedIn source ∧ PlacedAmong past fault.token ∧ d.location.isSome = true := by
  have told : (history 20 (start .unlimited fun _ => 0) strayed).getLast?.map (fun turn =>
      (turn.status, turn.entry.contents.toOption,
        (turn.after.emitter.since turn.before.emitter).map fun
          | .runtime _ _ fault => some (fault.token.line, fault.token.span)
          | _ => none)) =
      some (.runtimeError, some "f(); // the call fails inside f", [some (4, ⟨22, 23⟩)]) := by
    decide +kernel
  obtain ⟨turn, last, same⟩ := Option.map_eq_some_iff.mp told
  obtain ⟨past, all⟩ := List.getLast?_eq_some_iff.mp last
  obtain ⟨failed, contents, since⟩ : _ ∧ _ ∧ _ := by simpa only [Prod.mk.injEq] using same
  have passed : past ++ [turn] <+: history 20 (start .unlimited fun _ => 0) strayed :=
    all ▸ List.prefix_rfl
  obtain ⟨source, fault, d, runs, emitted, shown, _, _, _, elsewhere, _⟩ :=
    faults_located passed failed
  have read : source = "f(); // the call fails inside f" := by
    simpa [runs.1, Except.toOption] using contents
  obtain ⟨line, span⟩ : fault.token.line = 4 ∧ fault.token.span = ⟨22, 23⟩ := by
    have kept := turn.before.emitter.since_emit? (some (.runtime turn.entry.path source fault))
    rw [Report.Emitter.emit?, ← emitted] at kept
    rw [kept] at since
    split at since
    · cases since
    · simpa using since
  have stray : ¬ fault.token.PlacedIn source := by
    rw [Token.PlacedIn, line, span, read]
    decide +kernel
  obtain ⟨earlier, hidden⟩ := elsewhere stray
  refine ⟨past, turn, source, fault, d, all.symm, failed, runs, shown, line, span, stray, earlier, ?_⟩
  rw [span, read] at hidden
  rw [Option.isSome_iff_ne_none, ne_eq, hidden]
  decide +kernel

end Session

end SoftScript
