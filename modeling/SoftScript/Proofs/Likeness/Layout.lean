import SoftScript.Proofs.Grammar.Acceptance
import SoftScript.Proofs.Likeness.Parsing
import SoftScript.Proofs.Likeness.Runs
import SoftScript.Session

/-! The meaning of a program does not depend on its layout. Of two texts with the same significant
tokens the same programs are read, with the same errors, and a session that runs the one ends up as
one that runs the other, but for the places that tokens carry along. -/
namespace SoftScript

/-- A token denotes what its text does. -/
theorem literal_of_mem_tokens (s : Scan) :
    ∀ t ∈ s.tokens, t.literal = Token.Literal.decode? t.kind t.lexeme := by
  fun_induction Scan.tokens s with
  | case1 s none => simp
  | case2 s token s' found ih =>
    intro t member
    rcases List.mem_cons.mp member with rfl | later
    · unfold Scan.next? at found
      split at found
      · contradiction
      · split at found
        · cases found; rfl
        · split at found
          · cases found; rfl
          · cases found; rfl
    · exact ih t later

/-- The kinds and texts of the tokens that count. -/
def Token.reading (source : String) : List (Token.Kind × String) :=
  (significant (tokenize source)).map fun t => (t.kind, t.lexeme)

theorem sameText_of_reading {a b : String} (same : Token.reading a = Token.reading b) :
    List.Forall₂ Token.SameText (Token.significant (Token.tokenize a))
      (Token.significant (Token.tokenize b)) := by
  have sound (source : String) : ∀ t ∈ Token.significant (Token.tokenize source),
      t.literal = Token.Literal.decode? t.kind t.lexeme := by
    intro t member
    exact literal_of_mem_tokens _ t (List.mem_of_mem_filter member)
  apply related_of_map same
  intro t member t' member' told
  obtain ⟨kind, lexeme⟩ := Prod.mk.inj told
  refine ⟨kind, lexeme, ?_⟩
  rw [sound a t member, sound b t' member', kind, lexeme]

namespace Parse

open SoftScript.Parse.Parser Likeness

/-- Reading comes to an end within the depth it is given. -/
theorem lines_ran (tokens : List Token) : ∃ p c',
    bounded (fun n => lines (line n) n #[]) (Cursor.ofTokens tokens) = .ok p c' := by
  have fits := depth_ofTokens tokens
  have below := (readsAll (depthFor (Cursor.ofTokens tokens).remaining)).lineBelow false
    ((Cursor.ofTokens tokens).ahead.length + 1) (by omega)
  have read := reads_lines below (inFunction_ofTokens tokens) (by omega)
    (depthFor (Cursor.ofTokens tokens).remaining) #[] (by omega)
  unfold Reads at read
  cases ran : bounded (fun n => lines (line n) n #[]) (Cursor.ofTokens tokens) with
  | ok p c' => exact ⟨p, c', rfl⟩
  | error stop c' =>
    cases stop with
    | refused e => exact absurd ran (lines_not_refused _ _ _ _ _ _)
    | exhausted =>
      rw [bounded] at ran
      rw [ran] at read
      exact read.elim

/-- Programs with the same statements and the same errors, up to places. -/
structure Program.Alike (p p' : Program) : Prop where
  statements : Stmt.AllAlike layout p.statements p'.statements
  errors : List.Forall₂ Error.Alike p.errors p'.errors

theorem Program.Alike.isValid {p p' : Program} (alike : p.Alike p') : p.isValid = p'.isValid := by
  obtain ⟨_, _, errors⟩ := p
  obtain ⟨_, _, errors'⟩ := p'
  have same : List.Forall₂ Error.Alike errors errors' := alike.errors
  cases same <;> rfl

theorem alike_ofTokens {tokens tokens' : List Token}
    (same : List.Forall₂ Token.SameText (Token.significant tokens) (Token.significant tokens')) :
    (ofTokens tokens).Alike (ofTokens tokens') := by
  have start : (Cursor.ofTokens tokens).Alike .inText (Cursor.ofTokens tokens') :=
    Cursor.alike_ofTokens same
  have met := agree_bounded (fun n n' => agree_lines (agreeAt _ n n').line n n' .nil) _ _ start
  obtain ⟨p, c, ran⟩ := lines_ran tokens
  obtain ⟨p', c', ran'⟩ := lines_ran tokens'
  rw [ran, ran'] at met
  rw [ofTokens_of_lines ran, ofTokens_of_lines ran']
  cases met with
  | ok statements cursors =>
    exact ⟨.of_related statements, cursors.errors.imp fun _ _ error => ⟨error.cause, error.token⟩⟩

theorem alike_ofSource {a b : String} (same : Token.reading a = Token.reading b) :
    (ofSource a).Alike (ofSource b) :=
  alike_ofTokens (sameText_of_reading same)

end Parse

open Likeness

/-! Sessions. -/

/-- The same failure, up to places and to the source it was found in. -/
inductive Report.Failure.Alike : Report.Failure → Report.Failure → Prop
  | parse : List.Forall₂ Parse.Error.Alike errors errors' →
    Report.Failure.Alike (.parse path source errors) (.parse path source' errors')
  | runtime : Token.SameText token token' →
    Report.Failure.Alike (.runtime path source ⟨cause, token⟩) (.runtime path source' ⟨cause, token'⟩)
  | device : Report.Failure.Alike (.device error) (.device error)

/-- Sessions that differ in the places of tokens only. -/
structure Session.Alike (s s' : Session) : Prop where
  machine : s.machine.Alike layout s'.machine
  count : s.emitter.count = s'.emitter.count
  kept : List.Forall₂ Report.Failure.Alike s.emitter.kept.toList s'.emitter.kept.toList
  muted : s.emitter.muted = s'.emitter.muted

theorem Report.Failure.alike_refl (f : Report.Failure) : f.Alike f := by
  cases f with
  | parse path source errors => exact .parse (List.forall₂_same.mpr fun e _ => ⟨rfl, .refl e.token⟩)
  | runtime path source fault => exact .runtime (.refl fault.token)
  | device error => exact .device

namespace Session.Alike

variable {s s' : Session} {m m' : Machine}

theorem refl (s : Session) : s.Alike s where
  machine := s.machine.alike_refl layout_reflexive
  count := rfl
  kept := List.forall₂_same.mpr fun f _ => f.alike_refl
  muted := rfl

theorem left (alike : s.Alike s') (machine : m.Alike layout m') :
    Session.Alike { s with machine := m } { s' with machine := m' } :=
  ⟨machine, alike.count, alike.kept, alike.muted⟩

theorem report {f f' : Report.Failure} (alike : s.Alike s') (failure : f.Alike f') :
    (s.report f).Alike (s'.report f') where
  machine := alike.machine
  count := congrArg (· + 1) alike.count
  kept := by
    simp only [Session.report, Report.Emitter.emit, alike.muted]
    split
    · exact alike.kept
    · simpa using List.rel_append alike.kept (.cons failure .nil)
  muted := alike.muted

end Session.Alike

namespace Run

/-- Under the same bound, programs that differ in places only end alike, or neither ends. -/
theorem interpret_layout {p p' : List Stmt} {m m' : Machine} (statements : Stmt.AllAlike layout p p')
    (machine : m.Alike layout m') (n : Nat) :
    Ends layout Eq (interpret n p m) (interpret n p' m') ∨
      isOver (interpret n p m) = false ∧ isOver (interpret n p' m') = false := by
  cases halts : isOver (interpret n p m) with
  | true =>
    obtain ⟨enough, small, later⟩ := interpret_alike statements machine halts
    exact .inl (later n (small id))
  | false =>
    cases halts' : isOver (interpret n p' m') with
    | false => exact .inr ⟨rfl, rfl⟩
    | true =>
      obtain ⟨enough, small, later⟩ := interpret_alike statements.swap machine.swap halts'
      rw [(later n (small id)).isOver] at halts
      contradiction

end Run

namespace Session

/-- What a session makes of the end of a program. -/
def ended (s : Session) (path source : String) :
    EStateM.Result Halt Machine Unit → Option (Status × Session)
  | .ok _ machine => some (.completed, { s with machine })
  | .error (.fault fault) machine =>
    some (.runtimeError, { s with machine }.report (.runtime path source fault))
  | .error .exhausted _ => none

theorem run_of_valid {source : String} (valid : (Parse.ofSource source).isValid = true) (n : Nat)
    (path : String) (s : Session) : s.run n path source =
      s.ended path source (Run.interpret n (Parse.ofSource source).statements s.machine) := by
  simp only [run, valid, if_true]
  rfl

theorem Alike.ended {s s' : Session} (alike : s.Alike s') {p p' : List Stmt}
    (statements : Stmt.AllAlike layout p p') (n : Nat) (path source source' : String) :
    Option.Rel (fun r r' => r.1 = r'.1 ∧ r.2.Alike r'.2)
      (s.ended path source (Run.interpret n p s.machine))
      (s'.ended path source' (Run.interpret n p' s'.machine)) := by
  rcases Run.interpret_layout statements alike.machine n with ended | ⟨left, right⟩
  · generalize Run.interpret n p s.machine = r at ended
    generalize Run.interpret n p' s'.machine = r' at ended
    cases ended with
    | ok _ machine => exact .some ⟨rfl, alike.left machine⟩
    | fault place machine => exact .some ⟨rfl, (alike.left machine).report (.runtime place)⟩
  · obtain ⟨_, exhausted⟩ := Run.exhausted_of_not_isOver left
    obtain ⟨_, exhausted'⟩ := Run.exhausted_of_not_isOver right
    rw [exhausted, exhausted']
    exact .none

theorem Alike.run {s s' : Session} (alike : s.Alike s') {a b : String}
    (same : Token.reading a = Token.reading b) (n : Nat) (path : String) :
    Option.Rel (fun r r' => r.1 = r'.1 ∧ r.2.Alike r'.2) (s.run n path a) (s'.run n path b) := by
  have programs := Parse.alike_ofSource same
  cases valid : (Parse.ofSource a).isValid with
  | true =>
    rw [run_of_valid valid, run_of_valid (programs.isValid.symm.trans valid)]
    exact alike.ended programs.statements n path a b
  | false =>
    simp only [Session.run, valid, programs.isValid.symm.trans valid]
    exact .some ⟨rfl, alike.report (.parse programs.errors)⟩

end Session

/-- Layout does not matter. Of two texts with the same significant tokens the same statements are
read and the same errors are found, up to places. From machines that are alike, the same one in
particular, and under the same bound, both programs end alike or neither ends; and running the texts
in sessions that are alike gives the same status and leaves sessions that are alike. -/
theorem layout_irrelevant {a b : String} (same : Token.reading a = Token.reading b) :
    (Parse.ofSource a).isValid = (Parse.ofSource b).isValid ∧
    Stmt.AllAlike layout (Parse.ofSource a).statements (Parse.ofSource b).statements ∧
    List.Forall₂ Parse.Error.Alike (Parse.ofSource a).errors (Parse.ofSource b).errors ∧
    (∀ m m' : Machine, m.Alike layout m' → ∀ n,
      Run.Ends layout Eq (Run.interpret n (Parse.ofSource a).statements m)
          (Run.interpret n (Parse.ofSource b).statements m') ∨
        Run.isOver (Run.interpret n (Parse.ofSource a).statements m) = false ∧
        Run.isOver (Run.interpret n (Parse.ofSource b).statements m') = false) ∧
    (∀ s s' : Session, s.Alike s' → ∀ n path,
      Option.Rel (fun r r' => r.1 = r'.1 ∧ r.2.Alike r'.2) (s.run n path a) (s'.run n path b)) ∧
    (∀ m : Machine, m.Alike layout m) ∧ ∀ s : Session, s.Alike s := by
  have programs := Parse.alike_ofSource same
  refine ⟨programs.isValid, programs.statements, programs.errors, ?_, ?_, ?_, Session.Alike.refl⟩
  · exact fun m m' machine n => Run.interpret_layout programs.statements machine n
  · exact fun s s' alike n path => alike.run same n path
  · exact fun m => m.alike_refl layout_reflexive

def crowded : String := "var x=1;print(x/0);"

/-- The same with white space, a comment, a line break and an invalid run. -/
def spaced : String := "var x = 1; // one\n@ print ( x / 0 ) ;"

theorem layout_irrelevant_spaced : Token.reading crowded = Token.reading spaced ∧
    ∃ s s' : Session, s.Alike s' ∧
      (Session.start .unlimited fun _ => 0).run 8 "" crowded = some (.runtimeError, s) ∧
      (Session.start .unlimited fun _ => 0).run 8 "" spaced = some (.runtimeError, s') := by
  have same : Token.reading crowded = Token.reading spaced := by decide +kernel
  have failed : ((Session.start .unlimited fun _ => 0).run 8 "" crowded).map Prod.fst =
      some .runtimeError := by
    decide +kernel
  obtain ⟨_, _, _, _, sessions, _, self⟩ := layout_irrelevant same
  rcases related_cases (sessions _ _ (self (Session.start .unlimited fun _ => 0)) 8 "") with
    ⟨none, _⟩ | ⟨⟨status, s⟩, ⟨status', s'⟩, ran, ran', statuses, alike⟩
  · rw [none] at failed
    contradiction
  · rw [ran] at failed
    cases failed
    cases statuses
    exact ⟨same, s, s', alike, ran, ran'⟩

end SoftScript
