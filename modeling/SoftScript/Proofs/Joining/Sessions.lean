import SoftScript.Proofs.Joining.Reading
import SoftScript.Proofs.Likeness.Layout

/-! Running two sources one after the other, or both as one. A valid source that goes on with a valid
source on a new line has the statements of both, and a program stops at its first fault. So it makes
no difference to a session whether it is given them in turn or joined. -/
namespace SoftScript

open Likeness

namespace Parse

/-- The statements of joined sources are those of the first, each where it stands, and those of the
second, in other places. -/
theorem joined_ofSource {a b : String} (first : (ofSource a).isValid = true)
    (second : (ofSource b).isValid = true) (clean : ∀ t ∈ Token.tokenize a, t.kind ≠ .invalid) :
    (ofSource (a ++ "\n" ++ b)).isValid = true ∧ ∃ q,
      (ofSource (a ++ "\n" ++ b)).statements = (ofSource a).statements ++ q ∧
      Stmt.AllAlike layout q (ofSource b).statements := by
  have derived := derived_of_accepted first
  have text : Scan.ofText (a ++ "\n" ++ b) = (Scan.ofText a).extend b.toList := by
    simp [Scan.ofText, Scan.extend]
  obtain ⟨s₂, read, alike⟩ := Scan.readsOn_extend (s := Scan.ofText a) rfl clean
    (Grammar.Lines.divides derived) b.toList
  rw [← text] at read
  have programs := alike_ofTokens (alike (Scan.ofText b) rfl rfl)
  have derived' := derived_of_accepted (programs.isValid.trans second)
  have both : Grammar.Program (Token.sentence (Token.tokenize (a ++ "\n" ++ b)))
      ((ofSource a).statements ++ (ofTokens s₂.tokens).statements) := by
    rw [Token.tokenize, read]
    exact Grammar.Lines.append derived derived'
  obtain ⟨valid, statements⟩ := accepted_of_derived both
  exact ⟨valid, _, statements, programs.statements⟩

end Parse

namespace Run

/-- A program in two parts, of which the second is left out after a fault. -/
theorem interpret_append (n : Nat) (p q : List Stmt) (m : Machine) : interpret n (p ++ q) m =
    match interpret n p m with
    | .ok _ m' => interpret n q m'
    | .error halt m' => .error halt m' := by
  induction p generalizing m with
  | nil => rfl
  | cons s rest ih =>
    rw [List.cons_append, interpret, interpret, bind_apply, bind_apply]
    cases execute n s m with
    | ok flow m' => exact ih m'
    | error halt m' => rfl

end Run

namespace Session

/-- Sources in turn and sources joined agree. Of two valid sources, the first without invalid
tokens, the second put on a new line after the first gives a valid source. If the first completes,
running the second after it ends with the same status as running both as one, in sessions that
differ in the places of tokens only: with the same output, the same globals and the same fault, if
there is one. If the first ends in a fault, so does the whole, with the very same fault and machine;
and under a bound that is too small for the first it is too small for the whole. -/
theorem joined_run_agrees {a b : String} (first : (Parse.ofSource a).isValid = true)
    (second : (Parse.ofSource b).isValid = true)
    (clean : ∀ t ∈ Token.tokenize a, t.kind ≠ .invalid) :
    (Parse.ofSource (a ++ "\n" ++ b)).isValid = true ∧
    ∀ (s : Session) n path,
      (∀ s', s.run n path a = some (.completed, s') →
        Option.Rel (fun r r' => r.1 = r'.1 ∧ r.2.Alike r'.2)
          (s.run n path (a ++ "\n" ++ b)) (s'.run n path b)) ∧
      (∀ s', s.run n path a = some (.runtimeError, s') → ∃ fault s'',
        s'.emitter = s.emitter.emit (.runtime path a fault) ∧
        s.run n path (a ++ "\n" ++ b) = some (.runtimeError, s'') ∧
        s''.emitter = s.emitter.emit (.runtime path (a ++ "\n" ++ b) fault) ∧
        s''.machine = s'.machine) ∧
      (s.run n path a = none → s.run n path (a ++ "\n" ++ b) = none) := by
  obtain ⟨valid, q, statements, alike⟩ := Parse.joined_ofSource first second clean
  refine ⟨valid, fun s n path => ?_⟩
  have whole : s.run n path (a ++ "\n" ++ b) = s.ended path (a ++ "\n" ++ b)
      (match Run.interpret n (Parse.ofSource a).statements s.machine with
      | .ok _ m' => Run.interpret n q m'
      | .error halt m' => .error halt m') := by
    rw [run_of_valid valid, statements, Run.interpret_append]
  rw [run_of_valid first, whole]
  cases ran : Run.interpret n (Parse.ofSource a).statements s.machine with
  | ok _ m =>
    refine ⟨?_, ?_, ?_⟩
    · rintro s' ⟨⟩
      rw [run_of_valid second]
      exact (Alike.refl { s with machine := m }).ended alike n path _ _
    · rintro s' ⟨⟩
    · rintro ⟨⟩
  | error halt m =>
    cases halt with
    | fault fault =>
      refine ⟨?_, ?_, ?_⟩
      · rintro s' ⟨⟩
      · rintro s' ⟨⟩
        exact ⟨fault, _, rfl, rfl, rfl, rfl⟩
      · rintro ⟨⟩
    | exhausted =>
      refine ⟨?_, ?_, fun _ => rfl⟩
      · rintro s' ⟨⟩
      · rintro s' ⟨⟩

/-- The first source ends in a comment, which takes the newline in; the second uses its variable and
fails. After a fault the second is not run. -/
theorem joined_run_agrees_comment :
    (Parse.ofSource ("var x = 1; // one" ++ "\n" ++ "x / 0;")).isValid = true ∧
    (∃ s r r', (start .unlimited fun _ => 0).run 9 "" "var x = 1; // one" = some (.completed, s) ∧
      (start .unlimited fun _ => 0).run 9 "" ("var x = 1; // one" ++ "\n" ++ "x / 0;") = some r ∧
      s.run 9 "" "x / 0;" = some r' ∧ r'.1 = .runtimeError ∧ r.1 = r'.1 ∧ r.2.Alike r'.2) ∧
    ∃ s s', (start .unlimited fun _ => 0).run 9 "" "x / 0;" = some (.runtimeError, s) ∧
      (start .unlimited fun _ => 0).run 9 "" ("x / 0;" ++ "\n" ++ "var x = 1; // one") =
        some (.runtimeError, s') ∧ s'.machine = s.machine := by
  have declares : (Parse.ofSource "var x = 1; // one").isValid = true := by decide +kernel
  have divides : (Parse.ofSource "x / 0;").isValid = true := by decide +kernel
  have clean : ∀ t ∈ Token.tokenize "var x = 1; // one", t.kind ≠ .invalid := by decide +kernel
  have clean' : ∀ t ∈ Token.tokenize "x / 0;", t.kind ≠ .invalid := by decide +kernel
  obtain ⟨valid, agrees⟩ := joined_run_agrees declares divides clean
  refine ⟨valid, ?_, ?_⟩
  · have ended : ((start .unlimited fun _ => 0).run 9 "" "var x = 1; // one").bind (fun ran =>
        (ran.2.run 9 "" "x / 0;").map fun ran' => (ran.1, ran'.1)) =
          some (.completed, .runtimeError) := by
      decide +kernel
    obtain ⟨⟨status, s⟩, ran, ended⟩ := Option.bind_eq_some_iff.mp ended
    obtain ⟨⟨status', s'⟩, ran', same⟩ := Option.map_eq_some_iff.mp ended
    obtain ⟨rfl, rfl⟩ := Prod.mk.inj same
    rcases related_cases ((agrees _ 9 "").1 s ran) with ⟨_, none⟩ | ⟨r, r', whole, turn, told⟩
    · rw [none] at ran'
      cases ran'
    · rw [turn] at ran'
      cases ran'
      exact ⟨s, r, _, ran, whole, turn, rfl, told⟩
  · have failed : ((start .unlimited fun _ => 0).run 9 "" "x / 0;").map Prod.fst =
        some .runtimeError := by
      decide +kernel
    obtain ⟨⟨status, s⟩, ran, rfl⟩ := Option.map_eq_some_iff.mp failed
    obtain ⟨fault, s', _, whole, _, machine⟩ :=
      ((joined_run_agrees divides declares clean').2 _ 9 "").2.1 s ran
    exact ⟨s, s', ran, whole, machine⟩

end Session

end SoftScript
