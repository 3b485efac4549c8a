import SoftScript.Proofs.Grammar.Accounted
import SoftScript.Proofs.Grammar.Completeness
import SoftScript.Proofs.Grammar.Refusal

/-! Getting on after an error. A line that fails stands at the token it refuses. That token is passed
whatever it is, and then tokens are passed until a statement may begin. So what is passed after the
refused token never opens a statement; a keyword is lost exactly if it is itself refused, as it is when
the line before it lacks its semicolon. -/
namespace SoftScript.Parse

open SoftScript.Parse.Parser SoftScript.Grammar

/-- A statement may begin after the tokens passed: the last of them is a semicolon, or the next one
opens a statement, or none is left. -/
def Boundary (passed left : List Token) : Prop :=
  left = [] ∨ (∃ t ∈ passed.getLast?, t.kind = .semicolon) ∨
    ∃ t ∈ left.head?, t.kind.startsStatement = true

namespace Cursor

theorem head?_ahead {c : Cursor} (unended : c.atEnd = false) : c.ahead.head? = some c.current := by
  simp [ahead, unended]

theorem ahead_advance_cons {c : Cursor} (unended : c.atEnd = false) :
    c.ahead = c.current :: c.advance.ahead := by
  rw [ahead_advance]
  simp [ahead, unended]

theorem previous_advance_of_unended {c : Cursor} (unended : c.atEnd = false) :
    c.advance.previous = c.current := by
  simp [advance, unended]

/-- From right after a token the cursor settles at the first place where a statement may begin. -/
theorem settle_passes (c : Cursor) : ∃ passed, c.ahead = passed ++ c.settle.ahead ∧
    (∀ t ∈ passed, t.kind.startsStatement = false) ∧
    (∀ t ∈ (c.previous :: passed).dropLast, t.kind ≠ .semicolon) ∧
    Boundary (c.previous :: passed) c.settle.ahead := by
  fun_induction settle c with
  | case1 c ended =>
    exact ⟨[], rfl, by simp, by simp, .inl (ahead_of_atEnd ended)⟩
  | case2 c unended settled =>
    refine ⟨[], rfl, by simp, by simp, .inr ?_⟩
    rcases Bool.or_eq_true .. ▸ settled with semicolon | opens
    · exact .inl ⟨c.previous, rfl, of_decide_eq_true semicolon⟩
    · exact .inr ⟨c.current, head?_ahead (by simpa using unended), opens⟩
  | case3 c unended unsettled ih =>
    have unended : c.atEnd = false := by simpa using unended
    obtain ⟨passed, split, opens, semicolons, stop⟩ := ih
    rw [previous_advance_of_unended unended] at semicolons stop
    obtain ⟨noSemicolon, noKeyword⟩ : c.previous.kind ≠ .semicolon ∧
        c.current.kind.startsStatement = false := by simpa using unsettled
    refine ⟨c.current :: passed, ?_, ?_, ?_, ?_⟩
    · rw [ahead_advance_cons unended, split, List.cons_append]
    · exact List.forall_mem_cons.mpr ⟨noKeyword, opens⟩
    · rw [List.dropLast_cons_cons]
      exact List.forall_mem_cons.mpr ⟨noSemicolon, semicolons⟩
    · simpa only [Boundary, List.getLast?_cons_cons] using stop

/-- The token in view is passed in any case, and those after it until a statement may begin. -/
theorem synchronize_discards {c : Cursor} (unended : c.atEnd = false) :
    ∃ passed, c.ahead = c.current :: passed ++ c.synchronize.ahead ∧
      (∀ t ∈ passed, t.kind.startsStatement = false) ∧
      (∀ t ∈ (c.current :: passed).dropLast, t.kind ≠ .semicolon) ∧
      Boundary (c.current :: passed) c.synchronize.ahead := by
  obtain ⟨passed, split, opens, semicolons, stop⟩ := c.advance.settle_passes
  rw [previous_advance_of_unended unended] at semicolons stop
  refine ⟨passed, ?_, opens, semicolons, stop⟩
  rw [ahead_advance_cons unended, split]
  rfl

theorem synchronize_of_atEnd {c : Cursor} (ended : c.atEnd = true) : c.synchronize = c := by
  have stays : c.advance = c := by simp [advance, ended]
  rw [synchronize, stays, settle]
  simp [ended]

end Cursor

/-- What is discarded of the tokens ahead once a token has been refused, and what is left. -/
structure Discards (refused : Token) (ahead discarded left : List Token) : Prop where
  split : ahead = discarded ++ left
  begins : ahead ≠ [] → ∃ passed, discarded = refused :: passed ∧
    ∀ t ∈ passed, t.kind.startsStatement = false
  semicolons : ∀ t ∈ discarded.dropLast, t.kind ≠ .semicolon
  boundary : Boundary discarded left
  /-- The start of a statement is thrown away if and only if it is the refused token itself. -/
  opens : (∀ t ∈ discarded, t.kind.startsStatement = false) ↔ refused.kind.startsStatement = false

theorem Cursor.discards_synchronize {c : Cursor} :
    ∃ discarded, Discards c.current c.ahead discarded c.synchronize.ahead := by
  cases ended : c.atEnd with
  | true =>
    have nothing : c.ahead = [] := ahead_of_atEnd ended
    have kind : c.current.kind.startsStatement = false := by
      have isEnd : c.current.kind = .eof := of_decide_eq_true ended
      rw [isEnd]
      rfl
    rw [synchronize_of_atEnd ended]
    exact ⟨[], rfl, fun some_ => absurd nothing some_, by simp, .inl nothing, by simp [kind]⟩
  | false =>
    obtain ⟨passed, split, opens, semicolons, stop⟩ := synchronize_discards ended
    exact ⟨c.current :: passed, split, fun _ => ⟨passed, rfl, opens⟩, semicolons, stop,
      fun all => all _ List.mem_cons_self, fun first => List.forall_mem_cons.mpr ⟨first, opens⟩⟩

/-- Discarding stops at a keyword that opens a statement if nothing stops it before and the keyword is
not the refused token. -/
theorem Discards.left_of_junk {refused keyword : Token} {ahead discarded left junk after : List Token}
    (discards : Discards refused ahead discarded left) (whole : ahead = junk ++ keyword :: after)
    (keyed : keyword.kind.startsStatement = true)
    (plain : ∀ t ∈ junk, t.kind.startsStatement = false ∧ t.kind ≠ .semicolon)
    (some_ : junk ≠ []) : left = keyword :: after := by
  obtain ⟨passed, rfl, opens⟩ := discards.begins (by simp [whole])
  rcases List.append_eq_append_iff.mp (discards.split.symm.trans whole) with
    ⟨more, rfl, rest⟩ | ⟨more, long, rest⟩
  · cases more with
    | nil => simpa using rest
    | cons t more =>
      -- Nothing in the junk is a place to stop at.
      rcases discards.boundary with none_ | ⟨last, isLast, semicolon⟩ | ⟨next, isNext, opened⟩
      · simp [none_] at rest
      · have member : last ∈ refused :: passed := List.mem_of_getLast? isLast
        exact absurd semicolon (plain last (List.mem_append_left _ member)).2
      · rw [rest] at isNext
        cases isNext
        have closed := (plain t (by simp)).1
        rw [closed] at opened
        cases opened
  · cases more with
    | nil => simpa using rest.symm
    | cons t more =>
      -- The keyword would have been passed.
      obtain ⟨rfl, _⟩ : keyword = t ∧ _ := by simpa using rest
      obtain ⟨head, tail, rfl⟩ := List.exists_cons_of_ne_nil some_
      have late : passed = tail ++ keyword :: more := by simpa using (List.cons.inj long).2
      rw [opens keyword (by simp [late])] at keyed
      cases keyed

/-- The keyword is left if and only if something stood before it. -/
theorem Discards.left_eq_iff {refused keyword : Token} {ahead discarded left junk after : List Token}
    (discards : Discards refused ahead discarded left) (whole : ahead = junk ++ keyword :: after)
    (keyed : keyword.kind.startsStatement = true)
    (plain : ∀ t ∈ junk, t.kind.startsStatement = false ∧ t.kind ≠ .semicolon) :
    left = keyword :: after ↔ junk ≠ [] := by
  refine ⟨?_, discards.left_of_junk whole keyed plain⟩
  rintro rfl rfl
  obtain ⟨passed, rfl, _⟩ := discards.begins (by simp [whole])
  have lengths := congrArg List.length (discards.split.symm.trans whole)
  simp only [List.length_append, List.length_cons, List.nil_append] at lengths
  omega

/-- A line that fails stands at the token it refuses. What is then discarded begins with this token, has
no semicolon but as its last one, and ends where a statement may begin; no token after the first opens a
statement. So the start of a statement is thrown away exactly if it is the refused token itself: a
statement with a keyword in front, with nothing before it at which another may begin, is left whole and
read next exactly if its keyword is not the refused token. -/
theorem recovery_resumes {n : Nat} {c c₁ : Cursor} {e : Error}
    (failed : line n c = .error (.refused e) c₁) :
    e.token = c₁.current ∧ ∃ discarded c', recover (line n) c = .ok none c' ∧
      Discards e.token c₁.ahead discarded c'.ahead ∧
      ∀ junk keyword d s v, Line c.inFunction (keyword :: d) s →
        keyword.kind.startsStatement = true → c₁.ahead = junk ++ keyword :: (d ++ v) →
        (∀ t ∈ junk, t.kind.startsStatement = false ∧ t.kind ≠ .semicolon) →
        (c'.ahead = keyword :: (d ++ v) ↔ junk ≠ []) ∧
        (junk ≠ [] → (∀ t ∈ v.head?, t.kind ≠ .elseWord) → 8 * c.ahead.length + 6 ≤ n →
          ∃ c'', line n c' = .ok s c'' ∧ c''.ahead = v ∧ c''.errors = c'.errors) := by
  obtain ⟨depth, inView⟩ := refused_in_view failed
  have resumed : recover (line n) c = .ok none (c₁.report e.cause e.token).synchronize := by
    unfold recover
    rw [failed]
  generalize noted : c₁.report e.cause e.token = c₂ at resumed
  have current : c₂.current = e.token := by rw [← noted, inView]; rfl
  have ahead : c₂.ahead = c₁.ahead := by rw [← noted]; rfl
  obtain ⟨discarded, discards⟩ := c₂.discards_synchronize
  rw [current, ahead] at discards
  refine ⟨inView, discarded, c₂.synchronize, resumed, discards, ?_⟩
  intro junk keyword d s v derived keyed whole plain
  have left := discards.left_eq_iff whole keyed plain
  refine ⟨left, fun some_ open_ fits => ?_⟩
  have inside : c₂.synchronize.inFunction = c.inFunction := by
    rw [Cursor.inFunction, c₂.synchronize_onward.2.2, ← noted]
    exact congrArg (decide <| 0 < ·) depth
  have shorter : c₂.synchronize.ahead.length ≤ c.ahead.length := by
    obtain ⟨pulled, drawn⟩ := line_draws (.inr ⟨e, failed⟩)
    have onward := drawn.ahead.length_le
    rw [discards.split, List.length_append] at onward
    omega
  obtain ⟨c'', ran, rest, errors, _⟩ :=
    passes_line derived c₂.synchronize n v (left.mpr some_) inside open_ (by omega)
  exact ⟨c'', ran, rest, errors⟩

/-- A semicolon is missing right before a declaration. -/
def unfinished : Cursor := .ofTokens (Token.tokenize "x = 1\nvar y = 2;")

/-- The kind of the token at which a production gave up. -/
def refusedKind? {α : Type} (ended : EStateM.Result Stop Cursor α) : Option Token.Kind :=
  match ended with
  | .error (.refused e) _ => some e.token.kind
  | _ => none

/-- The keyword of the declaration is refused, and so it is thrown away. -/
theorem recovery_resumes_unfinished : ∃ e c₁, line 112 unfinished = .error (.refused e) c₁ ∧
    e.token.kind = .varWord ∧ ∃ discarded c', recover (line 112) unfinished = .ok none c' ∧
      Discards e.token c₁.ahead discarded c'.ahead ∧
      ¬ ∀ t ∈ discarded, t.kind.startsStatement = false := by
  have refused : refusedKind? (line 112 unfinished) = some .varWord := by decide +kernel
  rcases failed : line 112 unfinished with ⟨s, c₁⟩ | ⟨e | _, c₁⟩
  · simp [failed, refusedKind?] at refused
  · have kind : e.token.kind = .varWord := by simpa [failed, refusedKind?] using refused
    obtain ⟨_, discarded, c', resumed, discards, _⟩ := recovery_resumes failed
    refine ⟨e, c₁, rfl, kind, discarded, c', resumed, discards, ?_⟩
    rw [discards.opens, kind]
    decide
  · simp [failed, refusedKind?] at refused

end SoftScript.Parse
