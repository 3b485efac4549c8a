import SoftScript.Parse.Program

/-! What a cursor has ahead: the significant tokens before the end. Every step of a parser is
told by what it does to them, to the errors noted and to the depth of functions. -/
namespace SoftScript

/-- The tokens that a program is made of: those before the first end token, trivia left out. -/
def Token.sentence (tokens : List Token) : List Token :=
  significant (tokens.takeWhile (·.kind ≠ .eof))

namespace Parse

/-- What `pull` finds is the head of the sentence, or an end. -/
theorem sentence_pull (tokens : List Token) (comments : Array Span) :
    Token.sentence tokens =
      match pull tokens comments with
      | (none, _, _) => []
      | (some t, rest, _) => if t.kind = .eof then [] else t :: Token.sentence rest := by
  fun_induction pull tokens comments with
  | case1 => rfl
  | case2 t rest comments comment ih =>
    rw [← ih]
    simp [Token.sentence, Token.significant, comment, Token.Kind.isTrivia]
  | case3 t rest comments noComment trivia ih =>
    have unended : t.kind ≠ .eof := by rintro h; simp [h, Token.Kind.isTrivia] at trivia
    rw [← ih]
    simp [Token.sentence, Token.significant, unended, trivia]
  | case4 t rest comments noComment significant =>
    by_cases ended : t.kind = .eof
    · simp [Token.sentence, Token.significant, ended]
    · simp [Token.sentence, Token.significant, ended, significant]

namespace Cursor

/-- The significant tokens from the current one up to the end. -/
def ahead (c : Cursor) : List Token :=
  if c.atEnd then [] else c.current :: Token.sentence c.rest

theorem ahead_fetch (c : Cursor) : c.fetch.ahead = Token.sentence c.rest := by
  rw [sentence_pull c.rest c.comments]
  rcases found : pull c.rest c.comments with ⟨_ | t, rest, comments⟩
  · simp [fetch, found, ahead, atEnd, Token.eof, Token.read]
  · simp [fetch, found, ahead, atEnd]

theorem ahead_ofTokens (tokens : List Token) :
    (ofTokens tokens).ahead = Token.sentence tokens :=
  ahead_fetch _

theorem ahead_of_atEnd {c : Cursor} (h : c.atEnd = true) : c.ahead = [] := by
  simp [ahead, h]

theorem ahead_eq_nil {c : Cursor} : c.ahead = [] ↔ c.atEnd = true := by
  cases h : c.atEnd <;> simp [ahead, h]

@[simp] theorem ahead_advance (c : Cursor) : c.advance.ahead = c.ahead.tail := by
  cases h : c.atEnd
  · have fetched : c.advance = { c.fetch with previous := c.current } := by simp [advance, h]
    rw [fetched]
    exact (ahead_fetch c).trans (by simp [ahead, h])
  · simp [advance, h, ahead]

theorem current_of_ahead {c : Cursor} (h : c.ahead = t :: w) : c.current = t := by
  simp only [ahead] at h
  split at h
  · contradiction
  · exact (List.cons.inj h).1

theorem atEnd_of_ahead {c : Cursor} (h : c.ahead = t :: w) : c.atEnd = false := by
  cases ended : c.atEnd
  · rfl
  · simp [ahead, ended] at h

theorem previous_advance {c : Cursor} (h : c.ahead = t :: w) : c.advance.previous = t := by
  simp [advance, atEnd_of_ahead h, current_of_ahead h]

theorem check_of_ahead {c : Cursor} (h : c.ahead = t :: w) (kind : Token.Kind) :
    c.check kind = decide (t.kind = kind) := by
  simp [check, atEnd_of_ahead h, current_of_ahead h]

theorem check_of_nil {c : Cursor} (h : c.ahead = []) (kind : Token.Kind) :
    c.check kind = false := by
  simp [check, ahead_eq_nil.mp h]

@[simp] theorem errors_advance (c : Cursor) : c.advance.errors = c.errors := by
  simp only [advance]
  split <;> simp [fetch]

@[simp] theorem functionDepth_advance (c : Cursor) :
    c.advance.functionDepth = c.functionDepth := by
  simp only [advance]
  split <;> simp [fetch]

@[simp] theorem ahead_report (c : Cursor) (cause : Cause) (t : Token) :
    (c.report cause t).ahead = c.ahead := rfl

@[simp] theorem ahead_enterFunction (c : Cursor) : c.enterFunction.ahead = c.ahead := rfl

@[simp] theorem ahead_leaveFunction (c : Cursor) : c.leaveFunction.ahead = c.ahead := rfl

/-- Settling and synchronizing only pass tokens. -/
theorem settle_onward (c : Cursor) :
    c.settle.ahead <:+ c.ahead ∧ c.settle.errors = c.errors ∧
      c.settle.functionDepth = c.functionDepth := by
  fun_induction settle c with
  | case1 c ended => exact ⟨List.suffix_refl _, rfl, rfl⟩
  | case2 c unended settled => exact ⟨List.suffix_refl _, rfl, rfl⟩
  | case3 c unended unsettled ih =>
    obtain ⟨passed, errors, depth⟩ := ih
    rw [ahead_advance] at passed
    exact ⟨passed.trans (List.tail_suffix _), by simpa using errors, by simpa using depth⟩

theorem synchronize_onward (c : Cursor) :
    c.synchronize.ahead <:+ c.ahead.tail ∧ c.synchronize.errors = c.errors ∧
      c.synchronize.functionDepth = c.functionDepth := by
  obtain ⟨passed, errors, depth⟩ := c.advance.settle_onward
  simp only [ahead_advance, errors_advance, functionDepth_advance] at passed errors depth
  exact ⟨passed, errors, depth⟩

end Cursor

end Parse

end SoftScript
