import SoftScript.Proofs.Grammar.Keeping
import SoftScript.Proofs.Likeness.Layout

/-! What becomes of the tokens that a parser is given. It takes them from the stream one after
another, none twice and none left out, and stops right after the first end token; the comments among
them are all that it notes of what it passes over. However malformed the stream, a line that fails
gets on, so reading comes to the end. -/
namespace SoftScript

namespace Token

/-- The tokens up to the first end token and that one too, or all if there is none. -/
def throughEnd : List Token → List Token
  | [] => []
  | t :: rest => if t.kind = .eof then [t] else t :: throughEnd rest

/-- Where the comments among tokens stand. -/
def commentSpans (tokens : List Token) : List Span :=
  (tokens.filter (·.kind = .comment)).map (·.span)

@[simp] theorem commentSpans_nil : commentSpans [] = [] := rfl

@[simp] theorem commentSpans_append (a b : List Token) :
    commentSpans (a ++ b) = commentSpans a ++ commentSpans b := by
  simp [commentSpans]

theorem commentSpans_throughEnd (tokens : List Token) :
    commentSpans (throughEnd tokens) = commentSpans (tokens.takeWhile (·.kind ≠ .eof)) := by
  induction tokens with
  | nil => rfl
  | cons t rest ih =>
    by_cases ended : t.kind = .eof
    · simp [throughEnd, ended, commentSpans]
    · by_cases comment : t.kind = .comment
      · simpa [throughEnd, comment, commentSpans] using ih
      · simpa [throughEnd, ended, comment, commentSpans] using ih

end Token

namespace Parse

open SoftScript.Parse.Parser

/-- What `pull` takes from the stream, and what is then left up to the end token. -/
theorem pull_takes (tokens : List Token) (comments : Array Span) : ∃ pulled,
    tokens = pulled ++ (pull tokens comments).2.1 ∧
    (pull tokens comments).2.2.toList = comments.toList ++ Token.commentSpans pulled ∧
    Token.throughEnd tokens = pulled ++ match (pull tokens comments).1 with
      | some t => if t.kind = .eof then [] else Token.throughEnd (pull tokens comments).2.1
      | none => [] := by
  fun_induction pull tokens comments with
  | case1 => exact ⟨[], rfl, by simp, rfl⟩
  | case2 t rest comments comment ih =>
    obtain ⟨pulled, split, noted, left⟩ := ih
    refine ⟨t :: pulled, congrArg (t :: ·) split, ?_, ?_⟩
    · simp [noted, Token.commentSpans, comment]
    · rw [Token.throughEnd, if_neg (by simp [comment]), left, List.cons_append]
  | case3 t rest comments noComment trivia ih =>
    obtain ⟨pulled, split, noted, left⟩ := ih
    have unended : t.kind ≠ .eof := by
      intro ended
      simp [ended, Token.Kind.isTrivia] at trivia
    refine ⟨t :: pulled, congrArg (t :: ·) split, ?_, ?_⟩
    · simp [noted, Token.commentSpans, noComment]
    · rw [Token.throughEnd, if_neg unended, left, List.cons_append]
  | case4 t rest comments noComment significant =>
    refine ⟨[t], rfl, by simp [Token.commentSpans, noComment], ?_⟩
    by_cases ended : t.kind = .eof
    · simp [Token.throughEnd, ended]
    · simp [Token.throughEnd, ended]

namespace Cursor

variable {c c₀ c₁ : Cursor}

/-- The part of the stream that is still to be read, up to the first end token. -/
def unread (c : Cursor) : List Token :=
  if c.atEnd then [] else Token.throughEnd c.rest

/-- Between two cursors some tokens were taken from the stream. -/
structure Draws (c₀ c : Cursor) (pulled : List Token) : Prop where
  rest : c₀.rest = pulled ++ c.rest
  unread : c₀.unread = pulled ++ c.unread
  comments : c.comments.toList = c₀.comments.toList ++ Token.commentSpans pulled
  ahead : c.ahead <:+ c₀.ahead

theorem draws_refl (c : Cursor) : c.Draws c [] :=
  ⟨rfl, rfl, by simp, List.suffix_refl _⟩

theorem Draws.trans {pulled more : List Token} (first : c₀.Draws c₁ pulled)
    (second : c₁.Draws c more) : c₀.Draws c (pulled ++ more) where
  rest := by rw [first.rest, second.rest, List.append_assoc]
  unread := by rw [first.unread, second.unread, List.append_assoc]
  comments := by
    rw [second.comments, first.comments, Token.commentSpans_append, List.append_assoc]
  ahead := second.ahead.trans first.ahead

theorem fetch_takes (c : Cursor) : ∃ pulled, c.rest = pulled ++ c.fetch.rest ∧
    Token.throughEnd c.rest = pulled ++ c.fetch.unread ∧
    c.fetch.comments.toList = c.comments.toList ++ Token.commentSpans pulled := by
  obtain ⟨pulled, split, noted, left⟩ := pull_takes c.rest c.comments
  refine ⟨pulled, split, ?_, noted⟩
  rw [left]
  congr 1
  rcases found : pull c.rest c.comments with ⟨_ | t, rest, comments⟩
  · simp [fetch, found, unread, atEnd, Token.eof, Token.read]
  · simp [fetch, found, unread, atEnd]

theorem draws_advance (c : Cursor) : ∃ pulled, c.Draws c.advance pulled := by
  cases ended : c.atEnd with
  | true =>
    have stays : c.advance = c := by simp [advance, ended]
    rw [stays]
    exact ⟨[], c.draws_refl⟩
  | false =>
    have moves : c.advance = { c.fetch with previous := c.current } := by simp [advance, ended]
    obtain ⟨pulled, rest, left, comments⟩ := c.fetch_takes
    refine ⟨pulled, ?_⟩
    have onward := ahead_advance c ▸ List.tail_suffix c.ahead
    rw [moves] at onward ⊢
    refine ⟨rest, ?_, comments, onward⟩
    rw [unread, ended]
    exact left

end Cursor

/-- Wherever a parser gets to, it has drawn the tokens up to there. -/
def Law.drawing (c₀ : Cursor) : Law where
  cursor c := ∃ pulled, c₀.Draws c pulled
  token _ := True
  borne _ := True
  current _ := trivial
  advance := by
    rintro c ⟨pulled, drawn⟩
    obtain ⟨more, later⟩ := c.draws_advance
    exact ⟨pulled ++ more, drawn.trans later⟩
  report := by
    rintro c cause t ⟨pulled, drawn⟩ _
    exact ⟨pulled, drawn.rest, drawn.unread, drawn.comments, drawn.ahead⟩
  enterFunction := by
    rintro c ⟨pulled, drawn⟩
    exact ⟨pulled, drawn.rest, drawn.unread, drawn.comments, drawn.ahead⟩
  leaveFunction := by
    rintro c ⟨pulled, drawn⟩
    exact ⟨pulled, drawn.rest, drawn.unread, drawn.comments, drawn.ahead⟩
  bears _ := trivial
  synthetic _ := trivial

/-- A line draws its tokens whether it is read or fails. -/
theorem line_draws {n : Nat} {c c' : Cursor}
    (ran : (∃ s, line n c = .ok s c') ∨ ∃ e, line n c = .error (.refused e) c') :
    ∃ pulled, c.Draws c' pulled := by
  have kept := (keepsAt (.drawing c) n).line c ⟨[], c.draws_refl⟩
  rcases ran with ⟨s, ran⟩ | ⟨e, ran⟩
  · rw [ran] at kept
    exact kept.1
  · rw [ran] at kept
    exact kept.1

/-- Lines are read up to an end token. -/
theorem lines_atEnd {line : Parser Stmt} {n : Nat} {done : Array Stmt} {c c' : Cursor}
    {p : List Stmt} (ran : lines line n done c = .ok p c') : c'.atEnd = true := by
  induction n generalizing done c with
  | zero => cases ran
  | succ n ih =>
    have asked : atEnd c = .ok c.atEnd c := rfl
    rw [lines, bind_apply, asked] at ran
    cases ended : c.atEnd with
    | true =>
      simp only [ended] at ran
      cases ran
      exact ended
    | false =>
      simp only [ended, Bool.false_eq_true, ↓reduceIte, bind_apply, recover] at ran
      rcases read : line c with ⟨s, c₁⟩ | ⟨_ | _, c₁⟩
      · rw [read] at ran
        exact ih ran
      · rw [read] at ran
        exact ih ran
      · rw [read] at ran
        cases ran

/-- After an error at least one token is passed, unless none is left. -/
theorem Cursor.synchronize_passes {c : Cursor} (unended : c.atEnd = false) :
    ∃ passed, passed ≠ [] ∧ c.ahead = passed ++ c.synchronize.ahead := by
  obtain ⟨skipped, split⟩ := c.synchronize_onward.1
  refine ⟨c.current :: skipped, by simp, ?_⟩
  have here : c.ahead = c.current :: c.ahead.tail := by simp [Cursor.ahead, unended]
  rw [here, ← split, List.cons_append]

theorem refused_of_recover {p : Parser α} {c c' : Cursor} (failed : recover p c = .ok none c') :
    ∃ e c₁, p c = .error (.refused e) c₁ ∧ c' = (c₁.report e.cause e.token).synchronize := by
  unfold recover at failed
  cases ran : p c with
  | ok a c₁ =>
    rw [ran] at failed
    cases failed
  | error stop c₁ =>
    rw [ran] at failed
    cases stop with
    | refused e =>
      cases failed
      exact ⟨e, c₁, rfl, rfl⟩
    | exhausted => cases failed

/-- A line that fails gets on: past the token at which it failed, and so past one token at least. -/
theorem recover_passes {n : Nat} {c c' : Cursor} (failed : recover (line n) c = .ok none c') :
    ∃ e c₁, line n c = .error (.refused e) c₁ ∧
      (c₁.atEnd = false → ∃ passed, passed ≠ [] ∧ c₁.ahead = passed ++ c'.ahead) ∧
      (c.atEnd = false → ∃ passed, passed ≠ [] ∧ c.ahead = passed ++ c'.ahead) := by
  obtain ⟨e, c₁, ran, rfl⟩ := refused_of_recover failed
  obtain ⟨pulled, drawn⟩ := line_draws (.inr ⟨e, ran⟩)
  obtain ⟨before, split⟩ := drawn.ahead
  have later (unended : c₁.atEnd = false) : ∃ passed, passed ≠ [] ∧
      c₁.ahead = passed ++ (c₁.report e.cause e.token).synchronize.ahead :=
    Cursor.synchronize_passes (c := c₁.report e.cause e.token) unended
  refine ⟨e, c₁, ran, later, ?_⟩
  intro unended
  cases stopped : c₁.atEnd with
  | false =>
    obtain ⟨passed, nonempty, after⟩ := later stopped
    exact ⟨before ++ passed, by simp [nonempty], by rw [← split, after, List.append_assoc]⟩
  | true =>
    -- Everything was passed before the failure, and nothing is left.
    have nothing : c₁.ahead = [] := Cursor.ahead_of_atEnd stopped
    have left := (c₁.report e.cause e.token).onward_synchronize.ahead
    rw [Cursor.ahead_report, nothing, List.suffix_nil] at left
    refine ⟨c.ahead, ?_, by rw [left, List.append_nil]⟩
    simp [Cursor.ahead_eq_nil, unended]

theorem Cursor.ofTokens_takes (tokens : List Token) : ∃ pulled,
    tokens = pulled ++ (ofTokens tokens).rest ∧
    Token.throughEnd tokens = pulled ++ (ofTokens tokens).unread ∧
    (ofTokens tokens).comments.toList = Token.commentSpans pulled := by
  obtain ⟨pulled, split, left, noted⟩ := fetch_takes ⟨.eof 1 0, .eof 1 0, tokens, #[], #[], 0⟩
  exact ⟨pulled, split, left, noted⟩

/-- Where a program has been read, the stream is drawn up to its first end token. -/
theorem drawn_of_lines {tokens : List Token} {p : List Stmt} {c : Cursor}
    (ran : bounded (fun n => lines (line n) n #[]) (Cursor.ofTokens tokens) = .ok p c) :
    c.atEnd = true ∧ tokens = Token.throughEnd tokens ++ c.rest ∧
      c.comments.toList = Token.commentSpans (Token.throughEnd tokens) := by
  have ended : c.atEnd = true := by
    rw [bounded] at ran
    exact lines_atEnd ran
  have start := (Cursor.ofTokens tokens).draws_refl
  have kept := keeps_allLines (.drawing (.ofTokens tokens)) _ ⟨[], start⟩
  rw [ran] at kept
  obtain ⟨⟨pulled, drawn⟩, _⟩ := kept
  obtain ⟨first, split, left, noted⟩ := Cursor.ofTokens_takes tokens
  have nothing : c.unread = [] := by simp [Cursor.unread, ended]
  have all : Token.throughEnd tokens = first ++ pulled := by
    rw [left, drawn.unread, nothing, List.append_nil]
  refine ⟨ended, ?_, ?_⟩
  · rw [all, List.append_assoc, ← drawn.rest]
    exact split
  · rw [drawn.comments, noted, all, Token.commentSpans_append]

/-- The parser comes to an end on every stream and accounts for its tokens. It stops at an end
token, having taken the tokens up to the first one in order, or all if there is none; what it hands
over as comments are the comments before the end, with errors or without. On the way a line takes
the tokens that follow in the stream and notes the comments among them, whether it is read or fails;
and when it fails, then unless only the end is left at least one token is passed. -/
theorem program_accounts (tokens : List Token) :
    (∃ p c, program (Cursor.ofTokens tokens) = .ok p c ∧ ofTokens tokens = p ∧
      c.current.kind = .eof ∧ tokens = Token.throughEnd tokens ++ c.rest ∧
      p.comments = Token.commentSpans (tokens.takeWhile (·.kind ≠ .eof))) ∧
    (∀ n c c', ((∃ s, line n c = .ok s c') ∨ ∃ e, line n c = .error (.refused e) c') →
      ∃ pulled, c.rest = pulled ++ c'.rest ∧
        c'.comments.toList = c.comments.toList ++ Token.commentSpans pulled) ∧
    ∀ n c c', recover (line n) c = .ok none c' → ∃ e c₁, line n c = .error (.refused e) c₁ ∧
      (c₁.atEnd = false → ∃ passed, passed ≠ [] ∧ c₁.ahead = passed ++ c'.ahead) ∧
      (c.atEnd = false → ∃ passed, passed ≠ [] ∧ c.ahead = passed ++ c'.ahead) := by
  refine ⟨?_, ?_, fun n c c' => recover_passes⟩
  · obtain ⟨p, c, ran⟩ := lines_ran tokens
    obtain ⟨ended, split, noted⟩ := drawn_of_lines ran
    have read : program (Cursor.ofTokens tokens) =
        .ok ⟨p, c.comments.toList, c.errors.toList⟩ { c with comments := #[], errors := #[] } := by
      simp only [program, bind_apply, ran]
      rfl
    refine ⟨_, _, read, ofTokens_of_lines ran, of_decide_eq_true ended, split, ?_⟩
    rw [← Token.commentSpans_throughEnd]
    exact noted
  · intro n c c' ran
    obtain ⟨pulled, drawn⟩ := line_draws ran
    exact ⟨pulled, drawn.rest, drawn.comments⟩

/-- A stream that ends in the middle, with a line in it that fails. -/
def interrupted : List Token := Token.tokenize ") /* a */ 1" ++ Token.tokenize "/* b */"

theorem program_accounts_interrupted : ∃ p c, program (Cursor.ofTokens interrupted) = .ok p c ∧
    p.comments = [⟨2, 9⟩] ∧ c.rest = Token.tokenize "/* b */" := by
  obtain ⟨⟨p, c, ran, _, _, split, comments⟩, _⟩ := program_accounts interrupted
  refine ⟨p, c, ran, ?_, ?_⟩
  · rw [comments]
    decide +kernel
  · have first : Token.throughEnd interrupted = Token.tokenize ") /* a */ 1" := by decide +kernel
    rw [first] at split
    exact (List.append_cancel_left split).symm

end Parse

end SoftScript
