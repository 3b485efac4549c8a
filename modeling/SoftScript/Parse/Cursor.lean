import SoftScript.Parse.Error

/-! The parser's place in a stream of tokens. Two tokens are in view: the one just passed and the
one to come, which are never white space, a comment or an invalid run. At an end token the cursor
stands still; a stream without one is taken to end where its last token does. -/
namespace SoftScript.Parse

structure Cursor where
  current : Token
  previous : Token
  rest : List Token
  comments : Array Span
  errors : Array Error
  functionDepth : Nat

/-- Drops trivia from the front, noting comments, and splits off the first token after it. -/
def pull : List Token → Array Span → Option Token × List Token × Array Span
  | [], comments => (none, [], comments)
  | token :: rest, comments =>
    if token.kind = .comment then pull rest (comments.push token.span)
    else if token.kind.isTrivia then pull rest comments
    else (some token, rest, comments)

theorem pull_shorter (tokens : List Token) (comments : Array Span) :
    (pull tokens comments).2.1.length ≤ tokens.length - 1 := by
  fun_induction pull tokens comments <;> grind

namespace Cursor

/-- The cursor with the next token of its stream in view; after the last one that is an end token
placed where the last one ends. -/
def fetch (c : Cursor) : Cursor :=
  let (token, rest, comments) := pull c.rest c.comments
  { c with
    current := token.getD (.eof c.current.line c.current.span.stop)
    rest, comments }

def ofTokens (tokens : List Token) : Cursor :=
  fetch ⟨.eof 1 0, .eof 1 0, tokens, #[], #[], 0⟩

def atEnd (c : Cursor) : Bool :=
  c.current.kind = .eof

/-- No kind is ahead at the end, not even that of the end token. -/
def check (c : Cursor) (kind : Token.Kind) : Bool :=
  !c.atEnd && c.current.kind = kind

def advance (c : Cursor) : Cursor :=
  if c.atEnd then c else { c.fetch with previous := c.current }

def report (c : Cursor) (cause : Cause) (token : Token) : Cursor :=
  { c with errors := c.errors.push ⟨cause, token⟩ }

def inFunction (c : Cursor) : Bool := 0 < c.functionDepth

def enterFunction (c : Cursor) : Cursor :=
  { c with functionDepth := c.functionDepth + 1 }

def leaveFunction (c : Cursor) : Cursor :=
  { c with functionDepth := c.functionDepth - 1 }

/-- Bounds the number of steps to the end. -/
def remaining (c : Cursor) : Nat :=
  if c.atEnd then 0 else c.rest.length + 1

theorem remaining_advance {c : Cursor} (h : c.atEnd = false) :
    c.advance.remaining < c.remaining := by
  have shorter := pull_shorter c.rest c.comments
  simp only [advance, remaining, h]
  rcases hp : pull c.rest c.comments with ⟨_ | token, rest, comments⟩
  · simp [fetch, hp, atEnd, Token.eof, Token.read]
  · replace shorter : rest.length ≤ c.rest.length - 1 := by simpa [hp] using shorter
    have : c.rest ≠ [] := by rintro hn; simp [hn, pull] at hp
    have := List.length_pos_iff.2 this
    simp only [Bool.false_eq_true, ↓reduceIte, fetch, hp, atEnd, Option.getD_some]
    split <;> omega

/-- Moves on to a place where a statement may begin: past a semicolon or at a keyword that opens
a statement. -/
def settle (c : Cursor) : Cursor :=
  if _h : c.atEnd then c
  else if c.previous.kind = .semicolon || c.current.kind.startsStatement then c
  else c.advance.settle
termination_by c.remaining
decreasing_by exact remaining_advance (by simpa using _h)

/-- After an error the offending token is passed first, so that parsing always gets on. -/
def synchronize (c : Cursor) : Cursor := c.advance.settle

end Cursor

end SoftScript.Parse
