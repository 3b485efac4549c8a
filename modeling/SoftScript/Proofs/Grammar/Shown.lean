import SoftScript.Proofs.Grammar.Keeping
import SoftScript.Proofs.Likeness.Layout
import SoftScript.Proofs.Scanning.Lossless

/-! Where the tokens in trees come from. A parser makes up no token of its own but for the operators
and the constant that stand for shorter ways of writing, and these it places where a token of the
text stands. So all tokens in a program and in its errors are placed in the text. -/
namespace SoftScript

namespace Token

/-- A token that stands where one of a text does. -/
def PlacedIn (source : String) (t : Token) : Prop :=
  ∃ t' ∈ tokenize source, t.line = t'.line ∧ t.span = t'.span

instance (source : String) (t : Token) : Decidable (t.PlacedIn source) :=
  inferInstanceAs (Decidable (∃ t' ∈ tokenize source, t.line = t'.line ∧ t.span = t'.span))

theorem placedIn_of_mem {source : String} {t : Token} (member : t ∈ tokenize source) :
    t.PlacedIn source :=
  ⟨t, member, rfl, rfl⟩

/-- A text always ends. -/
theorem eof_mem_significant (source : String) :
    ∃ t ∈ significant (tokenize source), t.kind = .eof := by
  obtain ⟨tokens, last, blanks, splits⟩ :=
    Scan.splits (s := .ofText source) rfl (Scan.hasRead_ofText source)
  have read : tokenize source = tokens ++ [last] := splits.read
  refine ⟨last, ?_, splits.ended.1⟩
  rw [significant, read, List.mem_filter]
  exact ⟨by simp, by simp [splits.ended.1, Kind.isTrivia]⟩

end Token

namespace Parse

open SoftScript.Parse.Parser

variable {P Q : Token → Prop} {c : Cursor}

/-- A cursor at whose tokens, now and later, something holds. -/
structure Cursor.Shows (P : Token → Prop) (c : Cursor) : Prop where
  current : P c.current
  rest : ∀ t ∈ Token.significant c.rest, P t
  ended : c.atEnd = false → ∃ t ∈ Token.significant c.rest, t.kind = .eof
  errors : ∀ e ∈ c.errors.toList, P e.token

theorem Cursor.shows_fetch (rest : ∀ t ∈ Token.significant c.rest, P t)
    (ended : ∃ t ∈ Token.significant c.rest, t.kind = .eof)
    (errors : ∀ e ∈ c.errors.toList, P e.token) : c.fetch.Shows P := by
  have read := significant_pull c.rest c.comments
  have drained := rest_of_pull_none c.rest c.comments
  rcases found : pull c.rest c.comments with ⟨_ | t, rest', comments⟩
  · -- The end token is still to come, so there is something to find.
    simp only [found] at read drained
    obtain ⟨last, member, _⟩ := ended
    rw [read, drained trivial] at member
    cases member
  · simp only [found, Option.toList_some, List.singleton_append] at read
    rw [read] at rest ended
    rw [Cursor.fetch, found]
    refine ⟨rest t List.mem_cons_self, fun t' member => rest t' (List.mem_cons_of_mem _ member), ?_,
      errors⟩
    intro unended
    obtain ⟨last, member, isEnd⟩ := ended
    rcases List.mem_cons.mp member with rfl | later
    · simp [Cursor.atEnd, isEnd] at unended
    · exact ⟨last, later, isEnd⟩

theorem Cursor.Shows.advance (shows : c.Shows P) : c.advance.Shows P := by
  cases ended : c.atEnd with
  | true =>
    have stays : c.advance = c := by simp [Cursor.advance, ended]
    rwa [stays]
  | false =>
    have moves : c.advance = { c.fetch with previous := c.current } := by
      simp [Cursor.advance, ended]
    obtain ⟨current, rest, later, errors⟩ :=
      Cursor.shows_fetch shows.rest (shows.ended ended) shows.errors
    rw [moves]
    exact ⟨current, rest, later, errors⟩

/-- Parsers show tokens of the stream only; trees bear those and the ones made up in their places. -/
def Law.showing (P Q : Token → Prop) (bears : ∀ t, P t → Q t)
    (synthetic : ∀ kind t, P t → Q (.synthetic kind t)) : Law where
  cursor := Cursor.Shows P
  token := P
  borne := Q
  current shows := shows.current
  advance shows := shows.advance
  report := by
    intro c cause t shows token
    refine { shows with errors := ?_ }
    exact all_push (V := fun e : Error => P e.token) shows.errors token
  enterFunction shows := { shows with }
  leaveFunction shows := { shows with }
  bears token := bears _ token
  synthetic token := synthetic _ _ token

/-- Of a stream that ends, errors show its tokens, and trees bear those and the ones made up. -/
theorem ofTokens_shows {tokens : List Token} (bears : ∀ t, P t → Q t)
    (synthetic : ∀ kind t, P t → Q (.synthetic kind t))
    (all : ∀ t ∈ Token.significant tokens, P t)
    (ended : ∃ t ∈ Token.significant tokens, t.kind = .eof) :
    (∀ s ∈ (ofTokens tokens).statements, s.Bears Q) ∧
      ∀ e ∈ (ofTokens tokens).errors, P e.token := by
  obtain ⟨p, c, ran⟩ := lines_ran tokens
  have start : (Cursor.ofTokens tokens).Shows P := Cursor.shows_fetch all ended (by simp)
  have kept := keeps_allLines (.showing P Q bears synthetic) _ start
  rw [ran] at kept
  rw [ofTokens_of_lines ran]
  exact ⟨kept.2, kept.1.errors⟩

end Parse

end SoftScript
