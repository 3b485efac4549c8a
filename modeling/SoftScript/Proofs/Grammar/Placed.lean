import SoftScript.Proofs.Grammar.Shown
import SoftScript.Report.Failure

/-! Where the tokens of a program and of its errors stand. An error is reported at a significant token
of the text, and a tree bears such tokens or operators and constants made up in their places. So all
positions that a program hands out are valid in the text it was read from, and a diagnostic needs no
check of its own. -/
namespace SoftScript

open Likeness

mutual
/-- All tokens of an expression, in the order of its parts. -/
def Expr.tokens : Expr → List Token
  | .assign target value => target.tokens ++ value.tokens
  | .binary left op right => left.tokens ++ op :: right.tokens
  | .index left bracket position => left.tokens ++ bracket :: position.tokens
  | .access left dot member => left.tokens ++ [dot, member]
  | .call callee paren args => callee.tokens ++ paren :: Expr.allTokens args
  | .grouping inner => inner.tokens
  | .literal _ token => [token]
  | .list bracket elements => bracket :: Expr.allTokens elements
  | .unary op operand => op :: operand.tokens
  | .variable name => [name]
  | .object brace declarations => brace :: Stmt.allTokens declarations

def Expr.allTokens : List Expr → List Token
  | [] => []
  | e :: rest => e.tokens ++ Expr.allTokens rest

/-- All tokens of a statement, in the order of its parts. -/
def Stmt.tokens : Stmt → List Token
  | .block body => Stmt.allTokens body
  | .expression value => value.tokens
  | .function name params body => name :: params ++ Stmt.allTokens body
  | .branch condition thenBranch none => condition.tokens ++ thenBranch.tokens
  | .branch condition thenBranch (some elseBranch) =>
    condition.tokens ++ thenBranch.tokens ++ elseBranch.tokens
  | .returns keyword none => [keyword]
  | .returns keyword (some value) => keyword :: value.tokens
  | .var name none => [name]
  | .var name (some value) => name :: value.tokens
  | .loop condition body => condition.tokens ++ body.tokens

def Stmt.allTokens : List Stmt → List Token
  | [] => []
  | s :: rest => s.tokens ++ Stmt.allTokens rest
end

section

variable {P : Token → Prop}

theorem Likeness.of_only_names {ts ts' : List Token} (names : List.Forall₂ (only P).name ts ts') :
    ∀ t ∈ ts, P t := by
  induction names with
  | nil => simp
  | cons first _ ih => exact List.forall_mem_cons.mpr ⟨first.1.2, ih⟩

-- The trees on both sides are the same, but only a relation of two can be taken apart by its cases.
mutual
theorem Expr.Alike.of_mem_tokens : Expr.Alike (only P) e e' → ∀ t ∈ e.tokens, P t
  | .assign target _ value => by
    simpa [Expr.tokens, or_imp, forall_and] using ⟨target.of_mem_tokens, value.of_mem_tokens⟩
  | .binary left op right => by
    simpa [Expr.tokens, or_imp, forall_and] using
      ⟨left.of_mem_tokens, op.1.2, right.of_mem_tokens⟩
  | .index left bracket position => by
    simpa [Expr.tokens, or_imp, forall_and] using
      ⟨left.of_mem_tokens, bracket.2, position.of_mem_tokens⟩
  | .access left dot member => by
    simpa [Expr.tokens, or_imp, forall_and] using ⟨left.of_mem_tokens, dot.2, member.1.2⟩
  | .call callee paren args => by
    simpa [Expr.tokens, or_imp, forall_and] using
      ⟨callee.of_mem_tokens, paren.2, args.of_mem_tokens⟩
  | .keeps _ inner => by simpa [Expr.tokens] using inner.of_mem_tokens
  | .drops never _ | .adds never _ => never.elim
  | .literal token => by simpa [Expr.tokens] using token.2
  | .list bracket elements => by
    simpa [Expr.tokens] using ⟨bracket.2, elements.of_mem_tokens⟩
  | .unary op operand => by simpa [Expr.tokens] using ⟨op.1.2, operand.of_mem_tokens⟩
  | .variable name => by simpa [Expr.tokens] using name.1.2
  | .object brace declarations => by
    simpa [Expr.tokens] using ⟨brace.2, declarations.of_mem_tokens⟩

theorem Expr.AllAlike.of_mem_tokens :
    Expr.AllAlike (only P) es es' → ∀ t ∈ Expr.allTokens es, P t
  | .nil => by simp [Expr.allTokens]
  | .cons first rest => by
    simpa [Expr.allTokens, or_imp, forall_and] using ⟨first.of_mem_tokens, rest.of_mem_tokens⟩

theorem Stmt.Alike.of_mem_tokens : Stmt.Alike (only P) s s' → ∀ t ∈ s.tokens, P t
  | .block body => by simpa [Stmt.tokens] using body.of_mem_tokens
  | .expression value => by simpa [Stmt.tokens] using value.of_mem_tokens
  | .function name params body => by
    simpa [Stmt.tokens, or_imp, forall_and] using
      ⟨name.1.2, of_only_names params, body.of_mem_tokens⟩
  | .branch condition thenBranch => by
    simpa [Stmt.tokens, or_imp, forall_and] using
      ⟨condition.of_mem_tokens, thenBranch.of_mem_tokens⟩
  | .branches condition thenBranch elseBranch => by
    simpa [Stmt.tokens, or_imp, forall_and] using
      ⟨condition.of_mem_tokens, thenBranch.of_mem_tokens, elseBranch.of_mem_tokens⟩
  | .returns keyword => by simpa [Stmt.tokens] using keyword.2
  | .returnsValue keyword value => by
    simpa [Stmt.tokens] using ⟨keyword.2, value.of_mem_tokens⟩
  | .var name => by simpa [Stmt.tokens] using name.1.2
  | .varValue name value => by simpa [Stmt.tokens] using ⟨name.1.2, value.of_mem_tokens⟩
  | .loop condition body => by
    simpa [Stmt.tokens, or_imp, forall_and] using ⟨condition.of_mem_tokens, body.of_mem_tokens⟩

theorem Stmt.AllAlike.of_mem_tokens :
    Stmt.AllAlike (only P) p p' → ∀ t ∈ Stmt.allTokens p, P t
  | .nil => by simp [Stmt.allTokens]
  | .cons first rest => by
    simpa [Stmt.allTokens, or_imp, forall_and] using ⟨first.of_mem_tokens, rest.of_mem_tokens⟩
end

end

namespace Token

/-- A token with a valid place in a text: it covers whole characters of the text, and its line is the
one on which it starts. -/
structure Within (source : String) (t : Token) : Prop where
  ordered : t.span.start ≤ t.span.stop
  inside : t.span.stop ≤ Text.byteLength source.toList
  start : Text.isBoundary source.toList t.span.start = true
  stop : Text.isBoundary source.toList t.span.stop = true
  line : t.line = 1 + (Text.splitAtByte t.span.start source.toList).1.count '\n'

variable {source : String} {t : Token}

theorem within_of_mem (member : t ∈ tokenize source) : t.Within source := by
  obtain ⟨tokens, last, blanks, splits⟩ :=
    Scan.splits (s := .ofText source) rfl (Scan.hasRead_ofText source)
  obtain ⟨past, later, split⟩ := List.append_of_mem member
  obtain ⟨stands, whole⟩ := splits.stands (splits.read.symm.trans split)
  obtain ⟨start, stop, line⟩ := stands.inText whole
  refine ⟨?_, ?_, start, stop, line⟩
  · simp [stands.start, stands.stop]
  · rw [stands.stop, whole, Text.byteLength_append (lexemes past ++ _)]
    exact Nat.le_add_right ..

/-- Lines are counted by what stands before a token, so they need no more room than offsets. -/
theorem line_lt_of_mem (small : Text.byteLength source.toList < 2 ^ 32)
    (member : t ∈ tokenize source) : t.line < 2 ^ 32 := by
  obtain ⟨tokens, last, blanks, splits⟩ :=
    Scan.splits (s := .ofText source) rfl (Scan.hasRead_ofText source)
  obtain ⟨past, later, split⟩ := List.append_of_mem member
  have read : tokens ++ [last] = past ++ t :: later := splits.read.symm.trans split
  have line := (splits.stands read).1.line
  have newlines := splits.newlines rfl
  have text : source.toList = lexemes tokens ++ blanks := splits.text
  have all : lexemes tokens = lexemes past ++ lexemes (t :: later) := by
    rw [← lexemes_append, ← read]
    simp [splits.ended.2]
  rw [all, List.count_append] at newlines
  rw [text, all] at small
  simp only [Text.byteLength_append] at newlines small
  omega

theorem Within.fits (within : t.Within source) : Report.Failure.fits source t.span = true := by
  simp [Report.Failure.fits, within.start, within.stop]

/-- A significant token of a text, or one made up in the place of such a token. -/
def Derives (source : String) (t : Token) : Prop :=
  t ∈ significant (tokenize source) ∨
    ∃ kind, ∃ t' ∈ significant (tokenize source), t = synthetic kind t'

theorem Derives.placedIn (derives : t.Derives source) : t.PlacedIn source := by
  rcases derives with member | ⟨kind, t', member, rfl⟩
  · exact placedIn_of_mem (List.mem_of_mem_filter member)
  · exact ⟨t', List.mem_of_mem_filter member, rfl, rfl⟩

theorem PlacedIn.within (placed : t.PlacedIn source) : t.Within source := by
  obtain ⟨t', member, line, span⟩ := placed
  obtain ⟨ordered, inside, start, stop, counted⟩ := within_of_mem member
  rw [← span] at ordered inside start stop counted
  exact ⟨ordered, inside, start, stop, line.trans counted⟩

theorem PlacedIn.small (placed : t.PlacedIn source)
    (small : Text.byteLength source.toList < 2 ^ 32) : t.span.stop < 2 ^ 32 ∧ t.line < 2 ^ 32 := by
  refine ⟨Nat.lt_of_le_of_lt placed.within.inside small, ?_⟩
  obtain ⟨t', member, line, _⟩ := placed
  exact line ▸ line_lt_of_mem small member

end Token

namespace Parse

/-- Errors are at significant tokens of the text, and the tokens of the tree derive from such. -/
theorem ofSource_derives (source : String) :
    (∀ e ∈ (ofSource source).errors, e.token ∈ Token.significant (Token.tokenize source)) ∧
      ∀ t ∈ Stmt.allTokens (ofSource source).statements, t.Derives source := by
  obtain ⟨statements, errors⟩ := ofTokens_shows (Q := Token.Derives source)
    (fun _ member => .inl member) (fun kind t member => .inr ⟨kind, t, member, rfl⟩)
    (fun _ member => member) (Token.eof_mem_significant source)
  exact ⟨errors, (Stmt.allAlike_of_bears statements).of_mem_tokens⟩

/-- All positions are valid. Every error of a text with less than `2 ^ 32` bytes is reported at a
significant token of it, and every token of the program, whether or not there are errors, is such a
token or made up in the place of one. All of these cover whole characters of the text, tell the line
they start on, and have offsets and lines below `2 ^ 32`. So each diagnostic points to a valid place
in the text, on the line that its title tells. -/
theorem positions_valid (path source : String) (small : Text.byteLength source.toList < 2 ^ 32) :
    (∀ e ∈ (ofSource source).errors, e.token ∈ Token.significant (Token.tokenize source) ∧
      e.token.Within source ∧ e.token.span.stop < 2 ^ 32 ∧ e.token.line < 2 ^ 32) ∧
    (∀ t ∈ Stmt.allTokens (ofSource source).statements,
      (t ∈ Token.significant (Token.tokenize source) ∨
        ∃ kind, ∃ t' ∈ Token.significant (Token.tokenize source), t = .synthetic kind t' ∧
          t.line = t'.line ∧ t.span = t'.span) ∧
      t.Within source ∧ t.span.stop < 2 ^ 32 ∧ t.line < 2 ^ 32) ∧
    List.Forall₂ (fun (e : Error) (d : Report.Diagnostic) => ∃ l, d.location = some l ∧
        l.path = path ∧ l.source = source ∧ l.span = e.token.span ∧ l.span.start ≤ l.span.stop ∧
        l.span.stop ≤ Text.byteLength source.toList ∧ Report.Failure.fits source l.span = true ∧
        (Report.linePlace source.toList l.span.start).number = e.token.line)
      (ofSource source).errors
      (Report.Failure.parse path source (ofSource source).errors).diagnostics := by
  obtain ⟨errors, tokens⟩ := ofSource_derives source
  have placed : ∀ e ∈ (ofSource source).errors, e.token.PlacedIn source :=
    fun e member => Token.placedIn_of_mem (List.mem_of_mem_filter (errors e member))
  refine ⟨?_, ?_, ?_⟩
  · intro e member
    exact ⟨errors e member, (placed e member).within, (placed e member).small small⟩
  · intro t member
    have derives := tokens t member
    refine ⟨?_, derives.placedIn.within, derives.placedIn.small small⟩
    rcases derives with read | ⟨kind, t', read, rfl⟩
    · exact .inl read
    · exact .inr ⟨kind, t', read, rfl, rfl, rfl⟩
  · rw [Report.Failure.diagnostics, List.forall₂_map_right_iff, List.forall₂_same]
    intro e member
    have within := (placed e member).within
    exact ⟨_, rfl, rfl, rfl, rfl, within.ordered, within.inside, within.fits, within.line.symm⟩

/-- An error after which reading goes on, two ways of writing for which tokens are made up, a
character of two bytes, and an error at the end of the text. -/
def faulty : String := "var 1;\nfor (;; i += 1) \"é\";\nx = "

theorem positions_valid_faulty : Text.byteLength faulty.toList < 2 ^ 32 ∧
    (ofSource faulty).errors.map (fun e => (e.cause, e.token.line, e.token.span)) =
      [(.expectVariableName, 1, ⟨4, 5⟩), (.expectExpression, 3, ⟨32, 32⟩)] ∧
    (∃ t ∈ Stmt.allTokens (ofSource faulty).statements,
      t ∉ Token.significant (Token.tokenize faulty)) ∧
    (∀ e ∈ (ofSource faulty).errors, e.token ∈ Token.significant (Token.tokenize faulty)) ∧
    ∀ t ∈ Stmt.allTokens (ofSource faulty).statements, t.Within faulty := by
  have small : Text.byteLength faulty.toList < 2 ^ 32 := by decide
  obtain ⟨errors, tokens, _⟩ := positions_valid "" faulty small
  exact ⟨small, by decide +kernel, by decide +kernel, fun e member => (errors e member).1,
    fun t member => (tokens t member).2.1⟩

end Parse

end SoftScript
