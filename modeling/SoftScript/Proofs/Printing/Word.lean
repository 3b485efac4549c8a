import SoftScript.Proofs.Grammar.Derivation
import SoftScript.Proofs.Printing.Printable

/-! Words: what is left of a token when its place and its spelling are forgotten. A tree has the
words of which its text consists when groupings, and nothing else, are written in parentheses. -/
namespace SoftScript

inductive Word where
  /-- A symbol or a keyword that is no operator. -/
  | mark (kind : Token.Kind)
  | operator (kind : Token.Kind)
  | name (lexeme : String)
  | constant (value : Constant)
  deriving DecidableEq, Repr

def Token.Kind.isOperator (kind : Token.Kind) : Bool :=
  Token.binaryOperators.contains kind || Token.unaryOperators.contains kind

def Token.Kind.isLiteral : Token.Kind → Bool
  | .trueWord | .falseWord | .nullWord | .string | .number => true
  | _ => false

/-- The kinds whose words are marks. -/
def Token.Kind.isMark (kind : Token.Kind) : Bool :=
  kind ≠ .identifier && !kind.isOperator && !kind.isLiteral

def Token.word (t : Token) : Word :=
  if t.kind = .identifier then .name t.lexeme
  else if t.kind.isOperator then .operator t.kind
  else match Grammar.constant? t with
    | some value => .constant value
    | none => .mark t.kind

namespace Token

variable {t : Token}

theorem isLiteral_of_constant? (h : Grammar.constant? t = some value) : t.kind.isLiteral = true := by
  unfold Grammar.constant? at h
  split at h <;> simp_all [Kind.isLiteral]

theorem word_of_isMark (h : t.kind.isMark = true) : t.word = .mark t.kind := by
  simp only [Kind.isMark, ne_eq, decide_not, Bool.and_eq_true, Bool.not_eq_true',
    decide_eq_false_iff_not] at h
  obtain ⟨⟨notName, notOperator⟩, notLiteral⟩ := h
  cases denotes : Grammar.constant? t with
  | none => simp [word, notName, notOperator, denotes]
  | some value => simp [isLiteral_of_constant? denotes] at notLiteral

theorem word_of_isOperator (h : t.kind.isOperator = true) : t.word = .operator t.kind := by
  have notName : t.kind ≠ .identifier := by
    intro name
    rw [name] at h
    exact absurd h (by decide)
  simp [word, notName, h]

theorem word_of_constant? (h : Grammar.constant? t = some value) : t.word = .constant value := by
  have literal := isLiteral_of_constant? h
  have other : ∀ k : Kind, k.isLiteral = true → k ≠ .identifier ∧ k.isOperator = false := by
    intro k
    cases k <;> decide
  simp [word, other t.kind literal, h]

theorem word_of_identifier (h : t.kind = .identifier) : t.word = .name t.lexeme := by
  simp [word, h]

theorem kind_of_word {k : Kind} (h : t.word = .mark k) : t.kind = k := by
  unfold word at h
  repeat' split at h
  all_goals simp_all

theorem operator_of_word {k : Kind} (h : t.word = .operator k) : t.kind = k := by
  unfold word at h
  repeat' split at h
  all_goals simp_all

theorem name_of_word {text : String} (h : t.word = .name text) :
    t.kind = .identifier ∧ t.lexeme = text := by
  unfold word at h
  repeat' split at h
  all_goals simp_all

theorem constant_of_word (h : t.word = .constant value) : Grammar.constant? t = some value := by
  unfold word at h
  repeat' split at h
  all_goals simp_all

end Token

/-- Items with commas between them. -/
def Word.listed (items : List (List Word)) : List Word := [Word.mark .comma].intercalate items

/-- The words of names, each by itself. -/
def Token.wordLists (names : List Token) : List (List Word) := names.map fun t => [.name t.lexeme]

mutual
def Expr.words : Expr → List Word
  | .assign target value => target.words ++ .mark .equal :: value.words
  | .binary left op right => left.words ++ .operator op.kind :: right.words
  | .index left _ position =>
    left.words ++ .mark .leftSquare :: position.words ++ [.mark .rightSquare]
  | .access left _ member => left.words ++ [.mark .dot, .name member.lexeme]
  | .call callee _ args =>
    callee.words ++ .mark .leftParen :: Word.listed (Expr.wordLists args) ++ [.mark .rightParen]
  | .grouping inner => .mark .leftParen :: inner.words ++ [.mark .rightParen]
  | .literal value _ => [.constant value]
  | .list _ elements => .mark .leftSquare :: Word.listed (Expr.wordLists elements) ++ [.mark .rightSquare]
  | .unary op operand => .operator op.kind :: operand.words
  | .variable name => [.name name.lexeme]
  | .object _ declarations => .mark .leftBrace :: Stmt.allWords declarations ++ [.mark .rightBrace]

/-- The words of expressions, each by itself. -/
def Expr.wordLists : List Expr → List (List Word)
  | [] => []
  | e :: rest => e.words :: Expr.wordLists rest

def Stmt.words : Stmt → List Word
  | .block body => .mark .leftBrace :: Stmt.allWords body ++ [.mark .rightBrace]
  | .expression value => value.words ++ [.mark .semicolon]
  | .function name params body =>
    .mark .funWord :: .name name.lexeme :: .mark .leftParen :: Word.listed (Token.wordLists params) ++
      .mark .rightParen :: .mark .leftBrace :: Stmt.allWords body ++ [.mark .rightBrace]
  | .branch condition thenBranch none =>
    .mark .ifWord :: .mark .leftParen :: condition.words ++ .mark .rightParen :: thenBranch.words
  | .branch condition thenBranch (some elseBranch) =>
    .mark .ifWord :: .mark .leftParen :: condition.words ++ .mark .rightParen ::
      thenBranch.words ++ .mark .elseWord :: elseBranch.words
  | .returns _ none => [.mark .returnWord, .mark .semicolon]
  | .returns _ (some value) => .mark .returnWord :: value.words ++ [.mark .semicolon]
  | .var name none => [.mark .varWord, .name name.lexeme, .mark .semicolon]
  | .var name (some initializer) =>
    .mark .varWord :: .name name.lexeme :: .mark .equal :: initializer.words ++ [.mark .semicolon]
  | .loop condition body =>
    .mark .whileWord :: .mark .leftParen :: condition.words ++ .mark .rightParen :: body.words

def Stmt.allWords : List Stmt → List Word
  | [] => []
  | s :: rest => s.words ++ Stmt.allWords rest
end

theorem words_erased_all :
    (∀ e : Expr, e.erased.words = e.words) ∧
    (∀ p : List Stmt, Stmt.allWords (Stmt.eraseds p) = Stmt.allWords p) ∧
    (∀ s : Stmt, s.erased.words = s.words) ∧
    (∀ es : List Expr, Expr.wordLists (Expr.eraseds es) = Expr.wordLists es) := by
  apply Expr.canonical.mutual_induct <;> intros <;>
    simp_all [Expr.rebuilt, Stmt.rebuilt, Expr.rebuilts, Stmt.rebuilts, Expr.unplaced,
      Stmt.unplaced, Expr.words, Expr.wordLists, Stmt.words, Stmt.allWords, Token.wordLists,
      Function.comp_def, Token.nameOnly, Token.kindOnly]

theorem allWords_eraseds (p : List Stmt) : Stmt.allWords (Stmt.eraseds p) = Stmt.allWords p :=
  words_erased_all.2.1 p

end SoftScript
