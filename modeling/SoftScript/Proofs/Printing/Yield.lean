import SoftScript.Proofs.Printing.Word

/-! What a derivation covers. Without `for`, `+=` and `-=`, which stand for other trees than they
show, the words of a derived tree are those of the tokens it is derived from. -/
namespace SoftScript

/-- A word that stands for no other tree than it shows. -/
def Word.isPlain (x : Word) : Bool := x ∉ [.mark .forWord, .mark .plusEqual, .mark .minusEqual]

theorem Word.listed_all {p : Word → Bool} (comma : p (.mark .comma) = true) (items : List (List Word)) :
    (Word.listed items).all p = items.all (·.all p) := by
  induction items with
  | nil => rfl
  | cons item rest ih =>
    cases rest with
    | nil => simp [Word.listed]
    | cons next rest =>
      rw [Word.listed, List.intercalate_cons_cons, ← Word.listed]
      simp [ih, comma]

/-- What a tree shows is plain. -/
theorem isPlain_words_all :
    (∀ e : Expr, e.words.all Word.isPlain = true) ∧
    (∀ p : List Stmt, (Stmt.allWords p).all Word.isPlain = true) ∧
    (∀ s : Stmt, s.words.all Word.isPlain = true) ∧
    (∀ es : List Expr, (Expr.wordLists es).all (·.all Word.isPlain) = true) := by
  have comma : (Word.mark .comma).isPlain = true := by decide
  have mark (k : Token.Kind) : (Word.mark k).isPlain =
      decide (k ≠ .forWord ∧ k ≠ .plusEqual ∧ k ≠ .minusEqual) := by simp [Word.isPlain]
  have name (text : String) : (Word.name text).isPlain = true := by simp [Word.isPlain]
  have operator (k : Token.Kind) : (Word.operator k).isPlain = true := by simp [Word.isPlain]
  have constant (value : Constant) : (Word.constant value).isPlain = true := by simp [Word.isPlain]
  have names (params : List Token) : (Token.wordLists params).all (·.all Word.isPlain) = true := by
    simp [Token.wordLists, name]
  apply Expr.canonical.mutual_induct <;> intros <;>
    simp_all only [Expr.words, Expr.wordLists, Stmt.words, Stmt.allWords, List.all_append,
      List.all_cons, List.all_nil, Word.listed_all comma, Bool.and_true] <;> decide

/-- The words of tokens all meet a condition. -/
def Token.AllMeet (p : Word → Bool) (w : List Token) : Prop := (w.map Token.word).all p = true

namespace Token

variable {p : Word → Bool}

@[simp] theorem allMeet_nil : AllMeet p [] := by simp [AllMeet]

@[simp] theorem allMeet_cons : AllMeet p (t :: w) ↔ p t.word = true ∧ AllMeet p w := by
  simp [AllMeet]

@[simp] theorem allMeet_append : AllMeet p (v ++ w) ↔ AllMeet p v ∧ AllMeet p w := by
  simp [AllMeet]

theorem word_of_kind {t : Token} {k : Kind} (h : t.kind = k) (mark : k.isMark = true) :
    t.word = .mark k := by
  subst h
  exact word_of_isMark mark

theorem word_of_operator {t : Token} {operators : List Kind} (h : t.kind ∈ operators)
    (all : operators.all Kind.isOperator = true) : t.word = .operator t.kind :=
  word_of_isOperator (List.all_eq_true.mp all _ h)

end Token

theorem Stmt.words_returns (keyword : Token) (value : Option Expr) :
    (Stmt.returns keyword value).words =
      .mark .returnWord :: value.elim [] Expr.words ++ [.mark .semicolon] := by
  cases value <;> simp [Stmt.words]

namespace Grammar

open Token (word_of_kind)

theorem Operation.all_isOperator (h : Operation level operand operators) :
    operators.all Token.Kind.isOperator = true := by
  cases h <;> decide

theorem Parameters.listed (h : Parameters w names) (name : Token) :
    Word.listed (Token.wordLists (name :: names)) =
      .name name.lexeme :: .mark .comma :: Word.listed (Token.wordLists names) := by
  cases h <;> simp [Word.listed, Token.wordLists]

theorem Parameters.words (h : Parameters w names) :
    w.map Token.word = Word.listed (Token.wordLists names) := by
  induction h with
  | one isName => simp [Word.listed, Token.wordLists, Token.word_of_identifier isName]
  | more isName isComma later ih =>
    rw [later.listed]
    simp [ih, Token.word_of_identifier isName, word_of_kind isComma rfl]

theorem ParameterList.words (h : ParameterList w names) :
    w.map Token.word = Word.listed (Token.wordLists names) := by
  cases h with
  | none => rfl
  | some h => exact h.words

theorem Arguments.listed (h : Arguments inside w es) (e : Expr) :
    Word.listed (Expr.wordLists (e :: es)) =
      e.words ++ .mark .comma :: Word.listed (Expr.wordLists es) := by
  cases h <;> simp [Word.listed, Expr.wordLists]

mutual
theorem Expression.words (h : Expression inside level w e) (plain : Token.AllMeet Word.isPlain w) :
    w.map Token.word = e.words := by
  match h with
  | .lowest h => exact h.words plain
  | .assign target _ isEqual value =>
    simp only [Token.allMeet_append, Token.allMeet_cons] at plain
    simp [target.words plain.1, value.words plain.2.2, word_of_kind isEqual rfl, Expr.words]
  | .increase _ _ isIncrease _ | .decrease _ _ isIncrease _ =>
    simp [word_of_kind isIncrease rfl, Word.isPlain] at plain
  | .unassigned h => exact h.words plain
  | .operation operation first after =>
    simp only [Token.allMeet_append] at plain
    rw [List.map_append, first.words plain.1, after.words operation.all_isOperator plain.2]
  | .signed isSign operand =>
    simp only [Token.allMeet_cons] at plain
    have isOperator := Token.word_of_isOperator (by rcases isSign with kind | kind <;> rw [kind] <;> rfl)
    simp [operand.words plain.2, isOperator, Expr.words]
  | .unsigned h => exact h.words plain
  | .suffixed first after =>
    simp only [Token.allMeet_append] at plain
    rw [List.map_append, first.words plain.1, after.words plain.2]

theorem Applied.words (h : Applied inside operand operators first w e)
    (all : operators.all Token.Kind.isOperator = true) (plain : Token.AllMeet Word.isPlain w) :
    first.words ++ w.map Token.word = e.words := by
  match h with
  | .nil => simp
  | .cons isOperator right after =>
    simp only [Token.allMeet_append, Token.allMeet_cons] at plain
    rw [← after.words all plain.2]
    simp [right.words plain.1.2, Token.word_of_operator isOperator all, Expr.words]

theorem Suffixed.words (h : Suffixed inside first w e) (plain : Token.AllMeet Word.isPlain w) :
    first.words ++ w.map Token.word = e.words := by
  match h with
  | .nil => simp
  | .call isOpening args isClosing after =>
    simp only [Token.allMeet_append, Token.allMeet_cons] at plain
    rw [← after.words plain.2.2]
    simp [args.words plain.1.2, word_of_kind isOpening rfl, word_of_kind isClosing rfl, Expr.words]
  | .index isOpening position isClosing after =>
    simp only [Token.allMeet_append, Token.allMeet_cons] at plain
    rw [← after.words plain.2.2]
    simp [position.words plain.1.2, word_of_kind isOpening rfl, word_of_kind isClosing rfl,
      Expr.words]
  | .member isDot isName after =>
    simp only [Token.allMeet_cons] at plain
    rw [← after.words plain.2.2]
    simp [word_of_kind isDot rfl, Token.word_of_identifier isName, Expr.words]

theorem Primary.words (h : Primary inside w e) (plain : Token.AllMeet Word.isPlain w) :
    w.map Token.word = e.words := by
  match h with
  | .literal denotes => simp [Token.word_of_constant? denotes, Expr.words]
  | .name isName => simp [Token.word_of_identifier isName, Expr.words]
  | .grouping isOpening inner isClosing =>
    simp only [Token.allMeet_append, Token.allMeet_cons] at plain
    simp [inner.words plain.1.2, word_of_kind isOpening rfl, word_of_kind isClosing rfl, Expr.words]
  | .list isOpening elements isClosing =>
    simp only [Token.allMeet_append, Token.allMeet_cons] at plain
    simp [elements.words plain.1.2, word_of_kind isOpening rfl, word_of_kind isClosing rfl,
      Expr.words]
  | .object isOpening members isClosing =>
    simp only [Token.allMeet_append, Token.allMeet_cons] at plain
    simp [members.words plain.1.2, word_of_kind isOpening rfl, word_of_kind isClosing rfl,
      Expr.words]

theorem Arguments.words (h : Arguments inside w es) (plain : Token.AllMeet Word.isPlain w) :
    w.map Token.word = Word.listed (Expr.wordLists es) := by
  match h with
  | .one only => simp [only.words plain, Word.listed, Expr.wordLists]
  | .more first isComma later =>
    simp only [Token.allMeet_append, Token.allMeet_cons] at plain
    rw [later.listed, List.map_append, List.map_cons, first.words plain.1, later.words plain.2.2,
      word_of_kind isComma rfl]

theorem ArgumentList.words (h : ArgumentList inside w es) (plain : Token.AllMeet Word.isPlain w) :
    w.map Token.word = Word.listed (Expr.wordLists es) := by
  match h with
  | .none => rfl
  | .some h => exact h.words plain

theorem Optional.words (h : Optional inside w value) (plain : Token.AllMeet Word.isPlain w) :
    w.map Token.word = value.elim [] Expr.words := by
  match h with
  | .none => rfl
  | .some h => exact h.words plain

theorem VariableDeclaration.words (h : VariableDeclaration inside w s)
    (plain : Token.AllMeet Word.isPlain w) : w.map Token.word = s.words := by
  match h with
  | .bare isVar isName isEnd =>
    simp [word_of_kind isVar rfl, Token.word_of_identifier isName, word_of_kind isEnd rfl, Stmt.words]
  | .initialized isVar isName isEqual initializer isEnd =>
    simp only [Token.allMeet_append, Token.allMeet_cons] at plain
    simp [initializer.words plain.1.2.2.2, word_of_kind isVar rfl, Token.word_of_identifier isName,
      word_of_kind isEqual rfl, word_of_kind isEnd rfl, Stmt.words]

theorem FunctionDeclaration.words (h : FunctionDeclaration inside w s)
    (plain : Token.AllMeet Word.isPlain w) : w.map Token.word = s.words := by
  match h with
  | .mk isFun isName isOpening params _ isClosing isBrace body isUnbrace =>
    simp only [Token.allMeet_append, Token.allMeet_cons] at plain
    simp [params.words, body.words plain.1.2.2.2, word_of_kind isFun rfl, Token.word_of_identifier isName,
      word_of_kind isOpening rfl, word_of_kind isClosing rfl, word_of_kind isBrace rfl,
      word_of_kind isUnbrace rfl, Stmt.words]

theorem Declaration.words (h : Declaration inside w s) (plain : Token.AllMeet Word.isPlain w) :
    w.map Token.word = s.words := by
  match h with
  | .var h => exact h.words plain
  | .function h => exact h.words plain

theorem Declarations.words (h : Declarations inside w p) (plain : Token.AllMeet Word.isPlain w) :
    w.map Token.word = Stmt.allWords p := by
  match h with
  | .nil => rfl
  | .cons first later =>
    simp only [Token.allMeet_append] at plain
    rw [List.map_append, first.words plain.1, later.words plain.2, Stmt.allWords]

theorem Statement.words (h : Statement inside ajar w s) (plain : Token.AllMeet Word.isPlain w) :
    w.map Token.word = s.words := by
  match h with
  | .expression value _ isEnd =>
    simp only [Token.allMeet_append] at plain
    rw [List.map_append, value.words plain.1]
    simp [word_of_kind isEnd rfl, Stmt.words]
  | .forLoop isFor .. => simp [word_of_kind isFor rfl, Word.isPlain] at plain
  | .whileLoop isWhile isOpening condition isClosing body =>
    simp only [Token.allMeet_append, Token.allMeet_cons] at plain
    simp [condition.words plain.1.2.2, body.words plain.2.2, word_of_kind isWhile rfl,
      word_of_kind isOpening rfl, word_of_kind isClosing rfl, Stmt.words]
  | .branch isIf isOpening condition isClosing thenBranch =>
    simp only [Token.allMeet_append, Token.allMeet_cons] at plain
    simp [condition.words plain.1.2.2, thenBranch.words plain.2.2, word_of_kind isIf rfl,
      word_of_kind isOpening rfl, word_of_kind isClosing rfl, Stmt.words]
  | .branches isIf isOpening condition isClosing thenBranch isElse elseBranch =>
    simp only [Token.allMeet_append, Token.allMeet_cons] at plain
    simp [condition.words plain.1.1.2.2, thenBranch.words plain.1.2.2, elseBranch.words plain.2.2,
      word_of_kind isIf rfl, word_of_kind isOpening rfl, word_of_kind isClosing rfl,
      word_of_kind isElse rfl, Stmt.words]
  | .block isOpening body isClosing =>
    simp only [Token.allMeet_append, Token.allMeet_cons] at plain
    simp [body.words plain.1.2, word_of_kind isOpening rfl, word_of_kind isClosing rfl, Stmt.words]
  | .returns isReturn value isEnd =>
    simp only [Token.allMeet_append, Token.allMeet_cons] at plain
    simp [value.words plain.1.2, word_of_kind isReturn rfl, word_of_kind isEnd rfl,
      Stmt.words_returns]

theorem Line.words (h : Line inside w s) (plain : Token.AllMeet Word.isPlain w) :
    w.map Token.word = s.words := by
  match h with
  | .declaration h => exact h.words plain
  | .statement h => exact h.words plain

theorem Lines.words (h : Lines inside w p) (plain : Token.AllMeet Word.isPlain w) :
    w.map Token.word = Stmt.allWords p := by
  match h with
  | .nil => rfl
  | .cons first later =>
    simp only [Token.allMeet_append] at plain
    rw [List.map_append, first.words plain.1, later.words plain.2, Stmt.allWords]
end

end Grammar

end SoftScript
