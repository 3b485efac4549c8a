import Mathlib.Logic.Function.Iterate
import SoftScript.Proofs.Printing.Text

/-! The grammar derives the words of every printable tree, and from them the same tree up to places
and spellings. An expression that is no assignment is derived at the tightest level, since its
operators stand in parentheses; so it may stand wherever an expression may. -/
namespace SoftScript

open Grammar

open Parse (Level)

namespace Grammar

/-- An expression of one level is one of the next looser level too. -/
theorem Expression.looser (level : Level) (h : Expression inside level.next w e) :
    Expression inside level w e := by
  have operated {level operand : Level} {operators : List Token.Kind}
      (operation : Operation level operand operators) (h : Expression inside operand w e) :
      Expression inside level w e := by
    simpa using Expression.operation operation h .nil
  cases level with
  | lowest => exact .lowest h
  | assignment => exact .unassigned h
  | or => exact operated .or h
  | and => exact operated .and h
  | equality => exact operated .equality h
  | comparison => exact operated .comparison h
  | sum => exact operated .sum h
  | product => exact operated .product h
  | unary => exact .unsigned h
  | call => exact h

theorem Expression.of_next (n : Nat) (level : Level)
    (h : Expression inside (Level.next^[n] level) w e) : Expression inside level w e := by
  induction n generalizing level with
  | zero => exact h
  | succ n ih => exact .looser level (ih level.next h)

theorem Expression.of_call (h : Expression inside .call w e) (level : Level) :
    Expression inside level w e := by
  have tightest : Level.next^[9] level = .call := by cases level <;> rfl
  exact .of_next 9 level (tightest ▸ h)

theorem Expression.lowest_of {level : Level} (h : Expression inside level w e) :
    Expression inside .lowest w e := by
  obtain ⟨n, steps⟩ : ∃ n, Level.next^[n] .lowest = level := by
    cases level
    exacts [⟨0, rfl⟩, ⟨1, rfl⟩, ⟨2, rfl⟩, ⟨3, rfl⟩, ⟨4, rfl⟩, ⟨5, rfl⟩, ⟨6, rfl⟩, ⟨7, rfl⟩,
      ⟨8, rfl⟩, ⟨9, rfl⟩]
  exact .of_next n .lowest (steps ▸ h)

theorem Suffixed.append (first : Suffixed inside e v e') (second : Suffixed inside e' w e'') :
    Suffixed inside e (v ++ w) e'' := by
  match first with
  | .nil => exact second
  | .call isOpening args isClosing after =>
    simpa using Suffixed.call isOpening args isClosing (after.append second)
  | .index isOpening position isClosing after =>
    simpa using Suffixed.index isOpening position isClosing (after.append second)
  | .member isDot isName after => exact .member isDot isName (after.append second)

/-- A suffix after an expression of the tightest level. -/
theorem Expression.suffix (h : Expression inside .call v e) (after : Suffixed inside e w e') :
    Expression inside .call (v ++ w) e' := by
  cases h with
  | suffixed first before =>
    rw [List.append_assoc]
    exact .suffixed first (before.append after)
  | operation operation => cases operation

theorem Expression.of_primary (h : Primary inside w e) : Expression inside .call w e := by
  simpa using Expression.suffixed h .nil

end Grammar

namespace Expr

/-- Tokens of an expression's words derive the expression at a level. -/
def DerivesAt (inside : Bool) (level : Level) (e : Expr) : Prop :=
  ∀ w : List Token, w.map Token.word = e.grouped.words →
    ∃ q, Expression inside level w q ∧ q.erased = e.grouped.erased

/-- The same of expressions with commas between them. -/
def AllDerive (inside : Bool) (es : List Expr) : Prop :=
  ∀ w : List Token, w.map Token.word = Word.listed (wordLists (groupeds es)) →
    ∃ qs, ArgumentList inside w qs ∧ eraseds qs = eraseds (groupeds es)

variable {inside : Bool}

theorem isAssignable_grouped (e : Expr) : e.grouped.isAssignable = e.isAssignable := by
  cases e <;> simp [rebuilt, parenthesized, isAssignable]

theorem isAssignable_erased (e : Expr) : e.erased.isAssignable = e.isAssignable := by
  cases e <;> simp [rebuilt, unplaced, isAssignable]

theorem DerivesAt.lowest {e : Expr} {level : Level} (h : e.DerivesAt inside level) :
    e.DerivesAt inside .lowest := by
  intro w same
  obtain ⟨q, derived, equal⟩ := h w same
  exact ⟨q, derived.lowest_of, equal⟩

theorem DerivesAt.assign (assignable : target.isAssignable = true)
    (ht : target.DerivesAt inside .call) (hv : value.DerivesAt inside .lowest) :
    (assign target value).DerivesAt inside .assignment := by
  intro w same
  simp only [rebuilt, parenthesized, words, List.map_eq_append_iff, List.map_eq_cons_iff] at same
  obtain ⟨u, _, rfl, left, op, v, rfl, isEqual, right⟩ := same
  obtain ⟨qt, derivedTarget, equalTarget⟩ := ht u left
  obtain ⟨qv, derivedValue, equalValue⟩ := hv v right
  have known : qt.isAssignable = true := by
    rw [← isAssignable_erased, equalTarget, isAssignable_erased, isAssignable_grouped, assignable]
  cases derivedValue with
  | lowest derivedValue =>
    refine ⟨_, .assign derivedTarget known (Token.kind_of_word isEqual) derivedValue, ?_⟩
    simp [rebuilt, parenthesized, unplaced, equalTarget, equalValue]
  | operation operation => cases operation

theorem operation_of_mem {kind : Token.Kind} (member : kind ∈ Token.binaryOperators) :
    ∃ level operand operators, Operation level operand operators ∧ kind ∈ operators := by
  simp only [Token.binaryOperators, Level.all, List.mem_flatMap, List.mem_cons, List.not_mem_nil,
    or_false] at member
  obtain ⟨level, listed, member⟩ := member
  rcases listed with rfl | rfl | rfl | rfl | rfl | rfl | rfl | rfl | rfl | rfl
  · simp [Level.operators] at member
  · simp [Level.operators] at member
  · exact ⟨_, _, _, .or, member⟩
  · exact ⟨_, _, _, .and, member⟩
  · exact ⟨_, _, _, .equality, member⟩
  · exact ⟨_, _, _, .comparison, member⟩
  · exact ⟨_, _, _, .sum, member⟩
  · exact ⟨_, _, _, .product, member⟩
  · simp [Level.operators] at member
  · simp [Level.operators] at member

theorem DerivesAt.binary (member : op.kind ∈ Token.binaryOperators)
    (hl : left.DerivesAt inside .call) (hr : right.DerivesAt inside .call) :
    (binary left op right).DerivesAt inside .call := by
  intro w same
  simp only [rebuilt, parenthesized, words, List.cons_append, List.append_assoc,
    List.map_eq_append_iff, List.map_eq_cons_iff, List.map_eq_nil_iff] at same
  obtain ⟨opening, _, rfl, isOpening, u, _, rfl, sameLeft, t, _, rfl, isOperator, v, _, rfl, sameRight,
    closing, _, rfl, isClosing, rfl⟩ := same
  obtain ⟨ql, derivedLeft, equalLeft⟩ := hl u sameLeft
  obtain ⟨qr, derivedRight, equalRight⟩ := hr v sameRight
  have kind := Token.operator_of_word isOperator
  obtain ⟨level, operand, operators, operation, listed⟩ := operation_of_mem member
  have applied : Expression inside level (u ++ t :: v) (.binary ql t qr) := by
    have after : Applied inside operand operators ql (t :: v ++ []) (.binary ql t qr) :=
      .cons (kind ▸ listed) (derivedRight.of_call operand) .nil
    rw [List.append_nil] at after
    exact .operation operation (derivedLeft.of_call operand) after
  refine ⟨.grouping (.binary ql t qr), ?_, ?_⟩
  · have grouped := Primary.grouping (Token.kind_of_word isOpening) applied.lowest_of
      (Token.kind_of_word isClosing)
    simpa using Expression.of_primary grouped
  · simp [rebuilt, parenthesized, unplaced, Token.kindOnly, kind, equalLeft, equalRight]

theorem DerivesAt.unary (member : op.kind ∈ Token.unaryOperators)
    (ho : operand.DerivesAt inside .call) : (unary op operand).DerivesAt inside .call := by
  intro w same
  simp only [rebuilt, parenthesized, words, List.cons_append, List.map_eq_append_iff,
    List.map_eq_cons_iff, List.map_eq_nil_iff] at same
  obtain ⟨opening, _, rfl, isOpening, t, _, rfl, isOperator, v, _, rfl, sameOperand, closing, _, rfl,
    isClosing, rfl⟩ := same
  obtain ⟨q, derived, equal⟩ := ho v sameOperand
  have kind := Token.operator_of_word isOperator
  have signed : Expression inside .unary (t :: v) (.unary t q) :=
    .signed (by simpa [kind, Token.unaryOperators] using member) (derived.of_call .unary)
  refine ⟨.grouping (.unary t q), ?_, ?_⟩
  · have grouped := Primary.grouping (Token.kind_of_word isOpening) signed.lowest_of
      (Token.kind_of_word isClosing)
    simpa using Expression.of_primary grouped
  · simp [rebuilt, parenthesized, unplaced, Token.kindOnly, kind, equal]

theorem DerivesAt.index (hl : left.DerivesAt inside .call)
    (hp : position.DerivesAt inside .lowest) :
    (index left bracket position).DerivesAt inside .call := by
  intro w same
  simp only [rebuilt, parenthesized, words, List.cons_append, List.append_assoc,
    List.map_eq_append_iff, List.map_eq_cons_iff, List.map_eq_nil_iff] at same
  obtain ⟨u, _, rfl, sameLeft, opening, _, rfl, isOpening, v, _, rfl, samePosition, closing, _, rfl,
    isClosing, rfl⟩ := same
  obtain ⟨ql, derivedLeft, equalLeft⟩ := hl u sameLeft
  obtain ⟨qp, derivedPosition, equalPosition⟩ := hp v samePosition
  refine ⟨.index ql opening qp, ?_, ?_⟩
  · exact derivedLeft.suffix (.index (Token.kind_of_word isOpening) derivedPosition
      (Token.kind_of_word isClosing) .nil)
  · simp [rebuilt, parenthesized, unplaced, equalLeft, equalPosition]

theorem DerivesAt.access (hl : left.DerivesAt inside .call) :
    (access left dot member).DerivesAt inside .call := by
  intro w same
  simp only [rebuilt, parenthesized, words, List.map_eq_append_iff, List.map_eq_cons_iff,
    List.map_eq_nil_iff] at same
  obtain ⟨u, _, rfl, sameLeft, t, _, rfl, isDot, name, _, rfl, isName, rfl⟩ := same
  obtain ⟨ql, derivedLeft, equalLeft⟩ := hl u sameLeft
  obtain ⟨isIdentifier, lexeme⟩ := Token.name_of_word isName
  refine ⟨.access ql t name, ?_, ?_⟩
  · exact derivedLeft.suffix (.member (Token.kind_of_word isDot) isIdentifier .nil)
  · simp [rebuilt, parenthesized, unplaced, Token.nameOnly, lexeme, equalLeft]

theorem DerivesAt.call (hc : callee.DerivesAt inside .call) (ha : AllDerive inside args) :
    (call callee paren args).DerivesAt inside .call := by
  intro w same
  simp only [rebuilt, parenthesized, words, List.cons_append, List.append_assoc,
    List.map_eq_append_iff, List.map_eq_cons_iff, List.map_eq_nil_iff] at same
  obtain ⟨u, _, rfl, sameCallee, opening, _, rfl, isOpening, v, _, rfl, sameArgs, closing, _, rfl,
    isClosing, rfl⟩ := same
  obtain ⟨qc, derivedCallee, equalCallee⟩ := hc u sameCallee
  obtain ⟨qs, derivedArgs, equalArgs⟩ := ha v sameArgs
  refine ⟨.call qc closing qs, ?_, ?_⟩
  · exact derivedCallee.suffix (.call (Token.kind_of_word isOpening) derivedArgs
      (Token.kind_of_word isClosing) .nil)
  · simp [rebuilt, parenthesized, unplaced, equalCallee, equalArgs]

theorem DerivesAt.grouping {inner : Expr} (hi : inner.DerivesAt inside .lowest) :
    (grouping inner).DerivesAt inside .call := by
  intro w same
  simp only [rebuilt, parenthesized, words, List.cons_append, List.map_eq_append_iff,
    List.map_eq_cons_iff, List.map_eq_nil_iff] at same
  obtain ⟨opening, _, rfl, isOpening, v, _, rfl, sameInner, closing, _, rfl, isClosing, rfl⟩ := same
  obtain ⟨q, derived, equal⟩ := hi v sameInner
  refine ⟨.grouping q, ?_, ?_⟩
  · exact .of_primary (.grouping (Token.kind_of_word isOpening) derived
      (Token.kind_of_word isClosing))
  · simp [rebuilt, parenthesized, unplaced, equal]

theorem DerivesAt.literal {t : Token} : (literal value t).DerivesAt inside .call := by
  intro w same
  simp only [rebuilt, parenthesized, words, List.map_eq_cons_iff, List.map_eq_nil_iff] at same
  obtain ⟨t', _, rfl, denotes, rfl⟩ := same
  refine ⟨.literal value t', ?_, ?_⟩
  · exact .of_primary (.literal (Token.constant_of_word denotes))
  · simp [rebuilt, parenthesized, unplaced]

theorem DerivesAt.variable : (Expr.variable name).DerivesAt inside .call := by
  intro w same
  simp only [rebuilt, parenthesized, words, List.map_eq_cons_iff, List.map_eq_nil_iff] at same
  obtain ⟨t, _, rfl, isName, rfl⟩ := same
  obtain ⟨isIdentifier, lexeme⟩ := Token.name_of_word isName
  refine ⟨.variable t, ?_, ?_⟩
  · exact .of_primary (.name isIdentifier)
  · simp [rebuilt, parenthesized, unplaced, Token.nameOnly, lexeme]

/-- One expression or more. -/
theorem arguments_derive (e : Expr) (rest : List Expr)
    (all : ∀ x ∈ e :: rest, x.DerivesAt inside .lowest) (w : List Token)
    (same : w.map Token.word = Word.listed (wordLists (groupeds (e :: rest)))) :
    ∃ qs, Arguments inside w qs ∧ eraseds qs = eraseds (groupeds (e :: rest)) := by
  induction rest generalizing e w with
  | nil =>
    obtain ⟨q, derived, equal⟩ := all e (by simp) w
      (by simpa [Word.listed, rebuilts, wordLists] using same)
    exact ⟨[q], .one derived, by simp [rebuilts, equal]⟩
  | cons e' rest ih =>
    simp only [Word.listed, rebuilts, wordLists, List.intercalate_cons_cons, List.append_assoc,
      List.cons_append, List.nil_append, List.map_eq_append_iff, List.map_eq_cons_iff] at same
    obtain ⟨u, _, rfl, first, comma, v, rfl, isComma, others⟩ := same
    obtain ⟨q, derived, equal⟩ := all e (by simp) u first
    obtain ⟨qs, derivedRest, equalRest⟩ := ih e' (fun x member => all x (by simp [member])) v others
    exact ⟨q :: qs, .more derived (Token.kind_of_word isComma) derivedRest,
      by simp [rebuilts, equal, equalRest]⟩

theorem AllDerive.of_forall (all : ∀ e ∈ es, e.DerivesAt inside .lowest) : AllDerive inside es := by
  intro w same
  cases es with
  | nil =>
    have nothing : w = [] := by simpa [Word.listed, rebuilts, wordLists] using same
    exact ⟨[], nothing ▸ .none, rfl⟩
  | cons e rest =>
    obtain ⟨qs, derived, equal⟩ := arguments_derive e rest all w same
    exact ⟨qs, .some derived, equal⟩

theorem DerivesAt.list (he : AllDerive inside elements) :
    (list bracket elements).DerivesAt inside .call := by
  intro w same
  simp only [rebuilt, parenthesized, words, List.cons_append, List.map_eq_append_iff,
    List.map_eq_cons_iff, List.map_eq_nil_iff] at same
  obtain ⟨opening, _, rfl, isOpening, v, _, rfl, sameElements, closing, _, rfl, isClosing, rfl⟩ :=
    same
  obtain ⟨qs, derived, equal⟩ := he v sameElements
  refine ⟨.list opening qs, ?_, ?_⟩
  · exact .of_primary (.list (Token.kind_of_word isOpening) derived (Token.kind_of_word isClosing))
  · simp [rebuilt, parenthesized, unplaced, equal]

end Expr

namespace Stmt

/-- Tokens of a statement's words derive the statement. -/
def Derives (inside : Bool) (s : Stmt) : Prop :=
  ∀ w : List Token, w.map Token.word = s.grouped.words → ∃ q : Stmt, q.erased = s.grouped.erased ∧
    if s.isDeclaration then Declaration inside w q else Statement inside s.isAjar w q

/-- The same of statements one after another. -/
def AllDerive (inside : Bool) (p : List Stmt) : Prop :=
  ∀ w : List Token, w.map Token.word = allWords (groupeds p) →
    ∃ qs, Lines inside w qs ∧ eraseds qs = eraseds (groupeds p)

variable {inside : Bool}

theorem Derives.statement {s : Stmt} (h : s.Derives inside) (other : s.isDeclaration = false) (w : List Token)
    (same : w.map Token.word = s.grouped.words) :
    ∃ q, Statement inside s.isAjar w q ∧ q.erased = s.grouped.erased := by
  obtain ⟨q, equal, derived⟩ := h w same
  exact ⟨q, by simpa [other] using derived, equal⟩

theorem AllDerive.of_forall (all : ∀ s ∈ p, s.Derives inside) : AllDerive inside p := by
  induction p with
  | nil =>
    intro w same
    have nothing : w = [] := by simpa [rebuilts, allWords] using same
    exact ⟨[], nothing ▸ .nil, rfl⟩
  | cons s p ih =>
    intro w same
    simp only [rebuilts, allWords, List.map_eq_append_iff] at same
    obtain ⟨u, v, rfl, first, others⟩ := same
    obtain ⟨q, equal, derived⟩ := all s (by simp) u first
    obtain ⟨qs, derivedRest, equalRest⟩ := ih (fun x member => all x (by simp [member])) v others
    have line : Line inside u q := by
      split at derived
      · exact .declaration derived
      · exact .statement derived
    exact ⟨q :: qs, .cons line derivedRest, by simp [rebuilts, equal, equalRest]⟩

/-- Declarations one after another. -/
theorem declarations_derive (all : ∀ s ∈ p, s.Derives inside) (declares : p.all isDeclaration = true)
    (w : List Token) (same : w.map Token.word = allWords (groupeds p)) :
    ∃ qs, Declarations inside w qs ∧ eraseds qs = eraseds (groupeds p) := by
  induction p generalizing w with
  | nil =>
    have nothing : w = [] := by simpa [rebuilts, allWords] using same
    exact ⟨[], nothing ▸ .nil, rfl⟩
  | cons s p ih =>
    simp only [rebuilts, allWords, List.map_eq_append_iff] at same
    obtain ⟨u, v, rfl, first, others⟩ := same
    simp only [List.all_cons, Bool.and_eq_true] at declares
    obtain ⟨q, equal, derived⟩ := all s (by simp) u first
    obtain ⟨qs, derivedRest, equalRest⟩ :=
      ih (fun x member => all x (by simp [member])) declares.2 v others
    rw [if_pos declares.1] at derived
    exact ⟨q :: qs, .cons derived derivedRest, by simp [rebuilts, equal, equalRest]⟩

end Stmt

theorem Expr.DerivesAt.object (all : ∀ s ∈ members, s.Derives inside)
    (declares : members.all Stmt.isDeclaration = true) :
    (object brace members).DerivesAt inside .call := by
  intro w same
  simp only [rebuilt, parenthesized, words, List.cons_append, List.map_eq_append_iff,
    List.map_eq_cons_iff, List.map_eq_nil_iff] at same
  obtain ⟨opening, _, rfl, isOpening, v, _, rfl, sameMembers, closing, _, rfl, isClosing, rfl⟩ :=
    same
  obtain ⟨qs, derived, equal⟩ := Stmt.declarations_derive all declares v sameMembers
  refine ⟨.object opening qs, ?_, ?_⟩
  · exact .of_primary (.object (Token.kind_of_word isOpening) derived
      (Token.kind_of_word isClosing))
  · simp [rebuilt, parenthesized, unplaced, equal]

theorem Expr.words_unbraced (e : Expr) (plain : e.startsWithObject = false) :
    ∃ x ws, e.grouped.words = x :: ws ∧ x ≠ .mark .leftBrace := by
  match e with
  | .assign left _ | .index left _ _ | .access left _ _ | .call left _ _ =>
    obtain ⟨x, ws, same, other⟩ := left.words_unbraced (by simpa [startsWithObject] using plain)
    exact ⟨x, _, by simp only [rebuilt, parenthesized, words, same, List.cons_append]; rfl, other⟩
  | .binary .. | .grouping _ | .unary .. | .list .. | .literal .. | .variable _ =>
    refine ⟨_, _, by simp only [rebuilt, parenthesized, words, List.cons_append]; rfl, ?_⟩
    simp
  | .object .. => simp [startsWithObject] at plain

namespace Stmt

theorem Derives.block (all : ∀ s ∈ body, s.Derives inside) : (block body).Derives inside := by
  intro w same
  simp only [rebuilt, id, words, List.cons_append, List.map_eq_append_iff, List.map_eq_cons_iff,
    List.map_eq_nil_iff] at same
  obtain ⟨opening, _, rfl, isOpening, v, _, rfl, sameBody, closing, _, rfl, isClosing, rfl⟩ := same
  obtain ⟨qs, derived, equal⟩ := AllDerive.of_forall all v sameBody
  refine ⟨.block qs, by simp [rebuilt, unplaced, equal], ?_⟩
  exact .block (Token.kind_of_word isOpening) derived (Token.kind_of_word isClosing)

theorem Derives.expression (plain : value.startsWithObject = false)
    (hv : value.DerivesAt inside .lowest) : (expression value).Derives inside := by
  intro w same
  simp only [rebuilt, id, words, List.map_eq_append_iff, List.map_eq_cons_iff,
    List.map_eq_nil_iff] at same
  obtain ⟨v, _, rfl, sameValue, semicolon, _, rfl, isSemicolon, rfl⟩ := same
  obtain ⟨q, derived, equal⟩ := hv v sameValue
  obtain ⟨x, ws, head, other⟩ := value.words_unbraced plain
  rw [head] at sameValue
  obtain ⟨t, v, rfl, word, _⟩ := List.map_eq_cons_iff.mp sameValue
  refine ⟨.expression q, by simp [rebuilt, unplaced, equal], ?_⟩
  refine .expression derived ?_ (Token.kind_of_word isSemicolon)
  intro brace
  have mark := Token.word_of_isMark (t := t) (by rw [brace]; decide)
  exact other (by rw [← word, mark, brace])

theorem parameters_derive (name : Token) (rest : List Token) (w : List Token)
    (same : w.map Token.word = Word.listed (Token.wordLists (name :: rest))) :
    ∃ params, Parameters w params ∧
      params.map Token.nameOnly = (name :: rest).map Token.nameOnly := by
  induction rest generalizing name w with
  | nil =>
    simp only [Word.listed, Token.wordLists, List.map_cons, List.map_nil, List.intercalate_singleton,
      List.map_eq_cons_iff, List.map_eq_nil_iff] at same
    obtain ⟨t, _, rfl, isName, rfl⟩ := same
    obtain ⟨isIdentifier, lexeme⟩ := Token.name_of_word isName
    exact ⟨[t], .one isIdentifier, by simp [Token.nameOnly, lexeme]⟩
  | cons name' rest ih =>
    simp only [Word.listed, Token.wordLists, List.map_cons, List.intercalate_cons_cons,
      List.cons_append, List.nil_append, List.map_eq_cons_iff] at same
    obtain ⟨t, _, rfl, isName, comma, v, rfl, isComma, others⟩ := same
    obtain ⟨isIdentifier, lexeme⟩ := Token.name_of_word isName
    obtain ⟨params, derived, equal⟩ := ih name' v others
    exact ⟨t :: params, .more isIdentifier (Token.kind_of_word isComma) derived,
      by simpa [Token.nameOnly, lexeme] using equal⟩

theorem parameterList_derives (params w : List Token)
    (same : w.map Token.word = Word.listed (Token.wordLists params)) :
    ∃ params', ParameterList w params' ∧
      params'.map Token.nameOnly = params.map Token.nameOnly := by
  cases params with
  | nil =>
    have nothing : w = [] := by simpa [Word.listed, Token.wordLists] using same
    exact ⟨[], nothing ▸ .none, rfl⟩
  | cons name rest =>
    obtain ⟨params, derived, equal⟩ := parameters_derive name rest w same
    exact ⟨params, .some derived, equal⟩

theorem Derives.function (few : params.length ≤ parameterLimit)
    (all : ∀ s ∈ body, s.Derives true) : (function name params body).Derives inside := by
  intro w same
  simp only [rebuilt, id, words, List.cons_append, List.append_assoc, List.map_eq_append_iff,
    List.map_eq_cons_iff, List.map_eq_nil_iff] at same
  obtain ⟨keyword, _, rfl, isFun, t, _, rfl, isName, opening, _, rfl, isOpening, u, _, rfl, sameParams,
    closing, _, rfl, isClosing, brace, _, rfl, isBrace, v, _, rfl, sameBody, unbrace, _, rfl, isUnbrace,
    rfl⟩ := same
  obtain ⟨isIdentifier, lexeme⟩ := Token.name_of_word isName
  obtain ⟨params', listed, equalParams⟩ := parameterList_derives params u sameParams
  obtain ⟨qs, derived, equal⟩ := AllDerive.of_forall all v sameBody
  have size : params'.length = params.length := by simpa using congrArg List.length equalParams
  refine ⟨.function t params' qs, ?_, ?_⟩
  · simp [rebuilt, unplaced, equal, equalParams, Token.nameOnly, lexeme]
  · have declared : FunctionDeclaration inside _ _ :=
      .mk (Token.kind_of_word isFun) isIdentifier (Token.kind_of_word isOpening) listed (size ▸ few)
        (Token.kind_of_word isClosing) (Token.kind_of_word isBrace) derived
        (Token.kind_of_word isUnbrace)
    simpa [isDeclaration] using Declaration.function declared

theorem Derives.branch (hc : condition.DerivesAt inside .lowest)
    (ht : thenBranch.Derives inside) (other : thenBranch.isDeclaration = false) :
    (branch condition thenBranch none).Derives inside := by
  intro w same
  simp only [rebuilt, id, words, List.cons_append, List.map_eq_append_iff,
    List.map_eq_cons_iff] at same
  obtain ⟨keyword, _, rfl, isIf, opening, _, rfl, isOpening, u, _, rfl, sameCondition, closing, v, rfl,
    isClosing, sameThen⟩ := same
  obtain ⟨qc, derivedCondition, equalCondition⟩ := hc u sameCondition
  obtain ⟨qt, derivedThen, equalThen⟩ := ht.statement other v sameThen
  refine ⟨.branch qc qt none, ?_, ?_⟩
  · simp [rebuilt, unplaced, equalCondition, equalThen]
  · exact .branch (Token.kind_of_word isIf) (Token.kind_of_word isOpening) derivedCondition
      (Token.kind_of_word isClosing) derivedThen

theorem Derives.branches (hc : condition.DerivesAt inside .lowest)
    (ht : thenBranch.Derives inside) (other : thenBranch.isDeclaration = false)
    (closed : thenBranch.isAjar = false) (he : elseBranch.Derives inside)
    (otherElse : elseBranch.isDeclaration = false) :
    (Stmt.branch condition thenBranch (some elseBranch)).Derives inside := by
  intro w same
  simp only [rebuilt, id, words, List.cons_append, List.append_assoc, List.map_eq_append_iff,
    List.map_eq_cons_iff] at same
  obtain ⟨keyword, _, rfl, isIf, opening, _, rfl, isOpening, u, _, rfl, sameCondition, closing, _, rfl,
    isClosing, v, _, rfl, sameThen, otherwise, x, rfl, isElse, sameElse⟩ := same
  obtain ⟨qc, derivedCondition, equalCondition⟩ := hc u sameCondition
  obtain ⟨qt, derivedThen, equalThen⟩ := ht.statement other v sameThen
  obtain ⟨qe, derivedElse, equalElse⟩ := he.statement otherElse x sameElse
  rw [closed] at derivedThen
  refine ⟨.branch qc qt (some qe), ?_, ?_⟩
  · simp [rebuilt, unplaced, equalCondition, equalThen, equalElse]
  · have derived := Statement.branches (Token.kind_of_word isIf) (Token.kind_of_word isOpening)
      derivedCondition (Token.kind_of_word isClosing) derivedThen (Token.kind_of_word isElse)
      derivedElse
    simpa [isDeclaration, isAjar] using derived

theorem Derives.loop (hc : condition.DerivesAt inside .lowest) (hb : body.Derives inside)
    (other : body.isDeclaration = false) : (loop condition body).Derives inside := by
  intro w same
  simp only [rebuilt, id, words, List.cons_append, List.map_eq_append_iff,
    List.map_eq_cons_iff] at same
  obtain ⟨keyword, _, rfl, isWhile, opening, _, rfl, isOpening, u, _, rfl, sameCondition, closing, v,
    rfl, isClosing, sameBody⟩ := same
  obtain ⟨qc, derivedCondition, equalCondition⟩ := hc u sameCondition
  obtain ⟨qb, derivedBody, equalBody⟩ := hb.statement other v sameBody
  refine ⟨.loop qc qb, ?_, ?_⟩
  · simp [rebuilt, unplaced, equalCondition, equalBody]
  · exact .whileLoop (Token.kind_of_word isWhile) (Token.kind_of_word isOpening) derivedCondition
      (Token.kind_of_word isClosing) derivedBody

theorem Derives.returnsNothing : (returns keyword none).Derives true := by
  intro w same
  simp only [rebuilt, id, words, List.map_eq_cons_iff, List.map_eq_nil_iff] at same
  obtain ⟨t, _, rfl, isReturn, semicolon, _, rfl, isSemicolon, rfl⟩ := same
  refine ⟨.returns t none, by simp [rebuilt, unplaced], ?_⟩
  exact .returns (Token.kind_of_word isReturn) .none (Token.kind_of_word isSemicolon)

theorem Derives.returns (hv : value.DerivesAt true .lowest) :
    (returns keyword (some value)).Derives true := by
  intro w same
  simp only [rebuilt, id, words, List.cons_append, List.map_eq_append_iff, List.map_eq_cons_iff,
    List.map_eq_nil_iff] at same
  obtain ⟨t, _, rfl, isReturn, v, _, rfl, sameValue, semicolon, _, rfl, isSemicolon, rfl⟩ := same
  obtain ⟨q, derived, equal⟩ := hv v sameValue
  refine ⟨.returns t (some q), by simp [rebuilt, unplaced, equal], ?_⟩
  exact .returns (Token.kind_of_word isReturn) (.some derived) (Token.kind_of_word isSemicolon)

theorem Derives.bare : (var name none).Derives inside := by
  intro w same
  simp only [rebuilt, id, words, List.map_eq_cons_iff, List.map_eq_nil_iff] at same
  obtain ⟨keyword, _, rfl, isVar, t, _, rfl, isName, semicolon, _, rfl, isSemicolon, rfl⟩ := same
  obtain ⟨isIdentifier, lexeme⟩ := Token.name_of_word isName
  refine ⟨.var t none, by simp [rebuilt, unplaced, Token.nameOnly, lexeme], ?_⟩
  exact .var (.bare (Token.kind_of_word isVar) isIdentifier (Token.kind_of_word isSemicolon))

theorem Derives.var (hv : initializer.DerivesAt inside .lowest) :
    (var name (some initializer)).Derives inside := by
  intro w same
  simp only [rebuilt, id, words, List.cons_append, List.map_eq_append_iff, List.map_eq_cons_iff,
    List.map_eq_nil_iff] at same
  obtain ⟨keyword, _, rfl, isVar, t, _, rfl, isName, equals, _, rfl, isEqual, v, _, rfl, sameValue,
    semicolon, _, rfl, isSemicolon, rfl⟩ := same
  obtain ⟨isIdentifier, lexeme⟩ := Token.name_of_word isName
  obtain ⟨q, derived, equal⟩ := hv v sameValue
  refine ⟨.var t (some q), by simp [rebuilt, unplaced, Token.nameOnly, lexeme, equal], ?_⟩
  exact .var (.initialized (Token.kind_of_word isVar) isIdentifier (Token.kind_of_word isEqual)
    derived (Token.kind_of_word isSemicolon))

end Stmt

/-- The tightest level at which an expression is derived. -/
def Expr.tightest : Expr → Level
  | .assign .. => .assignment
  | _ => .call

theorem Expr.tightest_of_not_isAssign {e : Expr} (h : e.isAssign = false) : e.tightest = .call := by
  cases e <;> simp_all [isAssign, tightest]

theorem Expr.tightest_of_isAssignable {e : Expr} (h : e.isAssignable = true) :
    e.tightest = .call := by
  cases e <;> simp_all [isAssignable, tightest]

mutual
theorem Expr.derived (e : Expr) (inside : Bool)
    (formed : e.upholds Expr.isFormed Stmt.isFormed inside = true)
    (kept : e.upholds Expr.keepsOperands (fun _ => Stmt.keepsBraces) inside = true) :
    e.DerivesAt inside e.tightest := by
  match e with
  | .assign target value =>
    simp only [Expr.upholds, Expr.isFormed, Bool.and_eq_true] at formed kept
    have ht := target.derived inside formed.1.2 kept.1.2
    rw [Expr.tightest_of_isAssignable formed.1.1] at ht
    exact .assign formed.1.1 ht (value.derived inside formed.2 kept.2).lowest
  | .binary left op right =>
    simp only [Expr.upholds, Expr.isFormed, Expr.keepsOperands, Bool.and_eq_true,
      List.contains_iff_mem, Bool.not_eq_true'] at formed kept
    have hl := left.derived inside formed.1.2 kept.1.2
    have hr := right.derived inside formed.2 kept.2
    rw [Expr.tightest_of_not_isAssign formed.1.1.2] at hl
    rw [Expr.tightest_of_not_isAssign kept.1.1] at hr
    exact .binary formed.1.1.1 hl hr
  | .index left _ position =>
    simp only [Expr.upholds, Expr.isFormed, Bool.and_eq_true, Bool.not_eq_true'] at formed kept
    have hl := left.derived inside formed.1.2 kept.1.2
    rw [Expr.tightest_of_not_isAssign formed.1.1] at hl
    exact .index hl (position.derived inside formed.2 kept.2).lowest
  | .access left _ member =>
    simp only [Expr.upholds, Expr.isFormed, Bool.and_eq_true, Bool.not_eq_true'] at formed kept
    have hl := left.derived inside formed.2 kept.2
    rw [Expr.tightest_of_not_isAssign formed.1.1] at hl
    exact .access hl
  | .call callee _ args =>
    simp only [Expr.upholds, Expr.isFormed, Bool.and_eq_true, Bool.not_eq_true'] at formed kept
    have hc := callee.derived inside formed.1.2 kept.1.2
    rw [Expr.tightest_of_not_isAssign formed.1.1] at hc
    exact .call hc (.of_forall (Expr.allDerived args inside formed.2 kept.2))
  | .grouping inner =>
    simp only [Expr.upholds, Bool.and_eq_true] at formed kept
    exact .grouping (inner.derived inside formed.2 kept.2).lowest
  | .literal .. => exact .literal
  | .list _ elements =>
    simp only [Expr.upholds, Bool.and_eq_true] at formed kept
    exact .list (.of_forall (Expr.allDerived elements inside formed.2 kept.2))
  | .unary op operand =>
    simp only [Expr.upholds, Expr.isFormed, Bool.and_eq_true, List.contains_iff_mem,
      Bool.not_eq_true'] at formed kept
    have ho := operand.derived inside formed.2 kept.2
    rw [Expr.tightest_of_not_isAssign formed.1.2] at ho
    exact .unary formed.1.1 ho
  | .variable _ => exact .variable
  | .object _ declarations =>
    simp only [Expr.upholds, Expr.isFormed, Bool.and_eq_true] at formed kept
    exact .object (Stmt.allDerived declarations inside formed.2 kept.2) formed.1

theorem Expr.allDerived (es : List Expr) (inside : Bool)
    (formed : Expr.allUphold Expr.isFormed Stmt.isFormed inside es = true)
    (kept : Expr.allUphold Expr.keepsOperands (fun _ => Stmt.keepsBraces) inside es = true) :
    ∀ e ∈ es, e.DerivesAt inside .lowest := by
  match es with
  | [] => simp
  | e :: rest =>
    simp only [Expr.allUphold, Bool.and_eq_true] at formed kept
    have first := (e.derived inside formed.1 kept.1).lowest
    have others := Expr.allDerived rest inside formed.2 kept.2
    simpa using ⟨first, others⟩

theorem Stmt.derived (s : Stmt) (inside : Bool)
    (formed : s.upholds Expr.isFormed Stmt.isFormed inside = true)
    (kept : s.upholds Expr.keepsOperands (fun _ => Stmt.keepsBraces) inside = true) :
    s.Derives inside := by
  match s with
  | .block body =>
    simp only [Stmt.upholds, Bool.and_eq_true] at formed kept
    exact .block (Stmt.allDerived body inside formed.2 kept.2)
  | .expression value =>
    simp only [Stmt.upholds, Stmt.keepsBraces, Bool.and_eq_true, Bool.not_eq_true'] at formed kept
    exact .expression kept.1 (value.derived inside formed.2 kept.2).lowest
  | .function name params body =>
    simp only [Stmt.upholds, Stmt.isFormed, Bool.and_eq_true, decide_eq_true_eq] at formed kept
    exact .function formed.1.2 (Stmt.allDerived body true formed.2 kept.2)
  | .branch condition thenBranch none =>
    simp only [Stmt.upholds, Stmt.isFormed, Bool.and_eq_true, Bool.not_eq_true'] at formed kept
    exact .branch (condition.derived inside formed.1.2 kept.1.2).lowest
      (thenBranch.derived inside formed.2 kept.2) formed.1.1
  | .branch condition thenBranch (some elseBranch) =>
    simp only [Stmt.upholds, Stmt.isFormed, Bool.and_eq_true, Bool.not_eq_true'] at formed kept
    obtain ⟨⟨⟨⟨⟨other, closed⟩, otherElse⟩, formedCondition⟩, formedThen⟩, formedElse⟩ := formed
    exact .branches (condition.derived inside formedCondition kept.1.1.2).lowest
      (thenBranch.derived inside formedThen kept.1.2) other closed
      (elseBranch.derived inside formedElse kept.2) otherElse
  | .returns _ none =>
    simp only [Stmt.upholds, Stmt.isFormed] at formed
    exact formed ▸ .returnsNothing
  | .returns _ (some value) =>
    simp only [Stmt.upholds, Stmt.isFormed, Bool.and_eq_true] at formed kept
    have hv := (value.derived inside formed.2 kept.2).lowest
    rw [formed.1] at hv ⊢
    exact .returns hv
  | .var _ none => exact .bare
  | .var _ (some initializer) =>
    simp only [Stmt.upholds, Bool.and_eq_true] at formed kept
    exact .var (initializer.derived inside formed.2 kept.2).lowest
  | .loop condition body =>
    simp only [Stmt.upholds, Stmt.isFormed, Bool.and_eq_true, Bool.not_eq_true'] at formed kept
    exact .loop (condition.derived inside formed.1.2 kept.1.2).lowest
      (body.derived inside formed.2 kept.2) formed.1.1

theorem Stmt.allDerived (body : List Stmt) (inside : Bool)
    (formed : Stmt.allUphold Expr.isFormed Stmt.isFormed inside body = true)
    (kept : Stmt.allUphold Expr.keepsOperands (fun _ => Stmt.keepsBraces) inside body = true) :
    ∀ s ∈ body, s.Derives inside := by
  match body with
  | [] => simp
  | s :: rest =>
    simp only [Stmt.allUphold, Bool.and_eq_true] at formed kept
    have first := s.derived inside formed.1 kept.1
    have others := Stmt.allDerived rest inside formed.2 kept.2
    simpa using ⟨first, others⟩
end

end SoftScript
