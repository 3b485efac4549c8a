import SoftScript.Proofs.Printing.Spelling
import SoftScript.Proofs.Printing.Yield

/-! What a derived tree is like. Read from a text, it is well-formed: the grammar asks for the shape
of every node, the lexical rules for its names and constants. Derived from plain tokens, it also
keeps its parts: an operand is no assignment, and a statement with a brace in front is a block. -/
namespace SoftScript

/-- A word that the lexical rules can yield. -/
def Word.isSound : Word → Bool
  | .name text => Token.isName text
  | .constant value => value.isWritable
  | .mark _ | .operator _ => true

namespace Token

theorem isWritable_of_read {kind : Kind} {value : Constant}
    (found : Rule.first? chars = some (kind, n))
    (denotes : Grammar.constant? (.read kind (String.ofList (chars.take n)) row place) = some value) :
    value.isWritable = true := by
  have unquoted (word : String) : (withoutQuotes word).toList.all (· ≠ '"') = true := by
    simp [withoutQuotes]
  unfold Grammar.constant? at denotes
  split at denotes <;> simp only [Option.some.injEq, reduceCtorEq] at denotes <;> subst denotes
  case h_1 | h_2 | h_3 => rfl
  case h_5 => exact unquoted _
  case h_4 isString literal =>
    simp only [read] at isString literal
    subst isString
    simp only [Literal.decode?, Option.some.injEq, Literal.string.injEq] at literal
    subst literal
    exact unquoted _
  case h_6 isNumber literal =>
    simp only [read] at isNumber literal
    subst isNumber
    simp only [Literal.decode?, Option.map_eq_some_iff, Literal.int.injEq, exists_eq_right] at literal
    exact decide_eq_true (Integer.nonneg_of_parse? (Rule.digits_of_first? found) literal)

theorem isSound_of_first? {kind : Kind} (found : Rule.first? chars = some (kind, n)) :
    (read kind (String.ofList (chars.take n)) row place).word.isSound = true := by
  generalize token : read kind (String.ofList (chars.take n)) row place = t
  cases word : t.word with
  | mark | operator => rfl
  | name lexeme =>
    obtain ⟨isIdentifier, rfl⟩ := name_of_word word
    subst token
    simp only [read] at isIdentifier
    subst isIdentifier
    exact Rule.isName_of_first? found
  | constant value =>
    subst token
    exact isWritable_of_read found (constant_of_word word)

end Token

theorem Scan.isSound_of_mem_tokens (s : Scan) (t : Token) (member : t ∈ s.tokens) :
    t.word.isSound = true := by
  fun_induction Scan.tokens s with
  | case1 => simp at member
  | case2 s token s' next ih =>
    rcases List.mem_cons.mp member with rfl | later
    · unfold Scan.next? at next
      repeat' split at next
      · contradiction
      · cases next; rfl
      · rename_i found
        cases next
        exact Token.isSound_of_first? found
      · cases next; rfl
    · exact ih later

theorem Token.isSound_sentence (source : String) :
    Token.AllMeet Word.isSound (Token.sentence (Token.tokenize source)) := by
  simp only [Token.AllMeet, List.all_map, List.all_eq_true, Function.comp_apply]
  intro t member
  unfold Token.sentence Token.significant at member
  exact Scan.isSound_of_mem_tokens _ t
    ((List.takeWhile_sublist _).mem (List.mem_filter.mp member).1)

namespace Grammar

open Parse (Level)

/-! What the grammar says about one node and its neighbours. -/

theorem Primary.not_assign (h : Primary inside w e) : e.isAssign = false := by
  cases h <;> rfl

theorem Suffixed.not_assign (h : Suffixed inside first w e) (other : first.isAssign = false) :
    e.isAssign = false := by
  match h, other with
  | .nil, other => exact other
  | .call _ _ _ after, _ => exact after.not_assign rfl
  | .index _ _ _ after, _ => exact after.not_assign rfl
  | .member _ _ after, _ => exact after.not_assign rfl

/-- The levels at which an assignment stands. -/
def isLoose : Level → Bool
  | .lowest | .assignment => true
  | _ => false

theorem Operation.operand_tight (h : Operation level operand operators) :
    isLoose operand = false := by
  cases h <;> rfl

theorem Operation.mem_binaryOperators (h : Operation level operand operators) :
    ∀ kind ∈ operators, kind ∈ Token.binaryOperators := by
  cases h <;> decide

theorem Expression.not_assign (h : Expression inside level w e) (tight : isLoose level = false) :
    e.isAssign = false := by
  match h with
  | .lowest _ | .assign .. | .increase .. | .decrease .. | .unassigned _ => simp [isLoose] at tight
  | .operation levels first after =>
    have other := first.not_assign levels.operand_tight
    rcases after.eq_or_binary with ⟨_, rfl⟩ | ⟨_, _, _, rfl⟩
    · exact other
    · rfl
  | .signed .. => rfl
  | .unsigned h => exact h.not_assign rfl
  | .suffixed first after => exact after.not_assign first.not_assign

theorem not_assign_of_isAssignable {e : Expr} (h : e.isAssignable = true) : e.isAssign = false := by
  cases e <;> simp_all [Expr.isAssignable, Expr.isAssign]

theorem Suffixed.startsWithObject {b : Bool} (h : Suffixed inside first w e)
    (start : first.startsWithObject = b) : e.startsWithObject = b := by
  match h, start with
  | .nil, start => exact start
  | .call _ _ _ after, start => exact after.startsWithObject start
  | .index _ _ _ after, start => exact after.startsWithObject start
  | .member _ _ after, start => exact after.startsWithObject start

/-- A tree begins with an object literal only where the text begins with a brace. -/
theorem Expression.not_startsWithObject (h : Expression inside level w e)
    (other : ∀ t ∈ w.head?, t.kind ≠ .leftBrace) : e.startsWithObject = false := by
  match h with
  | .lowest h => exact h.not_startsWithObject other
  | .unassigned h => exact h.not_startsWithObject other
  | .unsigned h => exact h.not_startsWithObject other
  | .signed .. => rfl
  | .assign target .. | .increase target .. | .decrease target .. =>
    have other := target.not_startsWithObject
    obtain ⟨t, v, rfl, _⟩ := target.starts
    simp_all [Expr.startsWithObject]
  | .operation _ first after =>
    have unbraced := first.not_startsWithObject
    obtain ⟨t, v, rfl, _⟩ := first.starts
    rcases after.eq_or_binary with ⟨_, rfl⟩ | ⟨_, _, _, rfl⟩
    · simp_all
    · rfl
  | .suffixed first after =>
    apply after.startsWithObject
    cases first with
    | object isOpening => simp [isOpening] at other
    | literal | name | grouping | list => rfl

theorem VariableDeclaration.isDeclaration (h : VariableDeclaration inside w s) :
    s.isDeclaration = true := by
  cases h <;> rfl

theorem Declaration.isDeclaration (h : Declaration inside w s) : s.isDeclaration = true := by
  cases h with
  | var h => exact h.isDeclaration
  | function h => cases h; rfl

theorem Declarations.all_isDeclaration (h : Declarations inside w p) :
    p.all Stmt.isDeclaration = true := by
  match p, h with
  | [], .nil => rfl
  | _ :: _, .cons first later => simp [first.isDeclaration, later.all_isDeclaration]

theorem unrolled_isDeclaration (keyword : Token) (initializer : Option Stmt)
    (condition increment : Option Expr) (body : Stmt) :
    (unrolled keyword initializer condition increment body).isDeclaration = false := by
  cases initializer <;> rfl

theorem unrolled_isAjar {body : Stmt} (h : body.isAjar = false) (keyword : Token)
    (initializer : Option Stmt) (condition increment : Option Expr) :
    (unrolled keyword initializer condition increment body).isAjar = false := by
  cases initializer with
  | some initializer => rfl
  | none =>
    cases increment with
    | some increment => rfl
    | none => exact h

theorem Statement.not_isDeclaration (h : Statement inside ajar w s) : s.isDeclaration = false := by
  cases h with
  | forLoop => exact unrolled_isDeclaration ..
  | expression | whileLoop | branch | branches | block | returns => rfl

/-- A statement that is not ajar in the grammar is not ajar as a tree. -/
theorem Statement.not_isAjar (h : Statement inside ajar w s) (shut : ajar = false) :
    s.isAjar = false := by
  match h with
  | .expression .. | .block .. | .returns .. => rfl
  | .forLoop _ _ _ _ _ _ _ body => exact unrolled_isAjar (body.not_isAjar shut) ..
  | .whileLoop _ _ _ _ body => exact body.not_isAjar shut
  | .branch .. => contradiction
  | .branches _ _ _ _ _ _ elseBranch => exact elseBranch.not_isAjar shut

end Grammar

/-- A word of a text, and a plain one where asked for. -/
def Word.isFit (plain : Bool) (x : Word) : Bool := x.isSound && (!plain || x.isPlain)

/-- A node as the grammar knows it, which keeps its parts where asked for. -/
def Expr.isFit (plain : Bool) (e : Expr) : Bool := e.isFormed && (!plain || e.keepsOperands)

def Stmt.isFit (plain inside : Bool) (s : Stmt) : Bool :=
  s.isFormed inside && (!plain || s.keepsBraces)

abbrev Expr.Fits (plain inside : Bool) (e : Expr) : Prop :=
  e.upholds (Expr.isFit plain) (Stmt.isFit plain) inside = true

abbrev Expr.AllFit (plain inside : Bool) (es : List Expr) : Prop :=
  Expr.allUphold (Expr.isFit plain) (Stmt.isFit plain) inside es = true

abbrev Stmt.Fits (plain inside : Bool) (s : Stmt) : Prop :=
  s.upholds (Expr.isFit plain) (Stmt.isFit plain) inside = true

abbrev Stmt.AllFit (plain inside : Bool) (p : List Stmt) : Prop :=
  Stmt.allUphold (Expr.isFit plain) (Stmt.isFit plain) inside p = true

namespace Token

variable {t : Token} {plain : Bool}

theorem isName_of_isFit (fit : t.word.isFit plain = true) (isName : t.kind = .identifier) :
    Token.isName t.lexeme = true := by
  rw [word_of_identifier isName] at fit
  simp only [Word.isFit, Word.isSound, Bool.and_eq_true] at fit
  exact fit.1

theorem isWritable_of_isFit (fit : t.word.isFit plain = true)
    (denotes : Grammar.constant? t = some value) : value.isWritable = true := by
  rw [word_of_constant? denotes] at fit
  simp only [Word.isFit, Word.isSound, Bool.and_eq_true] at fit
  exact fit.1

/-- A word that stands for another tree is not plain. -/
theorem not_plain_of_isFit {k : Kind} (fit : t.word.isFit plain = true) (kind : t.kind = k)
    (member : k ∈ [.forWord, .plusEqual, .minusEqual]) : plain = false := by
  have marks : ∀ k ∈ [Kind.forWord, .plusEqual, .minusEqual], k.isMark = true := by decide
  have listed : Word.mark k ∈ [.mark .forWord, .mark .plusEqual, .mark .minusEqual] := by
    simpa using member
  rw [word_of_kind kind (marks k member)] at fit
  simpa [Word.isFit, Word.isSound, Word.isPlain, listed] using fit

end Token

namespace Grammar

open Parse (Level)

theorem Parameters.all_isName (h : Parameters w names) (fit : Token.AllMeet (Word.isFit plain) w) :
    names.all (Token.isName ·.lexeme) = true := by
  induction h with
  | one isName =>
    simp only [Token.allMeet_cons] at fit
    simp [Token.isName_of_isFit fit.1 isName]
  | more isName _ _ ih =>
    simp only [Token.allMeet_cons] at fit
    simp only [List.all_cons, Token.isName_of_isFit fit.1 isName, ih fit.2.2, Bool.and_self]

theorem ParameterList.all_isName (h : ParameterList w names)
    (fit : Token.AllMeet (Word.isFit plain) w) : names.all (Token.isName ·.lexeme) = true := by
  cases h with
  | none => rfl
  | some h => exact h.all_isName fit

theorem fits_compound {target value : Expr} {op : Token} (assignable : target.isAssignable = true)
    (isOperator : op.kind ∈ Token.binaryOperators)
    (fitTarget : target.Fits false inside) (fitValue : value.Fits false inside) :
    (Expr.assign target (.binary target op value)).Fits false inside := by
  simp [Expr.Fits, Expr.upholds, Expr.isFit, Expr.isFormed, assignable, isOperator,
    not_assign_of_isAssignable assignable, fitTarget, fitValue]

theorem fits_unrolled {keyword : Token} {initializer : Option Stmt} {condition increment : Option Expr}
    {body : Stmt} (fitInitializer : ∀ s ∈ initializer, s.Fits false inside)
    (fitCondition : ∀ e ∈ condition, e.Fits false inside)
    (fitIncrement : ∀ e ∈ increment, e.Fits false inside) (fitBody : body.Fits false inside)
    (other : body.isDeclaration = false) :
    (unrolled keyword initializer condition increment body).Fits false inside := by
  have fitLoop : (Stmt.loop (condition.getD (always keyword)) (withIncrement body increment)).Fits
      false inside := by
    cases condition <;> cases increment <;>
      simp_all [Stmt.Fits, Stmt.upholds, Stmt.allUphold, Stmt.isFit, Stmt.isFormed, withIncrement,
        Stmt.isDeclaration, always, Expr.upholds, Expr.isFit, Expr.isFormed, Constant.isWritable]
  cases initializer <;>
    simp_all [unrolled, withInitializer, Stmt.Fits, Stmt.upholds, Stmt.allUphold, Stmt.isFit,
      Stmt.isFormed]

theorem fits_returns {value : Option Expr} (fit : ∀ e ∈ value, e.Fits plain true) :
    (Stmt.returns keyword value).Fits plain true := by
  cases value <;>
    simp_all [Stmt.Fits, Stmt.upholds, Stmt.isFit, Stmt.isFormed, Stmt.keepsBraces]

mutual
theorem Expression.fits (h : Expression inside level w e) (fit : Token.AllMeet (Word.isFit plain) w) :
    e.Fits plain inside := by
  match h with
  | .lowest h => exact h.fits fit
  | .assign target assignable _ value =>
    simp only [Token.allMeet_append, Token.allMeet_cons] at fit
    simp [Expr.Fits, Expr.upholds, Expr.isFit, Expr.isFormed, Expr.keepsOperands, assignable,
      target.fits fit.1, value.fits fit.2.2]
  | .increase target assignable isIncrease value =>
    simp only [Token.allMeet_append, Token.allMeet_cons] at fit
    have isPlus : Token.Kind.plus ∈ Token.binaryOperators := by decide
    obtain rfl := Token.not_plain_of_isFit fit.2.1 isIncrease (by decide)
    exact fits_compound assignable isPlus (target.fits fit.1) (value.fits fit.2.2)
  | .decrease target assignable isDecrease value =>
    simp only [Token.allMeet_append, Token.allMeet_cons] at fit
    have isMinus : Token.Kind.minus ∈ Token.binaryOperators := by decide
    obtain rfl := Token.not_plain_of_isFit fit.2.1 isDecrease (by decide)
    exact fits_compound assignable isMinus (target.fits fit.1) (value.fits fit.2.2)
  | .unassigned h => exact h.fits fit
  | .operation operation first after =>
    simp only [Token.allMeet_append] at fit
    exact after.fits operation.mem_binaryOperators operation.operand_tight (first.fits fit.1)
      (first.not_assign operation.operand_tight) fit.2
  | .signed isSign operand =>
    simp only [Token.allMeet_cons] at fit
    simp [Expr.Fits, Expr.upholds, Expr.isFit, Expr.isFormed, Expr.keepsOperands,
      Token.unaryOperators, isSign, operand.not_assign rfl, operand.fits fit.2]
  | .unsigned h => exact h.fits fit
  | .suffixed first after =>
    simp only [Token.allMeet_append] at fit
    exact after.fits (first.fits fit.1) first.not_assign fit.2

theorem Applied.fits (h : Applied inside operand operators first w e)
    (binary : ∀ kind ∈ operators, kind ∈ Token.binaryOperators) (tight : isLoose operand = false)
    (fitFirst : first.Fits plain inside) (other : first.isAssign = false)
    (fit : Token.AllMeet (Word.isFit plain) w) : e.Fits plain inside := by
  match h with
  | .nil => exact fitFirst
  | .cons isOperator right after =>
    simp only [Token.allMeet_append, Token.allMeet_cons] at fit
    refine after.fits binary tight ?_ rfl fit.2
    simp [Expr.Fits, Expr.upholds, Expr.isFit, Expr.isFormed, Expr.keepsOperands,
      binary _ isOperator, other, right.not_assign tight, fitFirst, right.fits fit.1.2]

theorem Suffixed.fits (h : Suffixed inside first w e) (fitFirst : first.Fits plain inside)
    (other : first.isAssign = false) (fit : Token.AllMeet (Word.isFit plain) w) :
    e.Fits plain inside := by
  match h with
  | .nil => exact fitFirst
  | .call _ args _ after =>
    simp only [Token.allMeet_append, Token.allMeet_cons] at fit
    refine after.fits ?_ rfl fit.2.2
    simp [Expr.Fits, Expr.upholds, Expr.isFit, Expr.isFormed, Expr.keepsOperands, other, fitFirst,
      args.fits fit.1.2]
  | .index _ position _ after =>
    simp only [Token.allMeet_append, Token.allMeet_cons] at fit
    refine after.fits ?_ rfl fit.2.2
    simp [Expr.Fits, Expr.upholds, Expr.isFit, Expr.isFormed, Expr.keepsOperands, other, fitFirst,
      position.fits fit.1.2]
  | .member _ isName after =>
    simp only [Token.allMeet_cons] at fit
    refine after.fits ?_ rfl fit.2.2
    simp [Expr.Fits, Expr.upholds, Expr.isFit, Expr.isFormed, Expr.keepsOperands, other, fitFirst,
      Token.isName_of_isFit fit.2.1 isName]

theorem Primary.fits (h : Primary inside w e) (fit : Token.AllMeet (Word.isFit plain) w) :
    e.Fits plain inside := by
  match h with
  | .literal denotes =>
    simp only [Token.allMeet_cons] at fit
    simp [Expr.Fits, Expr.upholds, Expr.isFit, Expr.isFormed, Expr.keepsOperands,
      Token.isWritable_of_isFit fit.1 denotes]
  | .name isName =>
    simp only [Token.allMeet_cons] at fit
    simp [Expr.Fits, Expr.upholds, Expr.isFit, Expr.isFormed, Expr.keepsOperands,
      Token.isName_of_isFit fit.1 isName]
  | .grouping _ inner _ =>
    simp only [Token.allMeet_append, Token.allMeet_cons] at fit
    simp [Expr.Fits, Expr.upholds, Expr.isFit, Expr.isFormed, Expr.keepsOperands,
      inner.fits fit.1.2]
  | .list _ elements _ =>
    simp only [Token.allMeet_append, Token.allMeet_cons] at fit
    simp [Expr.Fits, Expr.upholds, Expr.isFit, Expr.isFormed, Expr.keepsOperands,
      elements.fits fit.1.2]
  | .object _ members _ =>
    simp only [Token.allMeet_append, Token.allMeet_cons] at fit
    simp only [Expr.Fits, Expr.upholds, Expr.isFit, Expr.isFormed, Expr.keepsOperands,
      members.all_isDeclaration, members.fits fit.1.2, Bool.or_true, Bool.and_self]

theorem Arguments.fits (h : Arguments inside w es) (fit : Token.AllMeet (Word.isFit plain) w) :
    Expr.AllFit plain inside es := by
  match h with
  | .one only => simp [Expr.AllFit, Expr.allUphold, only.fits fit]
  | .more first _ later =>
    simp only [Token.allMeet_append, Token.allMeet_cons] at fit
    simp [Expr.AllFit, Expr.allUphold, first.fits fit.1, later.fits fit.2.2]

theorem ArgumentList.fits (h : ArgumentList inside w es)
    (fit : Token.AllMeet (Word.isFit plain) w) : Expr.AllFit plain inside es := by
  match h with
  | .none => rfl
  | .some h => exact h.fits fit

theorem Optional.fits (h : Optional inside w value) (fit : Token.AllMeet (Word.isFit plain) w) :
    ∀ e ∈ value, e.Fits plain inside := by
  match h with
  | .none => simp
  | .some h => simpa using h.fits fit

theorem VariableDeclaration.fits (h : VariableDeclaration inside w s)
    (fit : Token.AllMeet (Word.isFit plain) w) : s.Fits plain inside := by
  match h with
  | .bare _ isName _ =>
    simp only [Token.allMeet_cons] at fit
    simp [Stmt.Fits, Stmt.upholds, Stmt.isFit, Stmt.isFormed, Stmt.keepsBraces,
      Token.isName_of_isFit fit.2.1 isName]
  | .initialized _ isName _ initializer _ =>
    simp only [Token.allMeet_append, Token.allMeet_cons] at fit
    simp [Stmt.Fits, Stmt.upholds, Stmt.isFit, Stmt.isFormed, Stmt.keepsBraces,
      Token.isName_of_isFit fit.1.2.1 isName, initializer.fits fit.1.2.2.2]

theorem FunctionDeclaration.fits (h : FunctionDeclaration inside w s)
    (fit : Token.AllMeet (Word.isFit plain) w) : s.Fits plain inside := by
  match h with
  | .mk _ isName _ params few _ _ body _ =>
    simp only [Token.allMeet_append, Token.allMeet_cons] at fit
    have limited := decide_eq_true (show _ ≤ Parse.maxParameters from few)
    simp only [Stmt.Fits, Stmt.upholds, Stmt.isFit, Stmt.isFormed, Stmt.keepsBraces,
      Token.isName_of_isFit fit.1.1.2.1 isName, params.all_isName fit.1.1.2.2.2, limited,
      body.fits fit.1.2.2.2, Bool.or_true, Bool.and_self]

theorem Declaration.fits (h : Declaration inside w s) (fit : Token.AllMeet (Word.isFit plain) w) :
    s.Fits plain inside := by
  match h with
  | .var h => exact h.fits fit
  | .function h => exact h.fits fit

theorem Declarations.fits (h : Declarations inside w p) (fit : Token.AllMeet (Word.isFit plain) w) :
    Stmt.AllFit plain inside p := by
  match h with
  | .nil => rfl
  | .cons first later =>
    simp only [Token.allMeet_append] at fit
    simp [Stmt.AllFit, Stmt.allUphold, first.fits fit.1, later.fits fit.2]

theorem Initializer.fits (h : Initializer inside w initializer)
    (fit : Token.AllMeet (Word.isFit false) w) : ∀ s ∈ initializer, s.Fits false inside := by
  match h with
  | .none _ => simp
  | .var h => simpa using h.fits fit
  | .expression h _ =>
    simp only [Token.allMeet_append] at fit
    simp [Stmt.Fits, Stmt.upholds, Stmt.isFit, Stmt.isFormed, h.fits fit.1]

theorem Statement.fits (h : Statement inside ajar w s) (fit : Token.AllMeet (Word.isFit plain) w) :
    s.Fits plain inside := by
  match h with
  | .expression value other _ =>
    simp only [Token.allMeet_append] at fit
    simp [Stmt.Fits, Stmt.upholds, Stmt.isFit, Stmt.isFormed, Stmt.keepsBraces,
      value.not_startsWithObject (by simpa using other), value.fits fit.1]
  | .forLoop isFor _ initializer condition _ increment _ body =>
    simp only [Token.allMeet_append, Token.allMeet_cons] at fit
    obtain ⟨⟨⟨⟨word, _, fitInitializer⟩, fitCondition⟩, _, fitIncrement⟩, _, fitBody⟩ := fit
    obtain rfl := Token.not_plain_of_isFit word isFor (by decide)
    exact fits_unrolled (initializer.fits fitInitializer) (condition.fits fitCondition)
      (increment.fits fitIncrement) (body.fits fitBody) body.not_isDeclaration
  | .whileLoop _ _ condition _ body =>
    simp only [Token.allMeet_append, Token.allMeet_cons] at fit
    simp [Stmt.Fits, Stmt.upholds, Stmt.isFit, Stmt.isFormed, Stmt.keepsBraces,
      body.not_isDeclaration, condition.fits fit.1.2.2, body.fits fit.2.2]
  | .branch _ _ condition _ thenBranch =>
    simp only [Token.allMeet_append, Token.allMeet_cons] at fit
    simp [Stmt.Fits, Stmt.upholds, Stmt.isFit, Stmt.isFormed, Stmt.keepsBraces,
      thenBranch.not_isDeclaration, condition.fits fit.1.2.2, thenBranch.fits fit.2.2]
  | .branches _ _ condition _ thenBranch _ elseBranch =>
    simp only [Token.allMeet_append, Token.allMeet_cons] at fit
    simp [Stmt.Fits, Stmt.upholds, Stmt.isFit, Stmt.isFormed, Stmt.keepsBraces,
      thenBranch.not_isDeclaration, thenBranch.not_isAjar rfl, elseBranch.not_isDeclaration,
      condition.fits fit.1.1.2.2, thenBranch.fits fit.1.2.2, elseBranch.fits fit.2.2]
  | .block _ body _ =>
    simp only [Token.allMeet_append, Token.allMeet_cons] at fit
    simp [Stmt.Fits, Stmt.upholds, Stmt.isFit, Stmt.isFormed, Stmt.keepsBraces, body.fits fit.1.2]
  | .returns _ value _ =>
    simp only [Token.allMeet_append, Token.allMeet_cons] at fit
    exact fits_returns (value.fits fit.1.2)

theorem Line.fits (h : Line inside w s) (fit : Token.AllMeet (Word.isFit plain) w) :
    s.Fits plain inside := by
  match h with
  | .declaration h => exact h.fits fit
  | .statement h => exact h.fits fit

theorem Lines.fits (h : Lines inside w p) (fit : Token.AllMeet (Word.isFit plain) w) :
    Stmt.AllFit plain inside p := by
  match h with
  | .nil => rfl
  | .cons first later =>
    simp only [Token.allMeet_append] at fit
    simp [Stmt.AllFit, Stmt.allUphold, first.fits fit.1, later.fits fit.2]
end

end Grammar

end SoftScript
