import SoftScript.Proofs.Grammar.Reads

/-! Where the cursor is when a production ends. It is again as deep in functions as where the
production began, and a token that is refused is in view: nothing is passed between an error and its
report, so what comes after it is still to be read. -/
namespace SoftScript.Parse

namespace Parser

variable {α β : Type} {p : Parser α} {c : Cursor}

/-- From a cursor on, a parser comes back to the depth of functions it began at, and the token that it
refuses is the one it stands at. -/
def Orderly (p : Parser α) (c : Cursor) : Prop :=
  match p c with
  | .ok _ c' => c'.functionDepth = c.functionDepth
  | .error (.refused e) c' => c'.functionDepth = c.functionDepth ∧ e.token = c'.current
  | .error .exhausted _ => True

theorem orderly_pure (a : α) : (pure a : Parser α).Orderly c := rfl

theorem orderly_exhausted : (exhausted : Parser α).Orderly c := trivial

theorem orderly_refuse (cause : Cause) : (refuse cause c.current : Parser α).Orderly c := ⟨rfl, rfl⟩

theorem Orderly.bind {next : α → Parser β} (first : p.Orderly c)
    (second : ∀ a c', (next a).Orderly c') : (p >>= next).Orderly c := by
  unfold Orderly at first ⊢
  rw [bind_apply]
  cases ran : p c with
  | error stop c' =>
    rw [ran] at first
    cases stop <;> exact first
  | ok a c' =>
    rw [ran] at first
    have later := second a c'
    unfold Orderly at later
    change match next a c' with | .ok _ c' => _ | .error (.refused _) c' => _ | .error .exhausted _ => _
    cases ran' : next a c' with
    | ok b c'' =>
      rw [ran'] at later
      exact later.trans first
    | error stop c'' =>
      rw [ran'] at later
      cases stop with
      | refused e => exact ⟨later.1.trans first, later.2⟩
      | exhausted => trivial

theorem Orderly.map {f : α → β} (h : p.Orderly c) : (f <$> p).Orderly c := by
  rw [map_eq_pure_bind]
  exact h.bind fun _ _ => orderly_pure _

/-! Looking at the cursor. -/

theorem orderly_current_bind {next : Token → Parser α} (h : (next c.current).Orderly c) :
    (current >>= next).Orderly c := h

theorem orderly_check_bind {next : Bool → Parser α} {kind : Token.Kind}
    (h : (next (c.check kind)).Orderly c) : (check kind >>= next).Orderly c := h

theorem orderly_atEnd_bind {next : Bool → Parser α} (h : (next c.atEnd).Orderly c) :
    (atEnd >>= next).Orderly c := h

theorem orderly_get_bind {next : Cursor → Parser α} (h : (next c).Orderly c) :
    ((get : Parser Cursor) >>= next).Orderly c := h

/-! Passing tokens. -/

theorem orderly_advance : advance.Orderly c := Cursor.functionDepth_advance c

theorem orderly_eat? (kinds : List Token.Kind) : (eat? kinds).Orderly c := by
  unfold Orderly
  rw [eat?_apply]
  cases kinds.any c.check with
  | true => exact Cursor.functionDepth_advance c
  | false => rfl

theorem orderly_eat (kind : Token.Kind) : (eat kind).Orderly c :=
  (orderly_eat? [kind]).bind fun _ _ => orderly_pure _

theorem orderly_consume (kind : Token.Kind) (cause : Cause) : (consume kind cause).Orderly c := by
  unfold Orderly
  rw [consume_apply]
  cases c.check kind with
  | true => exact orderly_advance
  | false => exact orderly_refuse (α := Token) cause

theorem orderly_expect (kind : Token.Kind) (context : String) : (expect kind context).Orderly c :=
  orderly_consume kind _

theorem orderly_report (cause : Cause) (t : Token) : (report cause t).Orderly c := rfl

theorem orderly_insideFunction (inner : ∀ c, p.Orderly c) : (insideFunction p).Orderly c := by
  have begun := inner c.enterFunction
  unfold Orderly at begun ⊢
  unfold insideFunction
  cases ran : p c.enterFunction with
  | ok a c' =>
    rw [ran] at begun
    exact congrArg (· - 1) begun
  | error stop c' =>
    rw [ran] at begun
    cases stop with
    | refused e => exact ⟨congrArg (· - 1) begun.1, begun.2⟩
    | exhausted => trivial

theorem orderly_recover (h : p.Orderly c) : (recover p).Orderly c := by
  unfold Orderly at h ⊢
  unfold recover
  cases ran : p c with
  | ok a c' =>
    rw [ran] at h
    exact h
  | error stop c' =>
    rw [ran] at h
    cases stop with
    | refused e => exact (c'.report e.cause e.token).synchronize_onward.2.2.trans h.1
    | exhausted => trivial

end Parser

/-! The productions of the grammar. -/

open SoftScript.Parse.Parser

variable {α : Type} {c : Cursor}

theorem orderly_commaItems {item : Parser α} (each : ∀ c, item.Orderly c) (n : Nat)
    (items : Array α) : (commaItems item n items).Orderly c := by
  induction n generalizing items c with
  | zero => exact orderly_exhausted
  | succ n ih =>
    apply (each c).bind
    intro a c
    apply (orderly_eat .comma).bind
    intro more c
    cases more with
    | true => exact ih _
    | false => exact orderly_pure _

theorem orderly_itemsBefore {item : Parser α} (close : Token.Kind) (each : ∀ c, item.Orderly c)
    (n : Nat) : (itemsBefore close item n).Orderly c := by
  apply orderly_check_bind
  split
  · exact orderly_pure _
  · exact orderly_commaItems each n _

theorem orderly_parameters (n : Nat) (params : Array Token) : (parameters n params).Orderly c := by
  induction n generalizing params c with
  | zero => exact orderly_exhausted
  | succ n ih =>
    have rest (c : Cursor) : (do
        let params := params.push (← consume .identifier .expectParameterName)
        if ← eat .comma then parameters n params else return params.toList).Orderly c := by
      apply (orderly_consume _ _).bind
      intro t c
      apply (orderly_eat .comma).bind
      intro more c
      cases more with
      | true => exact ih _
      | false => exact orderly_pure _
    unfold parameters
    split
    · apply orderly_current_bind
      exact (orderly_report _ _).bind fun _ c => rest c
    · exact rest c

theorem orderly_blockLines {line : Parser Stmt} (each : ∀ c, line.Orderly c) (n : Nat)
    (done : Array Stmt) : (blockLines line n done).Orderly c := by
  induction n generalizing done c with
  | zero => exact orderly_exhausted
  | succ n ih =>
    unfold blockLines
    apply orderly_check_bind
    apply orderly_atEnd_bind
    split
    · exact (orderly_expect _ _).bind fun _ _ => orderly_pure _
    · apply (orderly_recover (each c)).bind
      intro recovered c
      cases recovered <;> exact ih _

theorem orderly_block {line : Parser Stmt} (each : ∀ c, line.Orderly c) (n : Nat) :
    (block line n).Orderly c :=
  orderly_blockLines each n _

section Parts

variable {expression : Parser Expr} {line statement : Parser Stmt}

/-- An expression that may be missing. -/
theorem orderly_optional_bind {next : Option Expr → Parser α} (part : ∀ c, expression.Orderly c)
    (missing : Bool) (later : ∀ e? c, (next e?).Orderly c) :
    (if missing then pure none >>= next else (some <$> expression) >>= next).Orderly c := by
  cases missing with
  | true => exact later none c
  | false => exact (part c).map.bind later

theorem orderly_varDeclaration (part : ∀ c, expression.Orderly c) :
    (varDeclaration expression).Orderly c := by
  apply (orderly_consume _ _).bind
  intro name c
  have rest (e? : Option Expr) (c : Cursor) : (do
      let _ ← expect .semicolon "after variable declaration."
      return Stmt.var name e?).Orderly c :=
    (orderly_expect _ _).bind fun _ _ => orderly_pure _
  apply (orderly_eat .equal).bind
  intro given c
  cases given with
  | true => exact (part c).map.bind rest
  | false => exact rest none c

theorem orderly_functionDeclaration (each : ∀ c, line.Orderly c) (n : Nat) :
    (functionDeclaration line n).Orderly c := by
  apply (orderly_consume _ _).bind
  intro name c
  apply (orderly_expect _ _).bind
  intro _ c
  have rest (params : List Token) (c : Cursor) : (do
      let _ ← expect .rightParen "after parameters."
      let _ ← expect .leftBrace "before function body."
      let body ← insideFunction (block line n)
      return FunctionDecl.mk name params body).Orderly c := by
    apply (orderly_expect _ _).bind
    intro _ c
    apply (orderly_expect _ _).bind
    intro _ c
    exact (orderly_insideFunction fun c => orderly_block each n).bind fun _ _ => orderly_pure _
  apply orderly_check_bind
  split
  · exact rest [] c
  · exact (orderly_parameters n _).bind rest

theorem orderly_listLiteral (part : ∀ c, expression.Orderly c) (n : Nat) :
    (listLiteral expression n).Orderly c := by
  apply (orderly_expect _ _).bind
  intro bracket c
  apply (orderly_itemsBefore _ part n).bind
  intro elements c
  exact (orderly_expect _ _).bind fun _ _ => orderly_pure _

theorem orderly_objectMembers (part : ∀ c, expression.Orderly c) (each : ∀ c, line.Orderly c)
    (n m : Nat) (members : Array Stmt) : (objectMembers expression line n m members).Orderly c := by
  induction m generalizing members c with
  | zero => exact orderly_exhausted
  | succ m ih =>
    unfold objectMembers
    apply orderly_check_bind
    apply orderly_atEnd_bind
    split
    · exact (orderly_expect _ _).bind fun _ _ => orderly_pure _
    · apply (orderly_eat .varWord).bind
      intro isVar c
      split
      · exact (orderly_varDeclaration part).bind fun _ _ => ih _
      · apply (orderly_eat .funWord).bind
        intro isFun c
        split
        · exact (orderly_functionDeclaration each n).bind fun _ _ => ih _
        · exact orderly_current_bind (orderly_refuse _)

theorem orderly_objectLiteral (part : ∀ c, expression.Orderly c) (each : ∀ c, line.Orderly c)
    (n : Nat) : (objectLiteral expression line n).Orderly c := by
  apply (orderly_expect _ _).bind
  intro brace c
  exact (orderly_objectMembers part each n n _).bind fun _ _ => orderly_pure _

theorem orderly_literal (value : Constant) : (literal value).Orderly c :=
  orderly_advance.bind fun _ _ => orderly_pure _

theorem orderly_primary (part : ∀ c, expression.Orderly c) (each : ∀ c, line.Orderly c) (n : Nat) :
    (primary expression line n).Orderly c := by
  apply orderly_current_bind
  split
  case h_1 | h_2 | h_3 => exact orderly_literal _
  case h_4 => split <;> exact orderly_literal _
  case h_5 =>
    split
    · exact orderly_literal _
    · exact orderly_refuse _
  case h_6 => exact orderly_advance.bind fun _ _ => orderly_pure _
  case h_7 =>
    apply orderly_advance.bind
    intro _ c
    apply (part c).bind
    intro inner c
    exact (orderly_expect _ _).bind fun _ _ => orderly_pure _
  case h_8 => exact orderly_listLiteral part n
  case h_9 => exact orderly_objectLiteral part each n
  case h_10 => exact orderly_refuse _

theorem orderly_suffixes (part : ∀ c, expression.Orderly c) (n m : Nat) (e : Expr) :
    (suffixes expression n m e).Orderly c := by
  induction m generalizing e c with
  | zero => exact orderly_exhausted
  | succ m ih =>
    apply (orderly_eat .leftParen).bind
    intro isCall c
    split
    · apply (orderly_itemsBefore _ part n).bind
      intro args c
      exact (orderly_expect _ _).bind fun _ _ => ih _
    · apply (orderly_eat? _).bind
      intro bracket? c
      cases bracket? with
      | some bracket =>
        apply (part c).bind
        intro position c
        exact (orderly_expect _ _).bind fun _ _ => ih _
      | none =>
        apply (orderly_eat? _).bind
        intro dot? c
        cases dot? with
        | some dot => exact (orderly_consume _ _).bind fun _ _ => ih _
        | none => exact orderly_pure _

theorem orderly_applications (operators : List Token.Kind) (part : ∀ c, expression.Orderly c)
    (n : Nat) (left : Expr) : (applications operators expression n left).Orderly c := by
  induction n generalizing left c with
  | zero => exact orderly_exhausted
  | succ n ih =>
    apply (orderly_eat? operators).bind
    intro op? c
    cases op? with
    | some op => exact (part c).bind fun _ _ => ih _
    | none => exact orderly_pure _

theorem orderly_applicationsUpTo {operand : Level → Parser Expr}
    (part : ∀ level c, (operand level).Orderly c) (n : Nat) (levels : List Level) (left : Expr) :
    (applicationsUpTo operand n levels left).Orderly c := by
  induction levels generalizing left c with
  | nil => exact orderly_pure _
  | cons level looser ih =>
    exact (orderly_applications level.operators (part level.next) n left).bind fun _ _ => ih _

theorem orderly_expressionStatement (part : ∀ c, expression.Orderly c) :
    (expressionStatement expression).Orderly c := by
  apply (part c).bind
  intro value c
  exact (orderly_expect _ _).bind fun _ _ => orderly_pure _

/-- A condition in parentheses after a keyword. -/
theorem orderly_condition_bind {next : Expr → Parser α} (part : ∀ c, expression.Orderly c)
    (opening closing : String) (later : ∀ e c, (next e).Orderly c) : (do
      let _ ← advance
      let _ ← expect .leftParen opening
      let condition ← expression
      let _ ← expect .rightParen closing
      next condition).Orderly c := by
  apply orderly_advance.bind
  intro _ c
  apply (orderly_expect _ _).bind
  intro _ c
  apply (part c).bind
  intro condition c
  exact (orderly_expect _ _).bind fun _ _ => later condition _

theorem orderly_branch (part : ∀ c, expression.Orderly c) (inner : ∀ c, statement.Orderly c) :
    (branch expression statement).Orderly c := by
  apply orderly_condition_bind part
  intro condition c
  apply (inner c).bind
  intro thenBranch c
  apply (orderly_eat .elseWord).bind
  intro given c
  cases given with
  | true => exact (inner c).bind fun _ _ => orderly_pure _
  | false => exact orderly_pure _

theorem orderly_whileLoop (part : ∀ c, expression.Orderly c) (inner : ∀ c, statement.Orderly c) :
    (whileLoop expression statement).Orderly c := by
  apply orderly_condition_bind part
  intro condition c
  exact (inner c).bind fun _ _ => orderly_pure _

theorem orderly_loopInitializer (part : ∀ c, expression.Orderly c) :
    (loopInitializer expression).Orderly c := by
  apply (orderly_eat .semicolon).bind
  intro missing c
  cases missing with
  | true => exact orderly_pure _
  | false =>
    apply (orderly_eat .varWord).bind
    intro isVar c
    cases isVar with
    | true => exact (orderly_varDeclaration part).map
    | false => exact (orderly_expressionStatement part).map

theorem orderly_forLoop (part : ∀ c, expression.Orderly c) (inner : ∀ c, statement.Orderly c) :
    (forLoop expression statement).Orderly c := by
  apply orderly_advance.bind
  intro keyword c
  apply (orderly_expect _ _).bind
  intro _ c
  apply (orderly_loopInitializer part).bind
  intro initializer c
  apply orderly_check_bind
  apply orderly_optional_bind part
  intro condition c
  apply (orderly_expect _ _).bind
  intro _ c
  apply orderly_check_bind
  apply orderly_optional_bind part
  intro increment c
  apply (orderly_expect _ _).bind
  intro _ c
  exact (inner c).bind fun _ _ => orderly_pure _

theorem orderly_returnStatement (part : ∀ c, expression.Orderly c) :
    (returnStatement expression).Orderly c := by
  apply orderly_advance.bind
  intro keyword c
  have rest (c : Cursor) : (do
      let value ← if ← check .semicolon then pure none else some <$> expression
      let _ ← expect .semicolon "after return value."
      return Stmt.returns keyword value).Orderly c := by
    apply orderly_check_bind
    apply orderly_optional_bind part
    intro value c
    exact (orderly_expect _ _).bind fun _ _ => orderly_pure _
  apply orderly_get_bind
  split
  · exact (orderly_report _ _).bind fun _ c => rest c
  · exact rest c

end Parts

/-- The parsers of expressions, lines and statements are orderly. -/
structure OrderlyAt (n : Nat) : Prop where
  expression : ∀ level c, (expression n level).Orderly c
  line : ∀ c, (line n).Orderly c
  statement : ∀ c, (statement n).Orderly c

theorem orderly_assignmentLevel (h : OrderlyAt n) : (expression (n + 1) .assignment).Orderly c := by
  apply (h.expression .or c).bind
  intro target c
  apply (orderly_eat? _).bind
  intro op? c
  cases op? with
  | none => exact orderly_pure _
  | some op =>
    apply (h.expression .assignment c).bind
    intro value c
    split
    · exact orderly_pure _
    · exact (orderly_report _ _).bind fun _ _ => orderly_pure _

theorem orderly_expression_succ (h : OrderlyAt n) (level : Level) :
    (expression (n + 1) level).Orderly c := by
  have operators (levels : List Level) :
      (do applicationsUpTo (expression n) n levels (← expression n .unary)).Orderly c :=
    (h.expression .unary c).bind fun _ _ => orderly_applicationsUpTo h.expression n levels _
  cases level with
  | lowest | assignment => exact orderly_assignmentLevel h
  | unary =>
    apply (orderly_eat? _).bind
    intro op? c
    cases op? with
    | some op => exact (h.expression .unary c).bind fun _ _ => orderly_pure _
    | none => exact h.expression .call c
  | call =>
    apply (orderly_primary (h.expression .lowest) h.line n).bind
    intro first c
    exact orderly_suffixes (h.expression .lowest) n n first
  | or | and | equality | comparison | sum | product => exact operators _

theorem orderly_line_succ (h : OrderlyAt n) : (line (n + 1)).Orderly c := by
  apply (orderly_eat .varWord).bind
  intro isVar c
  cases isVar with
  | true => exact orderly_varDeclaration (h.expression .lowest)
  | false =>
    apply (orderly_eat .funWord).bind
    intro isFun c
    cases isFun with
    | true => exact (orderly_functionDeclaration h.line n).bind fun _ _ => orderly_pure _
    | false => exact h.statement c

theorem orderly_statement_succ (h : OrderlyAt n) : (statement (n + 1)).Orderly c := by
  apply orderly_current_bind
  split
  case h_1 =>
    apply orderly_advance.bind
    intro _ c
    exact (orderly_block h.line n).bind fun _ _ => orderly_pure _
  case h_2 => exact orderly_branch (h.expression .lowest) h.statement
  case h_3 => exact orderly_whileLoop (h.expression .lowest) h.statement
  case h_4 => exact orderly_forLoop (h.expression .lowest) h.statement
  case h_5 => exact orderly_returnStatement (h.expression .lowest)
  case h_6 => exact orderly_expressionStatement (h.expression .lowest)

theorem orderlyAt (n : Nat) : OrderlyAt n := by
  induction n with
  | zero =>
    exact ⟨fun _ _ => orderly_exhausted, fun _ => orderly_exhausted, fun _ => orderly_exhausted⟩
  | succ n ih =>
    exact ⟨fun level _ => orderly_expression_succ ih level, fun _ => orderly_line_succ ih,
      fun _ => orderly_statement_succ ih⟩

/-- A line that fails stands at the token it refuses, as deep in functions as where it began. -/
theorem refused_in_view {n : Nat} {c c' : Cursor} {e : Error}
    (failed : line n c = .error (.refused e) c') :
    c'.functionDepth = c.functionDepth ∧ e.token = c'.current := by
  have ended := (orderlyAt n).line c
  unfold Orderly at ended
  rw [failed] at ended
  exact ended

end SoftScript.Parse
