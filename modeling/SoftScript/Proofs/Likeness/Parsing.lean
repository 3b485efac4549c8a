import SoftScript.Proofs.Grammar.Reads
import SoftScript.Proofs.Likeness.State

/-! Parsers on streams of tokens that read the same. White space, comments and invalid runs stand
between the tokens that parsers look at, and lines and places are carried along but never looked
at. So two parsers that go the same way on such streams end alike, unless one of them is given too
little depth. How much the tokens have in common besides what they say does not matter: the trees
that are built have as much in common. -/
namespace SoftScript

/-- Tokens that differ in where they stand only. -/
structure Token.SameText (t t' : Token) : Prop where
  kind : t.kind = t'.kind
  lexeme : t.lexeme = t'.lexeme
  literal : t.literal = t'.literal

theorem Token.SameText.refl (t : Token) : t.SameText t := ⟨rfl, rfl, rfl⟩

/-- Trees that differ in the places of their tokens only. -/
def Likeness.layout : Likeness := ⟨Token.SameText, True, False, False⟩

theorem Likeness.layout_reflexive : Likeness.layout.Reflexive := ⟨Token.SameText.refl, trivial⟩

/-- How the tokens of two streams correspond. Tokens that do say the same, and tokens made up in
their places correspond as well. -/
structure Token.Correspondence where
  pairs : Token → Token → Prop
  refl : ∀ t, pairs t t
  sameText : ∀ {t t'}, pairs t t' → t.SameText t'
  synthetic : ∀ {t t'} kind, pairs t t' → pairs (.synthetic kind t) (.synthetic kind t')
  ended : ∀ {t t'}, pairs t t' → pairs (.eof t.line t.span.stop) (.eof t'.line t'.span.stop)

namespace Token.Correspondence

/-- Tokens correspond to those with the same text, wherever they stand. -/
def inText : Correspondence where
  pairs := SameText
  refl := SameText.refl
  sameText := id
  synthetic _ _ := ⟨rfl, rfl, rfl⟩
  ended _ := ⟨rfl, rfl, rfl⟩

/-- Every token corresponds to itself. -/
def inFull : Correspondence where
  pairs := Eq
  refl _ := rfl
  sameText := by rintro t _ rfl; exact .refl t
  synthetic := by rintro t _ kind rfl; rfl
  ended := by rintro t _ rfl; rfl

variable (R : Correspondence)

/-- Trees that differ as corresponding tokens do. -/
def likeness : Likeness := ⟨R.pairs, True, False, False⟩

theorem name (pair : R.pairs t t') : R.likeness.name t t' := ⟨pair, (R.sameText pair).lexeme⟩

theorem operator (pair : R.pairs t t') : R.likeness.operator known t t' :=
  ⟨pair, (R.sameText pair).kind, .inr (R.sameText pair).lexeme⟩

end Token.Correspondence

open Likeness

namespace Parse

/-- The same error, at tokens that differ in where they stand only. -/
structure Error.Alike (e e' : Error) : Prop where
  cause : e.cause = e'.cause
  token : e.token.SameText e'.token

/-- The same error, at tokens that correspond. -/
structure Error.Paired (R : Token.Correspondence) (e e' : Error) : Prop where
  cause : e.cause = e'.cause
  token : R.pairs e.token e'.token

/-- Cursors with the same to read. What they are past may differ in comments, and in the last token
as long as there is another one to pass. -/
structure Cursor.Alike (R : Token.Correspondence) (c c' : Cursor) : Prop where
  current : R.pairs c.current c'.current
  previous : c.atEnd = false ∨ R.pairs c.previous c'.previous
  rest : List.Forall₂ R.pairs (Token.significant c.rest) (Token.significant c'.rest)
  errors : List.Forall₂ (Error.Paired R) c.errors.toList c'.errors.toList
  functionDepth : c.functionDepth = c'.functionDepth

/-- What `pull` finds is the first significant token, and it leaves the others. -/
theorem significant_pull (tokens : List Token) (comments : Array Span) :
    Token.significant tokens =
      (pull tokens comments).1.toList ++ Token.significant (pull tokens comments).2.1 := by
  fun_induction pull tokens comments with
  | case1 => rfl
  | case2 t rest comments comment ih =>
    rw [← ih]
    simp [Token.significant, comment, Token.Kind.isTrivia]
  | case3 t rest comments _ trivia ih =>
    rw [← ih]
    simp [Token.significant, trivia]
  | case4 t rest comments _ significant => simp [Token.significant, significant]

theorem rest_of_pull_none (tokens : List Token) (comments : Array Span)
    (none : (pull tokens comments).1 = none) : (pull tokens comments).2.1 = [] := by
  fun_induction pull tokens comments with
  | case1 => rfl
  | case2 t rest comments comment ih => exact ih none
  | case3 t rest comments _ trivia ih => exact ih none
  | case4 => contradiction

namespace Cursor.Alike

variable {R : Token.Correspondence} {c c' : Cursor}

theorem kind (h : c.Alike R c') : c.current.kind = c'.current.kind := (R.sameText h.current).kind

theorem atEnd (h : c.Alike R c') : c.atEnd = c'.atEnd := by
  rw [Cursor.atEnd, Cursor.atEnd, h.kind]

theorem check (h : c.Alike R c') (kind : Token.Kind) : c.check kind = c'.check kind := by
  rw [Cursor.check, Cursor.check, h.atEnd, h.kind]

theorem fetch_pairs (current : R.pairs c.current c'.current)
    (rest : List.Forall₂ R.pairs (Token.significant c.rest) (Token.significant c'.rest)) :
    R.pairs c.fetch.current c'.fetch.current ∧
      List.Forall₂ R.pairs (Token.significant c.fetch.rest) (Token.significant c'.fetch.rest) := by
  rw [significant_pull c.rest c.comments, significant_pull c'.rest c'.comments] at rest
  have ended := rest_of_pull_none c.rest c.comments
  have ended' := rest_of_pull_none c'.rest c'.comments
  rcases found : pull c.rest c.comments with ⟨o, left, comments⟩
  rcases found' : pull c'.rest c'.comments with ⟨o', left', comments'⟩
  simp only [found, found'] at rest ended ended'
  rw [Cursor.fetch, Cursor.fetch, found, found']
  cases o with
  | none =>
    cases o' with
    | none => exact ⟨R.ended current, rest⟩
    | some t' => simp [ended, Token.significant] at rest
  | some t =>
    cases o' with
    | none => simp [ended', Token.significant] at rest
    | some t' =>
      cases rest with
      | cons first later => exact ⟨first, later⟩

/-- The tokens in view after the current one is passed. -/
theorem advance_pairs (h : c.Alike R c') : R.pairs c.advance.previous c'.advance.previous ∧
    R.pairs c.advance.current c'.advance.current ∧
    List.Forall₂ R.pairs (Token.significant c.advance.rest)
      (Token.significant c'.advance.rest) := by
  rw [Cursor.advance, Cursor.advance, ← h.atEnd]
  cases ended : c.atEnd with
  | true => exact ⟨h.previous.resolve_left (by simp [ended]), h.current, h.rest⟩
  | false => exact ⟨h.current, fetch_pairs h.current h.rest⟩

theorem advance (h : c.Alike R c') : c.advance.Alike R c'.advance where
  current := h.advance_pairs.2.1
  previous := .inr h.advance_pairs.1
  rest := h.advance_pairs.2.2
  errors := by simpa using h.errors
  functionDepth := by simpa using h.functionDepth

theorem report {e e' : Error} (h : c.Alike R c') (error : e.Paired R e') :
    (c.report e.cause e.token).Alike R (c'.report e'.cause e'.token) where
  current := h.current
  previous := h.previous
  rest := h.rest
  errors := by
    simp only [Cursor.report, Array.toList_push]
    exact List.rel_append h.errors (.cons error .nil)
  functionDepth := h.functionDepth

/-- Settling looks at the token passed last, so here it matters. -/
theorem settle (h : c.Alike R c') (passed : R.pairs c.previous c'.previous) :
    c.settle.Alike R c'.settle := by
  have previous := (R.sameText passed).kind
  fun_induction Cursor.settle c generalizing c' with
  | case1 c ended =>
    rw [h.atEnd] at ended
    rw [Cursor.settle, dif_pos ended]
    exact h
  | case2 c unended settled =>
    rw [h.atEnd] at unended
    rw [previous, h.kind] at settled
    rw [Cursor.settle, dif_neg unended, if_pos settled]
    exact h
  | case3 c unended unsettled ih =>
    rw [h.atEnd] at unended
    rw [previous, h.kind] at unsettled
    have moved : c'.settle = c'.advance.settle := by
      conv_lhs => rw [Cursor.settle, dif_neg unended, if_neg unsettled]
    have passed := h.advance_pairs.1
    rw [moved]
    exact ih h.advance passed (R.sameText passed).kind

theorem synchronize (h : c.Alike R c') : c.synchronize.Alike R c'.synchronize :=
  h.advance.settle h.advance_pairs.1

theorem enterFunction (h : c.Alike R c') : c.enterFunction.Alike R c'.enterFunction :=
  { h with functionDepth := congrArg (· + 1) h.functionDepth }

theorem leaveFunction (h : c.Alike R c') : c.leaveFunction.Alike R c'.leaveFunction :=
  { h with functionDepth := congrArg (· - 1) h.functionDepth }

end Cursor.Alike

theorem Cursor.alike_ofTokens {R : Token.Correspondence} {tokens tokens' : List Token}
    (same : List.Forall₂ R.pairs (Token.significant tokens) (Token.significant tokens')) :
    (ofTokens tokens).Alike R (ofTokens tokens') where
  current := (Alike.fetch_pairs (R.refl (.eof 1 0)) same).1
  previous := .inr (R.refl _)
  rest := (Alike.fetch_pairs (R.refl (.eof 1 0)) same).2
  errors := .nil
  functionDepth := rfl

/-- Both results are alike, or at least one of them is none. -/
inductive Met (R : Token.Correspondence) (V : α → α' → Prop) :
    EStateM.Result Stop Cursor α → EStateM.Result Stop Cursor α' → Prop
  | ok {c c' : Cursor} : V a a' → c.Alike R c' → Met R V (.ok a c) (.ok a' c')
  | refused {c c' : Cursor} : e.Paired R e' → c.Alike R c' →
    Met R V (.error (.refused e) c) (.error (.refused e') c')
  | left {c : Cursor} : Met R V (.error .exhausted c) r
  | right {c : Cursor} : Met R V r (.error .exhausted c)

namespace Parser

variable {R : Token.Correspondence} {α α' β β' : Type} {V : α → α' → Prop} {W : β → β' → Prop}
  {p : Parser α} {p' : Parser α'} {c c' : Cursor}

/-- From cursors that are alike, two parsers end alike if both end. -/
def Agree (R : Token.Correspondence) (V : α → α' → Prop) (p : Parser α) (p' : Parser α') : Prop :=
  ∀ c c', c.Alike R c' → Met R V (p c) (p' c')

theorem agree_pure (result : V a a') : Agree R V (pure a) (pure a') :=
  fun _ _ alike => .ok result alike

theorem agree_refuse (cause : Cause) (token : R.pairs t t') :
    Agree R V (refuse cause t) (refuse cause t') :=
  fun _ _ alike => .refused ⟨rfl, token⟩ alike

theorem agree_exhausted_left : Agree R V exhausted p' := fun _ _ _ => .left

theorem agree_exhausted_right : Agree R V p exhausted := fun _ _ _ => .right

theorem agree_bind {next : α → Parser β} {next' : α' → Parser β'} (first : Agree R V p p')
    (second : ∀ a a', V a a' → Agree R W (next a) (next' a')) :
    Agree R W (p >>= next) (p' >>= next') := by
  intro c c' alike
  have met := first c c' alike
  rw [bind_apply, bind_apply]
  generalize p c = r at met
  generalize p' c' = r' at met
  cases met with
  | ok result alike => exact second _ _ result _ _ alike
  | refused error alike => exact .refused error alike
  | left => exact .left
  | right => exact .right

theorem agree_map {f : α → β} {g : α' → β'} (first : Agree R V p p')
    (image : ∀ a a', V a a' → W (f a) (g a')) : Agree R W (f <$> p) (g <$> p') := by
  rw [map_eq_pure_bind, map_eq_pure_bind]
  exact agree_bind first fun a a' related => agree_pure (image a a' related)

theorem Agree.mono {U : α → α' → Prop} (h : Agree R U p p') (image : ∀ a a', U a a' → V a a') :
    Agree R V p p' := by
  intro c c' alike
  have met := h c c' alike
  generalize p c = r at met ⊢
  generalize p' c' = r' at met ⊢
  cases met with
  | ok result alike => exact .ok (image _ _ result) alike
  | refused error alike => exact .refused error alike
  | left => exact .left
  | right => exact .right

theorem agree_get {next : Cursor → Parser α} {next' : Cursor → Parser α'}
    (later : ∀ c c', c.Alike R c' → Agree R V (next c) (next' c')) :
    Agree R V (get >>= next) (get >>= next') :=
  fun c c' alike => later c c' alike c c' alike

theorem agree_current : Agree R R.pairs current current :=
  fun _ _ alike => .ok alike.current alike

theorem agree_atEnd : Agree R Eq atEnd atEnd :=
  fun _ _ alike => .ok alike.atEnd alike

theorem agree_check (kind : Token.Kind) : Agree R Eq (check kind) (check kind) :=
  fun _ _ alike => .ok (alike.check kind) alike

theorem agree_advance : Agree R R.pairs advance advance :=
  fun _ _ alike => .ok alike.advance_pairs.1 alike.advance

theorem agree_eat? (kinds : List Token.Kind) :
    Agree R (Option.Rel R.pairs) (eat? kinds) (eat? kinds) := by
  intro c c' alike
  have same : kinds.any c.check = kinds.any c'.check := by
    congr 1
    funext kind
    exact alike.check kind
  rw [eat?_apply, eat?_apply, same]
  split
  · exact .ok (.some alike.advance_pairs.1) alike.advance
  · exact .ok .none alike

theorem agree_eat (kind : Token.Kind) : Agree R Eq (eat kind) (eat kind) := by
  apply agree_bind (agree_eat? [kind])
  intro found found' related
  cases related with
  | none => exact agree_pure rfl
  | some => exact agree_pure rfl

theorem agree_consume (kind : Token.Kind) (cause : Cause) :
    Agree R R.pairs (consume kind cause) (consume kind cause) := by
  apply agree_bind (agree_check kind)
  rintro found _ rfl
  cases found with
  | true => exact agree_advance
  | false => exact agree_bind agree_current fun _ _ token => agree_refuse cause token

theorem agree_expect (kind : Token.Kind) (context : String) :
    Agree R R.pairs (expect kind context) (expect kind context) :=
  agree_consume kind _

theorem agree_report (cause : Cause) (token : R.pairs t t') :
    Agree R Eq (report cause t) (report cause t') := by
  intro c c' alike
  have error : Error.Paired R ⟨cause, t⟩ ⟨cause, t'⟩ := ⟨rfl, token⟩
  exact .ok rfl (alike.report error)

theorem agree_insideFunction (inner : Agree R V p p') :
    Agree R V (insideFunction p) (insideFunction p') := by
  intro c c' alike
  have met := inner _ _ alike.enterFunction
  unfold insideFunction
  generalize p c.enterFunction = r at met
  generalize p' c'.enterFunction = r' at met
  cases met with
  | ok result alike => exact .ok result alike.leaveFunction
  | refused error alike => exact .refused error alike.leaveFunction
  | left => exact .left
  | right => exact .right

theorem agree_recover (inner : Agree R V p p') :
    Agree R (Option.Rel V) (recover p) (recover p') := by
  intro c c' alike
  have met := inner _ _ alike
  unfold recover
  generalize p c = r at met
  generalize p' c' = r' at met
  cases met with
  | ok result alike => exact .ok (.some result) alike
  | refused error alike => exact .ok .none (alike.report error).synchronize
  | left => exact .left
  | right => exact .right

theorem agree_bounded {p : Nat → Parser α} {p' : Nat → Parser α'}
    (each : ∀ n n', Agree R V (p n) (p' n')) : Agree R V (bounded p) (bounded p') :=
  fun c c' alike => each _ _ c c' alike

end Parser

/-! The productions of the grammar. -/

open SoftScript.Parse.Parser

variable {R : Token.Correspondence} {α α' : Type} {V : α → α' → Prop}

theorem related_push {items : Array α} {items' : Array α'}
    (related : List.Forall₂ V items.toList items'.toList) (new : V a a') :
    List.Forall₂ V (items.push a).toList (items'.push a').toList := by
  rw [Array.toList_push, Array.toList_push]
  exact List.rel_append related (.cons new .nil)

theorem agree_commaItems {item : Parser α} {item' : Parser α'} (each : Agree R V item item')
    (n n' : Nat) {items : Array α} {items' : Array α'}
    (before : List.Forall₂ V items.toList items'.toList) :
    Agree R (List.Forall₂ V) (commaItems item n items) (commaItems item' n' items') := by
  induction n generalizing n' items items' with
  | zero => exact agree_exhausted_left
  | succ n ih =>
    cases n' with
    | zero => exact agree_exhausted_right
    | succ n' =>
      apply agree_bind each
      intro a a' new
      apply agree_bind (agree_eat .comma)
      rintro more _ rfl
      cases more with
      | true => exact ih n' (related_push before new)
      | false => exact agree_pure (related_push before new)

theorem agree_itemsBefore {item : Parser α} {item' : Parser α'} (close : Token.Kind)
    (each : Agree R V item item') (n n' : Nat) :
    Agree R (List.Forall₂ V) (itemsBefore close item n) (itemsBefore close item' n') := by
  apply agree_bind (agree_check close)
  rintro closed _ rfl
  cases closed with
  | true => exact agree_pure .nil
  | false => exact agree_commaItems each n n' .nil

theorem agree_parameters (n n' : Nat) {params params' : Array Token}
    (before : List.Forall₂ R.pairs params.toList params'.toList) :
    Agree R (List.Forall₂ R.pairs) (parameters n params) (parameters n' params') := by
  induction n generalizing n' params params' with
  | zero => exact agree_exhausted_left
  | succ n ih =>
    cases n' with
    | zero => exact agree_exhausted_right
    | succ n' =>
      have rest : Agree R (List.Forall₂ R.pairs) (do
          let params := params.push (← consume .identifier .expectParameterName)
          if ← eat .comma then parameters n params else return params.toList) (do
          let params := params'.push (← consume .identifier .expectParameterName)
          if ← eat .comma then parameters n' params else return params.toList) := by
        apply agree_bind (agree_consume _ _)
        intro t t' new
        apply agree_bind (agree_eat .comma)
        rintro more _ rfl
        cases more with
        | true => exact ih n' (related_push before new)
        | false => exact agree_pure (related_push before new)
      have size : params.size = params'.size := by simpa using before.length_eq
      unfold parameters
      rw [size]
      split
      · apply agree_bind agree_current
        intro t t' token
        exact agree_bind (agree_report _ token) fun _ _ _ => rest
      · exact rest

theorem agree_blockLines {line line' : Parser Stmt}
    (each : Agree R (Stmt.Alike R.likeness) line line')
    (n n' : Nat) {done done' : Array Stmt}
    (before : List.Forall₂ (Stmt.Alike R.likeness) done.toList done'.toList) :
    Agree R (List.Forall₂ (Stmt.Alike R.likeness)) (blockLines line n done)
      (blockLines line' n' done') := by
  induction n generalizing n' done done' with
  | zero => exact agree_exhausted_left
  | succ n ih =>
    cases n' with
    | zero => exact agree_exhausted_right
    | succ n' =>
      unfold blockLines
      apply agree_bind (agree_check .rightBrace)
      rintro closed _ rfl
      apply agree_bind agree_atEnd
      rintro ended _ rfl
      split
      · exact agree_bind (agree_expect _ _) fun _ _ _ => agree_pure before
      · apply agree_bind (agree_recover each)
        intro recovered recovered' related
        cases related with
        | none => exact ih n' before
        | some stmt => exact ih n' (related_push before stmt)

theorem agree_block {line line' : Parser Stmt} (each : Agree R (Stmt.Alike R.likeness) line line')
    (n n' : Nat) : Agree R (Stmt.AllAlike R.likeness) (block line n) (block line' n') := by
  exact (agree_blockLines each n n' .nil).mono fun _ _ => Stmt.AllAlike.of_related

theorem agree_varDeclaration {expression expression' : Parser Expr}
    (part : Agree R (Expr.Alike R.likeness) expression expression') :
    Agree R (Stmt.Alike R.likeness) (varDeclaration expression) (varDeclaration expression') := by
  apply agree_bind (agree_consume _ _)
  intro name name' same
  have rest {e? e?' : Option Expr} (initializer : Option.Rel (Expr.Alike R.likeness) e? e?') :
      Agree R (Stmt.Alike R.likeness) (do
        let _ ← expect .semicolon "after variable declaration."
        return .var name e?) (do
        let _ ← expect .semicolon "after variable declaration."
        return .var name' e?') :=
    agree_bind (agree_expect _ _) fun _ _ _ => agree_pure (.varOption (R.name same) initializer)
  apply agree_bind (agree_eat .equal)
  rintro given _ rfl
  cases given with
  | true =>
    exact agree_bind (agree_map part fun _ _ value => .some value) fun _ _ initializer =>
      rest initializer
  | false => exact rest .none

theorem agree_functionDeclaration {line line' : Parser Stmt}
    (each : Agree R (Stmt.Alike R.likeness) line line') (n n' : Nat) :
    Agree R (FunctionDecl.Alike R.likeness) (functionDeclaration line n)
      (functionDeclaration line' n') := by
  apply agree_bind (agree_consume _ _)
  intro name name' same
  apply agree_bind (agree_expect _ _)
  intro _ _ _
  have rest {params params' : List Token} (names : List.Forall₂ R.pairs params params') :
      Agree R (FunctionDecl.Alike R.likeness) (do
        let _ ← expect .rightParen "after parameters."
        let _ ← expect .leftBrace "before function body."
        let body ← insideFunction (block line n)
        return ⟨name, params, body⟩) (do
        let _ ← expect .rightParen "after parameters."
        let _ ← expect .leftBrace "before function body."
        let body ← insideFunction (block line' n')
        return ⟨name', params', body⟩) := by
    apply agree_bind (agree_expect _ _)
    intro _ _ _
    apply agree_bind (agree_expect _ _)
    intro _ _ _
    apply agree_bind (agree_insideFunction (agree_block each n n'))
    intro body body' alike
    exact agree_pure ⟨R.name same, names.imp fun _ _ => R.name, alike⟩
  apply agree_bind (agree_check .rightParen)
  rintro closed _ rfl
  cases closed with
  | true => exact rest .nil
  | false => exact agree_bind (agree_parameters n n' .nil) fun _ _ names => rest names

section Parts

variable {expression expression' : Parser Expr} {line line' statement statement' : Parser Stmt}

theorem agree_listLiteral (part : Agree R (Expr.Alike R.likeness) expression expression')
    (n n' : Nat) :
    Agree R (Expr.Alike R.likeness) (listLiteral expression n) (listLiteral expression' n') := by
  apply agree_bind (agree_expect _ _)
  intro bracket bracket' same
  apply agree_bind (agree_itemsBefore _ part n n')
  intro elements elements' alike
  exact agree_bind (agree_expect _ _) fun _ _ _ => agree_pure (.list same (.of_related alike))

theorem agree_objectMembers (part : Agree R (Expr.Alike R.likeness) expression expression')
    (each : Agree R (Stmt.Alike R.likeness) line line') (n n' m m' : Nat)
    {members members' : Array Stmt}
    (before : List.Forall₂ (Stmt.Alike R.likeness) members.toList members'.toList) :
    Agree R (List.Forall₂ (Stmt.Alike R.likeness)) (objectMembers expression line n m members)
      (objectMembers expression' line' n' m' members') := by
  induction m generalizing m' members members' with
  | zero => exact agree_exhausted_left
  | succ m ih =>
    cases m' with
    | zero => exact agree_exhausted_right
    | succ m' =>
      unfold objectMembers
      apply agree_bind (agree_check .rightBrace)
      rintro closed _ rfl
      apply agree_bind agree_atEnd
      rintro ended _ rfl
      split
      · exact agree_bind (agree_expect _ _) fun _ _ _ => agree_pure before
      · apply agree_bind (agree_eat .varWord)
        rintro isVar _ rfl
        split
        · apply agree_bind (agree_varDeclaration part)
          intro member member' alike
          exact ih m' (related_push before alike)
        · apply agree_bind (agree_eat .funWord)
          rintro isFun _ rfl
          split
          · apply agree_bind (agree_functionDeclaration each n n')
            intro member member' alike
            exact ih m' (related_push before (.function alike.name alike.params alike.body))
          · exact agree_bind agree_current fun _ _ token => agree_refuse _ token

theorem agree_objectLiteral (part : Agree R (Expr.Alike R.likeness) expression expression')
    (each : Agree R (Stmt.Alike R.likeness) line line') (n n' : Nat) :
    Agree R (Expr.Alike R.likeness) (objectLiteral expression line n)
      (objectLiteral expression' line' n') := by
  apply agree_bind (agree_expect _ _)
  intro brace brace' same
  apply agree_bind (agree_objectMembers part each n n' n n' .nil)
  intro members members' alike
  exact agree_pure (.object same (.of_related alike))

theorem agree_literal (value : Constant) :
    Agree R (Expr.Alike R.likeness) (literal value) (literal value) :=
  agree_bind agree_advance fun _ _ token => agree_pure (.literal token)

theorem agree_primary (part : Agree R (Expr.Alike R.likeness) expression expression')
    (each : Agree R (Stmt.Alike R.likeness) line line') (n n' : Nat) :
    Agree R (Expr.Alike R.likeness) (primary expression line n) (primary expression' line' n') := by
  apply agree_bind agree_current
  intro token token' same
  rw [← (R.sameText same).kind]
  split
  · exact agree_literal _
  · exact agree_literal _
  · exact agree_literal _
  · rw [← (R.sameText same).literal, ← (R.sameText same).lexeme]
    split
    · exact agree_literal _
    · exact agree_literal _
  · rw [← (R.sameText same).literal]
    split
    · exact agree_literal _
    · exact agree_refuse _ same
  · exact agree_bind agree_advance fun _ _ name => agree_pure (.variable (R.name name))
  · apply agree_bind agree_advance
    intro _ _ _
    apply agree_bind part
    intro inner inner' alike
    exact agree_bind (agree_expect _ _) fun _ _ _ => agree_pure (.keeps trivial alike)
  · exact agree_listLiteral part n n'
  · exact agree_objectLiteral part each n n'
  · exact agree_refuse _ same

theorem agree_suffixes (part : Agree R (Expr.Alike R.likeness) expression expression')
    (n n' m m' : Nat) {e e' : Expr} (alike : Expr.Alike R.likeness e e') :
    Agree R (Expr.Alike R.likeness) (suffixes expression n m e)
      (suffixes expression' n' m' e') := by
  induction m generalizing m' e e' with
  | zero => exact agree_exhausted_left
  | succ m ih =>
    cases m' with
    | zero => exact agree_exhausted_right
    | succ m' =>
      unfold suffixes
      apply agree_bind (agree_eat .leftParen)
      rintro isCall _ rfl
      split
      · apply agree_bind (agree_itemsBefore _ part n n')
        intro args args' items
        apply agree_bind (agree_expect _ _)
        intro paren paren' same
        exact ih m' (.call alike same (.of_related items))
      · apply agree_bind (agree_eat? [.leftSquare])
        intro bracket? bracket?' found
        cases found with
        | some same =>
          apply agree_bind part
          intro position position' index
          apply agree_bind (agree_expect _ _)
          intro _ _ _
          exact ih m' (.index alike same index)
        | none =>
          apply agree_bind (agree_eat? [.dot])
          intro dot? dot?' found
          cases found with
          | some same =>
            apply agree_bind (agree_consume _ _)
            intro member member' name
            exact ih m' (.access alike same (R.name name))
          | none => exact agree_pure alike

theorem agree_applications (operators : List Token.Kind) {operand operand' : Parser Expr}
    (part : Agree R (Expr.Alike R.likeness) operand operand') (n n' : Nat) {left left' : Expr}
    (alike : Expr.Alike R.likeness left left') :
    Agree R (Expr.Alike R.likeness) (applications operators operand n left)
      (applications operators operand' n' left') := by
  induction n generalizing n' left left' with
  | zero => exact agree_exhausted_left
  | succ n ih =>
    cases n' with
    | zero => exact agree_exhausted_right
    | succ n' =>
      apply agree_bind (agree_eat? operators)
      intro op? op?' found
      cases found with
      | some op =>
        apply agree_bind part
        intro right right' related
        exact ih n' (.binary alike (R.operator op) related)
      | none => exact agree_pure alike

theorem agree_applicationsUpTo {operand operand' : Level → Parser Expr}
    (part : ∀ level, Agree R (Expr.Alike R.likeness) (operand level) (operand' level)) (n n' : Nat)
    (levels : List Level) {left left' : Expr} (alike : Expr.Alike R.likeness left left') :
    Agree R (Expr.Alike R.likeness) (applicationsUpTo operand n levels left)
      (applicationsUpTo operand' n' levels left') := by
  induction levels generalizing left left' with
  | nil => exact agree_pure alike
  | cons level looser ih =>
    apply agree_bind (agree_applications level.operators (part level.next) n n' alike)
    intro left left' alike
    exact ih alike

theorem alike_assignment {target target' value value' : Expr} {op op' : Token}
    (onTarget : Expr.Alike R.likeness target target') (onOperator : R.pairs op op')
    (onValue : Expr.Alike R.likeness value value')
    (same : target.isGrouping = target'.isGrouping) :
    Expr.Alike R.likeness (assignment target op value) (assignment target' op' value') := by
  have sum (kind : Token.Kind) : R.likeness.operator Token.binaryOperators (.synthetic kind op)
      (.synthetic kind op') :=
    R.operator (R.synthetic kind onOperator)
  unfold assignment
  rw [← (R.sameText onOperator).kind]
  split
  · exact .assign onTarget same (.binary onTarget (sum _) onValue)
  · exact .assign onTarget same (.binary onTarget (sum _) onValue)
  · exact .assign onTarget same onValue

theorem agree_expressionStatement (part : Agree R (Expr.Alike R.likeness) expression expression') :
    Agree R (Stmt.Alike R.likeness) (expressionStatement expression)
      (expressionStatement expression') := by
  apply agree_bind part
  intro value value' alike
  exact agree_bind (agree_expect _ _) fun _ _ _ => agree_pure (.expression alike)

theorem agree_branch (part : Agree R (Expr.Alike R.likeness) expression expression')
    (inner : Agree R (Stmt.Alike R.likeness) statement statement') :
    Agree R (Stmt.Alike R.likeness) (branch expression statement)
      (branch expression' statement') := by
  apply agree_bind agree_advance
  intro _ _ _
  apply agree_bind (agree_expect _ _)
  intro _ _ _
  apply agree_bind part
  intro condition condition' onCondition
  apply agree_bind (agree_expect _ _)
  intro _ _ _
  apply agree_bind inner
  intro thenBranch thenBranch' onThen
  apply agree_bind (agree_eat .elseWord)
  rintro given _ rfl
  cases given with
  | true =>
    exact agree_bind inner fun _ _ onElse => agree_pure (.branches onCondition onThen onElse)
  | false => exact agree_pure (.branch onCondition onThen)

theorem agree_whileLoop (part : Agree R (Expr.Alike R.likeness) expression expression')
    (inner : Agree R (Stmt.Alike R.likeness) statement statement') :
    Agree R (Stmt.Alike R.likeness) (whileLoop expression statement)
      (whileLoop expression' statement') := by
  apply agree_bind agree_advance
  intro _ _ _
  apply agree_bind (agree_expect _ _)
  intro _ _ _
  apply agree_bind part
  intro condition condition' onCondition
  apply agree_bind (agree_expect _ _)
  intro _ _ _
  exact agree_bind inner fun _ _ body => agree_pure (.loop onCondition body)

theorem alike_loopOf {keyword keyword' : Token} {initializer initializer' : Option Stmt}
    {condition condition' increment increment' : Option Expr} {body body' : Stmt}
    (onKeyword : R.pairs keyword keyword')
    (onInitializer : Option.Rel (Stmt.Alike R.likeness) initializer initializer')
    (onCondition : Option.Rel (Expr.Alike R.likeness) condition condition')
    (onIncrement : Option.Rel (Expr.Alike R.likeness) increment increment')
    (onBody : Stmt.Alike R.likeness body body') :
    Stmt.Alike R.likeness (loopOf keyword initializer condition increment body)
      (loopOf keyword' initializer' condition' increment' body') := by
  have test : Expr.Alike R.likeness
      (condition.getD (.literal (.bool true) (.synthetic .trueWord keyword)))
      (condition'.getD (.literal (.bool true) (.synthetic .trueWord keyword'))) := by
    cases onCondition with
    | none => exact .literal (R.synthetic _ onKeyword)
    | some alike => exact alike
  cases onInitializer with
  | none =>
    cases onIncrement with
    | none => exact .loop test onBody
    | some step => exact .loop test (.block (.cons onBody (.cons (.expression step) .nil)))
  | some first =>
    cases onIncrement with
    | none => exact .block (.cons first (.cons (.loop test onBody) .nil))
    | some step =>
      have body := Stmt.Alike.block (.cons onBody (.cons (.expression step) .nil))
      exact .block (.cons first (.cons (.loop test body) .nil))

theorem agree_loopInitializer (part : Agree R (Expr.Alike R.likeness) expression expression') :
    Agree R (Option.Rel (Stmt.Alike R.likeness)) (loopInitializer expression)
      (loopInitializer expression') := by
  apply agree_bind (agree_eat .semicolon)
  rintro missing _ rfl
  cases missing with
  | true => exact agree_pure .none
  | false =>
    apply agree_bind (agree_eat .varWord)
    rintro isVar _ rfl
    cases isVar with
    | true => exact agree_map (agree_varDeclaration part) fun _ _ => .some
    | false => exact agree_map (agree_expressionStatement part) fun _ _ => .some

theorem agree_forLoop (part : Agree R (Expr.Alike R.likeness) expression expression')
    (inner : Agree R (Stmt.Alike R.likeness) statement statement') :
    Agree R (Stmt.Alike R.likeness) (forLoop expression statement)
      (forLoop expression' statement') := by
  apply agree_bind agree_advance
  intro keyword keyword' onKeyword
  apply agree_bind (agree_expect _ _)
  intro _ _ _
  apply agree_bind (agree_loopInitializer part)
  intro initializer initializer' onInitializer
  -- Both clauses may be missing, and what follows does not depend on it.
  have afterIncrement {condition condition' increment increment' : Option Expr}
      (onCondition : Option.Rel (Expr.Alike R.likeness) condition condition')
      (onIncrement : Option.Rel (Expr.Alike R.likeness) increment increment') :
      Agree R (Stmt.Alike R.likeness) (do
        let _ ← expect .rightParen "after for clauses."
        return loopOf keyword initializer condition increment (← statement)) (do
        let _ ← expect .rightParen "after for clauses."
        return loopOf keyword' initializer' condition' increment' (← statement')) := by
    apply agree_bind (agree_expect _ _)
    intro _ _ _
    apply agree_bind inner
    intro body body' onBody
    exact agree_pure (alike_loopOf onKeyword onInitializer onCondition onIncrement onBody)
  have afterCondition {condition condition' : Option Expr}
      (onCondition : Option.Rel (Expr.Alike R.likeness) condition condition') :
      Agree R (Stmt.Alike R.likeness) (do
        let _ ← expect .semicolon "after loop condition."
        let increment ← if ← check .rightParen then pure none else some <$> expression
        let _ ← expect .rightParen "after for clauses."
        return loopOf keyword initializer condition increment (← statement)) (do
        let _ ← expect .semicolon "after loop condition."
        let increment ← if ← check .rightParen then pure none else some <$> expression'
        let _ ← expect .rightParen "after for clauses."
        return loopOf keyword' initializer' condition' increment (← statement')) := by
    apply agree_bind (agree_expect _ _)
    intro _ _ _
    apply agree_bind (agree_check .rightParen)
    rintro missing _ rfl
    cases missing with
    | true => exact afterIncrement onCondition .none
    | false =>
      exact agree_bind (agree_map part fun _ _ => .some) fun _ _ onIncrement =>
        afterIncrement onCondition onIncrement
  apply agree_bind (agree_check .semicolon)
  rintro missing _ rfl
  cases missing with
  | true => exact afterCondition .none
  | false =>
    exact agree_bind (agree_map part fun _ _ => .some) fun _ _ onCondition =>
      afterCondition onCondition

theorem agree_returnStatement (part : Agree R (Expr.Alike R.likeness) expression expression') :
    Agree R (Stmt.Alike R.likeness) (returnStatement expression) (returnStatement expression') := by
  apply agree_bind agree_advance
  intro keyword keyword' same
  have last {e? e?' : Option Expr} (value : Option.Rel (Expr.Alike R.likeness) e? e?') :
      Agree R (Stmt.Alike R.likeness) (do
        let _ ← expect .semicolon "after return value."
        return .returns keyword e?) (do
        let _ ← expect .semicolon "after return value."
        return .returns keyword' e?') :=
    agree_bind (agree_expect _ _) fun _ _ _ => agree_pure (.returnsOption same value)
  have rest : Agree R (Stmt.Alike R.likeness) (do
      let value ← if ← check .semicolon then pure none else some <$> expression
      let _ ← expect .semicolon "after return value."
      return .returns keyword value) (do
      let value ← if ← check .semicolon then pure none else some <$> expression'
      let _ ← expect .semicolon "after return value."
      return .returns keyword' value) := by
    apply agree_bind (agree_check .semicolon)
    rintro missing _ rfl
    cases missing with
    | true => exact last .none
    | false => exact agree_bind (agree_map part fun _ _ => .some) fun _ _ value => last value
  apply agree_get
  intro c c' alike
  have inside : c.inFunction = c'.inFunction := by
    rw [Cursor.inFunction, Cursor.inFunction, alike.functionDepth]
  rw [inside]
  split
  · exact agree_bind (agree_report _ same) fun _ _ _ => rest
  · exact rest

end Parts

/-- The parsers of expressions, lines and statements agree, whatever depth they are given. -/
structure AgreeAt (R : Token.Correspondence) (n n' : Nat) : Prop where
  expression : ∀ level, Agree R (Expr.Alike R.likeness) (expression n level) (expression n' level)
  line : Agree R (Stmt.Alike R.likeness) (line n) (line n')
  statement : Agree R (Stmt.Alike R.likeness) (statement n) (statement n')

theorem agree_assignmentLevel (h : AgreeAt R n n') :
    Agree R (Expr.Alike R.likeness) (expression (n + 1) .assignment)
      (expression (n' + 1) .assignment) := by
  apply agree_bind (h.expression .or)
  intro target target' onTarget
  apply agree_bind (agree_eat? _)
  intro op? op?' found
  cases found with
  | none => exact agree_pure onTarget
  | some onOperator =>
    apply agree_bind (h.expression .assignment)
    intro value value' onValue
    have assignable : target.isAssignable = target'.isAssignable := by
      cases onTarget with
      | drops allowed _ | adds allowed _ => exact allowed.elim
      | _ => rfl
    have groupings : target.isGrouping = target'.isGrouping := by
      cases onTarget with
      | drops allowed _ | adds allowed _ => exact allowed.elim
      | _ => rfl
    rw [assignable]
    split
    · exact agree_pure (alike_assignment onTarget onOperator onValue groupings)
    · exact agree_bind (agree_report _ onOperator) fun _ _ _ => agree_pure onTarget

theorem agree_unaryLevel (h : AgreeAt R n n') :
    Agree R (Expr.Alike R.likeness) (expression (n + 1) .unary) (expression (n' + 1) .unary) := by
  apply agree_bind (agree_eat? _)
  intro op? op?' found
  cases found with
  | some op =>
    exact agree_bind (h.expression .unary) fun _ _ operand =>
      agree_pure (.unary (R.operator op) operand)
  | none => exact h.expression .call

theorem agree_callLevel (h : AgreeAt R n n') :
    Agree R (Expr.Alike R.likeness) (expression (n + 1) .call) (expression (n' + 1) .call) := by
  apply agree_bind (agree_primary (h.expression .lowest) h.line n n')
  intro first first' alike
  exact agree_suffixes (h.expression .lowest) n n' n n' alike

theorem agree_expression_succ (h : AgreeAt R n n') (level : Level) :
    Agree R (Expr.Alike R.likeness) (expression (n + 1) level) (expression (n' + 1) level) := by
  have operators (levels : List Level) : Agree R (Expr.Alike R.likeness)
      (do applicationsUpTo (expression n) n levels (← expression n .unary))
      (do applicationsUpTo (expression n') n' levels (← expression n' .unary)) := by
    apply agree_bind (h.expression .unary)
    intro first first' alike
    exact agree_applicationsUpTo h.expression n n' levels alike
  cases level with
  | lowest | assignment => exact agree_assignmentLevel h
  | unary => exact agree_unaryLevel h
  | call => exact agree_callLevel h
  | or | and | equality | comparison | sum | product => exact operators _

theorem agree_line_succ (h : AgreeAt R n n') :
    Agree R (Stmt.Alike R.likeness) (line (n + 1)) (line (n' + 1)) := by
  apply agree_bind (agree_eat .varWord)
  rintro isVar _ rfl
  cases isVar with
  | true => exact agree_varDeclaration (h.expression .lowest)
  | false =>
    apply agree_bind (agree_eat .funWord)
    rintro isFun _ rfl
    cases isFun with
    | true =>
      apply agree_bind (agree_functionDeclaration h.line n n')
      intro f f' alike
      exact agree_pure (.function alike.name alike.params alike.body)
    | false => exact h.statement

theorem agree_statement_succ (h : AgreeAt R n n') :
    Agree R (Stmt.Alike R.likeness) (statement (n + 1)) (statement (n' + 1)) := by
  apply agree_bind agree_current
  intro token token' same
  rw [← (R.sameText same).kind]
  split
  · apply agree_bind agree_advance
    intro _ _ _
    exact agree_bind (agree_block h.line n n') fun _ _ body => agree_pure (.block body)
  · exact agree_branch (h.expression .lowest) h.statement
  · exact agree_whileLoop (h.expression .lowest) h.statement
  · exact agree_forLoop (h.expression .lowest) h.statement
  · exact agree_returnStatement (h.expression .lowest)
  · exact agree_expressionStatement (h.expression .lowest)

theorem agreeAt (R : Token.Correspondence) (n n' : Nat) : AgreeAt R n n' := by
  induction n generalizing n' with
  | zero =>
    exact ⟨fun _ => agree_exhausted_left, agree_exhausted_left, agree_exhausted_left⟩
  | succ n ih =>
    cases n' with
    | zero =>
      exact ⟨fun _ => agree_exhausted_right, agree_exhausted_right, agree_exhausted_right⟩
    | succ n' =>
      exact ⟨agree_expression_succ (ih n'), agree_line_succ (ih n'), agree_statement_succ (ih n')⟩

theorem agree_lines {line line' : Parser Stmt} (each : Agree R (Stmt.Alike R.likeness) line line')
    (n n' : Nat) {done done' : Array Stmt}
    (before : List.Forall₂ (Stmt.Alike R.likeness) done.toList done'.toList) :
    Agree R (List.Forall₂ (Stmt.Alike R.likeness)) (lines line n done) (lines line' n' done') := by
  induction n generalizing n' done done' with
  | zero => exact agree_exhausted_left
  | succ n ih =>
    cases n' with
    | zero => exact agree_exhausted_right
    | succ n' =>
      apply agree_bind agree_atEnd
      rintro ended _ rfl
      cases ended with
      | true => exact agree_pure before
      | false =>
        apply agree_bind (agree_recover each)
        intro recovered recovered' related
        cases related with
        | none => exact ih n' before
        | some stmt => exact ih n' (related_push before stmt)

end Parse

end SoftScript
