import SoftScript.Proofs.Grammar.Soundness

/-! Parsers that get through. `Passes` says that a parser gives a result, leaves certain tokens
ahead and notes no error; each production passes tokens that its parts pass one after another. -/
namespace SoftScript.Parse

open SoftScript.Grammar

variable {α β : Type} {p : Parser α} {c : Cursor} {a : α} {b : β} {v w : List Token}

namespace Parser

/-- A parser gives a result without an error and has certain tokens ahead of it then. -/
def Passes (p : Parser α) (c : Cursor) (a : α) (v : List Token) : Prop :=
  ∃ c' : Cursor, p c = .ok a c' ∧ c'.ahead = v ∧ c'.errors = c.errors ∧
    c'.functionDepth = c.functionDepth

theorem passes_pure (ahead : c.ahead = v) : (pure a : Parser α).Passes c a v :=
  ⟨c, rfl, ahead, rfl, rfl⟩

theorem Passes.bind {f : α → Parser β} (first : p.Passes c a v)
    (second : ∀ c', c'.ahead = v → c'.inFunction = c.inFunction → (f a).Passes c' b w) :
    (p >>= f).Passes c b w := by
  obtain ⟨c₁, ran₁, ahead₁, errors₁, depth₁⟩ := first
  obtain ⟨c₂, ran₂, ahead₂, errors₂, depth₂⟩ :=
    second c₁ ahead₁ (by simp [Cursor.inFunction, depth₁])
  refine ⟨c₂, ?_, ahead₂, errors₂.trans errors₁, depth₂.trans depth₁⟩
  rw [bind_apply, ran₁]
  exact ran₂

theorem Passes.map {g : α → β} (h : p.Passes c a v) : (g <$> p).Passes c (g a) v := by
  obtain ⟨c', ran, rest⟩ := h
  exact ⟨c', by simp [Functor.map, EStateM.map, ran], rest⟩

theorem passes_advance (ahead : c.ahead = t :: w) : advance.Passes c t w := by
  refine ⟨c.advance, ?_, by simp [ahead], by simp, by simp⟩
  have ran : advance c = .ok c.advance.previous c.advance := rfl
  rw [ran, Cursor.previous_advance ahead]

theorem passes_consume (ahead : c.ahead = t :: w) (kind : t.kind = k) (cause : Cause) :
    (consume k cause).Passes c t w := by
  have checked : c.check k = true := by simp [Cursor.check_of_ahead ahead, kind]
  obtain ⟨c', ran, rest⟩ := passes_advance ahead
  exact ⟨c', by rw [consume_apply, if_pos checked, ran], rest⟩

theorem passes_expect (ahead : c.ahead = t :: w) (kind : t.kind = k) (context : String) :
    (expect k context).Passes c t w :=
  passes_consume ahead kind _

theorem passes_eat? {f : Option Token → Parser β} {kinds : List Token.Kind}
    (ahead : c.ahead = t :: w) (member : t.kind ∈ kinds)
    (then_ : ∀ c', c'.ahead = w → c'.inFunction = c.inFunction → (f (some t)).Passes c' b v) :
    (eat? kinds >>= f).Passes c b v := by
  apply Passes.bind (v := w) _ then_
  exact ⟨c.advance, eat?_of_mem ahead member, by simp [ahead], by simp, by simp⟩

theorem passes_not_eat? {f : Option Token → Parser β} {kinds : List Token.Kind}
    (absent : ∀ t ∈ c.ahead.head?, t.kind ∉ kinds) (then_ : (f none).Passes c b v) :
    (eat? kinds >>= f).Passes c b v := by
  obtain ⟨c', ran, rest⟩ := then_
  exact ⟨c', by rw [bind_apply, eat?_of_not_mem absent]; exact ran, rest⟩

theorem passes_eat {f : Bool → Parser β} (ahead : c.ahead = t :: w) (kind : t.kind = k)
    (then_ : ∀ c', c'.ahead = w → c'.inFunction = c.inFunction → (f true).Passes c' b v) :
    (eat k >>= f).Passes c b v := by
  apply Passes.bind (v := w) _ then_
  refine ⟨c.advance, ?_, by simp [ahead], by simp, by simp⟩
  rw [eat_apply, eat?_of_mem ahead (by simp [kind])]
  rfl

theorem passes_not_eat {f : Bool → Parser β} (absent : ∀ t ∈ c.ahead.head?, t.kind ≠ k)
    (then_ : (f false).Passes c b v) : (eat k >>= f).Passes c b v := by
  obtain ⟨c', ran, rest⟩ := then_
  refine ⟨c', ?_, rest⟩
  rw [bind_apply, eat_apply, eat?_of_not_mem (by simpa using absent)]
  exact ran

theorem passes_check {f : Bool → Parser β} (ahead : c.ahead = t :: w) (kind : t.kind = k)
    (then_ : (f true).Passes c b v) : (check k >>= f).Passes c b v := by
  have checked : c.check k = true := by simp [Cursor.check_of_ahead ahead, kind]
  obtain ⟨c', ran, rest⟩ := then_
  exact ⟨c', by rw [← ran, ← checked]; rfl, rest⟩

theorem passes_not_check {f : Bool → Parser β} (ahead : c.ahead = t :: w) (kind : t.kind ≠ k)
    (then_ : (f false).Passes c b v) : (check k >>= f).Passes c b v := by
  have checked : c.check k = false := by simp [Cursor.check_of_ahead ahead, kind]
  obtain ⟨c', ran, rest⟩ := then_
  exact ⟨c', by rw [← ran, ← checked]; rfl, rest⟩

theorem passes_not_atEnd {f : Bool → Parser β} (ahead : c.ahead = t :: w)
    (then_ : (f false).Passes c b v) : (atEnd >>= f).Passes c b v := by
  obtain ⟨c', ran, rest⟩ := then_
  exact ⟨c', by rw [← ran, ← Cursor.atEnd_of_ahead ahead]; rfl, rest⟩

theorem passes_atEnd {f : Bool → Parser β} (ahead : c.ahead = [])
    (then_ : (f true).Passes c b v) : (atEnd >>= f).Passes c b v := by
  obtain ⟨c', ran, rest⟩ := then_
  exact ⟨c', by rw [← ran, ← Cursor.ahead_eq_nil.mp ahead]; rfl, rest⟩

theorem passes_current {f : Token → Parser β} (ahead : c.ahead = t :: w)
    (then_ : (f t).Passes c b v) : (current >>= f).Passes c b v := by
  obtain ⟨c', ran, rest⟩ := then_
  exact ⟨c', by rw [← ran, ← Cursor.current_of_ahead ahead]; rfl, rest⟩

theorem passes_recover (h : p.Passes c a v) : (recover p).Passes c (some a) v := by
  obtain ⟨c', ran, rest⟩ := h
  exact ⟨c', by simp [recover, ran], rest⟩

theorem passes_insideFunction (h : p.Passes c.enterFunction a v) :
    (insideFunction p).Passes c a v := by
  obtain ⟨c', ran, ahead, errors, depth⟩ := h
  refine ⟨c'.leaveFunction, by simp [insideFunction, ran], ahead, errors, ?_⟩
  simp [Cursor.leaveFunction, depth, Cursor.enterFunction]

end Parser

open SoftScript.Parse.Parser

section Productions

variable {inside : Bool} {expression : Parser Expr} {line statement : Parser Stmt}

/-- A parser that passes the first of these tokens up to the second, wherever it meets them. -/
def PassesFrom (p : Parser α) (inside : Bool) (u : List Token) (a : α) (v : List Token) : Prop :=
  ∀ c : Cursor, c.ahead = u → c.inFunction = inside → p.Passes c a v

/-- A clause that may be missing, in front of the token that ends it. -/
theorem passes_optional {K : Option Expr → Parser β} {o : Option Expr}
    (derived : Optional inside u o) (ahead : c.ahead = u ++ closing :: v)
    (kind : closing.kind = k) (foreign : startsExpression k = false)
    (hx : ∀ e, o = some e → expression.Passes c e (closing :: v))
    (then_ : ∀ c', c'.ahead = closing :: v → c'.inFunction = c.inFunction →
      (K o).Passes c' b w) :
    (check k >>= fun found =>
      if found = true then pure none >>= K else (some <$> expression) >>= K).Passes c b w := by
  cases derived with
  | none =>
    apply passes_check ahead kind
    exact (passes_pure ahead).bind then_
  | some derived =>
    obtain ⟨t, u, rfl, starts⟩ := derived.starts
    have other : t.kind ≠ k := by
      rintro rfl
      simp [starts] at foreign
    apply passes_not_check ahead other
    exact (hx _ rfl).map.bind then_

theorem passes_expect_pure (ahead : c.ahead = t :: v) (kind : t.kind = k) (context : String)
    (a : α) : (do let _ ← expect k context; return a : Parser α).Passes c a v :=
  (passes_expect ahead kind context).bind fun _ ahead' _ => passes_pure ahead'

/-- A keyword and a condition in parentheses. -/
theorem passes_condition {K : Expr → Parser Stmt}
    (ahead : c.ahead = keyword :: opening :: u ++ closing :: x)
    (isOpening : opening.kind = .leftParen) (isClosing : closing.kind = .rightParen)
    (first second : String)
    (hx : PassesFrom expression c.inFunction (u ++ closing :: x) condition (closing :: x))
    (then_ : PassesFrom (K condition) c.inFunction x s v) :
    (do
      let _ ← advance
      let _ ← expect .leftParen first
      let condition ← expression
      let _ ← expect .rightParen second
      K condition).Passes c s v := by
  apply (passes_advance ahead).bind
  intro c₁ ahead₁ in₁
  apply (passes_expect ahead₁ isOpening _).bind
  intro c₂ ahead₂ in₂
  apply (hx c₂ ahead₂ (in₂.trans in₁)).bind
  intro c₃ ahead₃ in₃
  apply (passes_expect ahead₃ isClosing _).bind
  intro c₄ ahead₄ in₄
  exact then_ c₄ ahead₄ (in₄.trans (in₃.trans (in₂.trans in₁)))

theorem passes_branch (ahead : c.ahead = keyword :: opening :: u ++ closing :: x)
    (isOpening : opening.kind = .leftParen) (isClosing : closing.kind = .rightParen)
    (hx : PassesFrom expression c.inFunction (u ++ closing :: x) condition (closing :: x))
    (hs : PassesFrom statement c.inFunction x thenBranch v)
    (noElse : ∀ t ∈ v.head?, t.kind ≠ .elseWord) :
    (branch expression statement).Passes c (.branch condition thenBranch none) v := by
  unfold branch
  apply passes_condition ahead isOpening isClosing _ _ hx
  intro c₁ ahead₁ in₁
  apply (hs c₁ ahead₁ in₁).bind
  intro c₂ ahead₂ _
  apply passes_not_eat (by rw [ahead₂]; exact noElse)
  exact passes_pure ahead₂

theorem passes_branches (ahead : c.ahead = keyword :: opening :: u ++ closing :: x)
    (isOpening : opening.kind = .leftParen) (isClosing : closing.kind = .rightParen)
    (isElse : otherwise.kind = .elseWord)
    (hx : PassesFrom expression c.inFunction (u ++ closing :: x) condition (closing :: x))
    (ht : PassesFrom statement c.inFunction x thenBranch (otherwise :: y))
    (he : PassesFrom statement c.inFunction y elseBranch v) :
    (branch expression statement).Passes c (.branch condition thenBranch (some elseBranch)) v := by
  unfold branch
  apply passes_condition ahead isOpening isClosing _ _ hx
  intro c₁ ahead₁ in₁
  apply (ht c₁ ahead₁ in₁).bind
  intro c₂ ahead₂ in₂
  apply passes_eat ahead₂ isElse
  intro c₃ ahead₃ in₃
  apply (he c₃ ahead₃ (in₃.trans (in₂.trans in₁))).bind
  intro c₄ ahead₄ _
  exact passes_pure ahead₄

theorem passes_whileLoop (ahead : c.ahead = keyword :: opening :: u ++ closing :: x)
    (isOpening : opening.kind = .leftParen) (isClosing : closing.kind = .rightParen)
    (hx : PassesFrom expression c.inFunction (u ++ closing :: x) condition (closing :: x))
    (hs : PassesFrom statement c.inFunction x body v) :
    (whileLoop expression statement).Passes c (.loop condition body) v := by
  unfold whileLoop
  apply passes_condition ahead isOpening isClosing _ _ hx
  intro c₁ ahead₁ in₁
  apply (hs c₁ ahead₁ in₁).bind
  intro c₂ ahead₂ _
  exact passes_pure ahead₂

theorem passes_forLoop {initializer : Option Stmt} {condition increment : Option Expr}
    (ahead : c.ahead = keyword :: opening :: u ++ (q ++ semicolon :: (r ++ closing :: x)))
    (isOpening : opening.kind = .leftParen) (isSemicolon : semicolon.kind = .semicolon)
    (isClosing : closing.kind = .rightParen)
    (hi : PassesFrom (loopInitializer expression) c.inFunction
      (u ++ (q ++ semicolon :: (r ++ closing :: x))) initializer
      (q ++ semicolon :: (r ++ closing :: x)))
    (derivedCondition : Optional c.inFunction q condition)
    (hc : ∀ e, condition = some e → PassesFrom expression c.inFunction
      (q ++ semicolon :: (r ++ closing :: x)) e (semicolon :: (r ++ closing :: x)))
    (derivedIncrement : Optional c.inFunction r increment)
    (hn : ∀ e, increment = some e → PassesFrom expression c.inFunction
      (r ++ closing :: x) e (closing :: x))
    (hs : PassesFrom statement c.inFunction x body v) :
    (forLoop expression statement).Passes c
      (unrolled keyword initializer condition increment body) v := by
  unfold forLoop
  apply (passes_advance ahead).bind
  intro c₁ ahead₁ in₁
  apply (passes_expect ahead₁ isOpening _).bind
  intro c₂ ahead₂ in₂
  have in₂ := in₂.trans in₁
  apply (hi c₂ ahead₂ in₂).bind
  intro c₃ ahead₃ in₃
  have in₃ := in₃.trans in₂
  apply passes_optional derivedCondition ahead₃ isSemicolon rfl
    (fun e he => hc e he c₃ ahead₃ in₃)
  intro c₄ ahead₄ in₄
  apply (passes_expect ahead₄ isSemicolon _).bind
  intro c₅ ahead₅ in₅
  have in₅ := in₅.trans (in₄.trans in₃)
  apply passes_optional derivedIncrement ahead₅ isClosing rfl
    (fun e he => hn e he c₅ ahead₅ in₅)
  intro c₆ ahead₆ in₆
  apply (passes_expect ahead₆ isClosing _).bind
  intro c₇ ahead₇ in₇
  apply (hs c₇ ahead₇ (in₇.trans (in₆.trans in₅))).bind
  intro c₈ ahead₈ _
  rw [← loopOf_eq_unrolled]
  exact passes_pure ahead₈

theorem passes_returnStatement {value : Option Expr}
    (ahead : c.ahead = keyword :: u ++ semicolon :: v) (isSemicolon : semicolon.kind = .semicolon)
    (inFunction : c.inFunction = true) (derived : Optional true u value)
    (hx : ∀ e, value = some e → PassesFrom expression true (u ++ semicolon :: v) e
      (semicolon :: v)) :
    (returnStatement expression).Passes c (.returns keyword value) v := by
  unfold returnStatement
  apply (passes_advance ahead).bind
  intro c₁ ahead₁ in₁
  have inside := in₁.trans inFunction
  obtain ⟨c₂, ran, rest⟩ : (do
      let value ← if ← check .semicolon then pure none else some <$> expression
      let _ ← expect .semicolon "after return value."
      return .returns keyword value : Parser Stmt).Passes c₁ (.returns keyword value) v := by
    apply passes_optional derived ahead₁ isSemicolon rfl (fun e he => hx e he c₁ ahead₁ inside)
    intro c₂ ahead₂ _
    exact passes_expect_pure ahead₂ isSemicolon ..
  have seen : (get : Parser Cursor) c₁ = .ok c₁ c₁ := rfl
  refine ⟨c₂, ?_, rest⟩
  simpa [bind_apply, seen, inside] using ran

theorem passes_varDeclaration_bare (ahead : c.ahead = name :: semicolon :: v)
    (isName : name.kind = .identifier) (isSemicolon : semicolon.kind = .semicolon) :
    (varDeclaration expression).Passes c (.var name none) v := by
  unfold varDeclaration
  apply (passes_consume ahead isName _).bind
  intro c₁ ahead₁ _
  apply passes_not_eat (by simp [ahead₁, isSemicolon])
  apply (passes_pure ahead₁).bind
  intro c₂ ahead₂ _
  exact passes_expect_pure ahead₂ isSemicolon ..

theorem passes_varDeclaration_initialized (ahead : c.ahead = name :: equal :: u ++ semicolon :: v)
    (isName : name.kind = .identifier) (isEqual : equal.kind = .equal)
    (isSemicolon : semicolon.kind = .semicolon)
    (hx : PassesFrom expression c.inFunction (u ++ semicolon :: v) e (semicolon :: v)) :
    (varDeclaration expression).Passes c (.var name (some e)) v := by
  unfold varDeclaration
  apply (passes_consume ahead isName _).bind
  intro c₁ ahead₁ in₁
  apply passes_eat ahead₁ isEqual
  intro c₂ ahead₂ in₂
  apply (hx c₂ ahead₂ (in₂.trans in₁)).map.bind
  intro c₃ ahead₃ _
  exact passes_expect_pure ahead₃ isSemicolon ..

theorem passes_parameters (derived : Parameters w names) (n : Nat) (done : Array Token)
    (ahead : c.ahead = w ++ v) (ended : ∀ t ∈ v.head?, t.kind ≠ .comma)
    (room : c.ahead.length < n) (few : done.size + names.length ≤ parameterLimit) :
    (parameters n done).Passes c (done.toList ++ names) v := by
  induction derived generalizing c n done with
  | @one name isName =>
    obtain ⟨n, rfl⟩ : ∃ m, n = m + 1 := ⟨n - 1, by omega⟩
    have below : ¬ maxParameters ≤ done.size := by
      simp [parameterLimit, maxParameters] at few ⊢; omega
    unfold parameters
    simp only [below, if_false]
    apply (passes_consume ahead isName _).bind
    intro c₁ ahead₁ _
    apply passes_not_eat (by rw [ahead₁]; exact ended)
    simpa using passes_pure ahead₁
  | @more w names name comma isName isComma _ ih =>
    obtain ⟨n, rfl⟩ : ∃ m, n = m + 1 := ⟨n - 1, by omega⟩
    have below : ¬ maxParameters ≤ done.size := by
      simp [parameterLimit, maxParameters] at few ⊢; omega
    unfold parameters
    simp only [below, if_false]
    apply (passes_consume ahead isName _).bind
    intro c₁ ahead₁ _
    apply passes_eat ahead₁ isComma
    intro c₂ ahead₂ _
    have := ih n (done.push name) ahead₂ (by simp [ahead] at room; simp [ahead₂]; omega)
      (by simp at few ⊢; omega)
    simpa using this

theorem passes_functionDeclaration (n : Nat)
    (ahead : c.ahead = name :: opening :: q ++ closing :: brace :: w)
    (isName : name.kind = .identifier) (isOpening : opening.kind = .leftParen)
    (listed : ParameterList q params) (few : params.length ≤ parameterLimit)
    (isClosing : closing.kind = .rightParen) (isBrace : brace.kind = .leftBrace)
    (room : c.ahead.length < n) (hb : PassesFrom (block line n) true w body v) :
    (functionDeclaration line n).Passes c ⟨name, params, body⟩ v := by
  unfold functionDeclaration
  apply (passes_consume ahead isName _).bind
  intro c₁ ahead₁ in₁
  apply (passes_expect ahead₁ isOpening _).bind
  intro c₂ ahead₂ in₂
  have rest : PassesFrom (do
      let _ ← expect .rightParen "after parameters."
      let _ ← expect .leftBrace "before function body."
      let body ← insideFunction (block line n)
      return ⟨name, params, body⟩ : Parser FunctionDecl) c.inFunction (closing :: brace :: w)
        ⟨name, params, body⟩ v := by
    intro c₃ ahead₃ _
    apply (passes_expect ahead₃ isClosing _).bind
    intro c₄ ahead₄ _
    apply (passes_expect ahead₄ isBrace _).bind
    intro c₅ ahead₅ _
    apply (passes_insideFunction (hb c₅.enterFunction ahead₅ (inFunction_enterFunction c₅))).bind
    intro c₆ ahead₆ _
    exact passes_pure ahead₆
  have in₂ := in₂.trans in₁
  cases listed with
  | none =>
    apply passes_check ahead₂ isClosing
    apply (passes_pure ahead₂).bind
    intro c₃ ahead₃ in₃
    exact rest c₃ ahead₃ (in₃.trans in₂)
  | some names =>
    have starts : ∃ t q', q = t :: q' ∧ t.kind = .identifier := by
      cases names with
      | one h | more h => exact ⟨_, _, rfl, h⟩
    obtain ⟨t, q', rfl, isIdentifier⟩ := starts
    apply passes_not_check ahead₂ (by simp [isIdentifier])
    have passed : (parameters n #[]).Passes c₂ params (closing :: brace :: w) := by
      simpa using passes_parameters names n #[] ahead₂ (by simp [isClosing])
        (by simp [ahead] at room; simp [ahead₂]; omega) (by simpa using few)
    apply passed.bind
    intro c₃ ahead₃ in₃
    exact rest c₃ ahead₃ (in₃.trans in₂)

end Productions

end SoftScript.Parse
