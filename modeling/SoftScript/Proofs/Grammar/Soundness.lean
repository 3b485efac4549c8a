import SoftScript.Parse.Program
import SoftScript.Proofs.Grammar.Derivation
import SoftScript.Proofs.Grammar.Reads

/-! What the parser reads without an error is derived by the grammar, and it never runs out of
depth. Each production is taken by itself: if its parts read what they should on all shorter
stretches of tokens, so does it. The depth a part needs grows with the tokens ahead, eight for
each, so that between two tokens there is room for a chain of calls down the levels. -/
namespace SoftScript.Parse

open SoftScript.Parse.Parser SoftScript.Grammar

/-- A parser that reads, wherever fewer than so many tokens are ahead, what a production derives. -/
def Parser.ReadsBelow (p : Parser α) (bound : Nat) (inside : Bool)
    (D : List Token → α → Prop) : Prop :=
  ∀ c : Cursor, c.inFunction = inside → c.ahead.length < bound → p.Reads c 1 fun a u _ => D u a

section Productions

variable {expression : Parser Expr} {line : Parser Stmt} {bound : Nat} {inside : Bool}
  {c : Cursor}

/-- A last token after which the result is ready. -/
theorem reads_expect_pure (kind : Token.Kind) (context : String) (a : α) :
    (do let _ ← expect kind context; return a : Parser α).Reads c 1 fun b u _ =>
      b = a ∧ ∃ t, u = [t] ∧ t.kind = kind := by
  apply (reads_expect ..).bind (j := 0)
  intro t c' _ _
  apply reads_pure
  rintro u ⟨rfl, kind⟩
  exact ⟨rfl, t, rfl, kind⟩

theorem reads_varDeclaration (hx : expression.ReadsBelow bound inside (Expression inside .lowest))
    (hf : c.inFunction = inside) (hc : c.ahead.length < bound) :
    (varDeclaration expression).Reads c 1 fun s u _ =>
      ∀ keyword, keyword.kind = .varWord → VariableDeclaration inside (keyword :: u) s := by
  unfold varDeclaration
  apply (reads_consume ..).bind (j := 0)
  intro name c₁ on₁ len₁
  apply reads_eat_bind (j := 0)
  · intro equal w ahead isEqual
    have on₂ := on₁.trans c₁.onward_advance
    have read := hx c₁.advance (on₂.inFunction.trans hf) (by simp [ahead] at len₁ ⊢; omega)
    have mapped : (some <$> expression).Reads c₁.advance 1 fun o u _ =>
        ∃ e, o = some e ∧ Expression inside .lowest u e :=
      Reads.map (read.mono (Nat.le_refl _) fun e u _ _ h => ⟨e, rfl, h⟩)
    apply (mapped.bind (j := 1) _).mono (Nat.zero_le _) fun _ _ _ _ h => h
    intro initializer c₂ _ _
    apply (reads_expect_pure ..).mono (Nat.le_refl _)
    rintro _ v rest _ ⟨rfl, semicolon, rfl, isSemicolon⟩ u ⟨e, rfl, derived⟩ _ ⟨rfl, isName⟩
      keyword isKeyword
    exact .initialized isKeyword isName isEqual derived isSemicolon
  · intro _
    apply (reads_expect_pure ..).mono (Nat.zero_le _)
    rintro _ v rest _ ⟨rfl, semicolon, rfl, isSemicolon⟩ _ ⟨rfl, isName⟩ keyword isKeyword
    exact .bare isKeyword isName isSemicolon
  · omega

/-- One item or more, each after the ones already read. -/
theorem reads_commaItems (hx : expression.ReadsBelow bound inside (Expression inside .lowest))
    (hf : c.inFunction = inside) (hc : c.ahead.length < bound) (n : Nat) (items : Array Expr)
    (room : c.ahead.length < n) :
    (commaItems expression n items).Reads c 1 fun args u _ =>
      ∃ more, args = items.toList ++ more ∧ Arguments inside u more := by
  induction n generalizing items c with
  | zero => omega
  | succ n ih =>
    unfold commaItems
    apply (hx c hf hc).bind (j := 0)
    intro e c₁ on₁ len₁
    apply reads_eat_bind (j := 1)
    · intro comma w ahead isComma
      have on₂ := on₁.trans c₁.onward_advance
      simp only [ahead, List.length_cons] at len₁
      apply (ih (on₂.inFunction.trans hf) (by simp [ahead]; omega) (items.push e)
        (by simp [ahead]; omega)).mono (Nat.le_refl _)
      rintro _ v rest _ ⟨more, rfl, derived⟩ u first
      exact ⟨e :: more, by simp, .more first isComma derived⟩
    · intro _
      apply reads_pure
      intro u first
      exact ⟨[e], by simp, by simpa using .one first⟩
    · omega

theorem reads_itemsBefore (hx : expression.ReadsBelow bound inside (Expression inside .lowest))
    (hf : c.inFunction = inside) (hc : c.ahead.length < bound) (close : Token.Kind) (n : Nat)
    (room : c.ahead.length < n) :
    (itemsBefore close expression n).Reads c 0 fun args u _ => ArgumentList inside u args := by
  unfold itemsBefore
  apply reads_check_bind
  split
  · exact reads_pure .none
  · apply (reads_commaItems hx hf hc n #[] room).mono (Nat.zero_le _)
    rintro _ u rest _ ⟨more, rfl, derived⟩
    exact .some (by simpa using derived)

/-- The names of parameters after those already read. A list that grows too long is reported, so
without an error it keeps the limit. -/
theorem reads_parameters (n : Nat) (params : Array Token) (room : c.ahead.length < n) :
    (parameters n params).Reads c 1 fun names u _ =>
      ∃ more, names = params.toList ++ more ∧ Parameters u more ∧
        names.length ≤ parameterLimit := by
  induction n generalizing params c with
  | zero => omega
  | succ n ih =>
    have name (c : Cursor) (room : c.ahead.length < n + 1) :
        (do
          let params := params.push (← consume .identifier .expectParameterName)
          if ← eat .comma then parameters n params else return params.toList :
          Parser (List Token)).Reads c 1 fun names u _ =>
            ∃ more, names = params.toList ++ more ∧ Parameters u more ∧
              (params.size < parameterLimit → names.length ≤ parameterLimit) := by
      apply (reads_consume ..).bind (j := 0)
      intro t c₁ _ len₁
      apply reads_eat_bind (j := 1)
      · intro comma w ahead isComma
        simp only [ahead, List.length_cons] at len₁
        apply (ih (params.push t) (by simp [ahead]; omega)).mono (Nat.le_refl _)
        rintro _ v rest _ ⟨more, rfl, derived, few⟩ _ ⟨rfl, isName⟩
        exact ⟨t :: more, by simp, .more isName isComma derived, fun _ => few⟩
      · intro _
        apply reads_pure
        rintro _ ⟨rfl, isName⟩
        exact ⟨[t], by simp, .one isName, fun few => by simpa using Nat.succ_le_of_lt few⟩
      · omega
    unfold parameters
    by_cases few : maxParameters ≤ params.size
    · simp only [few, if_true]
      apply reads_current_bind
      apply reads_report_bind
      exact (name (c.report _ _) room).mono (Nat.le_refl _) fun _ _ _ _ _ => trivial
    · simp only [few, if_false]
      apply (name _ room).mono (Nat.le_refl _)
      rintro names u rest _ ⟨more, listed, derived, limit⟩
      exact ⟨more, listed, derived, limit (Nat.lt_of_not_le few)⟩

/-- Lines up to a closing brace. Here every line counts, whatever became of it. -/
theorem reads_blockLines (hl : line.ReadsBelow bound inside (Line inside))
    (hf : c.inFunction = inside) (hc : c.ahead.length < bound) (n : Nat) (done : Array Stmt)
    (room : c.ahead.length < n) :
    (blockLines line n done).Reads c 1 fun body u _ =>
      ∃ more w closing, body = done.toList ++ more ∧ u = w ++ [closing] ∧
        Lines inside w more ∧ closing.kind = .rightBrace := by
  induction n generalizing done c with
  | zero => omega
  | succ n ih =>
    unfold blockLines
    apply reads_check_bind
    apply reads_atEnd_bind
    split
    · apply (reads_expect_pure ..).mono (Nat.le_refl _)
      rintro _ u rest _ ⟨rfl, closing, rfl, isBrace⟩
      exact ⟨[], [], closing, by simp, rfl, .nil, isBrace⟩
    · next unended =>
      have unended : c.atEnd = false := by simp at unended; exact unended.2
      apply (reads_recover unended (hl c hf hc)).bind (j := 0)
      intro recovered c₁ on₁ len₁
      have next_ := fun done => ih (on₁.inFunction.trans hf) (by omega) done (by omega)
      cases recovered with
      | none =>
        apply (next_ done).mono (Nat.zero_le _)
        rintro _ v rest _ _ u ⟨_, impossible, _⟩
        contradiction
      | some s =>
        apply (next_ (done.push s)).mono (Nat.zero_le _)
        rintro _ v rest _ ⟨more, w, closing, rfl, rfl, derived, isBrace⟩ u ⟨_, same, first⟩
        cases same
        exact ⟨s :: more, u ++ w, closing, by simp, by simp, .cons first derived, isBrace⟩

theorem reads_block (hl : line.ReadsBelow bound inside (Line inside))
    (hf : c.inFunction = inside) (hc : c.ahead.length < bound) (n : Nat)
    (room : c.ahead.length < n) :
    (block line n).Reads c 1 fun body u _ =>
      ∃ w closing, u = w ++ [closing] ∧ Lines inside w body ∧ closing.kind = .rightBrace := by
  apply (reads_blockLines hl hf hc n #[] room).mono (Nat.le_refl _)
  rintro _ u rest _ ⟨more, w, closing, rfl, rfl, derived, isBrace⟩
  exact ⟨w, closing, rfl, by simpa using derived, isBrace⟩

theorem inFunction_enterFunction (c : Cursor) : c.enterFunction.inFunction = true := by
  simp [Cursor.inFunction, Cursor.enterFunction]

theorem reads_functionDeclaration (inside : Bool) (hl : line.ReadsBelow bound true (Line true))
    (hc : c.ahead.length < bound) (n : Nat) (room : c.ahead.length < n) :
    (functionDeclaration line n).Reads c 1 fun f u _ =>
      ∀ keyword, keyword.kind = .funWord → FunctionDeclaration inside (keyword :: u) f.toStmt := by
  unfold functionDeclaration
  apply (reads_consume ..).bind (j := 0)
  intro name c₁ _ len₁
  apply ((reads_expect ..).bind (j := 0) _).mono (Nat.zero_le _) fun _ _ _ _ h => h
  intro opening c₂ _ len₂
  -- Both ways of reading parameters go on alike.
  have rest (params : List Token) (c : Cursor) (len : c.ahead.length ≤ c₂.ahead.length) :
      (do
        let _ ← expect .rightParen "after parameters."
        let _ ← expect .leftBrace "before function body."
        let body ← insideFunction (block line n)
        return ⟨name, params, body⟩ : Parser FunctionDecl).Reads c 1 fun f u _ =>
          ∃ closing brace w unbrace, u = closing :: brace :: w ++ [unbrace] ∧
            closing.kind = .rightParen ∧ brace.kind = .leftBrace ∧ Lines true w f.body ∧
            unbrace.kind = .rightBrace ∧ f.name = name ∧ f.params = params := by
    apply (reads_expect ..).bind (j := 0)
    intro closing c₃ _ len₃
    apply ((reads_expect ..).bind (j := 0) _).mono (Nat.zero_le _) fun _ _ _ _ h => h
    intro brace c₄ _ len₄
    have body := reads_insideFunction (reads_block hl (inFunction_enterFunction c₄)
      (by rw [Cursor.ahead_enterFunction]; omega) n (by rw [Cursor.ahead_enterFunction]; omega))
    apply (body.bind (j := 0) _).mono (Nat.zero_le _) fun _ _ _ _ h => h
    intro body c₅ _ _
    apply reads_pure
    rintro _ ⟨w, unbrace, rfl, derived, isUnbrace⟩ _ ⟨rfl, isBrace⟩ _ ⟨rfl, isClosing⟩
    exact ⟨closing, brace, w, unbrace, by simp, isClosing, isBrace, derived, isUnbrace, rfl, rfl⟩
  apply reads_check_bind
  split
  · apply (rest [] c₂ (Nat.le_refl _)).mono (Nat.zero_le _)
    rintro ⟨_, _, body⟩ _ _ _ ⟨closing, brace, w, unbrace, rfl, isClosing, isBrace, derived,
      isUnbrace, rfl, rfl⟩ _ ⟨rfl, isOpening⟩ _ ⟨rfl, isName⟩ keyword isKeyword
    exact .mk isKeyword isName isOpening .none (Nat.zero_le _) isClosing isBrace derived isUnbrace
  · apply ((reads_parameters n #[] (by omega)).bind (j := 0) _).mono (Nat.zero_le _)
      fun _ _ _ _ h => h
    intro params c₃ _ len₃
    apply (rest params c₃ (by omega)).mono (Nat.zero_le _)
    rintro ⟨_, _, body⟩ _ _ _ ⟨closing, brace, w, unbrace, rfl, isClosing, isBrace, derived,
      isUnbrace, rfl, rfl⟩ v ⟨more, listed, names, few⟩ _ ⟨rfl, isOpening⟩ _ ⟨rfl, isName⟩ keyword
      isKeyword
    simp only [List.nil_append] at listed
    subst listed
    have derivation : FunctionDeclaration inside _ _ := .mk isKeyword isName isOpening
      (.some names) few isClosing isBrace derived isUnbrace
    simpa [FunctionDecl.toStmt] using derivation

theorem reads_listLiteral (hx : expression.ReadsBelow bound inside (Expression inside .lowest))
    (hf : c.inFunction = inside) (hc : c.ahead.length ≤ bound) (n : Nat)
    (room : c.ahead.length ≤ n) :
    (listLiteral expression n).Reads c 1 fun e u _ => Primary inside u e := by
  unfold listLiteral
  apply (reads_expect ..).bind (j := 0)
  intro bracket c₁ on₁ len₁
  have items := reads_itemsBefore hx (on₁.inFunction.trans hf) (by omega) .rightSquare n (by omega)
  apply (items.bind (j := 0) _).mono (Nat.zero_le _) fun _ _ _ _ h => h
  intro elements c₂ _ _
  apply (reads_expect_pure ..).mono (Nat.zero_le _)
  rintro _ _ rest _ ⟨rfl, closing, rfl, isClosing⟩ u derived _ ⟨rfl, isBracket⟩
  exact .list isBracket derived isClosing

theorem reads_objectMembers (hx : expression.ReadsBelow bound inside (Expression inside .lowest))
    (hl : line.ReadsBelow bound true (Line true)) (hf : c.inFunction = inside)
    (hc : c.ahead.length < bound) (n m : Nat) (done : Array Stmt) (room : c.ahead.length < n)
    (turns : c.ahead.length < m) :
    (objectMembers expression line n m done).Reads c 1 fun members u _ =>
      ∃ more w closing, members = done.toList ++ more ∧ u = w ++ [closing] ∧
        Declarations inside w more ∧ closing.kind = .rightBrace := by
  induction m generalizing done c with
  | zero => omega
  | succ m ih =>
    have next_ (c₁ : Cursor) (s : Stmt) (on₁ : c.Onward c₁)
        (len₁ : c₁.ahead.length < c.ahead.length) :=
      ih (on₁.inFunction.trans hf) (by omega) (done.push s) (by omega) (by omega)
    unfold objectMembers
    apply reads_check_bind
    apply reads_atEnd_bind
    split
    · apply (reads_expect_pure ..).mono (Nat.le_refl _)
      rintro _ u rest _ ⟨rfl, closing, rfl, isBrace⟩
      exact ⟨[], [], closing, by simp, rfl, .nil, isBrace⟩
    apply reads_eat_bind (j := 1)
    · intro keyword w ahead isKeyword
      have on₁ := c.onward_advance
      have len₁ : c.advance.ahead.length < c.ahead.length := by simp [ahead]
      apply (reads_varDeclaration hx (on₁.inFunction.trans hf) (by omega)).bind (j := 0)
      intro s c₂ on₂ len₂
      apply (next_ c₂ s (on₁.trans on₂) (by omega)).mono (Nat.zero_le _)
      rintro _ v rest _ ⟨more, w, closing, rfl, rfl, derived, isBrace⟩ u first
      exact ⟨s :: more, keyword :: u ++ w, closing, by simp, by simp,
        .cons (.var (first keyword isKeyword)) derived, isBrace⟩
    · intro _
      apply reads_eat_bind (j := 1)
      · intro keyword w ahead isKeyword
        have on₁ := c.onward_advance
        have len₁ : c.advance.ahead.length < c.ahead.length := by simp [ahead]
        apply (reads_functionDeclaration inside hl (by omega) n (by omega)).bind (j := 0)
        intro f c₂ on₂ len₂
        apply (next_ c₂ f.toStmt (on₁.trans on₂) (by omega)).mono (Nat.zero_le _)
        rintro _ v rest _ ⟨more, w, closing, rfl, rfl, derived, isBrace⟩ u first
        exact ⟨f.toStmt :: more, keyword :: u ++ w, closing, by simp, by simp,
          .cons (.function (first keyword isKeyword)) derived, isBrace⟩
      · intro _
        apply reads_current_bind
        apply reads_refuse
      · omega
    · omega

theorem reads_objectLiteral (hx : expression.ReadsBelow bound inside (Expression inside .lowest))
    (hl : line.ReadsBelow bound true (Line true)) (hf : c.inFunction = inside)
    (hc : c.ahead.length ≤ bound) (n : Nat) (room : c.ahead.length ≤ n) :
    (objectLiteral expression line n).Reads c 1 fun e u _ => Primary inside u e := by
  unfold objectLiteral
  apply (reads_expect ..).bind (j := 0)
  intro brace c₁ on₁ len₁
  have members := reads_objectMembers hx hl (on₁.inFunction.trans hf) (by omega) n n #[]
    (by omega) (by omega)
  apply (members.bind (j := 0) _).mono (Nat.zero_le _) fun _ _ _ _ h => h
  intro members c₂ _ _
  apply reads_pure
  rintro _ ⟨more, w, closing, rfl, rfl, derived, isClosing⟩ _ ⟨rfl, isBrace⟩
  simpa using Primary.object isBrace derived isClosing

theorem reads_literal (unended : c.current.kind ≠ .eof) (value : Constant)
    (denotes : constant? c.current = some value) :
    (literal value).Reads c 1 fun e u _ => Primary inside u e := by
  unfold literal
  apply (reads_advance unended).bind (j := 0)
  intro t c₁ _ _
  apply reads_pure
  rintro _ ⟨rfl, rfl⟩
  exact .literal denotes

theorem reads_primary (hx : expression.ReadsBelow bound inside (Expression inside .lowest))
    (hl : line.ReadsBelow bound true (Line true)) (hf : c.inFunction = inside)
    (hc : c.ahead.length ≤ bound) (n : Nat) (room : c.ahead.length ≤ n) :
    (primary expression line n).Reads c 1 fun e u _ => Primary inside u e := by
  unfold primary
  apply reads_current_bind
  split
  case h_1 kind => exact reads_literal (by simp [kind]) _ (by simp [constant?, kind])
  case h_2 kind => exact reads_literal (by simp [kind]) _ (by simp [constant?, kind])
  case h_3 kind => exact reads_literal (by simp [kind]) _ (by simp [constant?, kind])
  case h_4 kind =>
    split
    · next text denotes =>
      exact reads_literal (by simp [kind]) _ (by simp [constant?, kind, denotes])
    · exact reads_literal (by simp [kind]) _ (by simp only [constant?, kind])
  case h_5 kind =>
    split
    · next value denotes =>
      exact reads_literal (by simp [kind]) _ (by simp [constant?, kind, denotes])
    · apply reads_refuse
  case h_6 kind =>
    apply (reads_advance (by simp [kind])).bind (j := 0)
    intro t c₁ _ _
    apply reads_pure
    rintro _ ⟨rfl, rfl⟩
    exact .name kind
  case h_7 kind =>
    apply (reads_advance (by simp [kind])).bind (j := 0)
    intro opening c₁ on₁ len₁
    apply ((hx c₁ (on₁.inFunction.trans hf) (by omega)).bind (j := 0) _).mono (Nat.zero_le _)
      fun _ _ _ _ h => h
    intro inner c₂ _ _
    apply (reads_expect_pure ..).mono (Nat.zero_le _)
    rintro _ _ rest _ ⟨rfl, closing, rfl, isClosing⟩ u derived _ ⟨rfl, rfl⟩
    exact .grouping kind derived isClosing
  case h_8 => exact reads_listLiteral hx hf hc n room
  case h_9 => exact reads_objectLiteral hx hl hf hc n room
  case h_10 => apply reads_refuse

theorem reads_suffixes (hx : expression.ReadsBelow bound inside (Expression inside .lowest))
    (hf : c.inFunction = inside) (hc : c.ahead.length < bound) (n m : Nat) (e : Expr)
    (room : c.ahead.length < n) (turns : c.ahead.length < m) :
    (suffixes expression n m e).Reads c 0 fun e' u _ => Suffixed inside e u e' := by
  induction m generalizing e c with
  | zero => omega
  | succ m ih =>
    have next_ (c₁ : Cursor) (e : Expr) (on₁ : c.Onward c₁)
        (len₁ : c₁.ahead.length < c.ahead.length) :=
      ih (on₁.inFunction.trans hf) (by omega) e (by omega) (by omega)
    have on₁ := c.onward_advance
    unfold suffixes
    apply reads_eat_bind (j := 0)
    · intro opening w ahead isOpening
      have len₁ : c.advance.ahead.length < c.ahead.length := by simp [ahead]
      apply (reads_itemsBefore hx (on₁.inFunction.trans hf) (by omega) .rightParen n
        (by omega)).bind (j := 0)
      intro args c₂ on₂ len₂
      apply ((reads_expect ..).bind (j := 0) _).mono (Nat.zero_le _) fun _ _ _ _ h => h
      intro closing c₃ on₃ len₃
      apply (next_ c₃ _ ((on₁.trans on₂).trans on₃) (by omega)).mono (Nat.zero_le _)
      rintro e' v rest _ after _ ⟨rfl, isClosing⟩ u derived
      simpa using Suffixed.call isOpening derived isClosing after
    · intro _
      apply reads_eat?_bind (j := 0)
      · intro opening w ahead isOpening
        have len₁ : c.advance.ahead.length < c.ahead.length := by simp [ahead]
        apply ((hx c.advance (on₁.inFunction.trans hf) (by omega)).bind (j := 0) _).mono
          (Nat.zero_le _) fun _ _ _ _ h => h
        intro position c₂ on₂ len₂
        apply ((reads_expect ..).bind (j := 0) _).mono (Nat.zero_le _) fun _ _ _ _ h => h
        intro closing c₃ on₃ len₃
        apply (next_ c₃ _ ((on₁.trans on₂).trans on₃) (by omega)).mono (Nat.zero_le _)
        rintro e' v rest _ after _ ⟨rfl, isClosing⟩ u derived
        simpa using Suffixed.index (by simpa using isOpening) derived isClosing after
      · intro _
        apply reads_eat?_bind (j := 0)
        · intro dot w ahead isDot
          have len₁ : c.advance.ahead.length < c.ahead.length := by simp [ahead]
          apply ((reads_consume ..).bind (j := 0) _).mono (Nat.zero_le _) fun _ _ _ _ h => h
          intro member c₂ on₂ len₂
          apply (next_ c₂ _ (on₁.trans on₂) (by omega)).mono (Nat.zero_le _)
          rintro e' v rest _ after _ ⟨rfl, isMember⟩
          exact .member (by simpa using isDot) isMember after
        · intro _
          exact reads_pure .nil
        · omega
      · omega
    · omega

theorem reads_applications {operand : Parser Expr} {level : Level}
    (ho : operand.ReadsBelow bound inside (Expression inside level)) (hf : c.inFunction = inside)
    (hc : c.ahead.length ≤ bound) (operators : List Token.Kind) (n : Nat) (left : Expr)
    (room : c.ahead.length < n) :
    (applications operators operand n left).Reads c 0 fun e u _ =>
      Applied inside level operators left u e := by
  induction n generalizing left c with
  | zero => omega
  | succ n ih =>
    unfold applications
    apply reads_eat?_bind (j := 0)
    · intro op w ahead isOperator
      have on₁ := c.onward_advance
      have len₁ : c.advance.ahead.length < c.ahead.length := by simp [ahead]
      apply ((ho c.advance (on₁.inFunction.trans hf) (by omega)).bind (j := 0) _).mono
        (Nat.zero_le _) fun _ _ _ _ h => h
      intro right c₂ on₂ len₂
      apply (ih ((on₁.trans on₂).inFunction.trans hf) (by omega) _ (by omega)).mono
        (Nat.zero_le _)
      rintro e v rest _ after u derived
      exact .cons isOperator derived after
    · intro _
      exact reads_pure .nil
    · omega

theorem reads_expressionStatement
    (hx : expression.ReadsBelow bound inside (Expression inside .lowest))
    (hf : c.inFunction = inside) (hc : c.ahead.length < bound) :
    (expressionStatement expression).Reads c 1 fun s u _ =>
      ∃ w e semicolon, s = .expression e ∧ u = w ++ [semicolon] ∧
        Expression inside .lowest w e ∧ semicolon.kind = .semicolon := by
  unfold expressionStatement
  apply ((hx c hf hc).bind (j := 1) _).mono (by omega) fun _ _ _ _ h => h
  intro e c₁ _ _
  apply (reads_expect_pure ..).mono (Nat.le_refl _)
  rintro _ _ rest _ ⟨rfl, semicolon, rfl, isSemicolon⟩ w derived
  exact ⟨w, e, semicolon, rfl, rfl, derived, isSemicolon⟩

/-- A statement read to its end: no `else` follows to which it would be open. -/
def ReadsStatement (inside : Bool) (s : Stmt) (u rest : List Token) : Prop :=
  ∃ ajar, Statement inside ajar u s ∧ (ajar = true → ∀ t ∈ rest.head?, t.kind ≠ .elseWord)

/-- A clause that may be missing, and what follows in either case. -/
theorem reads_optional_bind {kind : Token.Kind} {K : Option Expr → Parser β}
    {D : β → List Token → List Token → Prop}
    (hx : expression.ReadsBelow bound inside (Expression inside .lowest))
    (hf : c.inFunction = inside) (hc : c.ahead.length < bound)
    (then_ : ∀ o c', c.Onward c' → c'.ahead.length ≤ c.ahead.length →
      (K o).Reads c' j fun b v rest => ∀ u, Optional inside u o → D b (u ++ v) rest) :
    (check kind >>= fun found =>
      if found = true then pure none >>= K else (some <$> expression) >>= K).Reads c j D := by
  apply reads_check_bind
  split
  · apply (then_ none c (.refl c) (Nat.le_refl _)).mono (Nat.le_refl _)
    intro b v rest _ h
    exact h [] .none
  · have read : (some <$> expression).Reads c 1 fun o u _ => Optional inside u o :=
      Reads.map ((hx c hf hc).mono (Nat.le_refl _) fun e u _ _ h => .some h)
    apply (read.bind _).mono (Nat.le_add_left j 1) fun _ _ _ _ h => h
    intro o c₁ on₁ len₁
    exact then_ o c₁ on₁ (by omega)

variable {statement : Parser Stmt}

theorem reads_branch (hx : expression.ReadsBelow bound inside (Expression inside .lowest))
    (hs : ∀ c : Cursor, c.inFunction = inside → c.ahead.length < bound →
      statement.Reads c 1 (ReadsStatement inside))
    (hf : c.inFunction = inside) (hc : c.ahead.length ≤ bound)
    (isKeyword : c.current.kind = .ifWord) :
    (branch expression statement).Reads c 1 (ReadsStatement inside) := by
  unfold branch
  apply (reads_advance (by simp [isKeyword])).bind (j := 0)
  intro keyword c₁ on₁ len₁
  apply ((reads_expect ..).bind (j := 0) _).mono (Nat.zero_le _) fun _ _ _ _ h => h
  intro opening c₂ on₂ len₂
  have on₂ := on₁.trans on₂
  apply ((hx c₂ (on₂.inFunction.trans hf) (by omega)).bind (j := 0) _).mono (Nat.zero_le _)
    fun _ _ _ _ h => h
  intro condition c₃ on₃ len₃
  apply ((reads_expect ..).bind (j := 0) _).mono (Nat.zero_le _) fun _ _ _ _ h => h
  intro closing c₄ on₄ len₄
  have on₄ := (on₂.trans on₃).trans on₄
  apply ((hs c₄ (on₄.inFunction.trans hf) (by omega)).bind (j := 0) _).mono (Nat.zero_le _)
    fun _ _ _ _ h => h
  intro thenBranch c₅ on₅ len₅
  have on₅ := on₄.trans on₅
  apply reads_eat_bind (j := 0)
  · intro otherwise w ahead isElse
    have on₆ := on₅.trans c₅.onward_advance
    apply ((hs c₅.advance (on₆.inFunction.trans hf) (by simp; omega)).bind (j := 0) _).mono
      (Nat.zero_le _) fun _ _ _ _ h => h
    intro elseBranch c₆ _ _
    apply reads_pure
    rintro y ⟨ajar, derivedElse, closed⟩ x ⟨ajar', derivedThen, noElse⟩ _ ⟨rfl, isClosing⟩ v
      derived _ ⟨rfl, isOpening⟩ _ ⟨rfl, rfl⟩
    -- An `else` follows the first branch, so that branch is not ajar.
    have shut : ajar' = false := by
      cases ajar'
      · rfl
      · exact absurd isElse (noElse rfl otherwise (by simp))
    subst shut
    refine ⟨ajar, ?_, closed⟩
    simpa using Statement.branches isKeyword isOpening derived isClosing derivedThen isElse
      derivedElse
  · intro noElse
    apply reads_pure
    rintro x ⟨ajar, derivedThen, _⟩ _ ⟨rfl, isClosing⟩ v derived _ ⟨rfl, isOpening⟩ _ ⟨rfl, rfl⟩
    refine ⟨true, ?_, fun _ => noElse⟩
    simpa using Statement.branch isKeyword isOpening derived isClosing derivedThen
  · omega

theorem reads_whileLoop (hx : expression.ReadsBelow bound inside (Expression inside .lowest))
    (hs : ∀ c : Cursor, c.inFunction = inside → c.ahead.length < bound →
      statement.Reads c 1 (ReadsStatement inside))
    (hf : c.inFunction = inside) (hc : c.ahead.length ≤ bound)
    (isKeyword : c.current.kind = .whileWord) :
    (whileLoop expression statement).Reads c 1 (ReadsStatement inside) := by
  unfold whileLoop
  apply (reads_advance (by simp [isKeyword])).bind (j := 0)
  intro keyword c₁ on₁ len₁
  apply ((reads_expect ..).bind (j := 0) _).mono (Nat.zero_le _) fun _ _ _ _ h => h
  intro opening c₂ on₂ len₂
  have on₂ := on₁.trans on₂
  apply ((hx c₂ (on₂.inFunction.trans hf) (by omega)).bind (j := 0) _).mono (Nat.zero_le _)
    fun _ _ _ _ h => h
  intro condition c₃ on₃ len₃
  apply ((reads_expect ..).bind (j := 0) _).mono (Nat.zero_le _) fun _ _ _ _ h => h
  intro closing c₄ on₄ len₄
  have on₄ := (on₂.trans on₃).trans on₄
  apply ((hs c₄ (on₄.inFunction.trans hf) (by omega)).bind (j := 0) _).mono (Nat.zero_le _)
    fun _ _ _ _ h => h
  intro body c₅ _ _
  apply reads_pure
  rintro x ⟨ajar, derivedBody, closed⟩ _ ⟨rfl, isClosing⟩ v derived _ ⟨rfl, isOpening⟩ _ ⟨rfl, rfl⟩
  refine ⟨ajar, ?_, by simpa using closed⟩
  simpa using Statement.whileLoop isKeyword isOpening derived isClosing derivedBody

theorem loopOf_eq_unrolled (keyword : Token) (initializer : Option Stmt)
    (condition increment : Option Expr) (body : Stmt) :
    loopOf keyword initializer condition increment body =
      unrolled keyword initializer condition increment body := by
  cases initializer <;> cases increment <;> rfl

theorem reads_loopInitializer
    (hx : expression.ReadsBelow bound inside (Expression inside .lowest))
    (hf : c.inFunction = inside) (hc : c.ahead.length < bound) :
    (loopInitializer expression).Reads c 1 fun o u _ => Initializer inside u o := by
  unfold loopInitializer
  apply reads_eat_bind (j := 0)
  · intro semicolon w ahead isSemicolon
    exact reads_pure (.none isSemicolon)
  · intro _
    apply reads_eat_bind (j := 1)
    · intro keyword w ahead isKeyword
      have declaration := reads_varDeclaration (c := c.advance) hx
        (c.onward_advance.inFunction.trans hf) (by simp; omega)
      exact Reads.map (declaration.mono (Nat.le_refl _) fun s u _ _ h => .var (h keyword isKeyword))
    · intro _
      refine Reads.map ((reads_expressionStatement hx hf hc).mono (Nat.le_refl _) ?_)
      rintro _ _ _ _ ⟨w, e, semicolon, rfl, rfl, derived, isSemicolon⟩
      exact .expression derived isSemicolon
    · omega
  · omega

theorem reads_forLoop (hx : expression.ReadsBelow bound inside (Expression inside .lowest))
    (hs : ∀ c : Cursor, c.inFunction = inside → c.ahead.length < bound →
      statement.Reads c 1 (ReadsStatement inside))
    (hf : c.inFunction = inside) (hc : c.ahead.length ≤ bound)
    (isKeyword : c.current.kind = .forWord) :
    (forLoop expression statement).Reads c 1 (ReadsStatement inside) := by
  unfold forLoop
  apply (reads_advance (by simp [isKeyword])).bind (j := 0)
  intro keyword c₁ on₁ len₁
  apply ((reads_expect ..).bind (j := 0) _).mono (Nat.zero_le _) fun _ _ _ _ h => h
  intro opening c₂ on₂ len₂
  have on₂ := on₁.trans on₂
  apply ((reads_loopInitializer hx (on₂.inFunction.trans hf) (by omega)).bind (j := 0) _).mono
    (Nat.zero_le _) fun _ _ _ _ h => h
  intro initializer c₃ on₃ len₃
  have on₃ := on₂.trans on₃
  apply reads_optional_bind hx (on₃.inFunction.trans hf) (by omega)
  intro condition c₄ on₄ len₄
  have on₄ := on₃.trans on₄
  apply ((reads_expect ..).bind (j := 0) _).mono (Nat.zero_le _) fun _ _ _ _ h => h
  intro semicolon c₅ on₅ len₅
  have on₅ := on₄.trans on₅
  apply reads_optional_bind hx (on₅.inFunction.trans hf) (by omega)
  intro increment c₆ on₆ len₆
  have on₆ := on₅.trans on₆
  apply ((reads_expect ..).bind (j := 0) _).mono (Nat.zero_le _) fun _ _ _ _ h => h
  intro closing c₇ on₇ len₇
  have on₇ := on₆.trans on₇
  apply ((hs c₇ (on₇.inFunction.trans hf) (by omega)).bind (j := 0) _).mono (Nat.zero_le _)
    fun _ _ _ _ h => h
  intro body c₈ _ _
  apply reads_pure
  rintro x ⟨ajar, derivedBody, closed⟩ _ ⟨rfl, isClosing⟩ w derivedIncrement _ ⟨rfl, isSemicolon⟩
    v derivedCondition u derivedInitializer _ ⟨rfl, isOpening⟩ _ ⟨rfl, rfl⟩
  refine ⟨ajar, ?_, by simpa using closed⟩
  rw [loopOf_eq_unrolled]
  simpa using Statement.forLoop isKeyword isOpening derivedInitializer derivedCondition
    isSemicolon derivedIncrement isClosing derivedBody

theorem reads_returnStatement (hx : expression.ReadsBelow bound inside (Expression inside .lowest))
    (hf : c.inFunction = inside) (hc : c.ahead.length ≤ bound)
    (isKeyword : c.current.kind = .returnWord) :
    (returnStatement expression).Reads c 1 (ReadsStatement inside) := by
  unfold returnStatement
  apply (reads_advance (by simp [isKeyword])).bind (j := 0)
  intro keyword c₁ on₁ len₁
  have value (c' : Cursor) (hf' : c'.inFunction = inside) (len' : c'.ahead.length < bound) :
      (do
        let value ← if ← check .semicolon then pure none else some <$> expression
        let _ ← expect .semicolon "after return value."
        return .returns keyword value : Parser Stmt).Reads c' 0 fun s u _ =>
          ∃ w value semicolon, s = .returns keyword value ∧ u = w ++ [semicolon] ∧
            Optional inside w value ∧ semicolon.kind = .semicolon := by
    apply reads_optional_bind hx hf' len'
    intro value c₂ _ _
    apply (reads_expect_pure ..).mono (Nat.zero_le _)
    rintro _ _ _ _ ⟨rfl, semicolon, rfl, isSemicolon⟩ w derived
    exact ⟨w, value, semicolon, rfl, rfl, derived, isSemicolon⟩
  have hf₁ := on₁.inFunction.trans hf
  apply reads_get_bind
  cases inside with
  | false =>
    simp only [hf₁, Bool.not_false, if_true]
    apply reads_report_bind
    exact (value (c₁.report _ _) hf₁ (by simp; omega)).mono (Nat.zero_le _)
      fun _ _ _ _ _ => trivial
  | true =>
    simp only [hf₁, Bool.not_true, Bool.false_eq_true, if_false]
    apply (value c₁ hf₁ (by omega)).mono (Nat.zero_le _)
    rintro _ _ rest _ ⟨w, value, semicolon, rfl, rfl, derived, isSemicolon⟩ _ ⟨rfl, rfl⟩
    exact ⟨false, .returns isKeyword derived isSemicolon, by simp⟩

end Productions

/-! The ladder of binary levels. The parser runs through the levels above the unary one in a
single pass; here each level is the one below it followed by its own operators. -/

theorem applicationsUpTo_append (operand : Level → Parser Expr) (n : Nat) (tighter : List Level)
    (level : Level) (left : Expr) :
    applicationsUpTo operand n (tighter ++ [level]) left =
      applicationsUpTo operand n tighter left >>=
        applications level.operators (operand level.next) n := by
  induction tighter generalizing left with
  | nil => simp [applicationsUpTo]
  | cons first rest ih => simp [applicationsUpTo, ih, bind_assoc]

/-- The tightest binary level takes its first operand one call down. -/
theorem expression_product (n : Nat) :
    expression (n + 1) .product =
      expression n .unary >>= applications [.slash, .star, .percent] (expression n .unary) n := by
  simp [expression, applicationsUpTo, Level.upTo, Level.operators, Level.next]

/-- Every other one goes on where the level below it stopped. -/
theorem expression_operation (operation : Operation level operand operators)
    (notProduct : level ≠ .product) (n : Nat) :
    expression (n + 1) level =
      expression (n + 1) operand >>= applications operators (expression n operand) n := by
  have unrolled (level : Level) (h : level.upTo = operand.upTo ++ [level])
      (next_ : level.next = operand) (same : level.operators = operators)
      (hl : expression (n + 1) level =
        expression n .unary >>= applicationsUpTo (expression n) n level.upTo)
      (ho : expression (n + 1) operand =
        expression n .unary >>= applicationsUpTo (expression n) n operand.upTo) :
      expression (n + 1) level =
        expression (n + 1) operand >>= applications operators (expression n operand) n := by
    rw [hl, ho, h, bind_assoc]
    congr 1
    funext first
    rw [applicationsUpTo_append, next_, same]
  cases operation with
  | product => contradiction
  | or | and | equality | comparison | sum =>
    exact unrolled _ rfl rfl rfl (by simp [expression]) (by simp [expression])

/-- How many calls lead from a level to the tightest one. -/
def Level.depth : Level → Nat
  | .call => 1
  | .unary => 2
  | .lowest | .assignment => 4
  | _ => 3

/-- With the given depth every production reads what it should, wherever eight calls for each
token ahead and those down the levels fit in. -/
structure ReadsAll (n : Nat) : Prop where
  expression : ∀ (level : Level) (c : Cursor), 8 * c.ahead.length + level.depth ≤ n →
    (expression n level).Reads c 1 fun e u _ => Expression c.inFunction level u e
  statement : ∀ c : Cursor, 8 * c.ahead.length + 5 ≤ n →
    (statement n).Reads c 1 (ReadsStatement c.inFunction)
  line : ∀ c : Cursor, 8 * c.ahead.length + 6 ≤ n →
    (line n).Reads c 1 fun s u _ => Line c.inFunction u s

namespace ReadsAll

variable {n : Nat}

theorem expressionBelow (h : ReadsAll n) (inside : Bool) (level : Level) (bound : Nat)
    (fits : 8 * bound + level.depth ≤ n + 8) :
    (Parse.expression n level).ReadsBelow bound inside (Expression inside level) := by
  intro c hf hc
  exact hf ▸ h.expression level c (by omega)

theorem lineBelow (h : ReadsAll n) (inside : Bool) (bound : Nat) (fits : 8 * bound + 6 ≤ n + 8) :
    (Parse.line n).ReadsBelow bound inside (Line inside) := by
  intro c hf hc
  exact hf ▸ h.line c (by omega)

theorem assignment_succ (h : ReadsAll n) (c : Cursor) (fits : 8 * c.ahead.length + 4 ≤ n + 1) :
    (Parse.expression (n + 1) .assignment).Reads c 1 fun e u _ =>
      Expression c.inFunction .assignment u e := by
  rw [Parse.expression]
  apply (h.expression .or c (by simp [Level.depth]; omega)).bind (j := 0)
  intro target c₁ on₁ len₁
  apply reads_eat?_bind (j := 1)
  · intro op w ahead isOperator
    have on₂ := on₁.trans c₁.onward_advance
    have len₂ : c₁.advance.ahead.length < c.ahead.length := by simp [ahead] at len₁ ⊢; omega
    apply (h.expression .assignment c₁.advance (by simp only [Level.depth]; omega)).bind (j := 0)
    intro value c₂ on₃ _
    cases assignable : target.isAssignable with
    | false =>
      apply reads_report_bind
      exact reads_pure trivial
    | true =>
      apply reads_pure
      intro v derivedValue u derivedTarget
      rw [on₂.inFunction] at derivedValue
      have target := derivedTarget.call_of_assignable assignable
      simp only [List.mem_cons, List.not_mem_nil, or_false] at isOperator
      rw [List.append_nil]
      rcases isOperator with kind | kind | kind <;> simp only [assignment, kind]
      · exact .assign target assignable kind derivedValue
      · exact .increase target assignable kind derivedValue
      · exact .decrease target assignable kind derivedValue
  · intro _
    apply reads_pure
    intro u derived
    simpa using .unassigned derived
  · omega

theorem unary_succ (h : ReadsAll n) (c : Cursor) (fits : 8 * c.ahead.length + 2 ≤ n + 1) :
    (Parse.expression (n + 1) .unary).Reads c 1 fun e u _ => Expression c.inFunction .unary u e := by
  rw [Parse.expression]
  apply reads_eat?_bind (j := 1)
  · intro op w ahead isOperator
    have len₁ : c.advance.ahead.length < c.ahead.length := by simp [ahead]
    apply (h.expression .unary c.advance (by simp only [Level.depth]; omega)).bind (j := 0)
    intro operand c₂ _ _
    apply reads_pure
    intro u derived
    rw [c.onward_advance.inFunction] at derived
    simpa using .signed (by simpa using isOperator) derived
  · intro _
    apply (h.expression .call c (by simp [Level.depth]; omega)).mono (Nat.le_refl _)
    intro e u rest _ derived
    exact .unsigned derived
  · omega

theorem call_succ (h : ReadsAll n) (c : Cursor) (fits : 8 * c.ahead.length + 1 ≤ n + 1) :
    (Parse.expression (n + 1) .call).Reads c 1 fun e u _ => Expression c.inFunction .call u e := by
  rw [Parse.expression]
  have inner := h.expressionBelow c.inFunction .lowest c.ahead.length (by simp [Level.depth]; omega)
  have lines := h.lineBelow true c.ahead.length (by omega)
  apply (reads_primary inner lines rfl (Nat.le_refl _) n (by omega)).bind (j := 0)
  intro first c₁ on₁ len₁
  apply (reads_suffixes inner on₁.inFunction (by omega) n n first (by omega) (by omega)).mono
    (Nat.le_refl _)
  intro e w rest _ after u derived
  exact .suffixed derived after

/-- A binary level reads what it should if the level below it does. -/
theorem operation_succ (h : ReadsAll n) (c : Cursor) (fits : 8 * c.ahead.length + 3 ≤ n + 1)
    (operation : Operation level operand operators) (tight : operand.depth ≤ 3)
    (first : Parser Expr)
    (below : first.Reads c 1 fun e u _ => Expression c.inFunction operand u e) :
    (first >>= applications operators (Parse.expression n operand) n).Reads c 1 fun e u _ =>
      Expression c.inFunction level u e := by
  apply below.bind (j := 0)
  intro left c₁ on₁ len₁
  have operands := h.expressionBelow c.inFunction operand c.ahead.length (by omega)
  apply (reads_applications operands on₁.inFunction (by omega) operators n left (by omega)).mono
    (Nat.le_refl _)
  intro e w rest _ after u derived
  exact .operation operation derived after

theorem binary_succ (h : ReadsAll n) (c : Cursor) (fits : 8 * c.ahead.length + 3 ≤ n + 1)
    (operation : Operation level operand operators) :
    (Parse.expression (n + 1) level).Reads c 1 fun e u _ => Expression c.inFunction level u e := by
  have unary := h.expression .unary c (by simp [Level.depth]; omega)
  have product := expression_product n ▸ h.operation_succ c fits .product (by decide) _ unary
  have sum := expression_operation .sum (by decide) n ▸
    h.operation_succ c fits .sum (by decide) _ product
  have comparison := expression_operation .comparison (by decide) n ▸
    h.operation_succ c fits .comparison (by decide) _ sum
  have equality := expression_operation .equality (by decide) n ▸
    h.operation_succ c fits .equality (by decide) _ comparison
  have and := expression_operation .and (by decide) n ▸
    h.operation_succ c fits .and (by decide) _ equality
  have or := expression_operation .or (by decide) n ▸
    h.operation_succ c fits .or (by decide) _ and
  cases operation with
  | or => exact or
  | and => exact and
  | equality => exact equality
  | comparison => exact comparison
  | sum => exact sum
  | product => exact product

theorem expression_succ (h : ReadsAll n) (level : Level) (c : Cursor)
    (fits : 8 * c.ahead.length + level.depth ≤ n + 1) :
    (Parse.expression (n + 1) level).Reads c 1 fun e u _ => Expression c.inFunction level u e := by
  cases level with
  | lowest =>
    have same : Parse.expression (n + 1) .lowest = Parse.expression (n + 1) .assignment := by
      rw [Parse.expression, Parse.expression]
    rw [same]
    apply (h.assignment_succ c fits).mono (Nat.le_refl _)
    intro e u rest _ derived
    exact .lowest derived
  | assignment => exact h.assignment_succ c fits
  | or => exact h.binary_succ c fits .or
  | and => exact h.binary_succ c fits .and
  | equality => exact h.binary_succ c fits .equality
  | comparison => exact h.binary_succ c fits .comparison
  | sum => exact h.binary_succ c fits .sum
  | product => exact h.binary_succ c fits .product
  | unary => exact h.unary_succ c fits
  | call => exact h.call_succ c fits

theorem statement_succ (h : ReadsAll n) (c : Cursor) (fits : 8 * c.ahead.length + 5 ≤ n + 1) :
    (Parse.statement (n + 1)).Reads c 1 (ReadsStatement c.inFunction) := by
  have inner := h.expressionBelow c.inFunction .lowest (c.ahead.length + 1)
    (by simp [Level.depth]; omega)
  have bodies (c' : Cursor) (hf : c'.inFunction = c.inFunction)
      (hc : c'.ahead.length < c.ahead.length) :
      (Parse.statement n).Reads c' 1 (ReadsStatement c.inFunction) :=
    hf ▸ h.statement c' (by omega)
  have inner' := h.expressionBelow c.inFunction .lowest c.ahead.length
    (by simp [Level.depth]; omega)
  rw [Parse.statement]
  apply reads_current_bind
  split
  case h_1 isBrace =>
    apply (reads_advance (by simp [isBrace])).bind (j := 0)
    intro opening c₁ on₁ len₁
    have lines := h.lineBelow c.inFunction c.ahead.length (by omega)
    apply ((reads_block lines on₁.inFunction (by omega) n (by omega)).bind (j := 0) _).mono
      (Nat.zero_le _) fun _ _ _ _ h => h
    intro body c₂ _ _
    apply reads_pure
    rintro _ ⟨w, closing, rfl, derived, isClosing⟩ _ ⟨rfl, rfl⟩
    exact ⟨false, by simpa using .block isBrace derived isClosing, by simp⟩
  case h_2 isKeyword => exact reads_branch inner' bodies rfl (Nat.le_refl _) isKeyword
  case h_3 isKeyword => exact reads_whileLoop inner' bodies rfl (Nat.le_refl _) isKeyword
  case h_4 isKeyword => exact reads_forLoop inner' bodies rfl (Nat.le_refl _) isKeyword
  case h_5 isKeyword => exact reads_returnStatement inner' rfl (Nat.le_refl _) isKeyword
  case h_6 notBrace _ _ _ _ =>
    apply (reads_expressionStatement inner rfl (by omega)).mono (Nat.le_refl _)
    rintro _ _ rest ahead ⟨w, e, semicolon, rfl, rfl, derived, isSemicolon⟩
    obtain ⟨t, v, rfl, _⟩ := derived.starts
    have first : c.current = t := Cursor.current_of_ahead ahead
    exact ⟨false, .expression derived (first ▸ notBrace) isSemicolon, by simp⟩

theorem line_succ (h : ReadsAll n) (c : Cursor) (fits : 8 * c.ahead.length + 6 ≤ n + 1) :
    (Parse.line (n + 1)).Reads c 1 fun s u _ => Line c.inFunction u s := by
  have inner := h.expressionBelow c.inFunction .lowest c.ahead.length (by simp [Level.depth]; omega)
  have lines := h.lineBelow true c.ahead.length (by omega)
  rw [Parse.line]
  apply reads_eat_bind (j := 1)
  · intro keyword w ahead isKeyword
    apply (reads_varDeclaration inner c.onward_advance.inFunction (by simp [ahead])).mono
      (Nat.le_refl _)
    intro s u rest _ derived
    exact .declaration (.var (derived keyword isKeyword))
  · intro _
    apply reads_eat_bind (j := 1)
    · intro keyword w ahead isKeyword
      apply (reads_functionDeclaration c.inFunction lines (by simp [ahead]) n
        (by simp [ahead] at fits ⊢; omega)).bind (j := 0)
      intro f c₁ _ _
      apply reads_pure
      intro u derived
      simpa using Line.declaration (.function (derived keyword isKeyword))
    · intro _
      apply (h.statement c (by omega)).mono (Nat.le_refl _)
      rintro s u rest _ ⟨ajar, derived, _⟩
      exact .statement derived
    · omega
  · omega

end ReadsAll

theorem readsAll (n : Nat) : ReadsAll n := by
  induction n with
  | zero =>
    constructor
    · intro level c fits
      cases level <;> simp [Level.depth] at fits
    · intro c fits
      omega
    · intro c fits
      omega
  | succ n ih => exact ⟨ih.expression_succ, ih.statement_succ, ih.line_succ⟩

/-- The lines of a program. Without an error they are all there. -/
theorem reads_lines {line : Parser Stmt} {c : Cursor} {bound : Nat} {inside : Bool}
    (hl : line.ReadsBelow bound inside (Line inside)) (hf : c.inFunction = inside)
    (hc : c.ahead.length < bound) (n : Nat) (done : Array Stmt) (room : c.ahead.length < n) :
    (lines line n done).Reads c 0 fun p u rest =>
      rest = [] ∧ ∃ more, p = done.toList ++ more ∧ Lines inside u more := by
  induction n generalizing done c with
  | zero => omega
  | succ n ih =>
    unfold lines
    apply reads_atEnd_bind
    cases ended : c.atEnd with
    | true =>
      apply reads_pure
      exact ⟨Cursor.ahead_of_atEnd ended, [], by simp, .nil⟩
    | false =>
      apply ((reads_recover ended (hl c hf hc)).bind (j := 0) _).mono (Nat.zero_le _)
        fun _ _ _ _ h => h
      intro recovered c₁ on₁ len₁
      have next_ := fun done => ih (on₁.inFunction.trans hf) (by omega) done (by omega)
      cases recovered with
      | none =>
        apply (next_ done).mono (Nat.zero_le _)
        rintro _ v rest _ _ u ⟨_, impossible, _⟩
        contradiction
      | some s =>
        apply (next_ (done.push s)).mono (Nat.zero_le _)
        rintro _ v rest _ ⟨ended, more, rfl, derived⟩ u ⟨_, same, first⟩
        cases same
        exact ⟨ended, s :: more, by simp, .cons first derived⟩

end SoftScript.Parse
