import SoftScript.Proofs.Printing.Word

/-! Groupings can be told from the words. Two trees that differ in groupings only have different
words: the words are read from the left, and a closing parenthesis behind an expression closes the
last grouping opened before it. Expressions that begin together make a spine, from the first leaf up
to the largest of them; all groupings of a spine open in front of the leaf. -/
namespace SoftScript

namespace Expr

/-- The groupings that open in front of an expression's first leaf. -/
def opens : Expr → Nat
  | .assign left _ | .binary left _ _ | .index left _ _ | .access left _ _ | .call left _ _ =>
    left.opens
  | .grouping inner => inner.opens + 1
  | _ => 0

/-- The words from the first leaf on. -/
def body : Expr → List Word
  | .assign target value => target.body ++ .mark .equal :: value.words
  | .binary left op right => left.body ++ .operator op.kind :: right.words
  | .index left _ position =>
    left.body ++ .mark .leftSquare :: position.words ++ [.mark .rightSquare]
  | .access left _ member => left.body ++ [.mark .dot, .name member.lexeme]
  | .call callee _ args =>
    callee.body ++ .mark .leftParen :: Word.listed (wordLists args) ++ [.mark .rightParen]
  | .grouping inner => inner.body ++ [.mark .rightParen]
  | e => e.words

theorem words_eq (e : Expr) : e.words = List.replicate e.opens (.mark .leftParen) ++ e.body := by
  cases e with
  | assign left | binary left | index left | access left | call left =>
    simp [words, opens, body, left.words_eq]
  | grouping inner => simp [words, opens, body, inner.words_eq, List.replicate_succ]
  | _ => simp [opens, body]

theorem body_head (e : Expr) : ∃ x ws, e.body = x :: ws ∧ x ≠ .mark .leftParen := by
  cases e with
  | assign left | binary left | index left | access left | call left =>
    obtain ⟨x, ws, same, other⟩ := left.body_head
    exact ⟨x, _, by simp only [body, same, List.cons_append]; rfl, other⟩
  | grouping inner =>
    obtain ⟨x, ws, same, other⟩ := inner.body_head
    exact ⟨x, _, by simp only [body, same, List.cons_append]; rfl, other⟩
  | _ => exact ⟨_, _, by simp only [body, words, List.cons_append]; rfl, by simp⟩

/-- Groupings that were opened in front of an expression, closed as long as the words do. -/
def close (e : Expr) : Nat → List Word → Expr × Nat × List Word
  | k + 1, .mark .rightParen :: rest => close (.grouping e) k rest
  | k, rest => (e, k, rest)

theorem close_zero (e : Expr) (rest : List Word) : e.close 0 rest = (e, 0, rest) := by
  simp [close]

theorem close_of_ne {x : Word} (h : x ≠ .mark .rightParen) (e : Expr) (k : Nat) (rest : List Word) :
    e.close k (x :: rest) = (e, k, x :: rest) := by
  unfold close
  split
  · simp_all
  · rfl

/-- Where an expression begins and its groupings close, no other expression of the same ungrouped
tree does. -/
def Regroups (e : Expr) : Prop :=
  ∀ (e' : Expr) (k k' : Nat) (rest rest' : List Word), e'.ungrouped = e.ungrouped →
    e.opens + k = e'.opens + k' → e.body ++ rest = e'.body ++ rest' →
      e.close k rest = e'.close k' rest'

/-- The words tell an expression from all others of the same ungrouped tree. -/
def Told (e : Expr) : Prop :=
  ∀ (e' : Expr) (rest rest' : List Word), e'.ungrouped = e.ungrouped →
    e.words ++ rest = e'.words ++ rest' → e = e' ∧ rest = rest'

theorem run_inj {x : Word} {n m : Nat} {u v : List Word}
    (hu : ∃ y ws, u = y :: ws ∧ y ≠ x) (hv : ∃ y ws, v = y :: ws ∧ y ≠ x)
    (same : List.replicate n x ++ u = List.replicate m x ++ v) : n = m ∧ u = v := by
  obtain ⟨y, ws, rfl, hy⟩ := hu
  obtain ⟨z, vs, rfl, hz⟩ := hv
  induction n generalizing m with
  | zero =>
    cases m with
    | zero => exact ⟨rfl, by simpa using same⟩
    | succ m => simp [List.replicate_succ, hy] at same
  | succ n ih =>
    cases m with
    | zero => simp [List.replicate_succ, hz.symm] at same
    | succ m =>
      simp only [List.replicate_succ, List.cons_append, List.cons.injEq, true_and] at same
      obtain ⟨rfl, equal⟩ := ih same
      exact ⟨rfl, equal⟩

theorem Regroups.told {e : Expr} (h : e.Regroups) : e.Told := by
  intro e' rest rest' tree same
  rw [words_eq, words_eq, List.append_assoc, List.append_assoc] at same
  have start (e : Expr) (rest : List Word) :
      ∃ y ws, e.body ++ rest = y :: ws ∧ y ≠ .mark .leftParen := by
    obtain ⟨y, ws, equal, other⟩ := e.body_head
    exact ⟨y, ws ++ rest, by simp [equal], other⟩
  obtain ⟨opens, bodies⟩ := run_inj (start e rest) (start e' rest') same
  have closed := h e' 0 0 rest rest' tree (by omega) bodies
  simpa [close_zero] using closed

/-- Groupings around an expression are ones still open that are closed at once. -/
theorem peel (e : Expr) (k : Nat) (rest : List Word) :
    ∃ (core : Expr) (k' : Nat) (rest' : List Word), core.isGrouping = false ∧ core.ungrouped = e.ungrouped ∧
      core.opens + k' = e.opens + k ∧ core.body ++ rest' = e.body ++ rest ∧
      core.close k' rest' = e.close k rest := by
  match e with
  | .grouping inner =>
    obtain ⟨core, k', rest', other, tree, opens, body, closed⟩ :=
      inner.peel (k + 1) (.mark .rightParen :: rest)
    refine ⟨core, k', rest', other, ?_, ?_, ?_, ?_⟩
    · simpa [rebuilt, unparenthesized] using tree
    · simp only [Expr.opens]; omega
    · simpa [Expr.body] using body
    · simpa [close] using closed
  | .assign .. | .binary .. | .index .. | .access .. | .call .. | .literal .. | .list .. |
    .unary .. | .variable _ | .object .. => exact ⟨_, k, rest, rfl, rfl, rfl, rfl, rfl⟩

/-- It is enough to compare with expressions that are no groupings. -/
theorem Regroups.of_core {e : Expr}
    (h : ∀ (e' : Expr) (k k' : Nat) (rest rest' : List Word), e'.isGrouping = false →
      e'.ungrouped = e.ungrouped → e.opens + k = e'.opens + k' →
      e.body ++ rest = e'.body ++ rest' → e = e' ∧ k = k' ∧ rest = rest') : e.Regroups := by
  intro e' k k' rest rest' tree opens body
  obtain ⟨core, j, tail, other, coreTree, coreOpens, coreBody, closed⟩ := e'.peel k' rest'
  obtain ⟨rfl, rfl, rfl⟩ :=
    h core k j rest tail other (coreTree.trans tree) (opens.trans coreOpens.symm)
      (body.trans coreBody.symm)
  exact closed

/-- The left part of a spine, in front of a word that closes nothing. -/
theorem Regroups.left {e e' : Expr} (h : e.Regroups) {k k' : Nat} {x x' : Word} {rest rest' : List Word}
    (tree : e'.ungrouped = e.ungrouped) (opens : e.opens + k = e'.opens + k')
    (body : e.body ++ x :: rest = e'.body ++ x' :: rest') (hx : x ≠ .mark .rightParen)
    (hx' : x' ≠ .mark .rightParen) : e = e' ∧ k = k' ∧ x = x' ∧ rest = rest' := by
  have closed := h e' k k' _ _ tree opens body
  rw [close_of_ne hx, close_of_ne hx'] at closed
  simpa using closed

theorem Regroups.grouping {inner : Expr} (h : inner.Regroups) : (grouping inner).Regroups := by
  intro e' k k' rest rest' tree opens body
  have closed := h e' (k + 1) k' (.mark .rightParen :: rest) rest'
    (by simpa [rebuilt, unparenthesized] using tree) (by simp only [Expr.opens] at opens; omega)
    (by simpa [Expr.body] using body)
  simpa [close] using closed

theorem Regroups.binary {left right : Expr} (hl : left.Regroups) (hr : right.Told) :
    (binary left op right).Regroups := by
  apply Regroups.of_core
  intro e' k k' rest rest' other tree opens body
  cases e' <;> simp [isGrouping, rebuilt, unparenthesized] at other tree
  obtain ⟨treeLeft, rfl, treeRight⟩ := tree
  simp only [Expr.opens, Expr.body, List.append_assoc, List.cons_append] at opens body
  obtain ⟨rfl, rfl, _, after⟩ := hl.left treeLeft opens body (by simp) (by simp)
  obtain ⟨rfl, rfl⟩ := hr _ _ _ treeRight after
  exact ⟨rfl, rfl, rfl⟩

theorem Regroups.assign {target value : Expr} (ht : target.Regroups) (hv : value.Told) :
    (assign target value).Regroups := by
  apply Regroups.of_core
  intro e' k k' rest rest' other tree opens body
  cases e' <;> simp [isGrouping, rebuilt, unparenthesized] at other tree
  obtain ⟨treeTarget, treeValue⟩ := tree
  simp only [Expr.opens, Expr.body, List.append_assoc, List.cons_append] at opens body
  obtain ⟨rfl, rfl, _, after⟩ := ht.left treeTarget opens body (by simp) (by simp)
  obtain ⟨rfl, rfl⟩ := hv _ _ _ treeValue after
  exact ⟨rfl, rfl, rfl⟩

theorem Regroups.index {left position : Expr} (hl : left.Regroups) (hp : position.Told) :
    (index left bracket position).Regroups := by
  apply Regroups.of_core
  intro e' k k' rest rest' other tree opens body
  cases e' <;> simp [isGrouping, rebuilt, unparenthesized] at other tree
  obtain ⟨treeLeft, rfl, treePosition⟩ := tree
  simp only [Expr.opens, Expr.body, List.append_assoc, List.cons_append] at opens body
  obtain ⟨rfl, rfl, _, after⟩ := hl.left treeLeft opens body (by simp) (by simp)
  obtain ⟨rfl, later⟩ := hp _ _ _ treePosition after
  exact ⟨rfl, rfl, by simpa using later⟩

theorem Regroups.access {left : Expr} (hl : left.Regroups) : (access left dot member).Regroups := by
  apply Regroups.of_core
  intro e' k k' rest rest' other tree opens body
  cases e' <;> simp [isGrouping, rebuilt, unparenthesized] at other tree
  obtain ⟨treeLeft, rfl, rfl⟩ := tree
  simp only [Expr.opens, Expr.body, List.append_assoc, List.cons_append] at opens body
  obtain ⟨rfl, rfl, _, after⟩ := hl.left treeLeft opens body (by simp) (by simp)
  exact ⟨rfl, rfl, by simpa using after⟩

/-- The words tell a list of expressions from all others. -/
def AllTold (es : List Expr) : Prop :=
  ∀ (es' : List Expr) (rest rest' : List Word), ungroupeds es' = ungroupeds es →
    Word.listed (wordLists es) ++ rest = Word.listed (wordLists es') ++ rest' →
      es = es' ∧ rest = rest'

theorem Regroups.call {callee : Expr} (hc : callee.Regroups) (ha : AllTold args) :
    (call callee paren args).Regroups := by
  apply Regroups.of_core
  intro e' k k' rest rest' other tree opens body
  cases e' <;> simp [isGrouping, rebuilt, unparenthesized] at other tree
  obtain ⟨treeCallee, rfl, treeArgs⟩ := tree
  simp only [Expr.opens, Expr.body, List.append_assoc, List.cons_append] at opens body
  obtain ⟨rfl, rfl, _, after⟩ := hc.left treeCallee opens body (by simp) (by simp)
  obtain ⟨rfl, later⟩ := ha _ _ _ treeArgs after
  exact ⟨rfl, rfl, by simpa using later⟩

theorem AllTold.nil : AllTold [] := by
  intro es' rest rest' tree words
  cases es' with
  | nil => exact ⟨rfl, by simpa using words⟩
  | cons e es => simp [rebuilts] at tree

theorem AllTold.cons {e : Expr} (first : e.Told) (later : AllTold es) : AllTold (e :: es) := by
  intro es' rest rest' tree words
  cases es' with
  | nil => simp [rebuilts] at tree
  | cons e' es' =>
    simp only [rebuilts, List.cons.injEq] at tree
    obtain ⟨treeFirst, treeLater⟩ := tree
    -- a comma follows where there are more, on both sides at once
    cases es with
    | nil =>
      cases es' with
      | cons => simp [rebuilts] at treeLater
      | nil =>
        simp only [wordLists, Word.listed, List.intercalate_singleton] at words
        obtain ⟨rfl, rfl⟩ := first _ _ _ treeFirst words
        exact ⟨rfl, rfl⟩
    | cons second es =>
      cases es' with
      | nil => simp [rebuilts] at treeLater
      | cons second' es' =>
        simp only [wordLists, Word.listed, List.intercalate_cons_cons, List.append_assoc,
          List.cons_append, List.nil_append] at words
        obtain ⟨rfl, after⟩ := first _ _ _ treeFirst words
        obtain ⟨same, rfl⟩ := later _ _ _ treeLater (List.cons.inj after).2
        exact ⟨by rw [same], rfl⟩

/-- An expression that begins with a leaf of its own. -/
theorem Regroups.of_leaf {e : Expr} (opens : e.opens = 0) (body : e.body = e.words)
    (h : ∀ (e' : Expr) (rest rest' : List Word), e'.isGrouping = false →
      e'.ungrouped = e.ungrouped → e.words ++ rest = e'.body ++ rest' →
      e'.opens = 0 ∧ e = e' ∧ rest = rest') : e.Regroups := by
  apply Regroups.of_core
  intro e' k k' rest rest' other tree sum words
  rw [body] at words
  obtain ⟨zero, same, equal⟩ := h e' rest rest' other tree words
  exact ⟨same, by omega, equal⟩

theorem Regroups.literal : (literal value place).Regroups := by
  apply Regroups.of_leaf rfl rfl
  intro e' rest rest' other tree words
  cases e' <;> simp [isGrouping, rebuilt, unparenthesized] at other tree
  obtain ⟨rfl, rfl⟩ := tree
  exact ⟨rfl, rfl, by simpa [Expr.body] using words⟩

theorem Regroups.variable : (Expr.variable name).Regroups := by
  apply Regroups.of_leaf rfl rfl
  intro e' rest rest' other tree words
  cases e' <;> simp [isGrouping, rebuilt, unparenthesized] at other tree
  subst tree
  exact ⟨rfl, rfl, by simpa [Expr.body] using words⟩

theorem Regroups.unary {operand : Expr} (h : operand.Told) : (unary op operand).Regroups := by
  apply Regroups.of_leaf rfl rfl
  intro e' rest rest' other tree words
  cases e' <;> simp [isGrouping, rebuilt, unparenthesized] at other tree
  obtain ⟨rfl, treeOperand⟩ := tree
  simp only [Expr.body, Expr.words, List.cons_append, List.cons.injEq, true_and] at words
  obtain ⟨rfl, rfl⟩ := h _ _ _ treeOperand words
  exact ⟨rfl, rfl, rfl⟩

theorem Regroups.list (h : AllTold elements) : (list bracket elements).Regroups := by
  apply Regroups.of_leaf rfl rfl
  intro e' rest rest' other tree words
  cases e' <;> simp [isGrouping, rebuilt, unparenthesized] at other tree
  obtain ⟨rfl, treeElements⟩ := tree
  simp only [Expr.body, Expr.words, List.cons_append, List.append_assoc, List.cons.injEq,
    true_and] at words
  obtain ⟨rfl, after⟩ := h _ _ _ treeElements words
  exact ⟨rfl, rfl, by simpa using after⟩

end Expr

namespace Stmt

/-- The words tell a statement from all others of the same ungrouped tree. -/
def Told (s : Stmt) : Prop :=
  ∀ (s' : Stmt) (rest rest' : List Word), s'.ungrouped = s.ungrouped →
    s.words ++ rest = s'.words ++ rest' → s = s' ∧ rest = rest'

def AllTold (p : List Stmt) : Prop :=
  ∀ (p' : List Stmt) (rest rest' : List Word), ungroupeds p' = ungroupeds p →
    allWords p ++ rest = allWords p' ++ rest' → p = p' ∧ rest = rest'

theorem AllTold.nil : AllTold [] := by
  intro p' rest rest' tree words
  cases p' with
  | nil => exact ⟨rfl, by simpa using words⟩
  | cons s p => simp [rebuilts] at tree

theorem AllTold.cons {s : Stmt} (first : s.Told) (later : AllTold p) : AllTold (s :: p) := by
  intro p' rest rest' tree words
  cases p' with
  | nil => simp [rebuilts] at tree
  | cons s' p' =>
    simp only [rebuilts, List.cons.injEq] at tree
    simp only [allWords, List.append_assoc] at words
    obtain ⟨rfl, after⟩ := first _ _ _ tree.1 words
    obtain ⟨rfl, rfl⟩ := later _ _ _ tree.2 after
    exact ⟨rfl, rfl⟩

theorem Told.block (h : AllTold body) : (block body).Told := by
  intro s' rest rest' tree words
  rcases s' with _ | _ | _ | ⟨_, _, _ | _⟩ | ⟨_, _ | _⟩ | ⟨_, _ | _⟩ | _ <;> simp [rebuilt] at tree
  simp only [Stmt.words, List.cons_append, List.append_assoc, List.cons.injEq, true_and] at words
  obtain ⟨rfl, after⟩ := h _ _ _ tree words
  exact ⟨rfl, by simpa using after⟩

theorem Told.expression {value : Expr} (h : value.Told) : (expression value).Told := by
  intro s' rest rest' tree words
  rcases s' with _ | _ | _ | ⟨_, _, _ | _⟩ | ⟨_, _ | _⟩ | ⟨_, _ | _⟩ | _ <;> simp [rebuilt] at tree
  simp only [Stmt.words, List.append_assoc] at words
  obtain ⟨rfl, after⟩ := h _ _ _ tree words
  exact ⟨rfl, by simpa using after⟩

theorem Told.function (h : AllTold body) : (function name params body).Told := by
  intro s' rest rest' tree words
  rcases s' with _ | _ | _ | ⟨_, _, _ | _⟩ | ⟨_, _ | _⟩ | ⟨_, _ | _⟩ | _ <;> simp [rebuilt] at tree
  obtain ⟨rfl, rfl, treeBody⟩ := tree
  simp only [Stmt.words, List.cons_append, List.append_assoc, List.cons.injEq, true_and,
    List.append_cancel_left_eq] at words
  obtain ⟨rfl, after⟩ := h _ _ _ treeBody words
  exact ⟨rfl, by simpa using after⟩

theorem Told.branch {condition : Expr} {thenBranch : Stmt} (hc : condition.Told)
    (ht : thenBranch.Told) : (branch condition thenBranch none).Told := by
  intro s' rest rest' tree words
  rcases s' with _ | _ | _ | ⟨_, _, _ | _⟩ | ⟨_, _ | _⟩ | ⟨_, _ | _⟩ | _ <;> simp [rebuilt] at tree
  simp only [Stmt.words, List.cons_append, List.append_assoc, List.cons.injEq, true_and] at words
  obtain ⟨rfl, after⟩ := hc _ _ _ tree.1 words
  obtain ⟨rfl, rfl⟩ := ht _ _ _ tree.2 (List.cons.inj after).2
  exact ⟨rfl, rfl⟩

theorem Told.branches {condition : Expr} {thenBranch elseBranch : Stmt} (hc : condition.Told)
    (ht : thenBranch.Told) (he : elseBranch.Told) :
    (Stmt.branch condition thenBranch (some elseBranch)).Told := by
  intro s' rest rest' tree words
  rcases s' with _ | _ | _ | ⟨_, _, _ | _⟩ | ⟨_, _ | _⟩ | ⟨_, _ | _⟩ | _ <;> simp [rebuilt] at tree
  obtain ⟨treeCondition, treeThen, treeElse⟩ := tree
  simp only [Stmt.words, List.cons_append, List.append_assoc, List.cons.injEq, true_and] at words
  obtain ⟨rfl, after⟩ := hc _ _ _ treeCondition words
  obtain ⟨rfl, later⟩ := ht _ _ _ treeThen (List.cons.inj after).2
  obtain ⟨rfl, rfl⟩ := he _ _ _ treeElse (List.cons.inj later).2
  exact ⟨rfl, rfl⟩

theorem Told.returns {value : Option Expr} (h : ∀ e ∈ value, e.Told) : (returns keyword value).Told := by
  intro s' rest rest' tree words
  rcases s' with _ | _ | _ | ⟨_, _, _ | _⟩ | ⟨_, _ | _⟩ | ⟨_, _ | _⟩ | _ <;> cases value <;>
    simp [rebuilt] at tree
  · subst tree
    exact ⟨rfl, by simpa [Stmt.words] using words⟩
  · obtain ⟨rfl, treeValue⟩ := tree
    simp only [Stmt.words, List.cons_append, List.append_assoc, List.cons.injEq, true_and] at words
    obtain ⟨rfl, after⟩ := h _ rfl _ _ _ treeValue words
    exact ⟨rfl, by simpa using after⟩

theorem Told.var {initializer : Option Expr} (h : ∀ e ∈ initializer, e.Told) :
    (var name initializer).Told := by
  intro s' rest rest' tree words
  rcases s' with _ | _ | _ | ⟨_, _, _ | _⟩ | ⟨_, _ | _⟩ | ⟨_, _ | _⟩ | _ <;> cases initializer <;>
    simp [rebuilt] at tree
  · subst tree
    exact ⟨rfl, by simpa [Stmt.words] using words⟩
  · obtain ⟨rfl, treeInitializer⟩ := tree
    simp only [Stmt.words, List.cons_append, List.append_assoc, List.cons.injEq, true_and] at words
    obtain ⟨rfl, after⟩ := h _ rfl _ _ _ treeInitializer words
    exact ⟨rfl, by simpa using after⟩

theorem Told.loop {condition : Expr} {body : Stmt} (hc : condition.Told) (hb : body.Told) :
    (loop condition body).Told := by
  intro s' rest rest' tree words
  rcases s' with _ | _ | _ | ⟨_, _, _ | _⟩ | ⟨_, _ | _⟩ | ⟨_, _ | _⟩ | _ <;> simp [rebuilt] at tree
  simp only [Stmt.words, List.cons_append, List.append_assoc, List.cons.injEq, true_and] at words
  obtain ⟨rfl, after⟩ := hc _ _ _ tree.1 words
  obtain ⟨rfl, rfl⟩ := hb _ _ _ tree.2 (List.cons.inj after).2
  exact ⟨rfl, rfl⟩

end Stmt

theorem Expr.Regroups.object (h : Stmt.AllTold declarations) :
    (Expr.object brace declarations).Regroups := by
  apply Regroups.of_leaf rfl rfl
  intro e' rest rest' other tree words
  cases e' <;> simp [isGrouping, rebuilt, unparenthesized] at other tree
  obtain ⟨rfl, treeDeclarations⟩ := tree
  simp only [Expr.body, Expr.words, List.cons_append, List.append_assoc, List.cons.injEq,
    true_and] at words
  obtain ⟨rfl, after⟩ := h _ _ _ treeDeclarations words
  exact ⟨rfl, rfl, by simpa using after⟩

mutual
theorem Expr.regroups (e : Expr) : e.Regroups := by
  match e with
  | .assign target value => exact .assign target.regroups value.regroups.told
  | .binary left op right => exact .binary left.regroups right.regroups.told
  | .index left bracket position => exact .index left.regroups position.regroups.told
  | .access left dot member => exact .access left.regroups
  | .call callee paren args => exact .call callee.regroups (Expr.allTold args)
  | .grouping inner => exact .grouping inner.regroups
  | .literal value token => exact .literal
  | .list bracket elements => exact .list (Expr.allTold elements)
  | .unary op operand => exact .unary operand.regroups.told
  | .variable name => exact .variable
  | .object brace declarations => exact .object (Stmt.allTold declarations)

theorem Expr.allTold (es : List Expr) : Expr.AllTold es := by
  match es with
  | [] => exact .nil
  | e :: rest => exact .cons e.regroups.told (Expr.allTold rest)

theorem Stmt.told (s : Stmt) : s.Told := by
  match s with
  | .block body => exact .block (Stmt.allTold body)
  | .expression value => exact .expression value.regroups.told
  | .function name params body => exact .function (Stmt.allTold body)
  | .branch condition thenBranch none => exact .branch condition.regroups.told thenBranch.told
  | .branch condition thenBranch (some elseBranch) =>
    exact .branches condition.regroups.told thenBranch.told elseBranch.told
  | .returns keyword none => exact .returns (by simp)
  | .returns keyword (some value) => exact .returns (by simpa using value.regroups.told)
  | .var name none => exact .var (by simp)
  | .var name (some initializer) => exact .var (by simpa using initializer.regroups.told)
  | .loop condition body => exact .loop condition.regroups.told body.told

theorem Stmt.allTold (p : List Stmt) : Stmt.AllTold p := by
  match p with
  | [] => exact .nil
  | s :: rest => exact .cons s.told (Stmt.allTold rest)
end

/-- A tree is determined by its words and its ungrouped tree. -/
theorem eq_of_ungroupeds {p q : List Stmt} (tree : Stmt.ungroupeds p = Stmt.ungroupeds q)
    (words : Stmt.allWords p = Stmt.allWords q) : p = q :=
  (Stmt.allTold p q [] [] tree.symm (by rw [words])).1

end SoftScript
