import Mathlib.Data.List.Forall2
import SoftScript.Proofs.Printing.Printable

/-! Trees that are alike. A likeness says how tokens may differ and on which side groupings may
stand; two trees are alike if they differ in nothing else. Whatever the likeness, names keep their
text and operators their kind. -/
namespace SoftScript

/-- How two trees may differ. -/
structure Likeness where
  /-- Tokens that may stand at the same place. -/
  place : Token → Token → Prop
  /-- Groupings may stand on both sides. -/
  keeps : Prop
  /-- Groupings may stand on the left only. -/
  drops : Prop
  /-- Groupings may stand on the right only. -/
  adds : Prop

namespace Likeness

variable (L : Likeness)

/-- The same likeness, seen from the other side. -/
def swap : Likeness := ⟨fun t t' => L.place t' t, L.keeps, L.adds, L.drops⟩

/-- Tokens that may stand for the same name. -/
def name (t t' : Token) : Prop := L.place t t' ∧ t.lexeme = t'.lexeme

/-- Tokens that may stand for the same operator. The text of an operator may differ only if it is
among those in use, since the others are reported by their text. -/
def operator (known : List Token.Kind) (t t' : Token) : Prop :=
  L.place t t' ∧ t.kind = t'.kind ∧ (known.contains t.kind = true ∨ t.lexeme = t'.lexeme)

end Likeness

mutual
inductive Expr.Alike (L : Likeness) : Expr → Expr → Prop
  | assign : Expr.Alike L target target' → target.isGrouping = target'.isGrouping →
    Expr.Alike L value value' → Expr.Alike L (.assign target value) (.assign target' value')
  | binary : Expr.Alike L left left' → L.operator Token.binaryOperators op op' →
    Expr.Alike L right right' → Expr.Alike L (.binary left op right) (.binary left' op' right')
  | index : Expr.Alike L left left' → L.place bracket bracket' →
    Expr.Alike L position position' →
    Expr.Alike L (.index left bracket position) (.index left' bracket' position')
  | access : Expr.Alike L left left' → L.place dot dot' → L.name member member' →
    Expr.Alike L (.access left dot member) (.access left' dot' member')
  | call : Expr.Alike L callee callee' → L.place paren paren' → Expr.AllAlike L args args' →
    Expr.Alike L (.call callee paren args) (.call callee' paren' args')
  | keeps : L.keeps → Expr.Alike L e e' → Expr.Alike L (.grouping e) (.grouping e')
  | drops : L.drops → Expr.Alike L e e' → Expr.Alike L (.grouping e) e'
  | adds : L.adds → Expr.Alike L e e' → Expr.Alike L e (.grouping e')
  | literal : L.place token token' → Expr.Alike L (.literal value token) (.literal value token')
  | list : L.place bracket bracket' → Expr.AllAlike L elements elements' →
    Expr.Alike L (.list bracket elements) (.list bracket' elements')
  | unary : L.operator Token.unaryOperators op op' → Expr.Alike L operand operand' →
    Expr.Alike L (.unary op operand) (.unary op' operand')
  | variable : L.name name name' → Expr.Alike L (.variable name) (.variable name')
  | object : L.place brace brace' → Stmt.AllAlike L declarations declarations' →
    Expr.Alike L (.object brace declarations) (.object brace' declarations')

inductive Expr.AllAlike (L : Likeness) : List Expr → List Expr → Prop
  | nil : Expr.AllAlike L [] []
  | cons : Expr.Alike L e e' → Expr.AllAlike L rest rest' →
    Expr.AllAlike L (e :: rest) (e' :: rest')

inductive Stmt.Alike (L : Likeness) : Stmt → Stmt → Prop
  | block : Stmt.AllAlike L body body' → Stmt.Alike L (.block body) (.block body')
  | expression : Expr.Alike L value value' →
    Stmt.Alike L (.expression value) (.expression value')
  | function : L.name name name' → List.Forall₂ L.name params params' →
    Stmt.AllAlike L body body' →
    Stmt.Alike L (.function name params body) (.function name' params' body')
  | branch : Expr.Alike L condition condition' → Stmt.Alike L thenBranch thenBranch' →
    Stmt.Alike L (.branch condition thenBranch none) (.branch condition' thenBranch' none)
  | branches : Expr.Alike L condition condition' → Stmt.Alike L thenBranch thenBranch' →
    Stmt.Alike L elseBranch elseBranch' →
    Stmt.Alike L (.branch condition thenBranch (some elseBranch))
      (.branch condition' thenBranch' (some elseBranch'))
  | returns : L.place keyword keyword' →
    Stmt.Alike L (.returns keyword none) (.returns keyword' none)
  | returnsValue : L.place keyword keyword' → Expr.Alike L value value' →
    Stmt.Alike L (.returns keyword (some value)) (.returns keyword' (some value'))
  | var : L.name name name' → Stmt.Alike L (.var name none) (.var name' none)
  | varValue : L.name name name' → Expr.Alike L value value' →
    Stmt.Alike L (.var name (some value)) (.var name' (some value'))
  | loop : Expr.Alike L condition condition' → Stmt.Alike L body body' →
    Stmt.Alike L (.loop condition body) (.loop condition' body')

inductive Stmt.AllAlike (L : Likeness) : List Stmt → List Stmt → Prop
  | nil : Stmt.AllAlike L [] []
  | cons : Stmt.Alike L s s' → Stmt.AllAlike L rest rest' →
    Stmt.AllAlike L (s :: rest) (s' :: rest')
end

namespace Likeness

variable {L : Likeness}

theorem name_swap (h : L.name t t') : L.swap.name t' t := ⟨h.1, h.2.symm⟩

theorem operator_swap (h : L.operator known t t') : L.swap.operator known t' t :=
  ⟨h.1, h.2.1.symm, h.2.2.imp (h.2.1 ▸ ·) Eq.symm⟩

/-- A likeness under which every tree is alike to itself. -/
structure Reflexive (L : Likeness) : Prop where
  place : ∀ t, L.place t t
  keeps : L.keeps

namespace Reflexive

variable (self : L.Reflexive)

include self

theorem name (t : Token) : L.name t t := ⟨self.place t, rfl⟩

theorem names (ts : List Token) : List.Forall₂ L.name ts ts :=
  List.forall₂_same.mpr fun t _ => self.name t

theorem operator (t : Token) : L.operator known t t := ⟨self.place t, rfl, .inr rfl⟩

end Reflexive

/-- Trees that do not differ at all. -/
def same : Likeness := ⟨Eq, True, False, False⟩

theorem same_reflexive : same.Reflexive := ⟨fun _ => rfl, trivial⟩

end Likeness

variable {L : Likeness}

theorem Expr.AllAlike.of_related (h : List.Forall₂ (Expr.Alike L) es es') :
    Expr.AllAlike L es es' := by
  induction h with
  | nil => exact .nil
  | cons first _ ih => exact .cons first ih

theorem Stmt.AllAlike.of_related (h : List.Forall₂ (Stmt.Alike L) p p') : Stmt.AllAlike L p p' := by
  induction h with
  | nil => exact .nil
  | cons first _ ih => exact .cons first ih

theorem Stmt.Alike.returnsOption (keyword : L.place t t')
    (value : Option.Rel (Expr.Alike L) e? e?') : Stmt.Alike L (.returns t e?) (.returns t' e?') := by
  cases value with
  | none => exact .returns keyword
  | some value => exact .returnsValue keyword value

theorem Stmt.Alike.varOption (name : L.name t t') (value : Option.Rel (Expr.Alike L) e? e?') :
    Stmt.Alike L (.var t e?) (.var t' e?') := by
  cases value with
  | none => exact .var name
  | some value => exact .varValue name value

/-- Expressions that are alike are found at tokens that may stand at the same place. -/
theorem Expr.Alike.token : Expr.Alike L e e' → L.place e.token e'.token
  | .assign target _ _ => target.token
  | .binary _ op _ => op.1
  | .index _ bracket _ => bracket
  | .access _ dot _ => dot
  | .call _ paren _ => paren
  | .keeps _ inner | .drops _ inner | .adds _ inner => inner.token
  | .literal token => token
  | .list bracket _ => bracket
  | .unary op _ => op.1
  | .variable name => name.1
  | .object brace _ => brace

mutual
theorem Expr.Alike.swap : Expr.Alike L e e' → Expr.Alike L.swap e' e
  | .assign target same value => .assign target.swap same.symm value.swap
  | .binary left op right => .binary left.swap (Likeness.operator_swap op) right.swap
  | .index left bracket position => .index left.swap bracket position.swap
  | .access left dot member => .access left.swap dot (Likeness.name_swap member)
  | .call callee paren args => .call callee.swap paren args.swap
  | .keeps allowed inner => .keeps allowed inner.swap
  | .drops allowed inner => .adds allowed inner.swap
  | .adds allowed inner => .drops allowed inner.swap
  | .literal token => .literal token
  | .list bracket elements => .list bracket elements.swap
  | .unary op operand => .unary (Likeness.operator_swap op) operand.swap
  | .variable name => .variable (Likeness.name_swap name)
  | .object brace declarations => .object brace declarations.swap

theorem Expr.AllAlike.swap : Expr.AllAlike L es es' → Expr.AllAlike L.swap es' es
  | .nil => .nil
  | .cons first rest => .cons first.swap rest.swap

theorem Stmt.Alike.swap : Stmt.Alike L s s' → Stmt.Alike L.swap s' s
  | .block body => .block body.swap
  | .expression value => .expression value.swap
  | .function name params body =>
    .function (Likeness.name_swap name) (params.flip.imp fun _ _ => Likeness.name_swap) body.swap
  | .branch condition thenBranch => .branch condition.swap thenBranch.swap
  | .branches condition thenBranch elseBranch =>
    .branches condition.swap thenBranch.swap elseBranch.swap
  | .returns keyword => .returns keyword
  | .returnsValue keyword value => .returnsValue keyword value.swap
  | .var name => .var (Likeness.name_swap name)
  | .varValue name value => .varValue (Likeness.name_swap name) value.swap
  | .loop condition body => .loop condition.swap body.swap

theorem Stmt.AllAlike.swap : Stmt.AllAlike L p p' → Stmt.AllAlike L.swap p' p
  | .nil => .nil
  | .cons first rest => .cons first.swap rest.swap
end

mutual
/-- A tree is alike to itself if its tokens are and groupings may stand on both sides. -/
theorem Expr.alike_refl (self : L.Reflexive) : ∀ e, Expr.Alike L e e
  | .assign target value => .assign (Expr.alike_refl self target) rfl (Expr.alike_refl self value)
  | .binary left op right =>
    .binary (Expr.alike_refl self left) (self.operator op) (Expr.alike_refl self right)
  | .index left bracket position =>
    .index (Expr.alike_refl self left) (self.place bracket) (Expr.alike_refl self position)
  | .access left dot member =>
    .access (Expr.alike_refl self left) (self.place dot) (self.name member)
  | .call callee paren args =>
    .call (Expr.alike_refl self callee) (self.place paren) (Expr.allAlike_refl self args)
  | .grouping inner => .keeps self.keeps (Expr.alike_refl self inner)
  | .literal _ token => .literal (self.place token)
  | .list bracket elements => .list (self.place bracket) (Expr.allAlike_refl self elements)
  | .unary op operand => .unary (self.operator op) (Expr.alike_refl self operand)
  | .variable name => .variable (self.name name)
  | .object brace declarations =>
    .object (self.place brace) (Stmt.allAlike_refl self declarations)

theorem Expr.allAlike_refl (self : L.Reflexive) : ∀ es, Expr.AllAlike L es es
  | [] => .nil
  | e :: rest => .cons (Expr.alike_refl self e) (Expr.allAlike_refl self rest)

theorem Stmt.alike_refl (self : L.Reflexive) : ∀ s, Stmt.Alike L s s
  | .block body => .block (Stmt.allAlike_refl self body)
  | .expression value => .expression (Expr.alike_refl self value)
  | .function name params body =>
    .function (self.name name) (self.names params) (Stmt.allAlike_refl self body)
  | .branch condition thenBranch none =>
    .branch (Expr.alike_refl self condition) (Stmt.alike_refl self thenBranch)
  | .branch condition thenBranch (some elseBranch) =>
    .branches (Expr.alike_refl self condition) (Stmt.alike_refl self thenBranch)
      (Stmt.alike_refl self elseBranch)
  | .returns keyword none => .returns (self.place keyword)
  | .returns keyword (some value) =>
    .returnsValue (self.place keyword) (Expr.alike_refl self value)
  | .var name none => .var (self.name name)
  | .var name (some value) => .varValue (self.name name) (Expr.alike_refl self value)
  | .loop condition body => .loop (Expr.alike_refl self condition) (Stmt.alike_refl self body)

theorem Stmt.allAlike_refl (self : L.Reflexive) : ∀ p, Stmt.AllAlike L p p
  | [] => .nil
  | s :: rest => .cons (Stmt.alike_refl self s) (Stmt.allAlike_refl self rest)
end

/-! Likenesses compared: a finer one, and one that tells all trees apart. -/

namespace Likeness

/-- Trees that are alike in the first way are alike in the second. -/
structure Finer (L M : Likeness) : Prop where
  place : ∀ {t t'}, L.place t t' → M.place t t'
  keeps : L.keeps → M.keeps
  drops : L.drops → M.drops
  adds : L.adds → M.adds

/-- A likeness under which a tree is alike to no other one. -/
structure Exact (L : Likeness) : Prop where
  place : ∀ {t t'}, L.place t t' → t' = t
  drops : ¬ L.drops
  adds : ¬ L.adds

variable {M : Likeness}

theorem Finer.name (finer : L.Finer M) (h : L.name t t') : M.name t t' := ⟨finer.place h.1, h.2⟩

theorem Finer.operator (finer : L.Finer M) (h : L.operator known t t') : M.operator known t t' :=
  ⟨finer.place h.1, h.2⟩

theorem Exact.names (exact : L.Exact) (h : List.Forall₂ L.name ts ts') : ts' = ts := by
  induction h with
  | nil => rfl
  | cons first _ ih => rw [exact.place first.1, ih]

end Likeness

variable {M : Likeness}

mutual
theorem Expr.Alike.mono (finer : L.Finer M) : Expr.Alike L e e' → Expr.Alike M e e'
  | .assign target same value => .assign (target.mono finer) same (value.mono finer)
  | .binary left op right => .binary (left.mono finer) (finer.operator op) (right.mono finer)
  | .index left bracket position =>
    .index (left.mono finer) (finer.place bracket) (position.mono finer)
  | .access left dot member => .access (left.mono finer) (finer.place dot) (finer.name member)
  | .call callee paren args => .call (callee.mono finer) (finer.place paren) (args.mono finer)
  | .keeps allowed inner => .keeps (finer.keeps allowed) (inner.mono finer)
  | .drops allowed inner => .drops (finer.drops allowed) (inner.mono finer)
  | .adds allowed inner => .adds (finer.adds allowed) (inner.mono finer)
  | .literal token => .literal (finer.place token)
  | .list bracket elements => .list (finer.place bracket) (elements.mono finer)
  | .unary op operand => .unary (finer.operator op) (operand.mono finer)
  | .variable name => .variable (finer.name name)
  | .object brace declarations => .object (finer.place brace) (declarations.mono finer)

theorem Expr.AllAlike.mono (finer : L.Finer M) : Expr.AllAlike L es es' → Expr.AllAlike M es es'
  | .nil => .nil
  | .cons first rest => .cons (first.mono finer) (rest.mono finer)

theorem Stmt.Alike.mono (finer : L.Finer M) : Stmt.Alike L s s' → Stmt.Alike M s s'
  | .block body => .block (body.mono finer)
  | .expression value => .expression (value.mono finer)
  | .function name params body =>
    .function (finer.name name) (params.imp fun _ _ => finer.name) (body.mono finer)
  | .branch condition thenBranch => .branch (condition.mono finer) (thenBranch.mono finer)
  | .branches condition thenBranch elseBranch =>
    .branches (condition.mono finer) (thenBranch.mono finer) (elseBranch.mono finer)
  | .returns keyword => .returns (finer.place keyword)
  | .returnsValue keyword value => .returnsValue (finer.place keyword) (value.mono finer)
  | .var name => .var (finer.name name)
  | .varValue name value => .varValue (finer.name name) (value.mono finer)
  | .loop condition body => .loop (condition.mono finer) (body.mono finer)

theorem Stmt.AllAlike.mono (finer : L.Finer M) : Stmt.AllAlike L p p' → Stmt.AllAlike M p p'
  | .nil => .nil
  | .cons first rest => .cons (first.mono finer) (rest.mono finer)
end

mutual
theorem Expr.Alike.eq (exact : L.Exact) : Expr.Alike L e e' → e' = e
  | .assign target _ value => by rw [target.eq exact, value.eq exact]
  | .binary left op right => by rw [left.eq exact, exact.place op.1, right.eq exact]
  | .index left bracket position => by
    rw [left.eq exact, exact.place bracket, position.eq exact]
  | .access left dot member => by rw [left.eq exact, exact.place dot, exact.place member.1]
  | .call callee paren args => by rw [callee.eq exact, exact.place paren, args.eq exact]
  | .keeps _ inner => by rw [inner.eq exact]
  | .drops allowed _ => (exact.drops allowed).elim
  | .adds allowed _ => (exact.adds allowed).elim
  | .literal token => by rw [exact.place token]
  | .list bracket elements => by rw [exact.place bracket, elements.eq exact]
  | .unary op operand => by rw [exact.place op.1, operand.eq exact]
  | .variable name => by rw [exact.place name.1]
  | .object brace declarations => by rw [exact.place brace, declarations.eq exact]

theorem Expr.AllAlike.eq (exact : L.Exact) : Expr.AllAlike L es es' → es' = es
  | .nil => rfl
  | .cons first rest => by rw [first.eq exact, rest.eq exact]

theorem Stmt.Alike.eq (exact : L.Exact) : Stmt.Alike L s s' → s' = s
  | .block body => by rw [body.eq exact]
  | .expression value => by rw [value.eq exact]
  | .function name params body => by
    rw [exact.place name.1, exact.names params, body.eq exact]
  | .branch condition thenBranch => by rw [condition.eq exact, thenBranch.eq exact]
  | .branches condition thenBranch elseBranch => by
    rw [condition.eq exact, thenBranch.eq exact, elseBranch.eq exact]
  | .returns keyword => by rw [exact.place keyword]
  | .returnsValue keyword value => by rw [exact.place keyword, value.eq exact]
  | .var name => by rw [exact.place name.1]
  | .varValue name value => by rw [exact.place name.1, value.eq exact]
  | .loop condition body => by rw [condition.eq exact, body.eq exact]

theorem Stmt.AllAlike.eq (exact : L.Exact) : Stmt.AllAlike L p p' → p' = p
  | .nil => rfl
  | .cons first rest => by rw [first.eq exact, rest.eq exact]
end

end SoftScript
