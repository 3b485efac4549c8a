import SoftScript.Proofs.Likeness.Runs
import SoftScript.Proofs.Printing.Faithful

/-! A program and what is read from its canonical text are alike: they differ in places, in how
keywords are spelled, and in groupings around operator applications, which the text adds. -/
namespace SoftScript

/-- Trees that may differ in all that a canonical text does not keep. -/
def Likeness.printing : Likeness := ⟨fun _ _ => True, True, False, True⟩

theorem Likeness.printing_reflexive : Likeness.printing.Reflexive := ⟨fun _ => trivial, trivial⟩

open Likeness

namespace Likeness

theorem printing_name (same : t'.nameOnly = t.nameOnly) : printing.name t t' := by
  simp only [Token.nameOnly, Token.mk.injEq] at same
  exact ⟨trivial, same.2.1.symm⟩

theorem printing_names {ts ts' : List Token}
    (same : ts'.map Token.nameOnly = ts.map Token.nameOnly) : List.Forall₂ printing.name ts ts' :=
  related_of_map same.symm fun _ _ _ _ told => printing_name told.symm

theorem printing_operator (same : t'.kindOnly = t.kindOnly)
    (used : known.contains t.kind = true) : printing.operator known t t' := by
  simp only [Token.kindOnly, Token.mk.injEq] at same
  exact ⟨trivial, same.1.symm, .inl used⟩

end Likeness

theorem isGrouping_erased (e : Expr) : e.erased.isGrouping = e.isGrouping := by
  cases e <;> rfl

theorem isGrouping_grouped {e : Expr} (assignable : e.isAssignable = true) :
    e.grouped.isGrouping = e.isGrouping := by
  cases e <;> first | rfl | cases assignable

/-- Statements told apart by their optional parts as well. -/
theorem Stmt.byParts {motive : Stmt → Prop} (s : Stmt)
    (block : ∀ body, motive (.block body)) (expression : ∀ value, motive (.expression value))
    (function : ∀ name params body, motive (.function name params body))
    (branch : ∀ condition thenBranch, motive (.branch condition thenBranch none))
    (branches : ∀ condition thenBranch elseBranch,
      motive (.branch condition thenBranch (some elseBranch)))
    (returns : ∀ keyword, motive (.returns keyword none))
    (returnsValue : ∀ keyword value, motive (.returns keyword (some value)))
    (var : ∀ name, motive (.var name none))
    (varValue : ∀ name value, motive (.var name (some value)))
    (loop : ∀ condition body, motive (.loop condition body)) : motive s := by
  rcases s with body | value | ⟨name, params, body⟩ | ⟨condition, thenBranch, _ | elseBranch⟩ |
    ⟨keyword, _ | value⟩ | ⟨name, _ | value⟩ | ⟨condition, body⟩
  · exact block body
  · exact expression value
  · exact function name params body
  · exact branch condition thenBranch
  · exact branches condition thenBranch elseBranch
  · exact returns keyword
  · exact returnsValue keyword value
  · exact var name
  · exact varValue name value
  · exact loop condition body

mutual
/-- An expression is alike to one that differs from it in groupings that are printed, and in what
is forgotten. -/
theorem Expr.alike_printed : ∀ e e' : Expr, e'.erased = e.grouped.erased →
    e.upholds Expr.isFormed Stmt.isFormed inside = true → Expr.Alike printing e e'
  | .assign target value, e', same, formed => by
    cases e' with
    | assign target' value' =>
      injection same with onTarget onValue
      simp only [Expr.upholds, Expr.isFormed, Bool.and_eq_true] at formed
      have groupings := congrArg Expr.isGrouping onTarget
      rw [isGrouping_erased, isGrouping_erased, isGrouping_grouped formed.1.1] at groupings
      exact .assign (Expr.alike_printed target target' onTarget formed.1.2) groupings.symm
        (Expr.alike_printed value value' onValue formed.2)
    | _ => contradiction
  | .binary left op right, e', same, formed => by
    cases e' with
    | grouping inner =>
      injection same with same
      cases inner with
      | binary left' op' right' =>
        injection same with onLeft onOp onRight
        simp only [Expr.upholds, Expr.isFormed, Bool.and_eq_true] at formed
        exact .adds trivial (.binary (Expr.alike_printed left left' onLeft formed.1.2)
          (printing_operator onOp formed.1.1.1) (Expr.alike_printed right right' onRight formed.2))
      | _ => contradiction
    | _ => contradiction
  | .index left bracket position, e', same, formed => by
    cases e' with
    | index left' bracket' position' =>
      injection same with onLeft _ onPosition
      simp only [Expr.upholds, Bool.and_eq_true] at formed
      exact .index (Expr.alike_printed left left' onLeft formed.1.2) trivial
        (Expr.alike_printed position position' onPosition formed.2)
    | _ => contradiction
  | .access left dot member, e', same, formed => by
    cases e' with
    | access left' dot' member' =>
      injection same with onLeft _ onMember
      simp only [Expr.upholds, Bool.and_eq_true] at formed
      exact .access (Expr.alike_printed left left' onLeft formed.2) trivial (printing_name onMember)
    | _ => contradiction
  | .call callee paren args, e', same, formed => by
    cases e' with
    | call callee' paren' args' =>
      injection same with onCallee _ onArgs
      simp only [Expr.upholds, Bool.and_eq_true] at formed
      exact .call (Expr.alike_printed callee callee' onCallee formed.1.2) trivial
        (Expr.allAlike_printed args args' onArgs formed.2)
    | _ => contradiction
  | .grouping inner, e', same, formed => by
    cases e' with
    | grouping inner' =>
      injection same with onInner
      simp only [Expr.upholds, Bool.and_eq_true] at formed
      exact .keeps trivial (Expr.alike_printed inner inner' onInner formed.2)
    | _ => contradiction
  | .literal value token, e', same, _ => by
    cases e' with
    | literal value' token' =>
      injection same with onValue _
      rw [onValue]
      exact .literal trivial
    | _ => contradiction
  | .list bracket elements, e', same, formed => by
    cases e' with
    | list bracket' elements' =>
      injection same with _ onElements
      simp only [Expr.upholds, Bool.and_eq_true] at formed
      exact .list trivial (Expr.allAlike_printed elements elements' onElements formed.2)
    | _ => contradiction
  | .unary op operand, e', same, formed => by
    cases e' with
    | grouping inner =>
      injection same with same
      cases inner with
      | unary op' operand' =>
        injection same with onOp onOperand
        simp only [Expr.upholds, Expr.isFormed, Bool.and_eq_true] at formed
        exact .adds trivial (.unary (printing_operator onOp formed.1.1)
          (Expr.alike_printed operand operand' onOperand formed.2))
      | _ => contradiction
    | _ => contradiction
  | .variable name, e', same, _ => by
    cases e' with
    | «variable» name' =>
      injection same with onName
      exact .variable (printing_name onName)
    | _ => contradiction
  | .object brace declarations, e', same, formed => by
    cases e' with
    | object brace' declarations' =>
      injection same with _ onDeclarations
      simp only [Expr.upholds, Bool.and_eq_true] at formed
      exact .object trivial (Stmt.allAlike_printed declarations declarations' onDeclarations formed.2)
    | _ => contradiction

theorem Expr.allAlike_printed : ∀ es es' : List Expr,
    Expr.eraseds es' = Expr.eraseds (Expr.groupeds es) →
      Expr.allUphold Expr.isFormed Stmt.isFormed inside es = true → Expr.AllAlike printing es es'
  | [], [], _, _ => .nil
  | e :: rest, e' :: rest', same, formed => by
    injection same with first later
    simp only [Expr.allUphold, Bool.and_eq_true] at formed
    exact .cons (Expr.alike_printed e e' first formed.1)
      (Expr.allAlike_printed rest rest' later formed.2)

theorem Stmt.alike_printed : ∀ s s' : Stmt, s'.erased = s.grouped.erased →
    s.upholds Expr.isFormed Stmt.isFormed inside = true → Stmt.Alike printing s s'
  | .block body, s', same, formed => by
    cases s' using Stmt.byParts with
    | block body' =>
      injection same with onBody
      simp only [Stmt.upholds, Bool.and_eq_true] at formed
      exact .block (Stmt.allAlike_printed body body' onBody formed.2)
    | _ => contradiction
  | .expression value, s', same, formed => by
    cases s' using Stmt.byParts with
    | expression value' =>
      injection same with onValue
      simp only [Stmt.upholds, Bool.and_eq_true] at formed
      exact .expression (Expr.alike_printed value value' onValue formed.2)
    | _ => contradiction
  | .function name params body, s', same, formed => by
    cases s' using Stmt.byParts with
    | function name' params' body' =>
      injection same with onName onParams onBody
      simp only [Stmt.upholds, Bool.and_eq_true] at formed
      exact .function (printing_name onName) (printing_names onParams)
        (Stmt.allAlike_printed body body' onBody formed.2)
    | _ => contradiction
  | .branch condition thenBranch none, s', same, formed => by
    cases s' using Stmt.byParts with
    | branch condition' thenBranch' =>
      injection same with onCondition onThen _
      simp only [Stmt.upholds, Bool.and_eq_true] at formed
      exact .branch (Expr.alike_printed condition condition' onCondition formed.1.2)
        (Stmt.alike_printed thenBranch thenBranch' onThen formed.2)
    | branches => injection same with _ _ absurd; cases absurd
    | _ => contradiction
  | .branch condition thenBranch (some elseBranch), s', same, formed => by
    cases s' using Stmt.byParts with
    | branches condition' thenBranch' elseBranch' =>
      injection same with onCondition onThen onElse
      simp only [Stmt.upholds, Bool.and_eq_true] at formed
      exact .branches (Expr.alike_printed condition condition' onCondition formed.1.1.2)
        (Stmt.alike_printed thenBranch thenBranch' onThen formed.1.2)
        (Stmt.alike_printed elseBranch elseBranch' (Option.some.inj onElse) formed.2)
    | branch => injection same with _ _ absurd; cases absurd
    | _ => contradiction
  | .returns keyword none, s', same, _ => by
    cases s' using Stmt.byParts with
    | returns keyword' => exact .returns trivial
    | returnsValue => injection same with _ absurd; cases absurd
    | _ => contradiction
  | .returns keyword (some value), s', same, formed => by
    cases s' using Stmt.byParts with
    | returnsValue keyword' value' =>
      injection same with _ onValue
      simp only [Stmt.upholds, Bool.and_eq_true] at formed
      exact .returnsValue trivial
        (Expr.alike_printed value value' (Option.some.inj onValue) formed.2)
    | returns => injection same with _ absurd; cases absurd
    | _ => contradiction
  | .var name none, s', same, _ => by
    cases s' using Stmt.byParts with
    | var name' =>
      injection same with onName _
      exact .var (printing_name onName)
    | varValue => injection same with _ absurd; cases absurd
    | _ => contradiction
  | .var name (some value), s', same, formed => by
    cases s' using Stmt.byParts with
    | varValue name' value' =>
      injection same with onName onValue
      simp only [Stmt.upholds, Bool.and_eq_true] at formed
      exact .varValue (printing_name onName)
        (Expr.alike_printed value value' (Option.some.inj onValue) formed.2)
    | var => injection same with _ absurd; cases absurd
    | _ => contradiction
  | .loop condition body, s', same, formed => by
    cases s' using Stmt.byParts with
    | loop condition' body' =>
      injection same with onCondition onBody
      simp only [Stmt.upholds, Bool.and_eq_true] at formed
      exact .loop (Expr.alike_printed condition condition' onCondition formed.1.2)
        (Stmt.alike_printed body body' onBody formed.2)
    | _ => contradiction

theorem Stmt.allAlike_printed : ∀ p p' : List Stmt,
    Stmt.eraseds p' = Stmt.eraseds (Stmt.groupeds p) →
      Stmt.allUphold Expr.isFormed Stmt.isFormed inside p = true → Stmt.AllAlike printing p p'
  | [], [], _, _ => .nil
  | s :: rest, s' :: rest', same, formed => by
    injection same with first later
    simp only [Stmt.allUphold, Bool.and_eq_true] at formed
    exact .cons (Stmt.alike_printed s s' first formed.1)
      (Stmt.allAlike_printed rest rest' later formed.2)
end

end SoftScript
