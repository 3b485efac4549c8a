import SoftScript.Proofs.Grammar.Derivation

/-! Where a slash stands. In a derived program it is always a sign of division, with an operand
right after it, which no star begins. So the two never meet. -/
namespace SoftScript

/-- Each slash has an expression after it. -/
def Token.Divides : List Token → Prop
  | [] => True
  | t :: rest =>
    (t.kind = .slash → ∃ next ∈ rest.head?, Grammar.startsExpression next.kind = true) ∧ Divides rest

namespace Token.Divides

theorem append : Divides v → Divides w → Divides (v ++ w) := by
  intro first second
  induction v with
  | nil => exact second
  | cons t rest ih =>
    refine ⟨?_, ih first.2⟩
    intro isSlash
    obtain ⟨next, found, starts⟩ := first.1 isSlash
    cases rest with
    | nil => cases found
    | cons => exact ⟨next, found, starts⟩

theorem of_append (whole : Divides (v ++ w)) : Divides w := by
  induction v with
  | nil => exact whole
  | cons t rest ih => exact ih whole.2

/-- A token that is no slash. -/
theorem other {kind : Kind} (is : t.kind = kind) (notSlash : kind ≠ .slash) (rest : Divides w) :
    Divides (t :: w) :=
  ⟨fun isSlash => absurd (is.symm.trans isSlash) notSlash, rest⟩

theorem last {kind : Kind} (is : t.kind = kind) (notSlash : kind ≠ .slash) : Divides [t] :=
  other is notSlash trivial

/-- A slash, or another operator, before an operand. -/
theorem operator (starts : ∃ next v, w = next :: v ∧ Grammar.startsExpression next.kind = true)
    (rest : Divides w) : Divides (t :: w) := by
  obtain ⟨next, v, rfl, starts⟩ := starts
  exact ⟨fun _ => ⟨next, rfl, starts⟩, rest⟩

end Token.Divides

namespace Grammar

open Token Token.Divides

theorem Parameters.divides (h : Parameters w names) : Divides w := by
  induction h with
  | one isName => exact .last isName (by decide)
  | more isName isComma _ ih => exact .other isName (by decide) (.other isComma (by decide) ih)

theorem ParameterList.divides (h : ParameterList w names) : Divides w := by
  cases h with
  | none => trivial
  | some h => exact h.divides

theorem divides_of_constant? (denotes : constant? t = some value) : Divides [t] := by
  refine ⟨?_, trivial⟩
  intro isSlash
  simp [constant?, isSlash] at denotes

mutual
theorem Expression.divides (h : Expression inside level w e) : Divides w := by
  match h with
  | .lowest h | .unassigned h | .unsigned h => exact h.divides
  | .assign target _ isEqual value => exact target.divides.append (.other isEqual (by decide) value.divides)
  | .increase target _ isIncrease value =>
    exact target.divides.append (.other isIncrease (by decide) value.divides)
  | .decrease target _ isDecrease value =>
    exact target.divides.append (.other isDecrease (by decide) value.divides)
  | .operation _ first after => exact first.divides.append after.divides
  | .signed _ operand => exact .operator operand.starts operand.divides
  | .suffixed first after => exact first.divides.append after.divides

theorem Applied.divides (h : Applied inside operand operators first w e) : Divides w := by
  match h with
  | .nil => trivial
  | .cons _ right after => exact Divides.append (.operator right.starts right.divides) after.divides

theorem Suffixed.divides (h : Suffixed inside first w e) : Divides w := by
  match h with
  | .nil => trivial
  | .call isOpening args isClosing after =>
    exact Divides.append (.other isOpening (by decide) args.divides)
      (.other isClosing (by decide) after.divides)
  | .index isOpening position isClosing after =>
    exact Divides.append (.other isOpening (by decide) position.divides)
      (.other isClosing (by decide) after.divides)
  | .member isDot isName after =>
    exact .other isDot (by decide) (.other isName (by decide) after.divides)

theorem Primary.divides (h : Primary inside w e) : Divides w := by
  match h with
  | .literal denotes => exact divides_of_constant? denotes
  | .name isName => exact .last isName (by decide)
  | .grouping isOpening inner isClosing =>
    exact Divides.append (.other isOpening (by decide) inner.divides) (.last isClosing (by decide))
  | .list isOpening elements isClosing =>
    exact Divides.append (.other isOpening (by decide) elements.divides) (.last isClosing (by decide))
  | .object isOpening members isClosing =>
    exact Divides.append (.other isOpening (by decide) members.divides) (.last isClosing (by decide))

theorem Arguments.divides (h : Arguments inside w es) : Divides w := by
  match h with
  | .one only => exact only.divides
  | .more first isComma later => exact first.divides.append (.other isComma (by decide) later.divides)

theorem ArgumentList.divides (h : ArgumentList inside w es) : Divides w := by
  match h with
  | .none => trivial
  | .some h => exact h.divides

theorem Optional.divides (h : Optional inside w e) : Divides w := by
  match h with
  | .none => trivial
  | .some h => exact h.divides

theorem VariableDeclaration.divides (h : VariableDeclaration inside w s) : Divides w := by
  match h with
  | .bare isVar isName isEnd =>
    exact .other isVar (by decide) (.other isName (by decide) (.last isEnd (by decide)))
  | .initialized isVar isName isEqual value isEnd =>
    exact Divides.append
      (.other isVar (by decide) (.other isName (by decide) (.other isEqual (by decide) value.divides)))
      (.last isEnd (by decide))

theorem FunctionDeclaration.divides (h : FunctionDeclaration inside w s) : Divides w := by
  match h with
  | .mk isFun isName isOpening params _ isClosing isBrace body isUnbrace =>
    have head := Divides.other isFun (by decide)
      (.other isName (by decide) (.other isOpening (by decide) params.divides))
    have block := Divides.other isClosing (by decide) (.other isBrace (by decide) body.divides)
    exact (head.append block).append (.last isUnbrace (by decide))

theorem Declaration.divides (h : Declaration inside w s) : Divides w := by
  match h with
  | .var h => exact h.divides
  | .function h => exact h.divides

theorem Declarations.divides (h : Declarations inside w p) : Divides w := by
  match h with
  | .nil => trivial
  | .cons first rest => exact first.divides.append rest.divides

theorem Initializer.divides (h : Initializer inside w s) : Divides w := by
  match h with
  | .none isEnd => exact .last isEnd (by decide)
  | .var h => exact h.divides
  | .expression value isEnd => exact value.divides.append (.last isEnd (by decide))

theorem Statement.divides (h : Statement inside ajar w s) : Divides w := by
  match h with
  | .expression value _ isEnd => exact value.divides.append (.last isEnd (by decide))
  | .forLoop isFor isOpening initializer condition isEnd increment isClosing body =>
    have head := Divides.other isFor (by decide) (.other isOpening (by decide) initializer.divides)
    have clauses := (head.append condition.divides).append (.other isEnd (by decide) increment.divides)
    exact clauses.append (.other isClosing (by decide) body.divides)
  | .whileLoop isWhile isOpening condition isClosing body =>
    have head := Divides.other isWhile (by decide) (.other isOpening (by decide) condition.divides)
    exact head.append (.other isClosing (by decide) body.divides)
  | .branch isIf isOpening condition isClosing thenBranch =>
    have head := Divides.other isIf (by decide) (.other isOpening (by decide) condition.divides)
    exact head.append (.other isClosing (by decide) thenBranch.divides)
  | .branches isIf isOpening condition isClosing thenBranch isElse elseBranch =>
    have head := Divides.other isIf (by decide) (.other isOpening (by decide) condition.divides)
    exact (head.append (.other isClosing (by decide) thenBranch.divides)).append
      (.other isElse (by decide) elseBranch.divides)
  | .block isOpening body isClosing =>
    exact Divides.append (.other isOpening (by decide) body.divides) (.last isClosing (by decide))
  | .returns isReturn value isEnd =>
    exact Divides.append (.other isReturn (by decide) value.divides) (.last isEnd (by decide))

theorem Line.divides (h : Line inside w s) : Divides w := by
  match h with
  | .declaration h => exact h.divides
  | .statement h => exact h.divides

theorem Lines.divides (h : Lines inside w p) : Divides w := by
  match h with
  | .nil => trivial
  | .cons first rest => exact first.divides.append rest.divides
end

/-- Programs one after the other are a program. -/
theorem Lines.append (first : Lines inside v p) (second : Lines inside w q) :
    Lines inside (v ++ w) (p ++ q) := by
  match first with
  | .nil => exact second
  | .cons line rest =>
    rw [List.append_assoc, List.cons_append]
    exact .cons line (rest.append second)

end Grammar

end SoftScript
