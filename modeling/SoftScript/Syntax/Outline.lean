import SoftScript.Syntax.Basic
import SoftScript.Text.Quoted

/-! Programs as indented outlines that show every node with its tokens. -/
namespace SoftScript

/-- What an outline is made of: a word, named parts, parts with names of their own, or a list. -/
inductive Outline where
  | word (text : String)
  | tuple (name : String) (parts : List Outline)
  | record (name : String) (fields : List (String × Outline))
  | list (items : List Outline)

namespace Outline

def indent (depth : Nat) : String := String.ofList (List.replicate (4 * depth) ' ')

/-- Lines one step further in, each with a comma, between an opening and a closing mark. -/
def enclosed (depth : Nat) (opening closing : String) (lines : List String) : String :=
  opening ++ "\n" ++ String.join (lines.map fun line => indent (depth + 1) ++ line ++ ",\n") ++
    indent depth ++ closing

mutual
def render (depth : Nat) : Outline → String
  | word text => text
  | tuple name parts => name ++ enclosed depth "(" ")" (renderAll (depth + 1) parts)
  | record name fields => name ++ enclosed depth " \x7b" "\x7d" (renderFields (depth + 1) fields)
  | list [] => "[]"
  | list items => enclosed depth "[" "]" (renderAll (depth + 1) items)

def renderAll (depth : Nat) : List Outline → List String
  | [] => []
  | part :: rest => render depth part :: renderAll depth rest

def renderFields (depth : Nat) : List (String × Outline) → List String
  | [] => []
  | (name, part) :: rest => (name ++ ": " ++ render depth part) :: renderFields depth rest
end

def text (outline : Outline) : String := outline.render 0

def number (n : Nat) : Outline := word (toString n)

def string (text : String) : Outline := word (Text.quoted text)

def integer (n : Integer) : Outline := word n.text

/-- A part that may be absent. -/
def optional : Option Outline → Outline
  | some part => tuple "Some" [part]
  | none => word "None"

end Outline

def Span.outline (s : Span) : Outline :=
  .record "SrcSpan" [("start", .number s.start), ("end", .number s.stop)]

def Token.Literal.outline : Token.Literal → Outline
  | int value => .tuple "Int" [.integer value]
  | string value => .tuple "String" [.string value]

def Token.outline (t : Token) : Outline :=
  .record "Token" [
    ("kind", .word t.kind.name),
    ("lexeme", .string t.lexeme),
    ("line", .number t.line),
    ("literal", .optional (t.literal.map Literal.outline)),
    ("location", t.span.outline)]

def Constant.outline : Constant → Outline
  | int value => .tuple "Int" [.integer value]
  | bool value => .tuple "Bool" [.word (if value then "true" else "false")]
  | string value => .tuple "String" [.string value]
  | null => .word "Null"

/-- Indexing is shown as an operator application. -/
def Outline.application (left : Outline) (op : Token) (right : Outline) : Outline :=
  .tuple "Binary" [.record "Binary" [("left", left), ("op", op.outline), ("right", right)]]

mutual
def Expr.outline : Expr → Outline
  | .assign target value => .record "Assign" [("target", target.outline), ("value", value.outline)]
  | .binary left op right => .application left.outline op right.outline
  | .index left bracket position => .application left.outline bracket position.outline
  | .access left dot member =>
    .record "Access" [("left", left.outline), ("op", dot.outline), ("member", member.outline)]
  | .call callee paren args =>
    .tuple "Call" [.record "Call" [
      ("callee", callee.outline), ("paren", paren.outline), ("args", .list (Expr.outlines args))]]
  | .grouping inner => .tuple "Grouping" [inner.outline]
  | .literal value token =>
    .record "Literal" [("value", value.outline), ("token", token.outline)]
  | .list bracket elements =>
    .tuple "List" [.record "ListLiteral" [
      ("bracket", bracket.outline), ("elements", .list (Expr.outlines elements))]]
  | .unary op operand => .record "Unary" [("op", op.outline), ("operand", operand.outline)]
  | .variable name => .record "Variable" [("name", name.outline)]
  | .object brace declarations =>
    .tuple "Object" [.record "ObjectLiteral" [
      ("brace", brace.outline), ("declarations", .list (Stmt.outlines declarations))]]

def Expr.outlines : List Expr → List Outline
  | [] => []
  | e :: rest => e.outline :: Expr.outlines rest

def Stmt.outline : Stmt → Outline
  | .block body => .tuple "Block" [.list (Stmt.outlines body)]
  | .expression value => .tuple "Expression" [value.outline]
  | .function name params body =>
    .tuple "Function" [.record "FunctionDecl" [
      ("name", name.outline), ("params", .list (params.map Token.outline)),
      ("body", .list (Stmt.outlines body))]]
  | .branch condition thenBranch none =>
    .record "If" [("condition", condition.outline), ("then_branch", thenBranch.outline),
      ("else_branch", .optional none)]
  | .branch condition thenBranch (some elseBranch) =>
    .record "If" [("condition", condition.outline), ("then_branch", thenBranch.outline),
      ("else_branch", .optional (some elseBranch.outline))]
  | .returns keyword none =>
    .record "Return" [("keyword", keyword.outline), ("value", .optional none)]
  | .returns keyword (some value) =>
    .record "Return" [("keyword", keyword.outline), ("value", .optional (some value.outline))]
  | .var name none => .record "Var" [("name", name.outline), ("initializer", .optional none)]
  | .var name (some initializer) =>
    .record "Var" [("name", name.outline), ("initializer", .optional (some initializer.outline))]
  | .loop condition body =>
    .record "While" [("condition", condition.outline), ("body", body.outline)]

def Stmt.outlines : List Stmt → List Outline
  | [] => []
  | s :: rest => s.outline :: Stmt.outlines rest
end

end SoftScript
