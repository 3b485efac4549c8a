import SoftScript.Text.Characters
import SoftScript.Token.Kind

/-! The lexical rules. A pattern says how many characters at the start of a text it covers; the
rules are tried in order and the first that covers anything decides the kind of the token. -/
namespace SoftScript.Token

inductive Pattern where
  /-- Two slashes and the rest of the line with its newline. -/
  | lineComment
  /-- From `/*` to the nearest `*/`. -/
  | blockComment
  /-- A word in any mixture of upper and lower case, not continued by a word character. -/
  | keyword (word : String)
  | symbol (text : String)
  | identifier
  | number
  /-- A quote, anything but quotes, and a quote. -/
  | string
  | blank
  /-- A run without white space, and one white space character after it. -/
  | invalid
  deriving DecidableEq, Repr

namespace Pattern

/-- Characters up to and including the nearest `*/`. -/
def throughCommentEnd : List Char → Option Nat
  | [] => none
  | '*' :: '/' :: _ => some 2
  | _ :: rest => (throughCommentEnd rest).map (· + 1)

/-- Characters up to and including the first newline, or all of them. -/
def throughNewline (text : List Char) : Nat :=
  let line := (text.takeWhile (· ≠ '\n')).length
  if (text.drop line).isEmpty then line else line + 1

def equalIgnoringCase (a b : List Char) : Bool :=
  a.map Char.toLower = b.map Char.toLower

def coverage : Pattern → List Char → Nat
  | lineComment, '/' :: '/' :: body => 2 + throughNewline body
  | lineComment, _ => 0
  | blockComment, '/' :: '*' :: body =>
    match throughCommentEnd body with
    | some n => 2 + n
    | none => 0
  | blockComment, _ => 0
  | keyword word, text =>
    let size := word.length
    if equalIgnoringCase (text.take size) word.toList &&
        !(text.drop size).head?.any Text.isWordChar then size else 0
  | symbol word, text => if word.toList.isPrefixOf text then word.length else 0
  | identifier, c :: rest =>
    if Text.isWordStart c then 1 + (rest.takeWhile Text.isWordChar).length else 0
  | identifier, [] => 0
  | number, text => (text.takeWhile Char.isDigit).length
  | string, '"' :: body =>
    let size := (body.takeWhile (· ≠ '"')).length
    if (body.drop size).isEmpty then 0 else size + 2
  | string, _ => 0
  | blank, text => (text.takeWhile Text.isBlank).length
  | invalid, text =>
    let size := (text.takeWhile (!Text.isBlank ·)).length
    if size = 0 || (text.drop size).isEmpty then size else size + 1

/-- The number of characters covered; a pattern that covers none does not match. -/
def length? (pattern : Pattern) (text : List Char) : Option Nat :=
  let n := pattern.coverage text
  if 0 < n then some n else none

theorem length?_pos {pattern : Pattern} {text : List Char} {n : Nat}
    (h : pattern.length? text = some n) : 0 < n := by
  grind [length?]

end Pattern

structure Rule where
  kind : Kind
  pattern : Pattern
  deriving DecidableEq, Repr

namespace Rule

/-- Comments stand before `/`, keywords before identifiers, and operators of two characters
before those of one. -/
def all : List Rule := [
  ⟨.comment, .lineComment⟩,
  ⟨.comment, .blockComment⟩,
  ⟨.andWord, .keyword "and"⟩,
  ⟨.orWord, .keyword "or"⟩,
  ⟨.ifWord, .keyword "if"⟩,
  ⟨.elseWord, .keyword "else"⟩,
  ⟨.trueWord, .keyword "true"⟩,
  ⟨.falseWord, .keyword "false"⟩,
  ⟨.funWord, .keyword "fun"⟩,
  ⟨.returnWord, .keyword "return"⟩,
  ⟨.forWord, .keyword "for"⟩,
  ⟨.whileWord, .keyword "while"⟩,
  ⟨.nullWord, .keyword "null"⟩,
  ⟨.varWord, .keyword "var"⟩,
  ⟨.bangEqual, .symbol "!="⟩,
  ⟨.equalEqual, .symbol "=="⟩,
  ⟨.greaterEqual, .symbol ">="⟩,
  ⟨.lesserEqual, .symbol "<="⟩,
  ⟨.plusEqual, .symbol "+="⟩,
  ⟨.minusEqual, .symbol "-="⟩,
  ⟨.equal, .symbol "="⟩,
  ⟨.greater, .symbol ">"⟩,
  ⟨.lesser, .symbol "<"⟩,
  ⟨.leftParen, .symbol "("⟩,
  ⟨.rightParen, .symbol ")"⟩,
  ⟨.leftSquare, .symbol "["⟩,
  ⟨.rightSquare, .symbol "]"⟩,
  ⟨.leftBrace, .symbol "\x7b"⟩,
  ⟨.rightBrace, .symbol "\x7d"⟩,
  ⟨.comma, .symbol ","⟩,
  ⟨.dot, .symbol "."⟩,
  ⟨.minus, .symbol "-"⟩,
  ⟨.plus, .symbol "+"⟩,
  ⟨.percent, .symbol "%"⟩,
  ⟨.semicolon, .symbol ";"⟩,
  ⟨.slash, .symbol "/"⟩,
  ⟨.star, .symbol "*"⟩,
  ⟨.bang, .symbol "!"⟩,
  ⟨.identifier, .identifier⟩,
  ⟨.number, .number⟩,
  ⟨.string, .string⟩,
  ⟨.blank, .blank⟩,
  ⟨.invalid, .invalid⟩]

/-- The kind and the number of characters of the token at the start of a text. -/
def first? (text : List Char) : Option (Kind × Nat) :=
  all.findSome? fun rule => (rule.pattern.length? text).map (rule.kind, ·)

theorem first?_pos {text : List Char} {kind : Kind} {n : Nat}
    (h : first? text = some (kind, n)) : 0 < n := by
  obtain ⟨rule, _, hrule⟩ := List.exists_of_findSome?_eq_some h
  obtain ⟨m, hm, heq⟩ := Option.map_eq_some_iff.1 hrule
  have := Pattern.length?_pos hm
  simp_all

end Rule

end SoftScript.Token
