/-! The kinds of tokens. -/
namespace SoftScript

namespace Token

inductive Kind where
  | leftParen | rightParen | leftSquare | rightSquare | leftBrace | rightBrace
  | comma | dot | minus | plus | percent | semicolon | slash | star | bang
  | bangEqual | equal | equalEqual | plusEqual | minusEqual
  | greater | greaterEqual | lesser | lesserEqual
  | identifier | string | number
  | invalid | blank | comment
  | andWord | orWord | ifWord | elseWord | trueWord | falseWord | funWord | returnWord
  | forWord | whileWord | nullWord | varWord
  | eof
  deriving DecidableEq, Repr, Inhabited

namespace Kind

def all : List Kind := [
  leftParen, rightParen, leftSquare, rightSquare, leftBrace, rightBrace,
  comma, dot, minus, plus, percent, semicolon, slash, star, bang,
  bangEqual, equal, equalEqual, plusEqual, minusEqual,
  greater, greaterEqual, lesser, lesserEqual,
  identifier, string, number, invalid, blank, comment,
  andWord, orWord, ifWord, elseWord, trueWord, falseWord, funWord, returnWord,
  forWord, whileWord, nullWord, varWord, eof]

/-- Kinds that the parser skips. -/
def isTrivia : Kind → Bool
  | blank | comment | invalid => true
  | _ => false

/-- Keywords that open a statement; the parser resumes at them after an error. -/
def startsStatement : Kind → Bool
  | funWord | varWord | forWord | ifWord | whileWord | returnWord => true
  | _ => false

/-- How a kind is written in programs, or a capital word for a kind with many spellings. -/
def spelling : Kind → String
  | leftParen => "("
  | rightParen => ")"
  | leftSquare => "["
  | rightSquare => "]"
  | leftBrace => "\x7b"
  | rightBrace => "\x7d"
  | comma => ","
  | dot => "."
  | minus => "-"
  | plus => "+"
  | percent => "%"
  | semicolon => ";"
  | slash => "/"
  | star => "*"
  | bang => "!"
  | bangEqual => "!="
  | equal => "="
  | equalEqual => "=="
  | plusEqual => "+="
  | minusEqual => "-="
  | greater => ">"
  | greaterEqual => ">="
  | lesser => "<"
  | lesserEqual => "<="
  | identifier => "IDENTIFIER"
  | string => "STRING"
  | number => "NUMBER"
  | invalid => "INVALID"
  | blank => "WHITE_SPACE"
  | comment => "COMMENT"
  | andWord => "and"
  | orWord => "or"
  | ifWord => "if"
  | elseWord => "else"
  | trueWord => "true"
  | falseWord => "false"
  | funWord => "fun"
  | returnWord => "return"
  | forWord => "for"
  | whileWord => "while"
  | nullWord => "null"
  | varWord => "var"
  | eof => "EOF"

/-- The name under which token listings show a kind. -/
def name : Kind → String
  | leftParen => "LeftParen"
  | rightParen => "RightParen"
  | leftSquare => "LeftSquare"
  | rightSquare => "RightSquare"
  | leftBrace => "LeftBrace"
  | rightBrace => "RightBrace"
  | comma => "Comma"
  | dot => "Dot"
  | minus => "Minus"
  | plus => "Plus"
  | percent => "Percent"
  | semicolon => "Semicolon"
  | slash => "Slash"
  | star => "Star"
  | bang => "Bang"
  | bangEqual => "BangEqual"
  | equal => "Equal"
  | equalEqual => "EqualEqual"
  | plusEqual => "PlusEqual"
  | minusEqual => "MinusEqual"
  | greater => "Greater"
  | greaterEqual => "GreaterEqual"
  | lesser => "Lesser"
  | lesserEqual => "LesserEqual"
  | identifier => "Identifier"
  | string => "String"
  | number => "Number"
  | invalid => "Invalid"
  | blank => "Whitespace"
  | comment => "Comment"
  | andWord => "And"
  | orWord => "Or"
  | ifWord => "If"
  | elseWord => "Else"
  | trueWord => "True"
  | falseWord => "False"
  | funWord => "Fun"
  | returnWord => "Return"
  | forWord => "For"
  | whileWord => "While"
  | nullWord => "Null"
  | varWord => "Var"
  | eof => "Eof"

end Kind

end Token

end SoftScript
