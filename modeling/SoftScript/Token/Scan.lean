import SoftScript.Text.Bytes
import SoftScript.Token.Basic
import SoftScript.Token.Pattern

/-! Splitting a source text into tokens, white space and comments included. White space at the
very end of a text yields no token: what is left is then blank and the end token is due. -/
namespace SoftScript

/-- A scan of a source text: what is left to read and where it begins. -/
structure Scan where
  rest : List Char
  offset : Nat
  line : Nat
  finished : Bool

namespace Scan

def ofText (text : String) : Scan := ⟨text.toList, 0, 1, false⟩

/-- Splits off the first characters of the rest as a token. -/
def take (s : Scan) (kind : Token.Kind) (size : Nat) : Token × Scan :=
  let lexeme := s.rest.take size
  let stop := s.offset + Text.byteLength lexeme
  (.read kind (String.ofList lexeme) s.line ⟨s.offset, stop⟩,
    { s with rest := s.rest.drop size, offset := stop, line := s.line + lexeme.count '\n' })

def finish (s : Scan) : Token × Scan :=
  (.eof s.line s.offset, { s with finished := true })

/-- The next token, or nothing once the end token has been given. -/
def next? (s : Scan) : Option (Token × Scan) :=
  if s.finished then none
  else if Text.allBlank s.rest then some s.finish
  else match Token.Rule.first? s.rest with
    | some (kind, size) => some (s.take kind size)
    | none => some s.finish

/-- Bounds the number of tokens still to come. -/
def budget (s : Scan) : Nat :=
  if s.finished then 0 else s.rest.length + 1

theorem budget_next? {s s' : Scan} {token : Token} (h : s.next? = some (token, s')) :
    s'.budget < s.budget := by
  unfold next? at h
  split at h
  · contradiction
  · rename_i unfinished
    split at h
    · cases h; simp [budget, unfinished]
    · rename_i notBlank
      split at h
      · rename_i kind size hfirst
        have := Token.Rule.first?_pos hfirst
        have : s.rest ≠ [] := by rintro h; simp [h, Text.allBlank] at notBlank
        have := List.length_pos_iff.2 this
        cases h
        simp [budget, unfinished]
        omega
      · cases h; simp [budget, unfinished]

def tokens (s : Scan) : List Token :=
  match _h : s.next? with
  | none => []
  | some (token, s') => token :: s'.tokens
termination_by s.budget
decreasing_by exact budget_next? _h

def text (s : Scan) : String :=
  "Lexer \x7b\n\toffset: " ++ toString s.offset ++ ",\n\tline: " ++ toString s.line ++
    ",\n\tremaining: " ++ toString (Text.byteLength s.rest) ++ "\n\x7d"

end Scan

namespace Token

def tokenize (source : String) : List Token :=
  (Scan.ofText source).tokens

/-- The tokens that the parser looks at. -/
def significant (tokens : List Token) : List Token :=
  tokens.filter (!·.kind.isTrivia)

end Token

end SoftScript
