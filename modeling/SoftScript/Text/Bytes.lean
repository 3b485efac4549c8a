/-! Texts measured in the bytes of their UTF-8 encoding. -/
namespace SoftScript

namespace Text

def byteLength : List Char → Nat
  | [] => 0
  | c :: rest => c.utf8Size + byteLength rest

/-- Whether a character begins at a byte offset or the text ends there. -/
def isBoundary : List Char → Nat → Bool
  | _, 0 => true
  | [], _ + 1 => false
  | c :: rest, n + 1 => c.utf8Size ≤ n + 1 && isBoundary rest (n + 1 - c.utf8Size)

/-- The characters that begin before a byte offset, and those after them. -/
def splitAtByte : Nat → List Char → List Char × List Char
  | 0, text => ([], text)
  | _, [] => ([], [])
  | n + 1, c :: rest =>
    let (before, after) := splitAtByte (n + 1 - c.utf8Size) rest
    (c :: before, after)

end Text

/-- A half-open range of byte offsets in a source text. -/
structure Span where
  start : Nat
  stop : Nat
  deriving DecidableEq, Repr, Inhabited

namespace Span

/-- The empty span at an offset. -/
def point (offset : Nat) : Span := ⟨offset, offset⟩

def length (s : Span) : Nat := s.stop - s.start

def isEmpty (s : Span) : Bool := s.start = s.stop

def text (s : Span) : String :=
  toString s.start ++ ".." ++ toString s.stop

end Span

end SoftScript
