import SoftScript.Token.Kind

/-! The levels at which expressions bind, the loosest first. -/
namespace SoftScript.Parse

inductive Level where
  | lowest | assignment | or | and | equality | comparison | sum | product | unary | call
  deriving DecidableEq, Repr, Inhabited

namespace Level

def all : List Level :=
  [lowest, assignment, or, and, equality, comparison, sum, product, unary, call]

/-- The level one step tighter; nothing is tighter than a call. -/
def next : Level → Level
  | lowest => assignment
  | assignment => or
  | or => and
  | and => equality
  | equality => comparison
  | comparison => sum
  | sum => product
  | product => unary
  | unary | call => call

/-- The operators written between operands of a level. All associate to the left. -/
def operators : Level → List Token.Kind
  | or => [.orWord]
  | and => [.andWord]
  | equality => [.bangEqual, .equalEqual]
  | comparison => [.greater, .greaterEqual, .lesser, .lesserEqual]
  | sum => [.minus, .plus]
  | product => [.slash, .star, .percent]
  | lowest | assignment | unary | call => []

/-- The levels with operators from the tightest up to the given one. -/
def upTo : Level → List Level
  | lowest | assignment | or => [product, sum, comparison, equality, and, or]
  | and => [product, sum, comparison, equality, and]
  | equality => [product, sum, comparison, equality]
  | comparison => [product, sum, comparison]
  | sum => [product, sum]
  | product => [product]
  | unary | call => []

end Level

end SoftScript.Parse
