/-! Integers of the language: 64 bits wide, signed, and never wrapped around. Arithmetic is done
on `Int` and its result is kept only when it fits. -/
namespace SoftScript

abbrev Integer := Int64

namespace Integer

def Fits (n : Int) : Prop := -0x8000000000000000 ≤ n ∧ n < 0x8000000000000000

instance (n : Int) : Decidable (Fits n) :=
  inferInstanceAs (Decidable (_ ∧ _))

def ofInt? (n : Int) : Option Integer :=
  if Fits n then some (Int64.ofInt n) else none

/-- A size as an integer; no list or text grows beyond the range. -/
def ofSize (n : Nat) : Integer := Int64.ofNat n

/-- An integer as a position counted from zero. -/
def toIndex? (n : Integer) : Option Nat :=
  if 0 ≤ n.toInt then some n.toInt.toNat else none

def add? (a b : Integer) : Option Integer := ofInt? (a.toInt + b.toInt)

def sub? (a b : Integer) : Option Integer := ofInt? (a.toInt - b.toInt)

def mul? (a b : Integer) : Option Integer := ofInt? (a.toInt * b.toInt)

def neg? (a : Integer) : Option Integer := ofInt? (-a.toInt)

/-- The quotient rounded toward zero. -/
def div? (a b : Integer) : Option Integer := ofInt? (a.toInt.tdiv b.toInt)

/-- The remainder of the quotient rounded toward zero, where that quotient fits. -/
def mod? (a b : Integer) : Option Integer :=
  (div? a b).bind fun _ => ofInt? (a.toInt.tmod b.toInt)

def text (n : Integer) : String := toString n.toInt

/-- The value of a run of decimal digits, read from the left. -/
def digitsValue (digits : List Char) : Nat :=
  digits.foldl (fun value digit => 10 * value + (digit.toNat - '0'.toNat)) 0

def digits? (digits : List Char) : Option Nat :=
  if !digits.isEmpty && digits.all Char.isDigit then some (digitsValue digits) else none

/-- Decimal digits after at most one sign. -/
def decimal? : List Char → Option Int
  | '-' :: digits => (digits? digits).map fun n => -(n : Int)
  | '+' :: digits => (digits? digits).map fun n => (n : Int)
  | digits => (digits? digits).map fun n => (n : Int)

def parse? (text : String) : Option Integer :=
  (decimal? text.toList).bind ofInt?

end Integer

end SoftScript
