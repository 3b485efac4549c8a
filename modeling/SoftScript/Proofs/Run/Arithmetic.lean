import SoftScript.Proofs.Run.ListOperators

/-! Arithmetic of programs. The operators on numbers take integers only, and what they yield is the
integer of arithmetic or an overflow, never an integer wrapped around. -/
namespace SoftScript

namespace Integer

variable {a b : Integer} {n : Int}

/-- Below or above everything that 64 bits hold. -/
def Outside (n : Int) : Prop := n < -0x8000000000000000 ∨ 0x8000000000000000 ≤ n

theorem not_outside_iff : ¬Outside n ↔ Fits n := by
  unfold Fits Outside
  omega

theorem fits_toInt (a : Integer) : Fits a.toInt :=
  ⟨Int64.le_toInt a, Int64.toInt_lt a⟩

theorem ofInt?_eq_some_iff : ofInt? n = some a ↔ a.toInt = n := by
  constructor
  · intro made
    unfold ofInt? at made
    split at made
    case isTrue fits =>
      cases made
      exact Int64.toInt_ofInt_of_le fits.1 fits.2
    case isFalse => cases made
  · rintro rfl
    rw [ofInt?, if_pos (fits_toInt a), Int64.ofInt_toInt]

theorem ofInt?_eq_none_iff : ofInt? n = none ↔ Outside n := by
  simp [ofInt?, ← not_outside_iff]

theorem toInt_eq_zero_iff : b.toInt = 0 ↔ b = 0 := by
  rw [← Int64.toInt_inj, Int64.toInt_zero]

/-- One quotient does not fit: a divisor further from zero than one at least halves the dividend. -/
theorem outside_tdiv_iff (a b : Integer) :
    Outside (a.toInt.tdiv b.toInt) ↔ a.toInt = -0x8000000000000000 ∧ b.toInt = -1 := by
  have fits := fits_toInt a
  unfold Fits at fits
  unfold Outside
  by_cases small : b.toInt.natAbs ≤ 1
  · have cases : b.toInt = 0 ∨ b.toInt = 1 ∨ b.toInt = -1 := by omega
    rcases cases with zero | one | opposite
    · rw [zero, Int.tdiv_zero]
      omega
    · rw [one, Int.tdiv_one]
      omega
    · rw [opposite, Int.tdiv_neg, Int.tdiv_one]
      omega
  · have size : (a.toInt.tdiv b.toInt).natAbs = a.toInt.natAbs / b.toInt.natAbs :=
      Int.natAbs_tdiv a.toInt b.toInt
    have half : a.toInt.natAbs / b.toInt.natAbs ≤ a.toInt.natAbs / 2 :=
      Nat.div_le_div_left (by omega) (by decide)
    omega

/-- A remainder is smaller than the divisor, or is the dividend where the divisor is zero. -/
theorem fits_tmod (a b : Integer) : Fits (a.toInt.tmod b.toInt) := by
  by_cases zero : b.toInt = 0
  · rw [zero, Int.tmod_zero]
    exact fits_toInt a
  · have fits := fits_toInt b
    have size : (a.toInt.tmod b.toInt).natAbs < b.toInt.natAbs := by
      rw [Int.natAbs_tmod]
      exact Nat.mod_lt _ (by omega)
    unfold Fits at fits ⊢
    omega

/-- A remainder is there where the quotient is. -/
theorem mod?_eq_none_iff : mod? a b = none ↔ div? a b = none := by
  have fits := fits_tmod a b
  unfold mod?
  cases div? a b with
  | none => simp
  | some quotient => simp [ofInt?, fits]

theorem toInt_of_mod? {r : Integer} (made : mod? a b = some r) : r.toInt = a.toInt.tmod b.toInt := by
  obtain ⟨_, _, made⟩ := Option.bind_eq_some_iff.mp made
  exact ofInt?_eq_some_iff.mp made

/-- A quotient times its divisor lies between zero and the dividend. -/
theorem fits_tdiv_mul (a b : Integer) : Fits (a.toInt.tdiv b.toInt * b.toInt) := by
  have fits := fits_toInt a
  have whole := Int.tdiv_mul_add_tmod a.toInt b.toInt
  have size : (a.toInt.tmod b.toInt).natAbs ≤ a.toInt.natAbs := by
    rw [Int.natAbs_tmod]
    exact Nat.mod_le _ _
  unfold Fits at fits ⊢
  by_cases nonneg : 0 ≤ a.toInt
  · have sign := Int.tmod_nonneg b.toInt nonneg
    omega
  · have sign := Int.tmod_nonneg b.toInt (Int.neg_nonneg_of_nonpos (Int.le_of_not_le nonneg))
    rw [Int.neg_tmod] at sign
    omega

end Integer

namespace Run

/-- A run that fails at a token and leaves every machine as it was. -/
def Fails (run : Run Value) (cause : Fault.Cause) (token : Token) : Prop :=
  ∀ m, run m = .error (.fault ⟨cause, token⟩) m

/-- A run that yields a value and leaves every machine as it was. -/
def Gives (run : Run Value) (v : Value) : Prop :=
  ∀ m, run m = .ok v m

/-- A run that yields an integer of arithmetic, unless that overflows at an operator. -/
structure Computes (run : Run Value) (op : Token) (overflow : Prop) (n : Int) : Prop where
  overflows : overflow → Fails run .integerOverflow op
  exact : ¬overflow → ∃ value : Integer, value.toInt = n ∧ Gives run (.int value)

theorem computes_checked {result : Option Integer} {overflow : Prop} {n : Int} {op : Token}
    (none : result = none ↔ overflow) (some : ∀ value, result = some value → value.toInt = n) :
    Computes (checked op result) op overflow n where
  overflows outside m := by
    rw [none.mpr outside]
    rfl
  exact fits := by
    cases found : result with
    | none => exact absurd (none.mp found) fits
    | some value => exact ⟨value, some value found, fun _ => rfl⟩

theorem Computes.succeeds_iff {run : Run Value} {op : Token} {overflow : Prop} {n : Int}
    (computes : Computes run op overflow n) {m : Machine} :
    (∃ v m', run m = .ok v m') ↔ ¬overflow := by
  constructor
  · rintro ⟨v, m', ran⟩ outside
    rw [computes.overflows outside m] at ran
    cases ran
  · intro small
    obtain ⟨value, _, given⟩ := computes.exact small
    exact ⟨_, m, given m⟩

/-- The operators that take two integers and nothing else. -/
def numeric : List Token.Kind :=
  [.minus, .star, .slash, .percent, .greater, .greaterEqual, .lesser, .lesserEqual]

/-- The operators on numbers with an operand that is none: of two such operands the left one is
reported. -/
structure Rejects (left right : Value) : Prop where
  first : ∀ op : Token, op.kind ∈ numeric → left.payload.kind ≠ .int →
    Fails (binary op left right) (.operandNotNumber left.payload.kind) op
  second : ∀ op : Token, op.kind ∈ numeric → left.payload.kind = .int → right.payload.kind ≠ .int →
    Fails (binary op left right) (.operandNotNumber right.payload.kind) op
  opposite : ∀ op : Token, op.kind = .minus → right.payload.kind ≠ .int →
    Fails (unary op right) (.operandNotNumber right.payload.kind) op

/-- The operators on numbers with two operands that stand for integers. -/
structure Exact (left right : Value) (a b : Int) : Prop where
  sum : ∀ op : Token, op.kind = .plus →
    Computes (binary op left right) op (Integer.Outside (a + b)) (a + b)
  difference : ∀ op : Token, op.kind = .minus →
    Computes (binary op left right) op (Integer.Outside (a - b)) (a - b)
  product : ∀ op : Token, op.kind = .star →
    Computes (binary op left right) op (Integer.Outside (a * b)) (a * b)
  opposite : ∀ op : Token, op.kind = .minus →
    Computes (unary op right) op (Integer.Outside (-b)) (-b)
  byZero : ∀ op : Token, op.kind = .slash ∨ op.kind = .percent → b = 0 →
    Fails (binary op left right) .divisionByZero op
  /-- The quotient is truncated toward zero. -/
  quotient : ∀ op : Token, op.kind = .slash → b ≠ 0 →
    Computes (binary op left right) op (a = -0x8000000000000000 ∧ b = -1) (a.tdiv b)
  /-- The remainder has the sign of the dividend. -/
  remainder : ∀ op : Token, op.kind = .percent → b ≠ 0 →
    Computes (binary op left right) op (a = -0x8000000000000000 ∧ b = -1) (a.tmod b)
  greater : ∀ op : Token, op.kind = .greater → Gives (binary op left right) (.bool (a > b))
  greaterEqual : ∀ op : Token, op.kind = .greaterEqual →
    Gives (binary op left right) (.bool (a ≥ b))
  lesser : ∀ op : Token, op.kind = .lesser → Gives (binary op left right) (.bool (a < b))
  lesserEqual : ∀ op : Token, op.kind = .lesserEqual →
    Gives (binary op left right) (.bool (a ≤ b))

/-- Division of an integer and what undoes it. -/
structure Divides (left right : Value) (a : Integer) : Prop where
  together : ∀ slash percent : Token, slash.kind = .slash → percent.kind = .percent → ∀ m,
    (∃ q m', binary slash left right m = .ok q m') ↔ ∃ r m', binary percent left right m = .ok r m'
  restored : ∀ slash percent star plus : Token, slash.kind = .slash → percent.kind = .percent →
    star.kind = .star → plus.kind = .plus → ∀ m q m', binary slash left right m = .ok q m' →
    ∃ r p, Gives (binary percent left right) r ∧ Gives (binary star q right) p ∧
      Gives (binary plus p r) (.int a)

theorem binary_numeric {op : Token} (numbers : op.kind ∈ numeric) (left right : Value) :
    binary op left right = arithmetic op left right := by
  simp only [numeric, List.mem_cons, List.not_mem_nil, or_false] at numbers
  unfold binary
  rcases numbers with kind | kind | kind | kind | kind | kind | kind | kind <;> rw [kind]

theorem asInt?_eq_none_iff {p : Payload} : p.asInt? = none ↔ p.kind ≠ .int := by
  cases p <;> simp [Payload.asInt?, Payload.kind]

theorem rejects (left right : Value) : Rejects left right where
  first op numbers noInt m := by
    rw [binary_numeric numbers, arithmetic, asInt?_eq_none_iff.mpr noInt]
    rfl
  second op numbers isInt noInt m := by
    rw [binary_numeric numbers, arithmetic, asInt?_eq_none_iff.mpr noInt]
    cases first : left.payload.asInt? with
    | none => exact absurd isInt (asInt?_eq_none_iff.mp first)
    | some a => rfl
  opposite op isMinus noInt m := by
    rw [unary, isMinus, asInt?_eq_none_iff.mpr noInt]
    rfl

section Integers

variable {left right : Value} {a b : Integer} (isLeft : left.payload = .int a)
  (isRight : right.payload = .int b)

include isLeft isRight

theorem computes_sum {op : Token} (isPlus : op.kind = .plus) : Computes (binary op left right) op
    (Integer.Outside (a.toInt + b.toInt)) (a.toInt + b.toInt) := by
  rw [binary_plus isPlus, plus, isLeft, isRight]
  exact computes_checked Integer.ofInt?_eq_none_iff fun _ => Integer.ofInt?_eq_some_iff.mp

theorem computes_difference {op : Token} (isMinus : op.kind = .minus) :
    Computes (binary op left right) op
      (Integer.Outside (a.toInt - b.toInt)) (a.toInt - b.toInt) := by
  rw [binary_numeric (by simp [numeric, isMinus]), arithmetic, isLeft, isRight, isMinus]
  exact computes_checked Integer.ofInt?_eq_none_iff fun _ => Integer.ofInt?_eq_some_iff.mp

theorem computes_product {op : Token} (isStar : op.kind = .star) :
    Computes (binary op left right) op
      (Integer.Outside (a.toInt * b.toInt)) (a.toInt * b.toInt) := by
  rw [binary_numeric (by simp [numeric, isStar]), arithmetic, isLeft, isRight, isStar]
  exact computes_checked Integer.ofInt?_eq_none_iff fun _ => Integer.ofInt?_eq_some_iff.mp

theorem computes_quotient {op : Token} (isSlash : op.kind = .slash) (nonzero : b.toInt ≠ 0) :
    Computes (binary op left right) op
      (a.toInt = -0x8000000000000000 ∧ b.toInt = -1) (a.toInt.tdiv b.toInt) := by
  rw [binary_numeric (by simp [numeric, isSlash]), arithmetic, isLeft, isRight, isSlash]
  dsimp only [Payload.asInt?]
  rw [if_neg (mt Integer.toInt_eq_zero_iff.mpr nonzero)]
  apply computes_checked
  · exact Integer.ofInt?_eq_none_iff.trans (Integer.outside_tdiv_iff a b)
  · exact fun _ => Integer.ofInt?_eq_some_iff.mp

theorem computes_remainder {op : Token} (isPercent : op.kind = .percent) (nonzero : b.toInt ≠ 0) :
    Computes (binary op left right) op
      (a.toInt = -0x8000000000000000 ∧ b.toInt = -1) (a.toInt.tmod b.toInt) := by
  rw [binary_numeric (by simp [numeric, isPercent]), arithmetic, isLeft, isRight, isPercent]
  dsimp only [Payload.asInt?]
  rw [if_neg (mt Integer.toInt_eq_zero_iff.mpr nonzero)]
  apply computes_checked
  · exact Integer.mod?_eq_none_iff.trans
      (Integer.ofInt?_eq_none_iff.trans (Integer.outside_tdiv_iff a b))
  · exact fun _ => Integer.toInt_of_mod?

/-- Zero does not divide, and this is checked before overflow. -/
theorem fails_byZero {op : Token} (divides : op.kind = .slash ∨ op.kind = .percent)
    (zero : b.toInt = 0) : Fails (binary op left right) .divisionByZero op := by
  intro m
  rw [binary_numeric (by rcases divides with kind | kind <;> simp [numeric, kind]), arithmetic,
    isLeft, isRight]
  dsimp only [Payload.asInt?]
  rcases divides with kind | kind <;> rw [kind] <;>
    simp only [if_pos (Integer.toInt_eq_zero_iff.mp zero)] <;> rfl

theorem exact_of_integers : Exact left right a.toInt b.toInt where
  sum _ := computes_sum isLeft isRight
  difference _ := computes_difference isLeft isRight
  product _ := computes_product isLeft isRight
  opposite op isMinus := by
    rw [unary, isMinus, isRight]
    exact computes_checked Integer.ofInt?_eq_none_iff fun _ => Integer.ofInt?_eq_some_iff.mp
  byZero _ := fails_byZero isLeft isRight
  quotient _ := computes_quotient isLeft isRight
  remainder _ := computes_remainder isLeft isRight
  greater op isGreater m := by
    rw [binary_numeric (by simp [numeric, isGreater]), arithmetic, isLeft, isRight, isGreater]
    simp only [Payload.asInt?, gt_iff_lt, Int64.lt_iff_toInt_lt]
    rfl
  greaterEqual op isGreaterEqual m := by
    rw [binary_numeric (by simp [numeric, isGreaterEqual]), arithmetic, isLeft, isRight,
      isGreaterEqual]
    simp only [Payload.asInt?, ge_iff_le, Int64.le_iff_toInt_le]
    rfl
  lesser op isLesser m := by
    rw [binary_numeric (by simp [numeric, isLesser]), arithmetic, isLeft, isRight, isLesser]
    simp only [Payload.asInt?, Int64.lt_iff_toInt_lt]
    rfl
  lesserEqual op isLesserEqual m := by
    rw [binary_numeric (by simp [numeric, isLesserEqual]), arithmetic, isLeft, isRight,
      isLesserEqual]
    simp only [Payload.asInt?, Int64.le_iff_toInt_le]
    rfl

/-- A quotient and a remainder overflow together. The quotient times its divisor is no further from zero
than the dividend, and the remainder makes up the rest of it. -/
theorem divides_of_integers : Divides left right a where
  together slash percent isSlash isPercent m := by
    by_cases zero : b.toInt = 0
    · rw [fails_byZero isLeft isRight (.inl isSlash) zero m,
        fails_byZero isLeft isRight (.inr isPercent) zero m]
      simp
    · rw [(computes_quotient isLeft isRight isSlash zero).succeeds_iff,
        (computes_remainder isLeft isRight isPercent zero).succeeds_iff]
  restored slash percent star plus isSlash isPercent isStar isPlus m q m' ran := by
    have nonzero : b.toInt ≠ 0 := by
      intro zero
      rw [fails_byZero isLeft isRight (.inl isSlash) zero m] at ran
      cases ran
    have divided := computes_quotient isLeft isRight isSlash nonzero
    have small := divided.succeeds_iff.mp ⟨q, m', ran⟩
    obtain ⟨quotient, isQuotient, given⟩ := divided.exact small
    obtain ⟨remainder, isRemainder, left⟩ :=
      (computes_remainder isLeft isRight isPercent nonzero).exact small
    cases (given m).symm.trans ran
    have fits := Integer.fits_tdiv_mul a b
    rw [← isQuotient] at fits
    have multiplies : Computes (binary star (.int quotient) right) star _ _ :=
      computes_product rfl isRight isStar
    obtain ⟨product, isProduct, multiplied⟩ :=
      multiplies.exact (Integer.not_outside_iff.mpr fits)
    have whole : product.toInt + remainder.toInt = a.toInt := by
      rw [isProduct, isQuotient, isRemainder]
      exact Int.tdiv_mul_add_tmod a.toInt b.toInt
    have adds : Computes (binary plus (.int product) (.int remainder)) plus _ _ :=
      computes_sum rfl rfl isPlus
    rw [whole] at adds
    obtain ⟨sum, isSum, added⟩ := adds.exact (Integer.not_outside_iff.mpr (Integer.fits_toInt a))
    cases Int64.toInt_inj.mp isSum
    exact ⟨.int remainder, .int product, left, multiplied, added⟩

end Integers

/-- Integer arithmetic is exact or fails. An operator on numbers reports the left operand if that is no
integer and else the right one. On integers, comparisons follow the order of the integers; a sum, a
difference, a product or an opposite is the one of arithmetic, or overflows if 64 bits do not hold it;
quotients truncated toward zero and remainders with the sign of the dividend refuse to divide by zero,
and overflow for the least integer by minus one alone. A quotient is there exactly if the remainder is,
and then both give back the dividend. -/
theorem integers_exact :
    (∀ left right, Rejects left right) ∧
    ∀ (left right : Value) (a b : Integer), left.payload = .int a → right.payload = .int b →
      Exact left right a.toInt b.toInt ∧ Divides left right a :=
  ⟨rejects, fun _ _ _ _ isLeft isRight =>
    ⟨exact_of_integers isLeft isRight, divides_of_integers isLeft isRight⟩⟩

/-- The one quotient that overflows, the product that does, and a remainder below zero. -/
theorem integers_exact_extremes :
    Fails (binary (.read .slash "/" 1 ⟨0, 1⟩) (.int Int64.minValue) (.int (-1)))
      .integerOverflow (.read .slash "/" 1 ⟨0, 1⟩) ∧
    Fails (binary (.read .star "*" 1 ⟨0, 1⟩) (.int Int64.minValue) (.int (-1)))
      .integerOverflow (.read .star "*" 1 ⟨0, 1⟩) ∧
    ∃ value : Integer, value.toInt = -1 ∧
      Gives (binary (.read .percent "%" 1 ⟨0, 1⟩) (.int (-7)) (.int 2)) (.int value) := by
  have least := (integers_exact.2 (.int Int64.minValue) (.int (-1)) _ _ rfl rfl).1
  have seven := (integers_exact.2 (.int (-7)) (.int 2) _ _ rfl rfl).1
  refine ⟨?_, ?_, ?_⟩
  · exact (least.quotient _ rfl (by decide)).overflows (by decide)
  · exact (least.product _ rfl).overflows (by unfold Integer.Outside; decide)
  · exact (seven.remainder _ rfl (by decide)).exact (by decide)

end Run
end SoftScript
