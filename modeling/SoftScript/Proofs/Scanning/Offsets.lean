import SoftScript.Text.Bytes

/-! Byte offsets in a text. Cutting a text in two gives an offset, the length of the first part; such
an offset is a boundary, and the text is cut there again in the same place. -/
namespace SoftScript.Text

@[simp] theorem byteLength_append (a b : List Char) :
    byteLength (a ++ b) = byteLength a + byteLength b := by
  induction a with
  | nil => simp [byteLength]
  | cons c rest ih => simp [byteLength, ih, Nat.add_assoc]

/-- Every character takes a byte or more. -/
theorem length_le_byteLength (text : List Char) : text.length ≤ byteLength text := by
  induction text with
  | nil => simp
  | cons c rest ih =>
    have pos := c.utf8Size_pos
    simp only [byteLength, List.length_cons]
    omega

theorem byteLength_cons_eq_succ (c : Char) (rest : List Char) :
    byteLength (c :: rest) = (c.utf8Size - 1 + byteLength rest) + 1 := by
  have pos := c.utf8Size_pos
  simp only [byteLength]
  omega

theorem isBoundary_byteLength (before after : List Char) :
    isBoundary (before ++ after) (byteLength before) = true := by
  induction before with
  | nil => simp [byteLength, isBoundary]
  | cons c rest ih =>
    have pos := c.utf8Size_pos
    have left : c.utf8Size - 1 + byteLength rest + 1 - c.utf8Size = byteLength rest := by omega
    rw [byteLength_cons_eq_succ, List.cons_append, isBoundary, left, ih, Bool.and_true,
      decide_eq_true_eq]
    omega

theorem splitAtByte_byteLength (before after : List Char) :
    splitAtByte (byteLength before) (before ++ after) = (before, after) := by
  induction before with
  | nil => simp [byteLength, splitAtByte]
  | cons c rest ih =>
    have pos := c.utf8Size_pos
    have left : c.utf8Size - 1 + byteLength rest + 1 - c.utf8Size = byteLength rest := by omega
    rw [byteLength_cons_eq_succ, List.cons_append, splitAtByte, left, ih]

/-- A longer prefix of a text takes more bytes. -/
theorem byteLength_take_lt {text : List Char} {m n : Nat} (lt : m < n) (le : n ≤ text.length) :
    byteLength (text.take m) < byteLength (text.take n) := by
  have shorter : text.take m = (text.take n).take m := by
    rw [List.take_take, Nat.min_eq_left (Nat.le_of_lt lt)]
  have whole : byteLength (text.take n) =
      byteLength (text.take m) + byteLength ((text.take n).drop m) := by
    rw [shorter, ← byteLength_append, List.take_append_drop]
  have more := length_le_byteLength ((text.take n).drop m)
  simp only [List.length_drop, List.length_take, Nat.min_eq_left le] at more
  omega

end SoftScript.Text
