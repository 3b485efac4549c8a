import SoftScript.Device

/-! What writing comes to. A text that fits is written in one round. Of one that does not, a part is
taken, and then the output gives its error, or interrupts the write again and again. -/
namespace SoftScript.Output

/-- Whatever was written before, the writing of a text has an end. -/
def IsTotal (o : Output) : Prop :=
  ∀ (written : ByteArray) (text : String), ({ o with written }.write text).isSome

variable {o o' : Output} {bytes : ByteArray} {text : String} {size n : Nat} {error : DeviceError}

/-! The rounds, one by one. -/

theorem attempt_fits (fits : ∀ limit ∈ o.limit, bytes.size ≤ limit.1 - o.written.size)
    (more : 0 < bytes.size) : o.attempt bytes = .ok bytes.size := by
  unfold attempt
  split
  · rfl
  · rename_i size error limit
    have room := fits _ limit
    dsimp only at room ⊢
    rw [if_neg (by omega), Nat.min_eq_right room]

theorem attempt_part (limit : o.limit = some (size, error)) (room : o.written.size < size)
    (exceeds : size - o.written.size < bytes.size) :
    o.attempt bytes = .ok (size - o.written.size) := by
  simp only [attempt, limit, Nat.min_eq_left (Nat.le_of_lt exceeds)]
  exact if_neg (by omega)

theorem attempt_full (limit : o.limit = some (size, error)) (full : size ≤ o.written.size) :
    o.attempt bytes = .error error := by
  simp only [attempt, limit]
  exact if_pos (by omega)

theorem writeAll_empty (n : Nat) (o : Output) : writeAll (n + 1) o .empty = some (none, o) := rfl

theorem not_isEmpty (more : 0 < bytes.size) : ¬ bytes.isEmpty = true := by
  simpa [ByteArray.isEmpty] using Nat.ne_of_gt more

theorem writeAll_taken {taken : Nat} (took : o.attempt bytes = .ok taken) (pos : 0 < taken)
    (more : 0 < bytes.size) : writeAll (n + 1) o bytes =
      writeAll n { o with written := o.written ++ bytes.extract 0 taken }
        (bytes.extract taken bytes.size) := by
  obtain ⟨k, rfl⟩ : ∃ k, taken = k + 1 := ⟨taken - 1, by omega⟩
  rw [writeAll, if_neg (not_isEmpty more), took]

theorem writeAll_failed (failed : o.attempt bytes = .error error) (lasting : error ≠ .interrupted)
    (more : 0 < bytes.size) : writeAll (n + 1) o bytes = some (some error, o) := by
  rw [writeAll, if_neg (not_isEmpty more), failed]
  cases error <;> first | rfl | contradiction

/-- An output that interrupts a write does so again, however often it is made. -/
theorem writeAll_interrupted (failed : o.attempt bytes = .error .interrupted)
    (more : 0 < bytes.size) (n : Nat) : writeAll n o bytes = none := by
  induction n with
  | zero => rfl
  | succ n ih =>
    rw [writeAll, if_neg (not_isEmpty more), failed]
    exact ih

/-! All rounds together, as soon as they are more than the bytes. -/

theorem writeAll_fits (fits : ∀ limit ∈ o.limit, bytes.size ≤ limit.1 - o.written.size)
    (enough : bytes.size < n) :
    writeAll n o bytes = some (none, { o with written := o.written ++ bytes }) := by
  obtain ⟨n, rfl⟩ : ∃ k, n = k + 1 := ⟨n - 1, by omega⟩
  rcases Nat.eq_zero_or_pos bytes.size with nothing | more
  · rw [ByteArray.size_eq_zero_iff] at nothing
    rw [nothing, writeAll_empty, ByteArray.append_empty]
  · obtain ⟨n, rfl⟩ : ∃ k, n = k + 1 := ⟨n - 1, by omega⟩
    rw [writeAll_taken (attempt_fits fits more) more more, ByteArray.extract_zero_size,
      ByteArray.extract_same, writeAll_empty]

theorem writeAll_full (limit : o.limit = some (size, error)) (full : size ≤ o.written.size)
    (more : 0 < bytes.size) (n : Nat) : writeAll (n + 1) o bytes =
      if error = .interrupted then none else some (some error, o) := by
  have failed : o.attempt bytes = .error error := attempt_full limit full
  by_cases again : error = .interrupted
  · rw [if_pos again]
    exact writeAll_interrupted (again ▸ failed) more _
  · rw [if_neg again]
    exact writeAll_failed failed again more

theorem writeAll_over (limit : o.limit = some (size, error))
    (exceeds : size - o.written.size < bytes.size) (enough : bytes.size < n) : writeAll n o bytes =
      if error = .interrupted then none
      else some (some error,
        { o with written := o.written ++ bytes.extract 0 (size - o.written.size) }) := by
  obtain ⟨n, rfl⟩ : ∃ k, n = k + 1 := ⟨n - 1, by omega⟩
  have more : 0 < bytes.size := by omega
  rcases Nat.lt_or_ge o.written.size size with room | full
  · -- One part is taken, and nothing of the rest.
    obtain ⟨n, rfl⟩ : ∃ k, n = k + 1 := ⟨n - 1, by omega⟩
    have rest : 0 < (bytes.extract (size - o.written.size) bytes.size).size := by
      rw [ByteArray.size_extract]
      omega
    have filled : size ≤ (o.written ++ bytes.extract 0 (size - o.written.size)).size := by
      rw [ByteArray.size_append, ByteArray.size_extract]
      omega
    rw [writeAll_taken (attempt_part limit room exceeds) (by omega) more]
    exact writeAll_full
      (o := { o with written := o.written ++ bytes.extract 0 (size - o.written.size) })
      limit filled rest n
  · rw [Nat.sub_eq_zero_of_le full, ByteArray.extract_same, ByteArray.append_empty]
    exact writeAll_full limit full more n

/-! What is left of this for a text. -/

theorem fits_or_over (o : Output) (bytes : ByteArray) :
    (∀ limit ∈ o.limit, bytes.size ≤ limit.1 - o.written.size) ∨
      ∃ size error, o.limit = some (size, error) ∧ size - o.written.size < bytes.size := by
  cases o.limit with
  | none => exact .inl (by simp)
  | some limit =>
    rcases Nat.lt_or_ge (limit.1 - o.written.size) bytes.size with exceeds | fits
    · exact .inr ⟨limit.1, limit.2, rfl, exceeds⟩
    · exact .inl (by simpa using fits)

/-- The rounds of `write` are enough: with more of them nothing else comes out. -/
theorem writeAll_eq_write (enough : text.toUTF8.size < n) :
    writeAll n o text.toUTF8 = o.write text := by
  rcases o.fits_or_over text.toUTF8 with fits | ⟨size, error, limit, exceeds⟩
  · rw [write, writeAll_fits fits enough, writeAll_fits fits (Nat.lt_succ_self _)]
  · rw [write, writeAll_over limit exceeds enough,
      writeAll_over limit exceeds (Nat.lt_succ_self _)]

theorem write_fits (fits : ∀ limit ∈ o.limit, text.toUTF8.size ≤ limit.1 - o.written.size) :
    o.write text = some (none, { o with written := o.written ++ text.toUTF8 }) :=
  writeAll_fits fits (Nat.lt_succ_self _)

theorem write_unlimited (free : o.limit = none) :
    o.write text = some (none, { o with written := o.written ++ text.toUTF8 }) :=
  write_fits (by simp [free])

theorem write_over (limit : o.limit = some (size, error))
    (exceeds : size - o.written.size < text.toUTF8.size) : o.write text =
      if error = .interrupted then none
      else some (some error,
        { o with written := o.written ++ text.toUTF8.extract 0 (size - o.written.size) }) :=
  writeAll_over limit exceeds (Nat.lt_succ_self _)

theorem limit_writeAll {failure : Option DeviceError}
    (ended : writeAll n o bytes = some (failure, o')) : o'.limit = o.limit := by
  fun_induction writeAll n o bytes with
  | case1 => cases ended
  | case2 | case3 | case6 =>
    cases ended
    rfl
  | case4 _ _ _ _ _ _ ih | case5 _ _ _ _ _ ih => exact ih ended

theorem limit_write {failure : Option DeviceError} (ended : o.write text = some (failure, o')) :
    o'.limit = o.limit :=
  limit_writeAll ended

/-- Only an output that interrupts writes when it is full is not total. -/
theorem isTotal_iff : o.IsTotal ↔ ∀ size, o.limit ≠ some (size, .interrupted) := by
  constructor
  · intro total size limit
    have bytes : (ByteArray.mk (Array.replicate size 0)).size = size := Array.size_replicate
    have text : 0 < "\n".toUTF8.size := by decide
    have full : size - (ByteArray.mk (Array.replicate size 0)).size < "\n".toUTF8.size := by
      omega
    have endless := write_over (o := { o with written := ⟨Array.replicate size 0⟩ }) limit full
    have ends := total ⟨Array.replicate size 0⟩ "\n"
    rw [endless] at ends
    cases ends
  · intro lasting written text
    rcases fits_or_over { o with written } text.toUTF8 with fits | ⟨size, error, limit, exceeds⟩
    · rw [write_fits fits]
      rfl
    · have fails : error ≠ .interrupted := fun again => lasting size (again ▸ limit)
      rw [write_over limit exceeds, if_neg fails]
      rfl

theorem isTotal_congr (same : o'.limit = o.limit) : o'.IsTotal ↔ o.IsTotal := by
  rw [isTotal_iff, isTotal_iff, same]

end SoftScript.Output
