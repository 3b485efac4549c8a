import SoftScript.Proofs.Run.Account

/-! Runs that print more than the output takes. Such a run goes the same way as one with an output
that takes everything, up to the call that fills the output, and ends there; or it has no end, if
the output interrupts what it does not take, since then the call writes again and again. -/
namespace SoftScript

/-- The same machine with an output that takes no more than a number of bytes altogether. -/
def Machine.limited (size : Nat) (error : DeviceError) (m : Machine) : Machine :=
  { m with output := ⟨m.output.written, some (size, error)⟩ }

namespace Event

/-- The calls of `print` among events, and the lines they write. -/
def prints (told : List Event) : List (Token × String) :=
  told.filterMap fun
    | .print paren line => some (paren, line)
    | _ => none

/-- Lines one after another, as they stand in the output. -/
def written : List (Token × String) → ByteArray
  | [] => .empty
  | (_, line) :: rest => line.toUTF8 ++ written rest

end Event

open Event

namespace Run

variable {α β : Type} {size : Nat} {error : DeviceError} {m b : Machine} {n : Nat}
  {told : List Event} {whole cut : EStateM.Result Halt Machine α}

@[simp] theorem after_leaving (leave : Machine → Machine) (ended : EStateM.Result Halt Machine α) :
    after (leaving leave ended) = leave (after ended) := by
  cases ended <;> rfl

/-- The lines of which one does not fit into the output any more. -/
structure Fills (size : Nat) (before : ByteArray) (lines : List (Token × String)) (paren : Token)
    (line : String) : Prop where
  room : before.size + (written lines).size ≤ size
  full : size < before.size + (written lines).size + line.toUTF8.size

/-- What stops a run that writes to a full output. -/
def stopping (error : DeviceError) (paren : Token) : Halt :=
  if error = .interrupted then .exhausted else .fault ⟨.output error, paren⟩

/-- How a run ends that prints to an output of some size, compared to one that prints the same to an
output without limit. -/
structure Truncates (size : Nat) (error : DeviceError) (m : Machine) (told : List Event)
    (whole cut : EStateM.Result Halt Machine α) : Prop where
  output : (after whole).output = ⟨m.output.written ++ written (prints told), none⟩
  fits : (after whole).output.written.size ≤ size → cut = leaving (·.limited size error) whole
  full : m.output.written.size ≤ size → size < (after whole).output.written.size →
    ∃ lines paren line later m', prints told = lines ++ (paren, line) :: later ∧
    Fills size m.output.written lines paren line ∧ cut = .error (stopping error paren) m' ∧
    (error ≠ .interrupted → m'.output.written = (after whole).output.written.extract 0 size)

/-- What is done after a run to the machine it leaves. -/
theorem Truncates.leaving (inner : Truncates size error b told whole cut)
    (leave : Machine → Machine) (same : b.output = m.output) (keeps : ∀ l, (leave l).output = l.output)
    (commutes : ∀ l, leave (l.limited size error) = (leave l).limited size error) :
    Truncates size error m told (Run.leaving leave whole) (Run.leaving leave cut) := by
  obtain ⟨output, fits, full⟩ := inner
  rw [same] at output full
  refine ⟨?_, ?_, ?_⟩
  · rw [after_leaving, keeps, output]
  · intro small
    rw [after_leaving, keeps] at small
    rw [fits small]
    cases whole <;> exact congrArg _ (commutes _)
  · intro room exceeded
    rw [after_leaving, keeps] at exceeded
    obtain ⟨lines, paren, line, rest, m', split, fills, rfl, taken⟩ := full room exceeded
    refine ⟨lines, paren, line, rest, leave m', split, fills, rfl, ?_⟩
    intro lasting
    rw [after_leaving, keeps, keeps, taken lasting]

end Run

end SoftScript
