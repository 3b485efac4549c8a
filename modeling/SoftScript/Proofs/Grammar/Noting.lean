import Mathlib.Data.List.Nodup
import SoftScript.Proofs.Grammar.Recovery
import SoftScript.Proofs.Grammar.WellBuilt

/-! What becomes of the places in a tree that may be noted as errors. They are told by the tokens that
a parser passes and by the errors that it notes meanwhile: an error that marks a place is noted at a
token of it, and as no token is passed twice, the errors at the tokens of a place are its own. -/
namespace SoftScript

open Parse

namespace Parse

/-- The causes that mark places in trees. -/
def Cause.marks : Cause → Bool
  | .topLevelReturn | .tooManyParameters => true
  | _ => false

/-- An error that marks a place, other than at the end of the tokens. -/
def Error.Marks (e : Error) : Prop := e.cause.marks = true ∧ e.token.kind ≠ .eof

/-- An error that stops a production. -/
structure Error.Stops (e : Error) : Prop where
  unmarked : e.cause.marks = false
  /-- Only numbers are out of range. -/
  number : e.cause = .integerOutOfRange → e.token.kind = .number

end Parse

namespace Site

def cause : Site → Cause
  | returns .. => .topLevelReturn
  | function _ => .tooManyParameters

def tokens : Site → List Token
  | returns _ keyword => [keyword]
  | function params => params

/-- The tokens of a place at which an error is due. -/
def due : Site → List Token
  | returns inside keyword => if inside then [] else [keyword]
  | function params => params.drop maxParameters

def errors (x : Site) : List Error := x.due.map (⟨x.cause, ·⟩)

/-- The errors that may concern a place. -/
def concerns (x : Site) (e : Error) : Bool := e.cause = x.cause && x.tokens.contains e.token

theorem marks_cause (x : Site) : x.cause.marks = true := by
  cases x <;> rfl

/-- The errors that are due are noted in a row, and when no token is passed twice, there are no
others at the tokens of the place. -/
structure Told (passed : List Token) (noted : List Error) (x : Site) : Prop where
  unended : ∀ t ∈ x.tokens, t.kind ≠ .eof
  among : x.tokens ⊆ passed
  due : x.errors <:+: noted
  only : passed.Nodup → noted.filter x.concerns = x.errors

variable {passed later : List Token} {noted more : List Error} {x : Site}

/-- Errors at other tokens do not concern a place. -/
theorem Told.filter_eq_nil (told : x.Told passed noted)
    (placed : ∀ e ∈ more, e.Marks → e.token ∈ later) (apart : passed.Disjoint later) :
    more.filter x.concerns = [] := by
  apply List.filter_eq_nil_iff.mpr
  intro e member concerned
  obtain ⟨cause, token⟩ : e.cause = x.cause ∧ e.token ∈ x.tokens := by
    simpa [concerns] using concerned
  have marks : e.Marks := ⟨cause ▸ x.marks_cause, told.unended _ token⟩
  exact apart (told.among token) (placed e member marks)

theorem Told.before (told : x.Told passed noted)
    (placed : ∀ e ∈ more, e.Marks → e.token ∈ later) : x.Told (passed ++ later) (noted ++ more) where
  unended := told.unended
  among := List.subset_append_of_subset_left _ told.among
  due := told.due.trans (List.prefix_append ..).isInfix
  only once := by
    obtain ⟨first, _, apart⟩ := List.nodup_append'.mp once
    rw [List.filter_append, told.only first, told.filter_eq_nil placed apart, List.append_nil]

theorem Told.after (told : x.Told later more)
    (placed : ∀ e ∈ noted, e.Marks → e.token ∈ passed) :
    x.Told (passed ++ later) (noted ++ more) where
  unended := told.unended
  among := List.subset_append_of_subset_right _ told.among
  due := told.due.trans (List.suffix_append ..).isInfix
  only once := by
    obtain ⟨_, second, apart⟩ := List.nodup_append'.mp once
    rw [List.filter_append, told.only second, told.filter_eq_nil placed (List.disjoint_comm.mp apart),
      List.nil_append]

end Site

namespace Parse

/-- Errors that mark places are noted at tokens passed, and some places are told by them. -/
structure Accounts (passed : List Token) (noted : List Error) (sites : List Site) : Prop where
  placed : ∀ e ∈ noted, e.Marks → e.token ∈ passed
  told : ∀ x ∈ sites, x.Told passed noted

theorem Accounts.append {passed later : List Token} {noted more : List Error}
    {sites further : List Site} (first : Accounts passed noted sites)
    (second : Accounts later more further) :
    Accounts (passed ++ later) (noted ++ more) (sites ++ further) where
  placed e member marks := by
    rcases List.mem_append.mp member with before | after
    · exact List.mem_append_left _ (first.placed e before marks)
    · exact List.mem_append_right _ (second.placed e after marks)
  told x member := by
    rcases List.mem_append.mp member with before | after
    · exact (first.told x before).before second.placed
    · exact (second.told x after).after first.placed

namespace Cursor

variable {c c' c'' : Cursor} {passed later : List Token} {noted more : List Error}
  {sites further : List Site}

/-- Between two cursors some tokens were passed and some errors noted. -/
structure Takes (c c' : Cursor) (passed : List Token) (noted : List Error) : Prop where
  ahead : c.ahead = passed ++ c'.ahead
  errors : c'.errors.toList = c.errors.toList ++ noted
  functionDepth : c'.functionDepth = c.functionDepth

theorem Takes.refl (c : Cursor) : c.Takes c [] [] := ⟨rfl, by simp, rfl⟩

theorem Takes.trans (first : c.Takes c' passed noted) (second : c'.Takes c'' later more) :
    c.Takes c'' (passed ++ later) (noted ++ more) where
  ahead := by rw [first.ahead, second.ahead, List.append_assoc]
  errors := by rw [second.errors, first.errors, List.append_assoc]
  functionDepth := second.functionDepth.trans first.functionDepth

theorem takes_advance_of_unended (unended : c.atEnd = false) :
    c.Takes c.advance [c.current] [] :=
  ⟨ahead_advance_cons unended, by simp, by simp⟩

theorem takes_advance (c : Cursor) : ∃ passed, c.Takes c.advance passed [] := by
  cases ended : c.atEnd with
  | true =>
    have stays : c.advance = c := by simp [advance, ended]
    rw [stays]
    exact ⟨[], .refl c⟩
  | false =>
    exact ⟨[c.current], takes_advance_of_unended ended⟩

theorem takes_report (c : Cursor) (cause : Cause) (t : Token) :
    c.Takes (c.report cause t) [] [⟨cause, t⟩] :=
  ⟨rfl, by simp [report], rfl⟩

/-- After an error the token in view is passed, if there is one. -/
theorem takes_synchronize (c : Cursor) :
    ∃ passed, c.Takes c.synchronize passed [] ∧ ∀ t ∈ c.ahead.head?, t ∈ passed := by
  obtain ⟨⟨skipped, split⟩, errors, depth⟩ := c.synchronize_onward
  cases ahead : c.ahead with
  | nil =>
    rw [ahead, List.tail_nil, List.append_eq_nil_iff] at split
    exact ⟨[], ⟨by rw [ahead, split.2]; rfl, by simp [errors], depth⟩, by simp⟩
  | cons t w =>
    rw [ahead, List.tail_cons] at split
    exact ⟨t :: skipped, ⟨by rw [ahead, ← split]; rfl, by simp [errors], depth⟩, by simp⟩

/-- A stretch that was read, and the places that were told on it. -/
def Spans (c c' : Cursor) (sites : List Site) : Prop :=
  ∃ passed noted, c.Takes c' passed noted ∧ Accounts passed noted sites

/-- A stretch that ends at an error. What was noted last may be noted at the token in view. -/
def Breaks (c c' : Cursor) : Prop :=
  ∃ passed noted, c.Takes c' passed noted ∧
    ∀ e ∈ noted, e.Marks → e.token ∈ passed ∨ e.token ∈ c'.ahead.head?

theorem Spans.refl (c : Cursor) : c.Spans c [] := ⟨[], [], .refl c, by simp, by simp⟩

theorem Spans.trans (first : c.Spans c' sites) (second : c'.Spans c'' further) :
    c.Spans c'' (sites ++ further) := by
  obtain ⟨_, _, takes, accounts⟩ := first
  obtain ⟨_, _, takes', accounts'⟩ := second
  exact ⟨_, _, takes.trans takes', accounts.append accounts'⟩

theorem Spans.breaks (first : c.Spans c' sites) (second : c'.Breaks c'') : c.Breaks c'' := by
  obtain ⟨passed, noted, takes, accounts⟩ := first
  obtain ⟨later, more, takes', placed⟩ := second
  refine ⟨_, _, takes.trans takes', ?_⟩
  intro e member marks
  rcases List.mem_append.mp member with before | after
  · exact .inl (List.mem_append_left _ (accounts.placed e before marks))
  · exact (placed e after marks).imp_left (List.mem_append_right _)

theorem Breaks.refl (c : Cursor) : c.Breaks c := ⟨[], [], .refl c, by simp⟩

theorem Spans.inFunction (spans : c.Spans c' sites) : c'.inFunction = c.inFunction := by
  obtain ⟨_, _, takes, _⟩ := spans
  simp [Cursor.inFunction, takes.functionDepth]

theorem spans_advance (c : Cursor) : c.Spans c.advance [] := by
  obtain ⟨passed, takes⟩ := c.takes_advance
  exact ⟨passed, [], takes, by simp, by simp⟩

theorem spans_report {cause : Cause} (unmarked : cause.marks = false) (t : Token) :
    c.Spans (c.report cause t) [] := by
  refine ⟨[], [⟨cause, t⟩], c.takes_report cause t, ?_, by simp⟩
  intro e member marks
  obtain rfl := List.mem_singleton.mp member
  simp [Error.Marks, unmarked] at marks

/-- Recovering from an error passes the token at which it was noted. -/
theorem Breaks.recovered {e : Error} (breaks : c.Breaks c') (stops : e.Stops) :
    c.Spans (c'.report e.cause e.token).synchronize [] := by
  obtain ⟨passed, noted, takes, placed⟩ := breaks
  obtain ⟨skipped, takes', inView⟩ := (c'.report e.cause e.token).takes_synchronize
  have whole := (takes.trans (c'.takes_report e.cause e.token)).trans takes'
  refine ⟨_, _, whole, ?_, by simp⟩
  intro e' member marks
  simp only [List.append_nil, List.mem_append, List.mem_singleton] at member ⊢
  rcases member with earlier | rfl
  · exact (placed e' earlier marks).imp_right (inView _)
  · exact absurd marks.1 (by simp [stops.unmarked])

end Cursor

end Parse

end SoftScript
