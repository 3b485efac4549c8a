import Mathlib.Algebra.Group.Nat.Defs
import SoftScript.Proofs.Joining.Reading
import SoftScript.Proofs.Scanning.Offsets

/-! What tokens say of the text they were read from. Nothing of a text is lost but white space at its
very end: the lexemes follow each other without a gap, and each token tells the bytes it covers and
the line it begins on. -/
namespace SoftScript

namespace Token

/-- The texts of tokens, one after another. -/
def lexemes (tokens : List Token) : List Char := tokens.flatMap (·.lexeme.toList)

@[simp] theorem lexemes_nil : lexemes [] = [] := rfl

@[simp] theorem lexemes_cons (t : Token) (rest : List Token) :
    lexemes (t :: rest) = t.lexeme.toList ++ lexemes rest := rfl

@[simp] theorem lexemes_append (a b : List Token) : lexemes (a ++ b) = lexemes a ++ lexemes b := by
  simp [lexemes]

/-- A token that was read right after some characters. -/
structure StandsAfter (before : List Char) (t : Token) : Prop where
  start : t.span.start = Text.byteLength before
  stop : t.span.stop = Text.byteLength (before ++ t.lexeme.toList)
  line : t.line = 1 + before.count '\n'

/-- Both ends of such a token are boundaries of the text, and its line is counted by the newlines
before it. -/
theorem StandsAfter.inText {before after text : List Char} {t : Token} (stands : t.StandsAfter before)
    (whole : text = before ++ t.lexeme.toList ++ after) :
    Text.isBoundary text t.span.start = true ∧ Text.isBoundary text t.span.stop = true ∧
      t.line = 1 + (Text.splitAtByte t.span.start text).1.count '\n' := by
  refine ⟨?_, ?_, ?_⟩
  · rw [stands.start, whole, List.append_assoc]
    exact Text.isBoundary_byteLength ..
  · rw [stands.stop, whole]
    exact Text.isBoundary_byteLength ..
  · rw [stands.line, stands.start, whole, List.append_assoc, Text.splitAtByte_byteLength]

/-- Tokens that follow each other in a text, the first of them right after some characters. -/
def Follow : List Char → List Token → Prop
  | _, [] => True
  | before, t :: rest => t.StandsAfter before ∧ Follow (before ++ t.lexeme.toList) rest

variable {before : List Char}

/-- Every one of them stands after all the tokens before it. -/
theorem Follow.standsAfter {past later : List Token} {t : Token}
    (follow : Follow before (past ++ t :: later)) : t.StandsAfter (before ++ lexemes past) := by
  induction past generalizing before with
  | nil => simpa using follow.1
  | cons first past ih =>
    have rest := ih follow.2
    rwa [lexemes_cons, ← List.append_assoc]

/-- The characters before a token end where the token before it does. -/
theorem Follow.previous {past : List Token} (follow : Follow [] past) :
    Text.byteLength (lexemes past) = (past.getLast?.map (·.span.stop)).getD 0 := by
  rcases List.eq_nil_or_concat past with rfl | ⟨earlier, last, rfl⟩
  · rfl
  · rw [List.concat_eq_append] at follow ⊢
    have stands : last.StandsAfter ([] ++ lexemes earlier) := follow.standsAfter
    simpa using stands.stop.symm

theorem Follow.past {past later : List Token} (follow : Follow before (past ++ later)) :
    Follow before past := by
  induction past generalizing before with
  | nil => trivial
  | cons first past ih => exact ⟨follow.1, ih follow.2⟩

end Token

namespace Scan

variable {s : Scan} {before : List Char}

/-- A scan that has read some characters and nothing else. -/
structure HasRead (before : List Char) (s : Scan) : Prop where
  offset : s.offset = Text.byteLength before
  line : s.line = 1 + before.count '\n'

theorem hasRead_ofText (text : String) : (ofText text).HasRead [] := ⟨rfl, rfl⟩

theorem lexeme_take (s : Scan) (kind : Token.Kind) (n : Nat) :
    (s.take kind n).1.lexeme.toList = s.rest.take n := by
  simp [take, Token.read]

theorem HasRead.take (read : s.HasRead before) (kind : Token.Kind) (n : Nat) :
    (s.take kind n).1.StandsAfter before ∧ (s.take kind n).2.HasRead (before ++ s.rest.take n) := by
  refine ⟨⟨read.offset, ?_, read.line⟩, ?_, ?_⟩
  · simp [Scan.take, Token.read, read.offset]
  · simp [Scan.take, read.offset]
  · simp [Scan.take, read.line, Nat.add_assoc]

theorem HasRead.eof (read : s.HasRead before) : (Token.eof s.line s.offset).StandsAfter before :=
  ⟨read.offset, by simp [Token.eof, Token.read, Span.point, read.offset], read.line⟩

/-- A scan that is not at its end always finds a rule, and what the rule covers is there. -/
theorem next?_of_visible (unfinished : s.finished = false)
    (visible : Text.allBlank s.rest = false) : ∃ kind n, 0 < n ∧ n ≤ s.rest.length ∧
      Token.Rule.first? s.rest = some (kind, n) ∧ s.next? = some (s.take kind n) := by
  obtain ⟨kind, n, first⟩ := Token.Rule.first?_of_visible visible
  exact ⟨kind, n, Token.Rule.first?_pos first, Token.Rule.first?_le first, first,
    next?_of_first? unfinished visible first⟩

/-- The tokens of a scan: those of the text up to where only white space is left, and an end. -/
structure Splits (s : Scan) (before : List Char) (tokens : List Token) (last : Token)
    (blanks : List Char) : Prop where
  read : s.tokens = tokens ++ [last]
  text : s.rest = Token.lexemes tokens ++ blanks
  blank : Text.allBlank blanks = true
  nonempty : ∀ t ∈ tokens, t.kind ≠ .eof ∧ t.lexeme ≠ ""
  ended : last.kind = .eof ∧ last.lexeme = ""
  follow : Token.Follow before (tokens ++ [last])

theorem splits (unfinished : s.finished = false) (read : s.HasRead before) :
    ∃ tokens last blanks, s.Splits before tokens last blanks := by
  induction size : s.rest.length using Nat.strongRecOn generalizing s before with
  | ind size ih =>
    rcases reads unfinished with ⟨blank, ended⟩ | ⟨kind, n, visible, first, taken, shorter⟩
    · exact ⟨[], _, s.rest, ended, rfl, blank, by simp, ⟨rfl, rfl⟩, read.eof, trivial⟩
    · have lexeme := lexeme_take s kind n
      obtain ⟨stands, readOn⟩ := read.take kind n
      obtain ⟨tokens, last, blanks, rest⟩ :=
        ih _ (size ▸ shorter) (s := (s.take kind n).2) unfinished readOn rfl
      refine ⟨(s.take kind n).1 :: tokens, last, blanks, ?_, ?_, rest.blank, ?_, rest.ended, ?_⟩
      · rw [taken, rest.read, List.cons_append]
      · rw [Token.lexemes_cons, lexeme, List.append_assoc, ← rest.text]
        exact (List.take_append_drop n s.rest).symm
      · intro t member
        rcases List.mem_cons.mp member with rfl | later
        · refine ⟨kind_ne_eof first, ?_⟩
          intro empty
          rw [empty] at lexeme
          have none := congrArg List.length lexeme
          simp only [String.toList_empty, List.length_nil, List.length_take] at none
          simp only [take, List.length_drop] at shorter
          omega
        · exact rest.nonempty t later
      · refine ⟨stands, ?_⟩
        rw [lexeme]
        exact rest.follow

/-- Where each token stands in the text. -/
theorem Splits.stands {source : String} {tokens past later : List Token} {last t : Token}
    {blanks : List Char} (splits : (ofText source).Splits [] tokens last blanks)
    (split : tokens ++ [last] = past ++ t :: later) : t.StandsAfter (Token.lexemes past) ∧
      source.toList =
        Token.lexemes past ++ t.lexeme.toList ++ (Token.lexemes later ++ blanks) := by
  have follow := splits.follow
  rw [split] at follow
  have all : Token.lexemes tokens = Token.lexemes (tokens ++ [last]) := by simp [splits.ended.2]
  have text : source.toList = Token.lexemes tokens ++ blanks := splits.text
  refine ⟨follow.standsAfter, ?_⟩
  rw [text, all, split]
  simp

/-- Not all that was read is newlines. -/
theorem Splits.newlines {tokens : List Token} {last : Token} {blanks : List Char}
    (splits : s.Splits before tokens last blanks) (unfinished : s.finished = false) :
    (Token.lexemes tokens).count '\n' + 1 ≤ max 1 (Text.byteLength (Token.lexemes tokens)) := by
  cases visible : Text.allBlank s.rest with
  | true =>
    have none : tokens = [] := by
      have read : [] ++ [_] = tokens ++ [last] := (tokens_of_blank unfinished visible) ▸ splits.read
      exact (List.append_inj' read rfl).1.symm
    rw [none]
    exact Nat.le_max_left ..
  | false =>
    obtain ⟨c, member, seen⟩ : ∃ c ∈ Token.lexemes tokens, Text.isBlank c = false := by
      have blank := splits.blank
      rw [splits.text] at visible
      simp only [Text.allBlank, List.all_append, Bool.and_eq_false_iff] at visible blank
      simpa [blank] using visible
    have other : c ≠ '\n' := by
      rintro rfl
      exact absurd seen (by decide)
    have fewer : (Token.lexemes tokens).count '\n' < (Token.lexemes tokens).length := by
      apply Nat.lt_of_le_of_ne List.count_le_length
      intro all
      exact other (List.count_eq_length.mp all c member).symm
    have bytes := Text.length_le_byteLength (Token.lexemes tokens)
    omega

end Scan

theorem Token.inText_of_mem {source : String} {t : Token} (member : t ∈ Token.tokenize source) :
    Text.isBoundary source.toList t.span.start = true ∧
      Text.isBoundary source.toList t.span.stop = true ∧
      t.line = 1 + (Text.splitAtByte t.span.start source.toList).1.count '\n' := by
  obtain ⟨tokens, last, blanks, splits⟩ :=
    Scan.splits (s := .ofText source) rfl (Scan.hasRead_ofText source)
  obtain ⟨past, later, split⟩ := List.append_of_mem member
  obtain ⟨stands, whole⟩ := splits.stands (splits.read.symm.trans split)
  exact stands.inText whole

theorem Token.Follow.le_start {before : List Char} {tokens : List Token}
    (follow : Follow before tokens) : ∀ t ∈ tokens, Text.byteLength before ≤ t.span.start := by
  intro t member
  obtain ⟨past, later, rfl⟩ := List.append_of_mem member
  rw [follow.standsAfter.start, Text.byteLength_append]
  exact Nat.le_add_right ..

/-- Where lexemes are not empty, no token is met twice. -/
theorem Token.Follow.nodup {before : List Char} {tokens : List Token} {last : Token}
    (follow : Follow before (tokens ++ [last])) (nonempty : ∀ t ∈ tokens, t.lexeme ≠ "") :
    (tokens ++ [last]).Nodup := by
  induction tokens generalizing before with
  | nil => simp
  | cons t tokens ih =>
    obtain ⟨stands, rest⟩ := follow
    rw [List.forall_mem_cons] at nonempty
    refine List.nodup_cons.mpr ⟨?_, ih rest nonempty.2⟩
    intro again
    have beyond := rest.le_start t again
    rw [stands.start, Text.byteLength_append] at beyond
    have some_ : t.lexeme.toList ≠ [] := fun none => nonempty.1 (String.toList_eq_nil_iff.mp none)
    have := Text.length_le_byteLength t.lexeme.toList
    have := List.length_pos_iff.mpr some_
    omega

/-- The tokens of a text are distinct. -/
theorem Token.nodup_tokenize (source : String) : (Token.tokenize source).Nodup := by
  obtain ⟨tokens, last, blanks, splits⟩ :=
    Scan.splits (s := .ofText source) rfl (Scan.hasRead_ofText source)
  rw [tokenize, splits.read]
  exact splits.follow.nodup fun t member => (splits.nonempty t member).2

/-- Tokenizing loses nothing, and every position is right. Wherever a scan stands, unless only white
space is left some rule applies. The tokens of a text have lexemes that are not empty, but for one
end token after them all; the lexemes make up the text but for white space at its end. Each token
starts where the one before it stopped and is as long as its lexeme; both its ends are boundaries of
the text, and its line is counted by the newlines before it. If the text has less than `2 ^ 32`
bytes, so have all offsets and lines. -/
theorem tokenize_lossless (source : String) (small : Text.byteLength source.toList < 2 ^ 32) :
    (∀ s : Scan, s.finished = false → Text.allBlank s.rest = false →
      ∃ kind n, 0 < n ∧ n ≤ s.rest.length ∧ Token.Rule.first? s.rest = some (kind, n) ∧
        s.next? = some (s.take kind n)) ∧
    ∃ (tokens : List Token) (last : Token) (blanks : List Char),
      Token.tokenize source = tokens ++ [last] ∧
      (∀ t ∈ tokens, t.kind ≠ .eof ∧ t.lexeme ≠ "") ∧ last.kind = .eof ∧ last.lexeme = "" ∧
      source.toList = Token.lexemes tokens ++ blanks ∧ Text.allBlank blanks = true ∧
      last.span = .point (Text.byteLength (Token.lexemes tokens)) ∧
      ∀ (past : List Token) (t : Token) (later : List Token),
        tokens ++ [last] = past ++ t :: later →
        t.span.start = (past.getLast?.map (·.span.stop)).getD 0 ∧
        t.span.length = Text.byteLength t.lexeme.toList ∧ t.span.start ≤ t.span.stop ∧
        Text.isBoundary source.toList t.span.start = true ∧
        Text.isBoundary source.toList t.span.stop = true ∧
        t.line = 1 + (Text.splitAtByte t.span.start source.toList).1.count '\n' ∧
        t.span.stop < 2 ^ 32 ∧ t.line < 2 ^ 32 := by
  refine ⟨fun s => Scan.next?_of_visible, ?_⟩
  obtain ⟨tokens, last, blanks, splits⟩ :=
    Scan.splits (s := .ofText source) rfl (Scan.hasRead_ofText source)
  have text : source.toList = Token.lexemes tokens ++ blanks := splits.text
  have newlines := splits.newlines rfl
  refine ⟨tokens, last, blanks, splits.read, splits.nonempty, splits.ended.1, splits.ended.2, text,
    splits.blank, ?_, ?_⟩
  · obtain ⟨⟨start, stop, _⟩, _⟩ := splits.stands rfl
    rw [splits.ended.2, String.toList_empty, List.append_nil] at stop
    calc last.span
      _ = ⟨last.span.start, last.span.stop⟩ := rfl
      _ = .point (Text.byteLength (Token.lexemes tokens)) := by rw [start, stop, Span.point]
  · intro past t later split
    obtain ⟨stands, whole⟩ := splits.stands split
    obtain ⟨atStart, atStop, line⟩ := stands.inText whole
    have follow : Token.Follow [] (past ++ t :: later) := split ▸ splits.follow
    have start := stands.start
    have stop := stands.stop
    refine ⟨start.trans follow.past.previous, ?_, ?_, atStart, atStop, line, ?_, ?_⟩
    · simp [Span.length, start, stop]
    · simp [start, stop]
    · rw [whole, Text.byteLength_append] at small
      omega
    · have read : Token.lexemes tokens =
          Token.lexemes past ++ t.lexeme.toList ++ Token.lexemes later :=
        List.append_cancel_right (text.symm.trans (whole.trans (List.append_assoc ..).symm))
      have line := stands.line
      rw [read] at newlines
      rw [whole] at small
      simp only [List.count_append, Text.byteLength_append] at newlines small
      omega

/-- A character of two bytes, a comment over two lines, and newlines at the end. -/
def motley : String := "é /* a\nb */ x\n\n"

theorem tokenize_lossless_motley : Text.byteLength motley.toList < 2 ^ 32 ∧
    (Token.tokenize motley).map (fun t => (t.kind, t.line, t.span.start, t.span.stop)) =
      [(.invalid, 1, 0, 3), (.comment, 1, 3, 12), (.blank, 2, 12, 13), (.identifier, 2, 13, 14),
        (.eof, 2, 14, 14)] ∧
    ∃ (tokens : List Token) (last : Token) (blanks : List Char),
      Token.tokenize motley = tokens ++ [last] ∧
      motley.toList = Token.lexemes tokens ++ blanks ∧ Text.allBlank blanks = true ∧
      ∀ (past : List Token) (t : Token) (later : List Token),
        tokens ++ [last] = past ++ t :: later →
        t.span.start = (past.getLast?.map (·.span.stop)).getD 0 ∧
        t.line = 1 + (Text.splitAtByte t.span.start motley.toList).1.count '\n' := by
  have small : Text.byteLength motley.toList < 2 ^ 32 := by decide
  obtain ⟨_, tokens, last, blanks, read, _, _, _, text, blank, _, placed⟩ :=
    tokenize_lossless motley small
  refine ⟨small, by decide +kernel, tokens, last, blanks, read, text, blank, ?_⟩
  intro past t later split
  obtain ⟨start, _, _, _, _, line, _⟩ := placed past t later split
  exact ⟨start, line⟩

end SoftScript
