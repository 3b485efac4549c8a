import Mathlib.Data.List.TakeWhile
import SoftScript.Proofs.Grammar.Division
import SoftScript.Proofs.Joining.Seam
import SoftScript.Proofs.Likeness.Parsing
import SoftScript.Proofs.Printing.Spelling

/-! How a text is read that goes on after a newline. Its tokens are those of the first part, each
where it stands there, and then those of the second part, which read the same as on their own but
stand elsewhere. -/
namespace SoftScript

namespace Token

theorem sentence_cons {t : Token} (unended : t.kind ≠ .eof) (rest : List Token) :
    sentence (t :: rest) = (if t.kind.isTrivia then [] else [t]) ++ sentence rest := by
  by_cases trivia : t.kind.isTrivia <;> simp [sentence, significant, unended, trivia]

theorem significant_cons (t : Token) (rest : List Token) :
    significant (t :: rest) = (if t.kind.isTrivia then [] else [t]) ++ significant rest := by
  by_cases trivia : t.kind.isTrivia <;> simp [significant, trivia]

end Token

namespace Scan

variable {s s' : Scan} {t : Token}

/-! One token at a time. -/

theorem next?_of_blank (unfinished : s.finished = false) (blank : Text.allBlank s.rest = true) :
    s.next? = some s.finish := by
  simp [next?, unfinished, blank]

theorem next?_of_first? {kind : Token.Kind} {n : Nat} (unfinished : s.finished = false)
    (visible : Text.allBlank s.rest = false) (first : Token.Rule.first? s.rest = some (kind, n)) :
    s.next? = some (s.take kind n) := by
  simp [next?, unfinished, visible, first]

theorem tokens_of_blank (unfinished : s.finished = false) (blank : Text.allBlank s.rest = true) :
    s.tokens = [.eof s.line s.offset] := by
  have next := next?_of_blank unfinished blank
  have ended : s.tokens = .eof s.line s.offset :: Scan.tokens { s with finished := true } :=
    tokens_of_next? next
  have nothing : Scan.tokens { s with finished := true } = [] := by
    rw [tokens]
    split
    · rfl
    · rename_i found
      simp [next?] at found
  rw [ended, nothing]

theorem tokens_of_first? {kind : Token.Kind} {n : Nat} (unfinished : s.finished = false)
    (visible : Text.allBlank s.rest = false) (first : Token.Rule.first? s.rest = some (kind, n)) :
    s.tokens = (s.take kind n).1 :: (s.take kind n).2.tokens :=
  tokens_of_next? (next?_of_first? unfinished visible first)

/-- No rule reads an end. -/
theorem kind_ne_eof {text : List Char} {kind : Token.Kind} {n : Nat}
    (first : Token.Rule.first? text = some (kind, n)) : kind ≠ .eof := by
  obtain ⟨rule, member, found⟩ := List.exists_of_findSome?_eq_some first
  obtain ⟨k, _, equal⟩ := Option.map_eq_some_iff.mp found
  cases equal
  have kinds : ∀ rule ∈ Token.Rule.all, rule.kind ≠ .eof := by decide
  exact kinds rule member

/-- What comes next: the end, or a token and a shorter rest. -/
theorem reads (unfinished : s.finished = false) :
    Text.allBlank s.rest = true ∧ s.tokens = [.eof s.line s.offset] ∨
    ∃ kind n, Text.allBlank s.rest = false ∧ Token.Rule.first? s.rest = some (kind, n) ∧
      s.tokens = (s.take kind n).1 :: (s.take kind n).2.tokens ∧
      (s.take kind n).2.rest.length < s.rest.length := by
  cases blank : Text.allBlank s.rest with
  | true => exact .inl ⟨rfl, tokens_of_blank unfinished blank⟩
  | false =>
    obtain ⟨kind, n, first⟩ := Token.Rule.first?_of_visible blank
    refine .inr ⟨kind, n, rfl, first, tokens_of_first? unfinished blank first, ?_⟩
    have pos := Token.Rule.first?_pos first
    have le := Token.Rule.first?_le first
    simp only [take, List.length_drop]
    omega

theorem sameText_take (same : s.rest = s'.rest) (kind : Token.Kind) (n : Nat) :
    Token.SameText (s.take kind n).1 (s'.take kind n).1 := by
  refine ⟨rfl, ?_, ?_⟩ <;> simp [take, Token.read, same]

/-- The same text reads the same wherever it stands. -/
theorem sameText_tokens (same : s.rest = s'.rest) (unfinished : s.finished = false)
    (unfinished' : s'.finished = false) : List.Forall₂ Token.SameText s.tokens s'.tokens := by
  induction size : s.rest.length using Nat.strongRecOn generalizing s s' with
  | ind size ih =>
    rcases reads unfinished with ⟨blank, ended⟩ | ⟨kind, n, visible, first, read, shorter⟩
    · rw [ended, tokens_of_blank unfinished' (same ▸ blank)]
      exact .cons ⟨rfl, rfl, rfl⟩ .nil
    · rw [read, tokens_of_first? unfinished' (same ▸ visible) (same ▸ first)]
      exact .cons (sameText_take same kind n)
        (ih _ (size ▸ shorter) (by simp [take, same]) unfinished unfinished' rfl)

theorem sameText_significant {ts ts' : List Token} (same : List.Forall₂ Token.SameText ts ts') :
    List.Forall₂ Token.SameText (Token.significant ts) (Token.significant ts') := by
  induction same with
  | nil => exact .nil
  | @cons t t' _ _ first _ ih =>
    rw [Token.significant_cons, Token.significant_cons, ← first.kind]
    split
    · exact ih
    · exact .cons first ih

theorem drop_takeWhile (p : Char → Bool) (text : List Char) :
    text.drop (text.takeWhile p).length = text.dropWhile p := by
  have split := List.takeWhile_append_dropWhile (p := p) (l := text)
  calc text.drop (text.takeWhile p).length
    _ = (text.takeWhile p ++ text.dropWhile p).drop (text.takeWhile p).length := by rw [split]
    _ = text.dropWhile p := List.drop_left

/-- White space in front of a text is skipped. -/
theorem skips (unfinished : s.finished = false) : ∃ s₀ : Scan, s₀.finished = false ∧
    s₀.rest = s.rest.dropWhile Text.isBlank ∧
    Token.significant s.tokens = Token.significant s₀.tokens := by
  cases visible : Text.allBlank s.rest with
  | true =>
    have empty : s.rest.dropWhile Text.isBlank = [] := by
      rw [List.dropWhile_eq_nil_iff]
      simpa [Text.allBlank] using visible
    refine ⟨{ s with rest := [] }, unfinished, empty.symm, ?_⟩
    rw [tokens_of_blank unfinished visible, tokens_of_blank (s := { s with rest := [] }) unfinished rfl]
  | false =>
    cases text : s.rest with
    | nil => simp [text, Text.allBlank] at visible
    | cons c rest =>
      cases blank : Text.isBlank c with
      | false => exact ⟨s, unfinished, by simp [text, blank], rfl⟩
      | true =>
        have first := Token.Rule.first?_blanks blank rest
        rw [← text] at first ⊢
        refine ⟨(s.take .blank (s.rest.takeWhile Text.isBlank).length).2, unfinished,
          drop_takeWhile Text.isBlank s.rest, ?_⟩
        rw [tokens_of_first? unfinished visible first, Token.significant_cons]
        rfl

theorem sameText_of_dropWhile
    (same : s.rest.dropWhile Text.isBlank = s'.rest.dropWhile Text.isBlank)
    (unfinished : s.finished = false) (unfinished' : s'.finished = false) :
    List.Forall₂ Token.SameText (Token.significant s.tokens) (Token.significant s'.tokens) := by
  obtain ⟨s₀, unfinished₀, rest₀, skipped⟩ := skips unfinished
  obtain ⟨s₁, unfinished₁, rest₁, skipped'⟩ := skips unfinished'
  rw [skipped, skipped']
  have rests : s₀.rest = s₁.rest := rest₀.trans (same.trans rest₁.symm)
  exact sameText_significant (sameText_tokens rests unfinished₀ unfinished₁)

/-- A comment that is left open reads as a slash and a star. -/
theorem sentence_of_opensComment (unfinished : s.finished = false)
    (opens : Token.opensComment s.rest = true) :
    ∃ slash star rest, Token.sentence s.tokens = slash :: star :: rest ∧
      slash.kind = .slash ∧ star.kind = .star := by
  obtain ⟨body, text, unclosed⟩ : ∃ body, s.rest = '/' :: '*' :: body ∧
      Token.Pattern.throughCommentEnd body = none := by
    unfold Token.opensComment at opens
    split at opens
    · exact ⟨_, by assumption, by simpa using opens⟩
    · cases opens
  have first : Token.Rule.first? s.rest = some (.slash, 1) := by
    rw [text]
    apply Token.Rule.first?_lone (c := '/') 35 rfl (by decide)
    intro rule member
    by_cases isLine : rule.pattern = .lineComment
    · rw [isLine]
      exact Token.Pattern.lineComment_eq_zero (by simp)
    · by_cases isBlock : rule.pattern = .blockComment
      · rw [isBlock]
        simp only [Token.Pattern.coverage, unclosed]
      · have others : ∀ rule ∈ Token.Rule.all.take 35, rule.pattern ≠ .lineComment →
            rule.pattern ≠ .blockComment → rule.pattern.opensWith '/' = false := by
          decide
        exact Token.Pattern.coverage_of_not_opensWith (others rule member isLine isBlock)
  have second : Token.Rule.first? (s.take .slash 1).2.rest = some (.star, 1) := by
    simp only [take, text, List.drop_one, List.tail_cons]
    apply Token.Rule.first?_lone (c := '*') 36 rfl (by decide)
    intro rule member
    have others : ∀ rule ∈ Token.Rule.all.take 36, rule.pattern.opensWith '*' = false := by
      decide
    exact Token.Pattern.coverage_of_not_opensWith (others rule member)
  have slash : Text.isBlank '/' = false := by decide
  have star : Text.isBlank '*' = false := by decide
  have read := tokens_of_first? unfinished (by simp [text, Text.allBlank, slash]) first
  have read' := tokens_of_first? (s := (s.take .slash 1).2) unfinished
    (by simp [take, text, Text.allBlank, star]) second
  rw [read, read', Token.sentence_cons (kind_ne_eof first), Token.sentence_cons (kind_ne_eof second)]
  exact ⟨_, _, _, rfl, rfl, rfl⟩

/-- What the grammar allows leaves no block comment open. -/
theorem opensComment_eq_false (unfinished : s.finished = false)
    (divides : Token.Divides (Token.sentence s.tokens)) : Token.opensComment s.rest = false := by
  cases opens : Token.opensComment s.rest with
  | false => rfl
  | true =>
    obtain ⟨slash, star, rest, starts, isSlash, isStar⟩ := sentence_of_opensComment unfinished opens
    rw [starts] at divides
    obtain ⟨next, found, operand⟩ := divides.1 isSlash
    cases found
    rw [isStar] at operand
    cases operand

/-! More text. -/

/-- A scan of the same text with more after it, on a new line. -/
def extend (s : Scan) (more : List Char) : Scan := { s with rest := s.rest ++ '\n' :: more }

/-- A scan reads certain tokens, and then what a scan of some text reads. -/
def ReadsOn (s : Scan) (ts : List Token) (more : List Char) : Prop :=
  ∃ s₂ : Scan, Token.sentence s.tokens = ts ++ Token.sentence s₂.tokens ∧
    ∀ s' : Scan, s'.rest = more → s'.finished = false →
      List.Forall₂ Token.SameText (Token.significant s₂.tokens) (Token.significant s'.tokens)

variable {more : List Char} {ts : List Token}

/-- The text itself comes next, up to white space. -/
theorem readsOn_of_dropWhile (unfinished : s.finished = false)
    (rest : s.rest.dropWhile Text.isBlank = more.dropWhile Text.isBlank) : s.ReadsOn [] more :=
  ⟨s, rfl, fun _ rest' unfinished' => sameText_of_dropWhile (rest' ▸ rest) unfinished unfinished'⟩

/-- One token more in front. -/
theorem ReadsOn.token (later : s'.ReadsOn ts more) (read : s.tokens = t :: s'.tokens)
    (unended : t.kind ≠ .eof) : s.ReadsOn ((if t.kind.isTrivia then [] else [t]) ++ ts) more := by
  obtain ⟨s₂, same, alike⟩ := later
  refine ⟨s₂, ?_, alike⟩
  rw [read, Token.sentence_cons unended, same, List.append_assoc]

/-- A text with more after it reads as the text does, up to its end, and then as what follows. -/
theorem readsOn_extend (unfinished : s.finished = false)
    (clean : ∀ t ∈ s.tokens, t.kind ≠ .invalid)
    (divides : Token.Divides (Token.sentence s.tokens)) (more : List Char) :
    (s.extend more).ReadsOn (Token.sentence s.tokens) more := by
  induction size : s.rest.length using Nat.strongRecOn generalizing s with
  | ind size ih =>
    rcases reads unfinished with ⟨blank, ended⟩ | ⟨kind, n, visible, first, read, shorter⟩
    · have nothing : Token.sentence s.tokens = [] := by
        rw [ended]
        rfl
      have newline : Text.isBlank '\n' = true := by decide
      rw [nothing]
      apply readsOn_of_dropWhile (s := s.extend more) unfinished
      rw [extend, List.dropWhile_append_of_pos (List.all_eq_true.mp blank),
        List.dropWhile_cons_of_pos newline]
    · have unended := kind_ne_eof first
      have sound : kind ≠ .invalid := clean _ (by rw [read]; exact List.mem_cons_self)
      have closed := opensComment_eq_false unfinished divides
      have visible' : Text.allBlank (s.extend more).rest = false := by
        simp only [extend, Text.allBlank, List.all_append] at visible ⊢
        rw [visible, Bool.false_and]
      have le := Token.Rule.first?_le first
      have split : Token.sentence s.tokens =
          (if kind.isTrivia then [] else [(s.take kind n).1]) ++
            Token.sentence (s.take kind n).2.tokens := by
        rw [read, Token.sentence_cons unended]
        rfl
      rw [split] at divides ⊢
      rcases Token.Rule.first?_newline visible closed first sound more with
        same | ⟨alone, longer⟩
      · have taken : (s.extend more).take kind n =
            ((s.take kind n).1, (s.take kind n).2.extend more) := by
          simp [take, extend, List.take_append_of_le_length le, List.drop_append_of_le_length le]
        have read' := tokens_of_first? (s := s.extend more) unfinished visible' same
        rw [taken] at read'
        have later : ((s.take kind n).2.extend more).ReadsOn _ more :=
          ih _ (size ▸ shorter) unfinished
            (fun t member => clean t (by rw [read]; exact List.mem_cons_of_mem _ member))
            divides.of_append rfl
        exact later.token read' unended
      · -- the comment ends with the newline, and the first part with it
        obtain ⟨rfl, rfl⟩ := Prod.mk.inj (Option.some.inj alone)
        have read' := tokens_of_first? (s := s.extend more) unfinished visible' longer
        have left : ((s.extend more).take .comment (s.rest.length + 1)).2.rest = more := by
          simp [take, extend]
        have empty : Text.allBlank (s.take .comment s.rest.length).2.rest = true := by
          simp [take, Text.allBlank]
        rw [tokens_of_blank (s := (s.take .comment s.rest.length).2) unfinished empty]
        have next : ((s.extend more).take .comment (s.rest.length + 1)).2.ReadsOn [] more :=
          readsOn_of_dropWhile unfinished (by rw [left])
        exact next.token read' unended

end Scan

end SoftScript
