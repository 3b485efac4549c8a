import SoftScript.Proofs.Grammar.Ahead
import SoftScript.Proofs.Printing.Lexeme
import SoftScript.Proofs.Printing.Word

/-! How texts are read back word by word. `Scans` says that a scan of a text reads certain words
and then stands before a rest of it. A rule decides on a token by what follows too, so each kind of
word comes with what may stand behind it. -/
namespace SoftScript

open Token (Rule Pattern)

namespace Scan

/-- The words of what is left to read. -/
def words (s : Scan) : List Word := (Token.sentence s.tokens).map Token.word

theorem tokens_of_next? {s s' : Scan} {t : Token} (h : s.next? = some (t, s')) :
    s.tokens = t :: s'.tokens := by
  rw [tokens]
  split
  case h_1 none => simp [none] at h
  case h_2 same =>
    rw [h] at same
    cases same
    rfl

theorem words_of_next? {s s' : Scan} {t : Token} (h : s.next? = some (t, s'))
    (unended : t.kind ≠ .eof) :
    s.words = if t.kind.isTrivia then s'.words else t.word :: s'.words := by
  unfold words
  rw [tokens_of_next? h]
  by_cases trivia : t.kind.isTrivia <;> simp [Token.sentence, Token.significant, unended, trivia]

theorem words_of_first? {s : Scan} {kind : Token.Kind} (unfinished : s.finished = false)
    (visible : Text.allBlank s.rest = false) (first : Rule.first? s.rest = some (kind, size))
    (unended : kind ≠ .eof) :
    s.words = if kind.isTrivia then (s.take kind size).2.words
      else (s.take kind size).1.word :: (s.take kind size).2.words := by
  have next : s.next? = some ((s.take kind size).1, (s.take kind size).2) := by
    simp [next?, unfinished, visible, first]
  exact words_of_next? next unended

theorem words_of_finish {s : Scan} (unfinished : s.finished = false)
    (blank : Text.allBlank s.rest = true) : s.words = [] := by
  have next : s.next? = some s.finish := by simp [next?, unfinished, blank]
  have ended : s.tokens = .eof s.line s.offset :: Scan.tokens { s with finished := true } :=
    tokens_of_next? next
  simp [words, ended, Token.sentence, Token.significant, Token.eof, Token.read]

end Scan

/-- The quotes are taken off a text that has none within. -/
theorem Token.withoutQuotes_quoted {body : String} (plain : body.toList.all (· ≠ '"') = true) :
    withoutQuotes ("\"" ++ body ++ "\"") = body := by
  have all : body.toList.filter (· ≠ '"') = body.toList :=
    List.filter_eq_self.mpr (List.all_eq_true.mp plain)
  have letters : ("\"" ++ body ++ "\"").toList.filter (· ≠ '"') = body.toList := by
    simpa using all
  rw [withoutQuotes, letters, String.ofList_toList]

/-- Something to read stands first. -/
def Text.Visible (text : List Char) : Prop := ∃ c tail, text = c :: tail ∧ isBlank c = false

/-- A scan of the first text reads these words and then has the second before it. -/
def Scans (text : List Char) (ws : List Word) (rest : List Char) : Prop :=
  ∀ s : Scan, s.finished = false → s.rest = text →
    ∃ s' : Scan, s'.finished = false ∧ s'.rest = rest ∧ s.words = ws ++ s'.words

namespace Scans

variable {text rest : List Char}

theorem refl : Scans text [] text :=
  fun s unfinished same => ⟨s, unfinished, same, rfl⟩

theorem trans (first : Scans text u middle) (second : Scans middle v rest) :
    Scans text (u ++ v) rest := by
  intro s unfinished same
  obtain ⟨s₁, unfinished₁, rest₁, words₁⟩ := first s unfinished same
  obtain ⟨s₂, unfinished₂, rest₂, words₂⟩ := second s₁ unfinished₁ rest₁
  exact ⟨s₂, unfinished₂, rest₂, by rw [words₁, words₂, List.append_assoc]⟩

theorem words_ofText {source : String} (h : Scans source.toList ws []) :
    (Token.sentence (Token.tokenize source)).map Token.word = ws := by
  obtain ⟨s', unfinished, ended, words⟩ := h (.ofText source) rfl rfl
  have nothing := Scan.words_of_finish unfinished (by simp [ended, Text.allBlank])
  rw [nothing, List.append_nil] at words
  exact words

/-- One token, of which the rest of the text decides no more than where it ends. -/
theorem token {c : Char} {kind : Token.Kind} (visible : Text.isBlank c = false)
    (first : Rule.first? (c :: tail ++ rest) = some (kind, tail.length + 1))
    (unended : kind ≠ .eof) (significant : kind.isTrivia = false)
    (word : ∀ line span, (Token.read kind (String.ofList (c :: tail)) line span).word = w) :
    Scans (c :: tail ++ rest) [w] rest := by
  intro s unfinished same
  have notBlank : Text.allBlank s.rest = false := by simp [same, Text.allBlank, visible]
  have lexeme : (c :: tail ++ rest).take (tail.length + 1) = c :: tail := by simp
  refine ⟨(s.take kind (tail.length + 1)).2, unfinished, by simp [Scan.take, same], ?_⟩
  rw [Scan.words_of_first? unfinished notBlank (same ▸ first) unended, significant]
  simp only [Scan.take, same, lexeme, word]
  rfl

/-- A lexeme that one rule covers as a whole. -/
theorem lexeme {lexeme : String} {k : Token.Kind} (visible : Text.Visible lexeme.toList)
    (first : Rule.first? (lexeme.toList ++ rest) = some (k, lexeme.length))
    (unended : k ≠ .eof) (significant : k.isTrivia = false)
    (word : ∀ line span, (Token.read k lexeme line span).word = w) :
    Scans (lexeme.toList ++ rest) [w] rest := by
  obtain ⟨c, tail, letters, visible⟩ := visible
  have size : lexeme.length = tail.length + 1 := by
    rw [← String.length_toList, letters, List.length_cons]
  rw [letters, size] at first
  rw [letters]
  refine token visible first unended significant fun line span => ?_
  rw [← letters, String.ofList_toList, word]

/-- One blank in front of something visible. -/
theorem space {c : Char} (member : c ∈ [' ', '\n']) (visible : Text.Visible rest) :
    Scans (c :: rest) [] rest := by
  obtain ⟨d, rest, rfl, visible⟩ := visible
  intro s unfinished same
  have first := same ▸ Rule.first?_blank member visible
  have notBlank : Text.allBlank s.rest = false := by simp [same, Text.allBlank, visible]
  refine ⟨(s.take .blank 1).2, unfinished, by simp [Scan.take, same], ?_⟩
  rw [Scan.words_of_first? unfinished notBlank first (by decide)]
  rfl

/-- Symbols that no other symbol begins with. -/
theorem mark {k : Token.Kind}
    (member : k ∈ [.leftParen, .rightParen, .leftSquare, .rightSquare, .leftBrace, .rightBrace,
      .comma, .dot, .semicolon]) :
    Scans (k.spelling.toList ++ rest) [.mark k] rest := by
  simp only [List.mem_cons, List.not_mem_nil, or_false] at member
  rcases member with rfl | rfl | rfl | rfl | rfl | rfl | rfl | rfl | rfl <;>
    exact lexeme ⟨_, _, rfl, rfl⟩ rfl (by decide) rfl fun _ _ => rfl

theorem equal : Scans (Token.Kind.equal.spelling.toList ++ ' ' :: rest) [.mark .equal] (' ' :: rest) :=
  lexeme ⟨_, _, rfl, rfl⟩ rfl (by decide) rfl fun _ _ => rfl

theorem operator {k : Token.Kind} (member : k ∈ Token.binaryOperators) :
    Scans (k.spelling.toList ++ ' ' :: rest) [.operator k] (' ' :: rest) := by
  simp only [Token.binaryOperators, Parse.Level.all, Parse.Level.operators, List.flatMap_cons,
    List.flatMap_nil, List.nil_append, List.cons_append, List.mem_cons, List.not_mem_nil,
    or_false] at member
  rcases member with rfl | rfl | rfl | rfl | rfl | rfl | rfl | rfl | rfl | rfl | rfl | rfl | rfl <;>
    exact lexeme ⟨_, _, rfl, rfl⟩ rfl (by decide) rfl fun _ _ => rfl

theorem sign {k : Token.Kind} (member : k ∈ Token.unaryOperators)
    (apart : ∀ c ∈ rest.head?, c ≠ '=') :
    Scans (k.spelling.toList ++ rest) [.operator k] rest := by
  simp only [Token.unaryOperators, List.mem_cons, List.not_mem_nil, or_false] at member
  rcases member with rfl | rfl
  · exact lexeme ⟨_, _, rfl, rfl⟩
      (Rule.first?_symbol (c := '!') 37 rfl rfl (r := "!=") rfl (by decide) apart)
      (by decide) rfl fun _ _ => rfl
  · exact lexeme ⟨_, _, rfl, rfl⟩
      (Rule.first?_symbol (c := '-') 31 rfl rfl (r := "-=") rfl (by decide) apart)
      (by decide) rfl fun _ _ => rfl

theorem keyword {k : Token.Kind}
    (member : k ∈ [.ifWord, .elseWord, .funWord, .returnWord, .whileWord, .varWord])
    (delimited : Text.Delimited rest) : Scans (k.spelling.toList ++ rest) [.mark k] rest := by
  simp only [List.mem_cons, List.not_mem_nil, or_false] at member
  rcases member with rfl | rfl | rfl | rfl | rfl | rfl
  · exact lexeme ⟨_, _, rfl, rfl⟩ (Rule.first?_keyword 4 rfl rfl rfl (by decide) delimited)
      (by decide) rfl fun _ _ => rfl
  · exact lexeme ⟨_, _, rfl, rfl⟩ (Rule.first?_keyword 5 rfl rfl rfl (by decide) delimited)
      (by decide) rfl fun _ _ => rfl
  · exact lexeme ⟨_, _, rfl, rfl⟩ (Rule.first?_keyword 8 rfl rfl rfl (by decide) delimited)
      (by decide) rfl fun _ _ => rfl
  · exact lexeme ⟨_, _, rfl, rfl⟩ (Rule.first?_keyword 9 rfl rfl rfl (by decide) delimited)
      (by decide) rfl fun _ _ => rfl
  · exact lexeme ⟨_, _, rfl, rfl⟩ (Rule.first?_keyword 11 rfl rfl rfl (by decide) delimited)
      (by decide) rfl fun _ _ => rfl
  · exact lexeme ⟨_, _, rfl, rfl⟩ (Rule.first?_keyword 13 rfl rfl rfl (by decide) delimited)
      (by decide) rfl fun _ _ => rfl

theorem name {text : String} (h : Token.isName text = true) (delimited : Text.Delimited rest) :
    Scans (text.toList ++ rest) [.name text] rest := by
  obtain ⟨c, tail, letters, start, _⟩ := Rule.isName_iff.mp h
  refine lexeme ⟨c, tail, letters, (Text.classes_of_isWordStart start).2⟩
    (Rule.first?_name h delimited) (by decide) rfl fun line span => ?_
  exact Token.word_of_identifier rfl

/-- A keyword that stands for a constant. -/
theorem constantWord {kind : Token.Kind} {value : Constant} {word : String} (i : Nat)
    (placed : Rule.all = Rule.all.take i ++ ⟨kind, .keyword word⟩ :: Rule.all.drop (i + 1))
    (before : (Rule.all.take i).findSome? (Rule.match? (word.toList ++ rest)) = none)
    (letters : word.toList.all Char.isAlpha = true) (visible : Text.Visible word.toList)
    (denotes : ∀ line span, Grammar.constant? (.read kind word line span) = some value)
    (significant : kind.isTrivia = false ∧ kind ≠ .eof) (delimited : Text.Delimited rest) :
    Scans (word.toList ++ rest) [.constant value] rest := by
  have nonempty : 0 < word.length := by
    obtain ⟨c, tail, split, _⟩ := visible
    rw [← String.length_toList, split]
    simp
  exact lexeme visible (Rule.first?_keyword i placed before letters nonempty delimited)
    significant.2 significant.1 fun line span => Token.word_of_constant? (denotes line span)

theorem integer {value : Integer} (nonneg : 0 ≤ value.toInt) (delimited : Text.Delimited rest) :
    Scans (value.text.toList ++ rest) [.constant (.int value)] rest := by
  obtain ⟨n, equal⟩ := Int.eq_ofNat_of_zero_le nonneg
  have digits := Integer.text_toList equal
  have run := Integer.isDigit_toDigits n
  have ended : ∀ c ∈ rest.head?, c.isDigit = false := by
    intro c found
    cases digit : c.isDigit with
    | false => rfl
    | true => exact absurd (Text.classes_of_isDigit digit).1 (by simp [delimited c found])
  have first := Rule.first?_number Nat.toDigits_ne_nil run ended
  have visible : Text.Visible value.text.toList := by
    rw [digits]
    cases split : Nat.toDigits 10 n with
    | nil => exact absurd split Nat.toDigits_ne_nil
    | cons c tail =>
      have digit : c.isDigit = true := by simp [split] at run; exact run.1
      exact ⟨c, tail, rfl, (Text.classes_of_isDigit digit).2.1⟩
  apply lexeme (k := .number) visible _ (by decide) rfl
  · intro line span
    apply Token.word_of_constant?
    simp [Grammar.constant?, Token.read, Token.Literal.decode?, Integer.parse?_text nonneg]
  · rw [← String.length_toList, digits]
    exact first

theorem string {value : String} (plain : value.toList.all (· ≠ '"') = true) :
    Scans (("\"" ++ value ++ "\"").toList ++ rest) [.constant (.string value)] rest := by
  have letters : ("\"" ++ value ++ "\"").toList = '"' :: value.toList ++ ['"'] := by simp
  apply lexeme (k := .string) ⟨'"', _, letters, by decide⟩ _ (by decide) rfl
  · intro line span
    apply Token.word_of_constant?
    simp [Grammar.constant?, Token.read, Token.Literal.decode?, Token.withoutQuotes_quoted plain]
  · have size : ("\"" ++ value ++ "\"").length = value.toList.length + 2 := by
      rw [← String.length_toList, letters]
      simp
    rw [letters, size, List.append_assoc]
    exact Rule.first?_string plain

theorem constant {value : Constant} (writable : value.isWritable = true)
    (delimited : Text.Delimited rest) :
    Scans (value.canonical.toList ++ rest) [.constant value] rest := by
  cases value with
  | null =>
    exact constantWord 12 rfl rfl rfl ⟨_, _, rfl, rfl⟩ (fun _ _ => rfl) (by decide) delimited
  | bool value =>
    cases value with
    | true =>
      exact constantWord 6 rfl rfl rfl ⟨_, _, rfl, rfl⟩ (fun _ _ => rfl) (by decide) delimited
    | false =>
      exact constantWord 7 rfl rfl rfl ⟨_, _, rfl, rfl⟩ (fun _ _ => rfl) (by decide) delimited
  | int value => exact integer (by simpa [Constant.isWritable] using writable) delimited
  | string value => exact string writable

end Scans

end SoftScript
