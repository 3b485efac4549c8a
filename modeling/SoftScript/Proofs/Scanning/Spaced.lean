import Mathlib.Tactic.FinCases
import SoftScript.Proofs.Likeness.Layout
import SoftScript.Proofs.Scanning.Lossless
import SoftScript.Proofs.Scanning.Longest

/-! Lexemes with a space behind each. A space ends every lexeme where it ended before: a word and a number
go on with other characters only, a symbol that is continued is continued by another one, and a string
ends at its quote. So tokens that were next to each other are read again when they are taken apart. -/
namespace SoftScript

namespace Token

variable {text : List Char} {kind : Kind} {n : Nat}

theorem Pattern.prefix_of_symbol {word : String} (covers : 0 < (Pattern.symbol word).coverage text) :
    word.toList <+: text := by
  rw [coverage] at covers
  split at covers
  · exact List.isPrefixOf_iff_prefix.mp (by assumption)
  · contradiction

namespace Rule

/-- A string is a quote, what is no quote, and a quote. -/
theorem string_of_first? (first : first? text = some (.string, n)) :
    ∃ body, body.all (· ≠ '"') = true ∧ n = body.length + 2 ∧
      text.take n = '"' :: body ++ ['"'] := by
  obtain ⟨_, found⟩ := silent_of_first? first (by decide)
  obtain ⟨covers, pos⟩ := coverage_of_loose ⟨.string, .string⟩ (by decide) found
  obtain ⟨rest, rfl⟩ : ['"'] <+: text := by
    by_contra other
    rw [Pattern.string_eq_zero other] at covers
    omega
  have split := List.takeWhile_append_dropWhile (p := (· ≠ '"')) (l := rest)
  have plain : (rest.takeWhile (· ≠ '"')).all (· ≠ '"') = true := List.all_takeWhile
  have stopped := List.head?_dropWhile_not (· ≠ '"') rest
  generalize rest.takeWhile (· ≠ '"') = body at split plain
  generalize rest.dropWhile (· ≠ '"') = tail at split stopped
  subst split
  cases tail with
  | nil =>
    have all : body.takeWhile (· ≠ '"') = body := List.takeWhile_eq_self_iff.mpr (by simpa using plain)
    simp only [List.append_nil, List.singleton_append, Pattern.coverage, all, List.drop_length,
      List.isEmpty_nil, if_true] at covers
    omega
  | cons c tail =>
    obtain rfl : c = '"' := by simpa using stopped
    have whole : first? ('"' :: body ++ '"' :: tail) = some (.string, body.length + 2) :=
      first?_string plain
    cases first.symm.trans whole
    refine ⟨body, plain, rfl, ?_⟩
    have size : ('"' :: body ++ ['"']).length = body.length + 2 := by simp
    have whole : ['"'] ++ (body ++ '"' :: tail) = ('"' :: body ++ ['"']) ++ tail := by simp
    rw [whole, ← size, List.take_left]

theorem first?_spaced_string (first : first? text = some (.string, n)) (more : List Char) :
    first? (text.take n ++ ' ' :: more) = some (.string, n) := by
  obtain ⟨body, plain, rfl, read⟩ := string_of_first? first
  rw [read, List.append_assoc]
  exact first?_string plain

theorem first?_spaced_number (first : first? text = some (.number, n)) (more : List Char) :
    first? (text.take n ++ ' ' :: more) = some (.number, n) := by
  have size : (text.take n).length = n := List.length_take_of_le (first?_le first)
  have nonempty : text.take n ≠ [] := by
    rw [← List.length_pos_iff, size]
    exact first?_pos first
  rw [first?_number nonempty (digits_of_first? first) (by simp), size]

theorem first?_spaced_symbol {rule : Rule} (member : rule ∈ all) {word : String}
    (symbol : rule.pattern = .symbol word) (more : List Char) :
    first? (word.toList ++ ' ' :: more) = some (rule.kind, word.length) := by
  fin_cases member <;> cases symbol <;> rfl

/-- The kind of a word depends on its spelling alone. -/
theorem kind_of_words {c c' : Char} {rest rest' : List Char} {r r' : Rule} {n n' : Nat}
    (start : Text.isWordStart c = true) (start' : Text.isWordStart c' = true)
    (chosen : chosen? (c :: rest) = some (r, n)) (chosen' : chosen? (c' :: rest') = some (r', n'))
    (same : (c :: rest).takeWhile Text.isWordChar = (c' :: rest').takeWhile Text.isWordChar) :
    r.kind = r'.kind := by
  have member {text : List Char} {r : Rule} {n : Nat} (chosen : chosen? text = some (r, n)) :
      r ∈ all := by
    obtain ⟨before, after, split, _⟩ := split_of_chosen? chosen
    simp [split]
  have kinds : ∀ rule ∈ all, rule.pattern = .identifier → rule.kind = .identifier := by
    decide
  rcases chosen?_word start' chosen' with name' | ⟨word, pattern⟩
  · rcases chosen?_word start chosen with name | ⟨word, pattern⟩
    · rw [kinds r (member chosen) name, kinds r' (member chosen') name']
    · have spelled := (kind_of_chosen?_word start chosen (member chosen) pattern).mp rfl
      rw [same] at spelled
      exact ((kind_of_chosen?_word start' chosen' (member chosen) pattern).mpr spelled).symm
  · have spelled := (kind_of_chosen?_word start' chosen' (member chosen') pattern).mp rfl
    rw [← same] at spelled
    exact (kind_of_chosen?_word start chosen (member chosen') pattern).mpr spelled

theorem first?_spaced_word {c : Char} {rest : List Char} (start : Text.isWordStart c = true)
    (first : first? (c :: rest) = some (kind, n)) (more : List Char) :
    first? ((c :: rest).take n ++ ' ' :: more) = some (kind, n) := by
  have classes := Text.classes_of_isWordStart start
  obtain ⟨⟨r, m⟩, chosen, equal⟩ := Option.map_eq_some_iff.mp (first?_eq_map _ ▸ first)
  obtain ⟨rfl, rfl⟩ := Prod.mk.inj equal
  have size : ((c :: rest).take m).length = m := List.length_take_of_le (first?_le first)
  have whole := take_of_chosen?_word start chosen
  -- The space stands where the word ended.
  have again : ((c :: rest).take m ++ ' ' :: more).takeWhile Text.isWordChar =
      (c :: rest).takeWhile Text.isWordChar := by
    rw [whole]
    exact takeWhile_run List.all_takeWhile (by simp; decide)
  obtain ⟨tail, begun⟩ : ∃ tail, (c :: rest).take m = c :: tail := by
    rw [whole, List.takeWhile_cons_of_pos classes.1]
    exact ⟨_, rfl⟩
  have visible : Text.allBlank (c :: (tail ++ ' ' :: more)) = false := by
    simp [Text.allBlank, classes.2]
  obtain ⟨r', m', chosen'⟩ := chosen?_of_visible visible
  have same : (c :: rest).takeWhile Text.isWordChar =
      (c :: (tail ++ ' ' :: more)).takeWhile Text.isWordChar := by
    rw [← again, begun, List.cons_append]
  have first' : first? (c :: (tail ++ ' ' :: more)) = some (r'.kind, m') := by
    rw [first?_eq_map, chosen', Option.map_some]
  have sizes : m' = m := by
    rw [← List.length_take_of_le (first?_le first'), take_of_chosen?_word start chosen', ← same,
      ← whole, size]
  rw [begun, List.cons_append, first', kind_of_words start start chosen chosen' same, sizes]

/-- A token that counts is read again where a space follows it. -/
theorem first?_spaced (first : first? text = some (kind, n)) (counts : kind.isTrivia = false)
    (more : List Char) : first? (text.take n ++ ' ' :: more) = some (kind, n) := by
  obtain ⟨⟨r, m⟩, chosen, equal⟩ := Option.map_eq_some_iff.mp (first?_eq_map _ ▸ first)
  obtain ⟨rfl, rfl⟩ := Prod.mk.inj equal
  obtain ⟨before, after, split, _, size, pos⟩ := split_of_chosen? chosen
  have member : r ∈ all := by simp [split]
  have kinds : ∀ rule ∈ all,
      (rule.pattern ∈ [.lineComment, .blockComment, .blank, .invalid] → rule.kind.isTrivia = true) ∧
      (rule.pattern = .number → rule.kind = .number) ∧
      (rule.pattern = .string → rule.kind = .string) := by
    decide
  have begun : ∃ c rest, text = c :: rest := by
    apply List.exists_cons_of_ne_nil
    rintro rfl
    have nothing := first?_le first
    exact absurd pos (Nat.not_lt.mpr nothing)
  obtain ⟨c, rest, rfl⟩ := begun
  have begins : r.pattern.begins c = true := Pattern.begins_of_coverage (size ▸ pos)
  cases pattern : r.pattern with
  | lineComment | blockComment | blank | invalid =>
    rw [(kinds r member).1 (by simp [pattern])] at counts
    cases counts
  | keyword word =>
    obtain ⟨d, met, same⟩ : ∃ d, word.toList.head? = some d ∧ d.toLower = c.toLower := by
      simpa [pattern, Pattern.begins, Pattern.opensWith, Option.any_eq_true] using begins
    have letters := List.all_eq_true.mp (letters_of_keyword member pattern)
    have letter := Text.isAlpha_of_toLower_eq same.symm (letters d (List.mem_of_head? met))
    exact first?_spaced_word (by simp [Text.isWordStart, letter]) first more
  | identifier =>
    rw [pattern] at begins
    exact first?_spaced_word begins first more
  | symbol word =>
    rw [pattern] at size
    have covered := Pattern.symbol_covers (size ▸ pos)
    have read := List.prefix_iff_eq_take.mp (Pattern.prefix_of_symbol (size ▸ pos))
    rw [String.length_toList, ← covered, size] at read
    rw [← read, first?_spaced_symbol member pattern more, ← covered, size]
  | number =>
    rw [(kinds r member).2.1 pattern] at first ⊢
    exact first?_spaced_number first more
  | string =>
    rw [(kinds r member).2.2 pattern] at first ⊢
    exact first?_spaced_string first more

end Rule

/-- The lexemes of tokens, separated by single spaces. -/
def joined (tokens : List Token) : String := " ".intercalate (tokens.map (·.lexeme))

/-- A token whose lexeme some text begins with, which is read as this token. -/
def IsRead (t : Token) : Prop :=
  ∃ text n, Rule.first? text = some (t.kind, n) ∧ t.lexeme.toList = text.take n ∧
    t.literal = Literal.decode? t.kind t.lexeme

/-- Lexemes with a space behind each. -/
def apart (tokens : List Token) : List Char := tokens.flatMap fun t => t.lexeme.toList ++ [' ']

theorem intercalate_concat_nil {α : Type} (separator : List α) (parts : List (List α)) :
    separator.intercalate (parts ++ [[]]) = parts.flatMap (· ++ separator) := by
  induction parts with
  | nil => rfl
  | cons first rest ih =>
    rw [List.flatMap_cons, ← ih]
    cases rest with
    | nil => simp
    | cons second rest => simp only [List.cons_append, List.intercalate_cons_cons]

theorem joined_toList {tokens : List Token} {last : Token} (ended : last.lexeme = "") :
    (joined (tokens ++ [last])).toList = apart tokens := by
  rw [joined, String.toList_intercalate, List.map_append, List.map_append, List.map_singleton,
    List.map_singleton, ended]
  exact (intercalate_concat_nil _ _).trans (by simp [apart, List.flatMap_map])

end Token

namespace Scan

variable {s : Scan}

/-- Every token of a scan but the end is read by a rule. -/
theorem isRead_of_mem_tokens (s : Scan) :
    ∀ t ∈ s.tokens, t.kind ≠ .eof → t.IsRead := by
  fun_induction Scan.tokens s with
  | case1 => simp
  | case2 s token s' next ih =>
    intro t member counts
    rcases List.mem_cons.mp member with rfl | later
    · unfold Scan.next? at next
      repeat' split at next
      · contradiction
      · cases next
        exact absurd rfl counts
      · rename_i found
        cases next
        exact ⟨s.rest, _, found, lexeme_take .., rfl⟩
      · cases next
        exact absurd rfl counts
    · exact ih t later counts

/-- A scan that reads tokens again, wherever they stand, and nothing else but white space. -/
structure Rereads (s : Scan) (tokens : List Token) : Prop where
  same : List.Forall₂ Token.SameText (Token.significant s.tokens) tokens
  clean : ∀ t ∈ s.tokens, t.kind.isTrivia = true → t.kind = .blank

theorem Rereads.token {kind : Token.Kind} {n : Nat} {t : Token} {tokens : List Token}
    (unfinished : s.finished = false) (visible : Text.allBlank s.rest = false)
    (first : Token.Rule.first? s.rest = some (kind, n)) (counts : kind.isTrivia = false)
    (same : Token.SameText (s.take kind n).1 t) (rest : (s.take kind n).2.Rereads tokens) :
    s.Rereads (t :: tokens) := by
  have read := tokens_of_first? unfinished visible first
  have kept : (s.take kind n).1.kind.isTrivia = false := counts
  obtain ⟨others, clean⟩ := rest
  refine ⟨?_, ?_⟩
  · rw [read, Token.significant_cons, kept]
    exact .cons same others
  · rw [read]
    intro u member trivia
    rcases List.mem_cons.mp member with rfl | later
    · rw [kept] at trivia
      cases trivia
    · exact clean u later trivia

theorem Rereads.space {c : Char} {text : List Char} {tokens : List Token}
    (unfinished : s.finished = false) (split : s.rest = ' ' :: c :: text)
    (visible : Text.isBlank c = false) (rest : (s.take .blank 1).2.Rereads tokens) :
    s.Rereads tokens := by
  have first : Token.Rule.first? s.rest = some (.blank, 1) := by
    rw [split]
    exact Token.Rule.first?_blank (by simp) visible
  have left : Text.allBlank s.rest = false := by simp [split, Text.allBlank, visible]
  have read := tokens_of_first? unfinished left first
  have skipped : (s.take .blank 1).1.kind.isTrivia = true := rfl
  obtain ⟨same, clean⟩ := rest
  refine ⟨?_, ?_⟩
  · rw [read, Token.significant_cons, skipped]
    exact same
  · rw [read]
    intro u member trivia
    rcases List.mem_cons.mp member with rfl | later
    · rfl
    · exact clean u later trivia

/-- A token that counts begins with something visible. -/
theorem visible_of_isRead {t : Token} (read : t.IsRead) (counts : t.kind.isTrivia = false) :
    ∃ c tail, t.lexeme.toList = c :: tail ∧ Text.isBlank c = false := by
  obtain ⟨text, n, first, lexeme, _⟩ := read
  have pos := Token.Rule.first?_pos first
  have le := Token.Rule.first?_le first
  cases text with
  | nil =>
    have none : n ≤ 0 := le
    omega
  | cons c rest =>
    refine ⟨c, rest.take (n - 1), ?_, ?_⟩
    · rw [lexeme, ← Nat.sub_add_cancel pos]
      rfl
    · cases blank : Text.isBlank c with
      | false => rfl
      | true =>
        have chosen := first.symm.trans (Token.Rule.first?_blanks blank rest)
        rw [(Prod.mk.inj (Option.some.inj chosen)).1] at counts
        cases counts

section Apart

variable {last : Token} (ended : last.SameText (.eof 1 0))

include ended

theorem rereads_of_blank (unfinished : s.finished = false) (blank : Text.allBlank s.rest = true) :
    s.Rereads [last] := by
  have read := tokens_of_blank unfinished blank
  refine ⟨?_, ?_⟩
  · rw [read]
    exact .cons ⟨ended.kind.symm, ended.lexeme.symm, ended.literal.symm⟩ .nil
  · rw [read]
    simp [Token.eof, Token.read, Token.Kind.isTrivia]

/-- A space in front of lexemes that are apart is skipped. -/
theorem rereads_behind_space {tokens : List Token}
    (read : ∀ t ∈ tokens, t.IsRead ∧ t.kind.isTrivia = false)
    (others : ∀ s : Scan, s.finished = false → s.rest = Token.apart tokens →
      s.Rereads (tokens ++ [last]))
    (unfinished : s.finished = false) (rest : s.rest = ' ' :: Token.apart tokens) :
    s.Rereads (tokens ++ [last]) := by
  cases tokens with
  | nil => exact rereads_of_blank ended unfinished (by rw [rest]; rfl)
  | cons t tokens =>
    obtain ⟨isRead, counts⟩ := read t List.mem_cons_self
    obtain ⟨c, tail, begun, visible⟩ := visible_of_isRead isRead counts
    have split : s.rest = ' ' :: c :: (tail ++ ' ' :: Token.apart tokens) := by
      rw [rest]
      simp [Token.apart, begun]
    apply Rereads.space unfinished split visible
    apply others (s.take .blank 1).2 unfinished
    change s.rest.drop 1 = _
    rw [rest]
    rfl

/-- One lexeme after the other is read again, each up to its space. -/
theorem rereads_apart {tokens : List Token}
    (read : ∀ t ∈ tokens, t.IsRead ∧ t.kind.isTrivia = false) (s : Scan)
    (unfinished : s.finished = false) (rest : s.rest = Token.apart tokens) :
    s.Rereads (tokens ++ [last]) := by
  induction tokens generalizing s with
  | nil => exact rereads_of_blank ended unfinished (by rw [rest]; rfl)
  | cons t tokens ih =>
    obtain ⟨isRead, counts⟩ := read t List.mem_cons_self
    obtain ⟨c, tail, begun, visible⟩ := visible_of_isRead isRead counts
    obtain ⟨text, n, first, lexeme, literal⟩ := isRead
    have split : s.rest = t.lexeme.toList ++ ' ' :: Token.apart tokens := by
      rw [rest]
      simp [Token.apart]
    have size : t.lexeme.toList.length = n := by
      rw [lexeme]
      exact List.length_take_of_le (Token.Rule.first?_le first)
    have taken : s.rest.take n = t.lexeme.toList := by
      rw [split, ← size, List.take_left]
    have left : (s.take t.kind n).2.rest = ' ' :: Token.apart tokens := by
      change s.rest.drop n = _
      rw [split, ← size, List.drop_left]
    have again : Token.Rule.first? s.rest = some (t.kind, n) := by
      rw [split, lexeme]
      exact Token.Rule.first?_spaced first counts _
    have same : (s.take t.kind n).1.lexeme = t.lexeme := by
      rw [← String.toList_inj, lexeme_take, taken]
    apply Rereads.token unfinished (by simp [split, begun, Text.allBlank, visible]) again counts
    · exact ⟨rfl, same, by rw [literal, ← same]; rfl⟩
    · have later : ∀ u ∈ tokens, u.IsRead ∧ u.kind.isTrivia = false :=
        fun u member => read u (List.mem_cons_of_mem _ member)
      exact rereads_behind_space ended later (ih later) unfinished left

end Apart

end Scan

/-- Lexemes can be taken apart. The significant tokens of a text are read again, with the same kinds,
lexemes and literals in the same order, from their lexemes with one space between any two; nothing else is
read but white space, neither a comment nor anything invalid. -/
theorem lexemes_read_apart (source : String) :
    List.Forall₂ Token.SameText
      (Token.significant (Token.tokenize (Token.joined (Token.significant (Token.tokenize source)))))
      (Token.significant (Token.tokenize source)) ∧
    ∀ t ∈ Token.tokenize (Token.joined (Token.significant (Token.tokenize source))),
      t.kind ≠ .comment ∧ t.kind ≠ .invalid := by
  obtain ⟨tokens, last, blanks, splits⟩ :=
    Scan.splits (s := .ofText source) rfl (Scan.hasRead_ofText source)
  have kept : Token.significant (Token.tokenize source) = Token.significant tokens ++ [last] := by
    rw [Token.tokenize, splits.read, Token.significant, List.filter_append]
    simp [Token.significant, splits.ended.1, Token.Kind.isTrivia]
  have read : ∀ t ∈ Token.significant tokens, t.IsRead ∧ t.kind.isTrivia = false := by
    intro t member
    obtain ⟨member, counts⟩ := List.mem_filter.mp member
    have inScan : t ∈ (Scan.ofText source).tokens := by simp [splits.read, member]
    exact ⟨Scan.isRead_of_mem_tokens _ t inScan (splits.nonempty t member).1, by simpa using counts⟩
  have literal := literal_of_mem_tokens (.ofText source) last (by simp [splits.read])
  have ended : last.SameText (.eof 1 0) := by
    refine ⟨splits.ended.1, splits.ended.2, ?_⟩
    rw [literal, splits.ended.1]
    rfl
  have again : (Scan.ofText (Token.joined (Token.significant (Token.tokenize source)))).Rereads
      (Token.significant (Token.tokenize source)) := by
    rw [kept]
    exact Scan.rereads_apart ended read _ rfl (Token.joined_toList splits.ended.2)
  refine ⟨again.same, fun t member => ⟨fun comment => ?_, fun invalid => ?_⟩⟩
  · have blank := again.clean t member (by rw [comment]; rfl)
    rw [comment] at blank
    cases blank
  · have blank := again.clean t member (by rw [invalid]; rfl)
    rw [invalid] at blank
    cases blank

/-- The space in front of the end token is there too. -/
example : Token.joined (Token.significant (Token.tokenize "12abc==-1 // one")) =
    "12 abc == - 1 " := by
  decide +kernel

end SoftScript
