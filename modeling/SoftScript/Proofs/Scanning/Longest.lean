import SoftScript.Proofs.Joining.Seam
import SoftScript.Proofs.Scanning.Offsets

/-! The order of the rules. Of all rules that apply to a text the first covers most: what two rules
have in common decides at the first character which of them are rivals at all, and rivals stand in
the order of their lengths. Only a keyword leaves another rule, the one for names, the same text. -/
namespace SoftScript.Token

variable {text rest : List Char} {c : Char}

namespace Pattern

/-- The bytes covered, if any. -/
def bytes? (pattern : Pattern) (text : List Char) : Option Nat :=
  (pattern.length? text).map fun n => Text.byteLength (text.take n)

theorem length?_eq_some {pattern : Pattern} {n : Nat} :
    pattern.length? text = some n ↔ pattern.coverage text = n ∧ 0 < n := by
  simp only [length?, Option.ite_none_right_eq_some, Option.some.injEq]
  constructor
  · rintro ⟨pos, rfl⟩
    exact ⟨rfl, pos⟩
  · rintro ⟨rfl, pos⟩
    exact ⟨pos, rfl⟩

theorem length?_eq_none {pattern : Pattern} :
    pattern.length? text = none ↔ pattern.coverage text = 0 := by
  simp [length?]

theorem bytes?_eq_none {pattern : Pattern} :
    pattern.bytes? text = none ↔ pattern.coverage text = 0 := by
  rw [bytes?, Option.map_eq_none_iff, length?_eq_none]

/-- Whether a pattern may cover a text with this first character. -/
def begins : Pattern → Char → Bool
  | identifier, c => Text.isWordStart c
  | number, c => c.isDigit
  | string, c => c = '"'
  | blank, c => Text.isBlank c
  | pattern, c => pattern.opensWith c

theorem coverage_of_not_begins {pattern : Pattern} (other : pattern.begins c = false) :
    pattern.coverage (c :: rest) = 0 := by
  cases pattern with
  | identifier => simp_all [begins, coverage]
  | number => simp_all [begins, coverage]
  | string =>
    apply string_eq_zero
    simp_all [begins, eq_comm]
  | blank => simp_all [begins, coverage]
  | _ => exact coverage_of_not_opensWith other

theorem begins_of_coverage {pattern : Pattern} (covers : 0 < pattern.coverage (c :: rest)) :
    pattern.begins c = true := by
  cases begun : pattern.begins c with
  | true => rfl
  | false =>
    have silent : pattern.coverage (c :: rest) = 0 := coverage_of_not_begins begun
    omega

/-- Whether the fixed part of a pattern begins with an ASCII character. -/
def isAscii : Pattern → Bool
  | keyword word => word.toList.all Char.isAlpha
  | symbol word => word.toList.all (·.toNat < 128)
  | _ => true

theorem ascii_of_begins {pattern : Pattern} (plain : pattern.isAscii = true)
    (begins : pattern.begins c = true) (valid : pattern ≠ .invalid) :
    c.toNat < 128 ∨ pattern = .blank := by
  cases pattern with
  | blank => exact .inr rfl
  | invalid => contradiction
  | lineComment | blockComment | string =>
    obtain rfl : c = _ := by simpa [Pattern.begins, opensWith] using begins
    exact .inl (by decide)
  | identifier => exact .inl (Text.ascii_of_isWordStart begins)
  | number => exact .inl (Text.ascii_of_isDigit begins)
  | keyword word =>
    obtain ⟨d, first, same⟩ : ∃ d, word.toList.head? = some d ∧ d.toLower = c.toLower := by
      simpa [Pattern.begins, opensWith, Option.any_eq_true] using begins
    have alpha : d.isAlpha = true := List.all_eq_true.mp plain d (List.mem_of_head? first)
    exact .inl (Text.ascii_of_isAlpha (Text.isAlpha_of_toLower_eq same.symm alpha))
  | symbol word =>
    have first : word.toList.head? = some c := by
      simpa [Pattern.begins, opensWith, Option.any_eq_true] using begins
    exact .inl (by simpa using List.all_eq_true.mp plain c (List.mem_of_head? first))

/-! Words. -/

theorem keyword_eq_run {word : String} (letters : word.toList.all Char.isAlpha = true)
    (text : List Char) : (keyword word).coverage text =
      if equalIgnoringCase (text.takeWhile Text.isWordChar) word.toList then word.length else 0 := by
  have ended : Text.Delimited (text.dropWhile Text.isWordChar) := by
    intro d found
    have stopped := List.head?_dropWhile_not Text.isWordChar text
    rw [found] at stopped
    simpa using stopped
  have run : (text.takeWhile Text.isWordChar).all Text.isWordChar = true := by simp
  have covers := coverage_keyword letters run ended
  rwa [List.takeWhile_append_dropWhile] at covers

theorem run_of_keyword {word : String} (letters : word.toList.all Char.isAlpha = true)
    (covers : 0 < (keyword word).coverage text) :
    equalIgnoringCase (text.takeWhile Text.isWordChar) word.toList = true := by
  rw [keyword_eq_run letters] at covers
  split at covers
  · assumption
  · contradiction

theorem identifier_eq_run (start : Text.isWordStart c = true) :
    identifier.coverage (c :: rest) = ((c :: rest).takeWhile Text.isWordChar).length := by
  have inside := (Text.classes_of_isWordStart start).1
  simp [coverage, start, inside, Nat.add_comm]

theorem identifier_pos (start : Text.isWordStart c = true) (rest : List Char) :
    0 < identifier.coverage (c :: rest) := by
  simp only [coverage, start, if_true]
  omega

theorem length_of_equalIgnoringCase {a b : List Char} (equal : equalIgnoringCase a b = true) :
    a.length = b.length := by
  simpa using congrArg List.length (of_decide_eq_true equal)

/-! Comments and symbols. -/

theorem lineComment_covers (covers : 0 < lineComment.coverage text) :
    ['/', '/'] <+: text ∧ 2 ≤ lineComment.coverage text := by
  by_cases opens : ['/', '/'] <+: text
  · obtain ⟨body, rfl⟩ := opens
    exact ⟨⟨body, rfl⟩, by simp [coverage]⟩
  · rw [lineComment_eq_zero opens] at covers
    contradiction

theorem blockComment_covers (covers : 0 < blockComment.coverage text) :
    ['/', '*'] <+: text ∧ 2 ≤ blockComment.coverage text := by
  by_cases opens : ['/', '*'] <+: text
  · obtain ⟨body, rfl⟩ := opens
    refine ⟨⟨body, rfl⟩, ?_⟩
    simp only [List.cons_append, List.nil_append, coverage] at covers ⊢
    cases closed : throughCommentEnd body with
    | none => simp [closed] at covers
    | some n => simp
  · rw [blockComment_eq_zero opens] at covers
    contradiction

theorem symbol_covers {word : String} (covers : 0 < (symbol word).coverage text) :
    (symbol word).coverage text = word.length := by
  simp only [coverage] at covers ⊢
  split
  · rfl
  · rename_i other
    simp [other] at covers

/-! Rivals. -/

/-- Whether the first of two patterns wins where both cover a text. -/
def outranks : Pattern → Pattern → Bool
  | lineComment, blockComment => true
  | lineComment, symbol word | blockComment, symbol word => word.length < 2
  | keyword a, keyword b => a.toList.all Char.isAlpha && b.toList.all Char.isAlpha &&
      !equalIgnoringCase a.toList b.toList
  | keyword word, identifier => word.toList.all Char.isAlpha
  | symbol a, symbol b => b.length < a.length
  | _, _ => false

/-- Two keywords that cover the same text are the same word. -/
theorem equal_of_keywords {a b : String} (lettersA : a.toList.all Char.isAlpha = true)
    (lettersB : b.toList.all Char.isAlpha = true) (coversA : 0 < (keyword a).coverage text)
    (coversB : 0 < (keyword b).coverage text) : equalIgnoringCase a.toList b.toList = true := by
  have first := of_decide_eq_true (run_of_keyword lettersA coversA)
  have second := of_decide_eq_true (run_of_keyword lettersB coversB)
  exact decide_eq_true (first.symm.trans second)

/-- A keyword that covers a word covers as much of it as a name would. -/
theorem keyword_eq_identifier {word : String} (letters : word.toList.all Char.isAlpha = true)
    (covers : 0 < (keyword word).coverage text) (word' : 0 < identifier.coverage text) :
    identifier.coverage text = (keyword word).coverage text := by
  cases text with
  | nil => simp [coverage] at word'
  | cons c rest =>
    have start : Text.isWordStart c = true := begins_of_coverage word'
    have equal := run_of_keyword letters covers
    rw [identifier_eq_run start, keyword_eq_run letters, if_pos equal,
      length_of_equalIgnoringCase equal, String.length_toList]

/-- A pattern that outranks another covers more, but for keywords and names. -/
theorem coverage_lt_of_outranks {p q : Pattern} (above : p.outranks q = true)
    (covers : 0 < p.coverage text) (rival : 0 < q.coverage text) :
    q.coverage text < p.coverage text ∨
      q.coverage text = p.coverage text ∧ (∃ word, p = .keyword word) ∧ q = .identifier := by
  unfold outranks at above
  split at above
  · -- The second character tells the comments apart.
    obtain ⟨body, rfl⟩ := (lineComment_covers covers).1
    have block := (blockComment_covers rival).1
    simp [List.cons_prefix_cons] at block
  · have long := (lineComment_covers covers).2
    have short := symbol_covers rival
    simp only [decide_eq_true_eq] at above
    left
    omega
  · have long := (blockComment_covers covers).2
    have short := symbol_covers rival
    simp only [decide_eq_true_eq] at above
    left
    omega
  · simp only [Bool.and_eq_true, Bool.not_eq_true'] at above
    obtain ⟨⟨lettersA, lettersB⟩, unlike⟩ := above
    have equal := equal_of_keywords lettersA lettersB covers rival
    rw [unlike] at equal
    contradiction
  · rename_i word
    exact .inr ⟨keyword_eq_identifier above covers rival, ⟨word, rfl⟩, rfl⟩
  · simp only [decide_eq_true_eq] at above
    rw [symbol_covers covers, symbol_covers rival]
    exact .inl above
  · contradiction

end Pattern

namespace Rule

/-- The rule that applies to a text, and the number of characters it covers. -/
def chosen? (text : List Char) : Option (Rule × Nat) :=
  all.findSome? fun rule => (rule.pattern.length? text).map (rule, ·)

theorem first?_eq_map (text : List Char) :
    first? text = (chosen? text).map fun chosen => (chosen.1.kind, chosen.2) := by
  rw [chosen?, List.map_findSome?, first?]
  congr 1
  funext rule
  simp [Function.comp_def]

/-- The rules but the last that a text with this first character is left to. -/
def contenders (c : Char) : List Rule :=
  all.filter fun rule => rule.pattern ≠ .invalid && rule.pattern.begins c

/-- The rules that are rivals stand in order. -/
theorem ordered_of_ascii (ascii : c.toNat < 128) :
    (contenders c).Pairwise fun a b => a.pattern.outranks b.pattern = true :=
  of_ascii (P := fun c => (contenders c).Pairwise fun a b => a.pattern.outranks b.pattern = true)
    (by decide +kernel) c ascii

/-- A rule that is chosen comes before all others that apply. -/
theorem split_of_chosen? {r : Rule} {n : Nat} (chosen : chosen? text = some (r, n)) :
    ∃ before after, all = before ++ r :: after ∧ (∀ q ∈ before, q.pattern.coverage text = 0) ∧
      r.pattern.coverage text = n ∧ 0 < n := by
  obtain ⟨before, rule, after, split, decided, silent⟩ := List.findSome?_eq_some_iff.mp chosen
  obtain ⟨k, covers, equal⟩ := Option.map_eq_some_iff.mp decided
  cases equal
  obtain ⟨size, pos⟩ := Pattern.length?_eq_some.mp covers
  refine ⟨before, after, split, ?_, size, pos⟩
  intro q member
  simpa [Pattern.length?_eq_none] using silent q member

theorem isAscii_of_mem : ∀ rule ∈ all, rule.pattern.isAscii = true := by decide

/-- The rule that is chosen outranks all others that apply. -/
theorem outranks_of_chosen? {r q : Rule} {n : Nat} (chosen : chosen? text = some (r, n))
    (valid : r.pattern ≠ .invalid) (member : q ∈ all) (other : q ≠ r)
    (valid' : q.pattern ≠ .invalid) (covers : 0 < q.pattern.coverage text) :
    r.pattern.outranks q.pattern = true := by
  obtain ⟨before, after, split, silent, size, pos⟩ := split_of_chosen? chosen
  cases text with
  | nil =>
    have nothing := q.pattern.coverage_le []
    rw [List.length_nil] at nothing
    omega
  | cons c rest =>
    have begins : r.pattern.begins c = true := Pattern.begins_of_coverage (size ▸ pos)
    have begins' : q.pattern.begins c = true := Pattern.begins_of_coverage covers
    by_cases ascii : c.toNat < 128
    · have ordered := ordered_of_ascii ascii
      have later : q ∈ after := by
        rw [split, List.mem_append, List.mem_cons] at member
        rcases member with earlier | same | later
        · have := silent q earlier
          omega
        · exact absurd same other
        · exact later
      rw [contenders, split, List.filter_append, List.filter_cons_of_pos (by simp [valid, begins]),
        List.pairwise_append] at ordered
      apply List.rel_of_pairwise_cons ordered.2.1
      exact List.mem_filter.mpr ⟨later, by simp [valid', begins']⟩
    · -- Beyond ASCII there is only white space.
      have apart : ∀ a ∈ all, ∀ b ∈ all, a.pattern = .blank → b.pattern = .blank → a = b := by
        decide
      have chosenIn : r ∈ all := by simp [split]
      have blank := (Pattern.ascii_of_begins (isAscii_of_mem r chosenIn) begins valid).resolve_left ascii
      have blank' := (Pattern.ascii_of_begins (isAscii_of_mem q member) begins' valid').resolve_left ascii
      exact absurd (apart q member r chosenIn blank' blank) other

/-- The last rule is chosen only if no other applies. -/
theorem silent_of_invalid {r q : Rule} {n : Nat} (chosen : chosen? text = some (r, n))
    (invalid : r.pattern = .invalid) (member : q ∈ all) (valid : q.pattern ≠ .invalid) :
    q.pattern.coverage text = 0 := by
  have last : all.Pairwise fun a _ => a.pattern ≠ .invalid := by decide
  obtain ⟨before, after, split, silent, _⟩ := split_of_chosen? chosen
  rw [split, List.pairwise_append] at last
  rw [split, List.mem_append, List.mem_cons] at member
  rcases member with earlier | rfl | later
  · exact silent q earlier
  · contradiction
  · exact absurd invalid (List.rel_of_pairwise_cons last.2.1 later)

theorem chosen?_of_visible (visible : Text.allBlank text = false) :
    ∃ r n, chosen? text = some (r, n) := by
  obtain ⟨kind, n, first⟩ := first?_of_visible visible
  rw [first?_eq_map] at first
  obtain ⟨⟨r, m⟩, chosen, _⟩ := Option.map_eq_some_iff.mp first
  exact ⟨r, m, chosen⟩

/-- At a word a keyword or a name is chosen. -/
theorem chosen?_word {r : Rule} {n : Nat} (start : Text.isWordStart c = true)
    (chosen : chosen? (c :: rest) = some (r, n)) :
    r.pattern = .identifier ∨ ∃ word, r.pattern = .keyword word := by
  have covers := Pattern.identifier_pos start rest
  by_cases name : r.pattern = .identifier
  · exact .inl name
  · have valid : r.pattern ≠ .invalid := by
      intro invalid
      have silent := silent_of_invalid chosen invalid (q := ⟨.identifier, .identifier⟩)
        (by decide) (by decide)
      simp only at silent
      omega
    have above : r.pattern.outranks .identifier = true :=
      outranks_of_chosen? chosen valid (q := ⟨.identifier, .identifier⟩) (by decide)
        (fun same => name (same ▸ rfl)) (by decide) covers
    cases pattern : r.pattern with
    | keyword word => exact .inr ⟨word, rfl⟩
    | _ => simp [pattern, Pattern.outranks] at above

theorem letters_of_keyword {r : Rule} (member : r ∈ all) {word : String}
    (pattern : r.pattern = .keyword word) : word.toList.all Char.isAlpha = true := by
  have checked := isAscii_of_mem r member
  rwa [pattern] at checked

/-- All of a word is read. -/
theorem take_of_chosen?_word {r : Rule} {n : Nat} (start : Text.isWordStart c = true)
    (chosen : chosen? (c :: rest) = some (r, n)) :
    (c :: rest).take n = (c :: rest).takeWhile Text.isWordChar := by
  obtain ⟨before, after, split, _, size, pos⟩ := split_of_chosen? chosen
  have covers := Pattern.identifier_pos start rest
  have run : n = ((c :: rest).takeWhile Text.isWordChar).length := by
    rw [← Pattern.identifier_eq_run start, ← size]
    rcases chosen?_word start chosen with name | ⟨word, pattern⟩
    · rw [name]
    · have letters := letters_of_keyword (by simp [split]) pattern
      rw [pattern] at size ⊢
      exact (Pattern.keyword_eq_identifier letters (size ▸ pos) covers).symm
  rw [run]
  exact (List.prefix_iff_eq_take.mp (List.takeWhile_prefix _)).symm

/-- The kind of a word is that of a keyword exactly when it is spelled like it. -/
theorem kind_of_chosen?_word {r q : Rule} {n : Nat} (start : Text.isWordStart c = true)
    (chosen : chosen? (c :: rest) = some (r, n)) (member : q ∈ all) {word : String}
    (pattern : q.pattern = .keyword word) : r.kind = q.kind ↔
      Pattern.equalIgnoringCase ((c :: rest).takeWhile Text.isWordChar) word.toList = true := by
  obtain ⟨before, after, split, _, size, pos⟩ := split_of_chosen? chosen
  have chosenIn : r ∈ all := by simp [split]
  have letters := letters_of_keyword member pattern
  constructor
  · intro kinds
    have apart : ∀ a ∈ all, ∀ b ∈ all, b.isKeyword = true → a.kind = b.kind → a = b := by
      decide
    obtain rfl := apart r chosenIn q member (by simp [isKeyword, pattern]) kinds
    rw [pattern] at size
    exact Pattern.run_of_keyword letters (size ▸ pos)
  · intro equal
    have inside := (Text.classes_of_isWordStart start).1
    have covers : 0 < q.pattern.coverage (c :: rest) := by
      rw [pattern, Pattern.keyword_eq_run letters, if_pos equal, ← String.length_toList,
        ← Pattern.length_of_equalIgnoringCase equal]
      simp [inside]
    by_cases same : q = r
    · rw [same]
    · -- Nothing outranks a keyword but another keyword, and that would be the same word.
      have valid : r.pattern ≠ .invalid := by
        rcases chosen?_word start chosen with name | ⟨other, keyword⟩ <;> simp_all
      have above := outranks_of_chosen? chosen valid member same (by simp [pattern]) covers
      rw [pattern] at above covers
      rcases chosen?_word start chosen with name | ⟨other, keyword⟩
      · simp [name, Pattern.outranks] at above
      · rw [keyword] at above size
        simp only [Pattern.outranks, Bool.and_eq_true, Bool.not_eq_true'] at above
        have alike := Pattern.equal_of_keywords above.1.1 above.1.2 (size ▸ pos) covers
        rw [above.2] at alike
        contradiction

end Rule

/-- The first rule that applies is the longest. Where something but white space is left one rule is
chosen. Unless it is the last, which takes what is invalid, all others before the last that apply
cover fewer bytes, but for the one for names, which may cover as many as a keyword; it is the last
exactly when none of the others applies. A word is always read as a whole, as a keyword if it is
spelled like it in whatever case, or else as a name. -/
theorem first_rule_longest (text : List Char) (visible : Text.allBlank text = false) :
    ∃ r n, Rule.chosen? text = some (r, n) ∧ Rule.first? text = some (r.kind, n) ∧
      r.pattern.bytes? text = some (Text.byteLength (text.take n)) ∧
      (r.pattern ≠ .invalid → ∀ q ∈ Rule.all, q ≠ r → q.pattern ≠ .invalid →
        ∀ m, q.pattern.bytes? text = some m → m ≤ Text.byteLength (text.take n) ∧
          (m = Text.byteLength (text.take n) → r.isKeyword = true ∧ q.pattern = .identifier)) ∧
      (r.pattern = .invalid ↔
        ∀ q ∈ Rule.all, q.pattern ≠ .invalid → q.pattern.bytes? text = none) ∧
      ∀ c rest, text = c :: rest → c.isAlpha = true ∨ c = '_' →
        text.take n = text.takeWhile Text.isWordChar ∧
        (∀ q ∈ Rule.all, ∀ word, q.pattern = .keyword word → (r.kind = q.kind ↔
          Pattern.equalIgnoringCase (text.takeWhile Text.isWordChar) word.toList = true)) ∧
        ((∀ q ∈ Rule.all, ∀ word, q.pattern = .keyword word →
          Pattern.equalIgnoringCase (text.takeWhile Text.isWordChar) word.toList = false) →
            r.kind = .identifier) := by
  obtain ⟨r, n, chosen⟩ := Rule.chosen?_of_visible visible
  obtain ⟨before, after, split, silent, size, pos⟩ := Rule.split_of_chosen? chosen
  have member : r ∈ Rule.all := by simp [split]
  refine ⟨r, n, chosen, ?_, ?_, ?_, ?_, ?_⟩
  · rw [Rule.first?_eq_map, chosen, Option.map_some]
  · rw [Pattern.bytes?, Pattern.length?_eq_some.mpr ⟨size, pos⟩, Option.map_some]
  · intro valid q inAll other valid' m bytes
    obtain ⟨k, covers, rfl⟩ := Option.map_eq_some_iff.mp bytes
    obtain ⟨rfl, some⟩ := Pattern.length?_eq_some.mp covers
    have above := Rule.outranks_of_chosen? chosen valid inAll other valid' some
    have inside := size ▸ r.pattern.coverage_le text
    rcases Pattern.coverage_lt_of_outranks above (size ▸ pos) some with
      less | ⟨equal, ⟨word, keyword⟩, name⟩
    · have fewer := Text.byteLength_take_lt (size ▸ less) inside
      omega
    · rw [equal, size]
      exact ⟨Nat.le_refl _, fun _ => ⟨by simp [Rule.isKeyword, keyword], name⟩⟩
  · constructor
    · intro invalid q inAll valid
      exact Pattern.bytes?_eq_none.mpr (Rule.silent_of_invalid chosen invalid inAll valid)
    · intro none
      by_cases invalid : r.pattern = .invalid
      · exact invalid
      · have nothing := Pattern.bytes?_eq_none.mp (none r member invalid)
        omega
  · rintro c rest rfl letter
    have start : Text.isWordStart c = true := by simpa [Text.isWordStart] using letter
    refine ⟨Rule.take_of_chosen?_word start chosen, ?_, ?_⟩
    · intro q inAll word pattern
      exact Rule.kind_of_chosen?_word start chosen inAll pattern
    · intro unlike
      rcases Rule.chosen?_word start chosen with name | ⟨word, pattern⟩
      · have kinds : ∀ rule ∈ Rule.all, rule.pattern = .identifier → rule.kind = .identifier := by
          decide
        exact kinds r member name
      · have equal := (Rule.kind_of_chosen?_word start chosen member pattern).mp rfl
        rw [unlike r member word pattern] at equal
        contradiction

/-- A keyword in mixed case, and a word that only begins like it. -/
theorem first_rule_longest_or : Text.allBlank "oR é".toList = false ∧
    Rule.first? "oR é".toList = some (.orWord, 2) ∧
    Rule.first? "oRé".toList = some (.identifier, 3) ∧
    (Pattern.identifier.bytes? "oR é".toList = some 2 ∧
      (Pattern.keyword "or").bytes? "oRé".toList = none ∧
      Pattern.identifier.bytes? "oRé".toList = some 4) ∧
    ∃ r n, Rule.chosen? "oRé".toList = some (r, n) ∧
      "oRé".toList.take n = "oRé".toList.takeWhile Text.isWordChar := by
  have visible : Text.allBlank "oRé".toList = false := by decide
  obtain ⟨r, n, chosen, _, _, _, _, words⟩ := first_rule_longest _ visible
  refine ⟨by decide, by decide, by decide, by decide, r, n, chosen, ?_⟩
  exact (words 'o' ['R', 'é'] rfl (.inl (by decide))).1

end SoftScript.Token
