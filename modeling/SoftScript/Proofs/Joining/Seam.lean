import SoftScript.Proofs.Printing.Lexeme

/-! A text that is continued on a new line. The newline ends every word, number and operator before
it. Only a comment in the last line goes on to take the newline in, and only what is left open, a
block comment or a string, can be closed by the text that follows. -/
namespace SoftScript.Token

variable {text more : List Char}

/-- A block comment stands first that is not closed. -/
def opensComment : List Char → Bool
  | '/' :: '*' :: body => (Pattern.throughCommentEnd body).isNone
  | _ => false

/-- A string stands first that is not closed. -/
def opensString : List Char → Bool
  | '"' :: body => body.all (· ≠ '"')
  | _ => false

theorem takeWhile_newline {p : Char → Bool} (stops : p '\n' = false) :
    (text ++ '\n' :: more).takeWhile p = text.takeWhile p := by
  induction text with
  | nil => simp [stops]
  | cons c rest ih => simp [List.takeWhile_cons, ih]

theorem takeWhile_shorter {p : Char → Bool} (stops : text.all p = false) :
    (text.takeWhile p).length < text.length := by
  have le := (List.takeWhile_prefix p (l := text)).length_le
  apply Nat.lt_of_le_of_ne le
  intro same
  have whole := (List.takeWhile_prefix p).eq_of_length same
  have all : (text.takeWhile p).all p = true := List.all_takeWhile
  rw [whole, stops] at all
  contradiction

namespace Pattern

/-! Each pattern on its own. -/

theorem lineComment_eq_zero (other : ¬ ['/', '/'] <+: text) : lineComment.coverage text = 0 := by
  unfold coverage
  split <;> simp_all

theorem blockComment_eq_zero (other : ¬ ['/', '*'] <+: text) : blockComment.coverage text = 0 := by
  unfold coverage
  split <;> simp_all

theorem string_eq_zero (other : ¬ ['"'] <+: text) : string.coverage text = 0 := by
  unfold coverage
  split <;> simp_all

theorem keyword_newline {word : String} (letters : word.toList.all Char.isAlpha = true) :
    (keyword word).coverage (text ++ '\n' :: more) = (keyword word).coverage text := by
  have run : (text.takeWhile Text.isWordChar).all Text.isWordChar = true := by simp
  have ended : Text.Delimited (text.dropWhile Text.isWordChar) := by
    intro c found
    have stopped := List.head?_dropWhile_not Text.isWordChar text
    rw [found] at stopped
    simpa using stopped
  have ended' : Text.Delimited (text.dropWhile Text.isWordChar ++ '\n' :: more) := by
    cases left : text.dropWhile Text.isWordChar with
    | nil =>
      rintro _ ⟨⟩
      decide
    | cons d rest =>
      rintro _ ⟨⟩
      exact ended d (by rw [left]; rfl)
  have split := List.takeWhile_append_dropWhile (p := Text.isWordChar) (l := text)
  have alone := coverage_keyword letters run ended
  have continued := coverage_keyword letters run ended'
  rw [← List.append_assoc, split] at continued
  rw [split] at alone
  rw [continued, alone]

theorem prefix_newline {word : List Char} (plain : '\n' ∉ word) :
    word <+: text ++ '\n' :: more ↔ word <+: text := by
  induction word generalizing text with
  | nil => simp
  | cons c word ih =>
    simp only [List.mem_cons, not_or] at plain
    cases text with
    | nil => simp [List.cons_prefix_cons, Ne.symm plain.1]
    | cons d rest => simp [List.cons_prefix_cons, ih plain.2]

theorem symbol_newline {word : String} (plain : '\n' ∉ word.toList) :
    (symbol word).coverage (text ++ '\n' :: more) = (symbol word).coverage text := by
  simp only [coverage, List.isPrefixOf_iff_prefix, prefix_newline plain]

theorem identifier_newline :
    identifier.coverage (text ++ '\n' :: more) = identifier.coverage text := by
  cases text with
  | nil => rfl
  | cons c rest =>
    have stops : Text.isWordChar '\n' = false := by decide
    simp [coverage, takeWhile_newline stops]

theorem number_newline : number.coverage (text ++ '\n' :: more) = number.coverage text := by
  simp [coverage, takeWhile_newline (p := Char.isDigit) rfl]

theorem blank_newline (visible : Text.allBlank text = false) :
    blank.coverage (text ++ '\n' :: more) = blank.coverage text := by
  have shorter : (text.takeWhile Text.isBlank).length < text.length := takeWhile_shorter visible
  simp [coverage, List.takeWhile_append, Nat.ne_of_lt shorter]

theorem string_newline (closed : opensString text = false) :
    string.coverage (text ++ '\n' :: more) = string.coverage text := by
  by_cases opens : ['"'] <+: text
  · obtain ⟨body, rfl⟩ := opens
    have shorter : (body.takeWhile (· ≠ '"')).length < body.length := takeWhile_shorter closed
    have left : (body.drop (body.takeWhile (· ≠ '"')).length).isEmpty = false := by
      simpa [List.drop_eq_nil_iff] using shorter
    have left' (rest : List Char) :
        (body.drop (body.takeWhile (· ≠ '"')).length ++ rest).isEmpty = false := by
      cases cut : body.drop (body.takeWhile (· ≠ '"')).length with
      | nil =>
        rw [cut] at left
        cases left
      | cons => rfl
    simp only [List.cons_append, List.nil_append, coverage, List.takeWhile_append,
      Nat.ne_of_lt shorter, if_false, List.drop_append_of_le_length (Nat.le_of_lt shorter), left,
      left']
  · rw [string_eq_zero opens, string_eq_zero (mt (prefix_newline (by decide)).mp opens)]

theorem throughCommentEnd_append {n : Nat} (closed : throughCommentEnd text = some n) :
    throughCommentEnd (text ++ more) = some n := by
  fun_induction throughCommentEnd text generalizing n with
  | case1 => cases closed
  | case2 => exact closed
  | case3 c rest other ih =>
    obtain ⟨k, inner, rfl⟩ := Option.map_eq_some_iff.mp closed
    have goesOn : ∀ tail, c = '*' → rest ++ more = '/' :: tail → False := by
      intro tail star slash
      cases rest with
      | nil => cases inner
      | cons d rest =>
        cases slash
        exact other rest star rfl
    rw [List.cons_append, throughCommentEnd, ih inner, Option.map_some]
    exact goesOn

theorem blockComment_newline (closed : opensComment text = false) :
    blockComment.coverage (text ++ '\n' :: more) = blockComment.coverage text := by
  by_cases opens : ['/', '*'] <+: text
  · obtain ⟨body, rfl⟩ := opens
    cases ended : throughCommentEnd body with
    | none => simp [opensComment, ended] at closed
    | some n => simp [coverage, ended, throughCommentEnd_append ended]
  · rw [blockComment_eq_zero opens, blockComment_eq_zero (mt (prefix_newline (by decide)).mp opens)]

/-- A comment in the last line takes the newline in. -/
theorem lineComment_newline (text more : List Char) :
    lineComment.coverage (text ++ '\n' :: more) = lineComment.coverage text ∨
      lineComment.coverage text = text.length ∧
        lineComment.coverage (text ++ '\n' :: more) = text.length + 1 := by
  by_cases opens : ['/', '/'] <+: text
  · obtain ⟨body, rfl⟩ := opens
    have line : (body ++ '\n' :: more).takeWhile (· ≠ '\n') = body.takeWhile (· ≠ '\n') :=
      takeWhile_newline rfl
    have le := (List.takeWhile_prefix (· ≠ '\n') (l := body)).length_le
    have continued : throughNewline (body ++ '\n' :: more) =
        (body.takeWhile (· ≠ '\n')).length + 1 := by
      simp only [throughNewline]
      rw [line, List.drop_append_of_le_length le, if_neg (by simp)]
    by_cases last : (body.drop (body.takeWhile (· ≠ '\n')).length).isEmpty = true
    · right
      have whole : (body.takeWhile (· ≠ '\n')).length = body.length := by
        simp only [List.isEmpty_iff, List.drop_eq_nil_iff] at last
        omega
      have alone : throughNewline body = body.length := by
        rw [throughNewline, if_pos last, whole]
      simp only [List.cons_append, List.nil_append, coverage, alone, continued, whole,
        List.length_cons]
      omega
    · left
      have alone : throughNewline body = (body.takeWhile (· ≠ '\n')).length + 1 := by
        rw [throughNewline, if_neg last]
      simp only [List.cons_append, List.nil_append, coverage, continued, alone]
  · left
    rw [lineComment_eq_zero opens, lineComment_eq_zero (mt (prefix_newline (by decide)).mp opens)]

theorem invalid_pos {c : Char} {rest : List Char} (visible : Text.isBlank c = false) :
    0 < invalid.coverage (c :: rest) := by
  have size : 0 < ((c :: rest).takeWhile (!Text.isBlank ·)).length := by
    simp [visible]
  unfold coverage
  dsimp only
  split <;> omega

/-! What a pattern covers is there. -/

theorem throughCommentEnd_le {n : Nat} (closed : throughCommentEnd text = some n) :
    n ≤ text.length := by
  fun_induction throughCommentEnd text generalizing n with
  | case1 => cases closed
  | case2 =>
    cases closed
    simp
  | case3 c rest other ih =>
    obtain ⟨k, inner, rfl⟩ := Option.map_eq_some_iff.mp closed
    exact Nat.succ_le_succ (ih inner)

theorem throughNewline_le (body : List Char) : throughNewline body ≤ body.length := by
  have line := (List.takeWhile_prefix (· ≠ '\n') (l := body)).length_le
  simp only [throughNewline, List.isEmpty_iff, List.drop_eq_nil_iff]
  split <;> omega

theorem lineComment_le : lineComment.coverage text ≤ text.length := by
  by_cases opens : ['/', '/'] <+: text
  · obtain ⟨body, rfl⟩ := opens
    have inside := throughNewline_le body
    simp only [List.cons_append, List.nil_append, coverage, List.length_cons]
    omega
  · rw [lineComment_eq_zero opens]
    exact Nat.zero_le _

theorem blockComment_le : blockComment.coverage text ≤ text.length := by
  by_cases opens : ['/', '*'] <+: text
  · obtain ⟨body, rfl⟩ := opens
    simp only [List.cons_append, List.nil_append, coverage, List.length_cons]
    cases closed : throughCommentEnd body with
    | none => exact Nat.zero_le _
    | some n =>
      have inside := throughCommentEnd_le closed
      show 2 + n ≤ body.length + 1 + 1
      omega
  · rw [blockComment_eq_zero opens]
    exact Nat.zero_le _

theorem keyword_le (word : String) : (keyword word).coverage text ≤ text.length := by
  simp only [coverage]
  split
  · rename_i covers
    simp only [equalIgnoringCase, Bool.and_eq_true, decide_eq_true_eq] at covers
    have sizes := congrArg List.length covers.1
    simp only [List.length_map, List.length_take, String.length_toList] at sizes
    omega
  · exact Nat.zero_le _

theorem symbol_le (word : String) : (symbol word).coverage text ≤ text.length := by
  simp only [coverage]
  split
  · rename_i covers
    simpa only [String.length_toList] using (List.isPrefixOf_iff_prefix.mp covers).length_le
  · exact Nat.zero_le _

theorem identifier_le : identifier.coverage text ≤ text.length := by
  cases text with
  | nil => exact Nat.le_refl 0
  | cons c rest =>
    have word := (List.takeWhile_prefix Text.isWordChar (l := rest)).length_le
    simp only [coverage, List.length_cons]
    split <;> omega

theorem string_le : string.coverage text ≤ text.length := by
  by_cases opens : ['"'] <+: text
  · obtain ⟨body, rfl⟩ := opens
    have plain := (List.takeWhile_prefix (· ≠ '"') (l := body)).length_le
    simp only [List.cons_append, List.nil_append, coverage, List.isEmpty_iff,
      List.drop_eq_nil_iff, List.length_cons]
    split <;> omega
  · rw [string_eq_zero opens]
    exact Nat.zero_le _

theorem invalid_le : invalid.coverage text ≤ text.length := by
  have visible := (List.takeWhile_prefix (!Text.isBlank ·) (l := text)).length_le
  simp only [coverage, List.isEmpty_iff, List.drop_eq_nil_iff, Bool.or_eq_true,
    decide_eq_true_eq]
  split <;> omega

theorem coverage_le (pattern : Pattern) (text : List Char) :
    pattern.coverage text ≤ text.length := by
  cases pattern with
  | lineComment => exact lineComment_le
  | blockComment => exact blockComment_le
  | keyword word => exact keyword_le word
  | symbol word => exact symbol_le word
  | identifier => exact identifier_le
  | number => exact (List.takeWhile_prefix _).length_le
  | string => exact string_le
  | blank => exact (List.takeWhile_prefix _).length_le
  | invalid => exact invalid_le

end Pattern

namespace Rule

/-- What a rule makes of a text that goes on after a newline. -/
def Continues (text : List Char) (alone continued : Option (Kind × Nat)) : Prop :=
  continued = alone ∨
    alone = some (.comment, text.length) ∧ continued = some (.comment, text.length + 1)

/-- A rule of which the newline is no part, so that it can be told what it makes of it. -/
def isTold (rule : Rule) : Bool :=
  match rule.pattern with
  | .lineComment => rule.kind = .comment
  | .keyword word => word.toList.all Char.isAlpha
  | .symbol word => '\n' ∉ word.toList
  | .invalid => false
  | _ => true

theorem match?_newline {rule : Rule} (told : rule.isTold = true)
    (visible : Text.allBlank text = false) (comment : opensComment text = false)
    (string : opensString text = false) (more : List Char) :
    Continues text (rule.match? text) (rule.match? (text ++ '\n' :: more)) := by
  obtain ⟨kind, pattern⟩ := rule
  have same (equal : pattern.coverage (text ++ '\n' :: more) = pattern.coverage text) :
      Continues text (match? text ⟨kind, pattern⟩)
        (match? (text ++ '\n' :: more) ⟨kind, pattern⟩) := by
    left
    simp [match?, Pattern.length?, equal]
  cases pattern with
  | lineComment =>
    rcases Pattern.lineComment_newline text more with equal | ⟨whole, longer⟩
    · exact same equal
    · right
      have kind : kind = .comment := by simpa [isTold] using told
      have pos : 0 < text.length := by
        cases text with
        | nil => simp [Text.allBlank] at visible
        | cons => simp
      rw [match?_of_coverage whole pos, match?_of_coverage longer (by omega), kind]
      exact ⟨rfl, rfl⟩
  | blockComment => exact same (Pattern.blockComment_newline comment)
  | keyword word => exact same (Pattern.keyword_newline told)
  | symbol word => exact same (Pattern.symbol_newline (by simpa [isTold] using told))
  | identifier => exact same Pattern.identifier_newline
  | number => exact same Pattern.number_newline
  | string => exact same (Pattern.string_newline string)
  | blank => exact same (Pattern.blank_newline visible)
  | invalid => cases told

theorem findSome?_newline {rules : List Rule} (told : rules.all isTold = true)
    (visible : Text.allBlank text = false) (comment : opensComment text = false)
    (string : opensString text = false) (more : List Char) :
    Continues text (rules.findSome? (match? text))
      (rules.findSome? (match? (text ++ '\n' :: more))) := by
  induction rules with
  | nil => exact .inl rfl
  | cons rule rest ih =>
    simp only [List.all_cons, Bool.and_eq_true] at told
    rw [List.findSome?_cons, List.findSome?_cons]
    rcases match?_newline told.1 visible comment string more with equal | ⟨alone, longer⟩
    · rw [equal]
      cases rule.match? text with
      | none => exact ih told.2
      | some found => exact .inl rfl
    · rw [alone, longer]
      exact .inr ⟨rfl, rfl⟩

/-- A string that is not closed is read as invalid. -/
theorem first?_of_opensString (opens : opensString text = true) :
    ∃ n, first? text = some (.invalid, n) := by
  obtain ⟨body, rfl, plain⟩ : ∃ body, text = '"' :: body ∧ body.all (· ≠ '"') = true := by
    unfold opensString at opens
    split at opens
    · exact ⟨_, rfl, opens⟩
    · cases opens
  have body_eq : body.takeWhile (· ≠ '"') = body := by
    have ended : (body ++ []).takeWhile (· ≠ '"') = body := takeWhile_run plain (by simp)
    rwa [List.append_nil] at ended
  have digits : match? ('"' :: body) ⟨.number, .number⟩ = none := match?_eq_none.mpr rfl
  have quotes : match? ('"' :: body) ⟨.string, .string⟩ = none := by
    apply match?_eq_none.mpr
    simp only [Pattern.coverage, body_eq, List.drop_length]
    rfl
  have blanks : match? ('"' :: body) ⟨.blank, .blank⟩ = none := match?_eq_none.mpr rfl
  have covers : 0 < Pattern.invalid.coverage ('"' :: body) := Pattern.invalid_pos (by decide)
  have foreign := (sorted_of_ascii '"' (by decide)).2 (by decide)
  exact ⟨_, by
    rw [first?_of_foreign foreign (by decide), loose, List.drop_one, List.tail_cons,
      List.findSome?_cons, digits, List.findSome?_cons, quotes, List.findSome?_cons, blanks,
      List.findSome?_cons, match?_of_coverage rfl covers]⟩

/-- The token at the start of a text stays the same when the text goes on after a newline, but for a
comment in the last line. -/
theorem first?_newline {kind : Kind} {n : Nat} (visible : Text.allBlank text = false)
    (comment : opensComment text = false) (first : first? text = some (kind, n))
    (sound : kind ≠ .invalid) (more : List Char) :
    Continues text (some (kind, n)) (first? (text ++ '\n' :: more)) := by
  have string : opensString text = false := by
    cases opens : opensString text with
    | false => rfl
    | true =>
      obtain ⟨n', other⟩ := first?_of_opensString opens
      rw [first] at other
      exact absurd (Prod.mk.inj (Option.some.inj other)).1 sound
  have split (text : List Char) : first? text = (all.dropLast.findSome? (match? text)).or
      (match? text ⟨.invalid, .invalid⟩) := by
    have apart : all = all.dropLast ++ [⟨.invalid, .invalid⟩] := rfl
    rw [first?, apart, List.findSome?_append, List.findSome?_singleton]
    rfl
  have told : all.dropLast.all isTold = true := by decide
  have front : all.dropLast.findSome? (match? text) = some (kind, n) := by
    rw [split] at first
    cases found : all.dropLast.findSome? (match? text) with
    | some decided => rwa [found] at first
    | none =>
      rw [found, Option.none_or] at first
      obtain ⟨_, _, equal⟩ := Option.map_eq_some_iff.mp first
      exact absurd (Prod.mk.inj equal).1.symm sound
  have continues := findSome?_newline told visible comment string more
  rw [front] at continues
  rw [split]
  rcases continues with same | ⟨alone, longer⟩
  · rw [same]
    exact .inl rfl
  · rw [longer]
    exact .inr ⟨alone, rfl⟩

theorem first?_le {kind : Kind} {n : Nat} (first : first? text = some (kind, n)) :
    n ≤ text.length := by
  obtain ⟨rule, _, found⟩ := List.exists_of_findSome?_eq_some first
  obtain ⟨k, covers, equal⟩ := Option.map_eq_some_iff.mp found
  cases equal
  simp only [Pattern.length?, Option.ite_none_right_eq_some, Option.some.injEq] at covers
  rw [← covers.2]
  exact rule.pattern.coverage_le text

/-- Where something is left to read, some rule applies. -/
theorem first?_of_visible (visible : Text.allBlank text = false) :
    ∃ kind n, first? text = some (kind, n) := by
  cases found : first? text with
  | some decided => exact ⟨decided.1, decided.2, rfl⟩
  | none =>
    have silent (rule : Rule) (member : rule ∈ all) : rule.pattern.coverage text = 0 :=
      match?_eq_none.mp (List.findSome?_eq_none_iff.mp found rule member)
    cases text with
    | nil => simp [Text.allBlank] at visible
    | cons c rest =>
      cases isBlank : Text.isBlank c with
      | true =>
        have covers := silent ⟨.blank, .blank⟩ (by decide)
        simp [Pattern.coverage, isBlank] at covers
      | false =>
        have covers : Pattern.invalid.coverage (c :: rest) = 0 :=
          silent ⟨.invalid, .invalid⟩ (by decide)
        have some : 0 < Pattern.invalid.coverage (c :: rest) := Pattern.invalid_pos isBlank
        omega

/-- A symbol of one character where the rules before its own do not apply. -/
theorem first?_lone {kind : Kind} {word : String} {c : Char} {rest : List Char} (i : Nat)
    (placed : all = all.take i ++ ⟨kind, .symbol word⟩ :: all.drop (i + 1))
    (letter : word.toList = [c])
    (silent : ∀ rule ∈ all.take i, rule.pattern.coverage (c :: rest) = 0) :
    first? (c :: rest) = some (kind, 1) := by
  have size : word.length = 1 := by rw [← String.length_toList, letter]; rfl
  have before : (all.take i).findSome? (match? (c :: rest)) = none :=
    List.findSome?_eq_none_iff.mpr fun rule member => match?_eq_none.mpr (silent rule member)
  have covers : (Pattern.symbol word).coverage (c :: rest) = 1 := by
    simp [Pattern.coverage, letter, size]
  have whole : first? (c :: rest) = all.findSome? (match? (c :: rest)) := rfl
  rw [whole, placed, List.findSome?_append, before, Option.none_or, List.findSome?_cons,
    match?_of_coverage covers (by omega)]

/-! White space. -/

/-- White space begins nothing else. -/
def Vacant (c : Char) : Prop :=
  fixed.all (!·.pattern.opensWith c) = true ∧ Text.isWordStart c = false ∧ c.isDigit = false ∧ c ≠ '"'

instance (c : Char) : Decidable (Vacant c) := inferInstanceAs (Decidable (_ ∧ _))

theorem mem_of_inRanges {ranges : List (Nat × Nat)} {n : Nat} (h : Text.inRanges ranges n = true) :
    ∃ range ∈ ranges, n ∈ List.range' range.1 (range.2 + 1 - range.1) := by
  induction ranges with
  | nil => cases h
  | cons range rest ih =>
    simp only [Text.inRanges, Bool.and_eq_true, Bool.or_eq_true, decide_eq_true_eq] at h
    obtain ⟨low, high | later⟩ := h
    · refine ⟨range, List.mem_cons_self, ?_⟩
      rw [List.mem_range'_1]
      omega
    · obtain ⟨range', member, within⟩ := ih later
      exact ⟨range', List.mem_cons_of_mem _ member, within⟩

theorem vacant_of_isBlank {c : Char} (blank : Text.isBlank c = true) : Vacant c := by
  have checked : ∀ range ∈ Text.blankRanges,
      ∀ n ∈ List.range' range.1 (range.2 + 1 - range.1), Vacant (Char.ofNat n) := by
    decide
  obtain ⟨range, member, within⟩ := mem_of_inRanges blank
  simpa using checked range member c.toNat within

/-- All white space in front is one token, if something else follows it. -/
theorem first?_blanks {c : Char} (blank : Text.isBlank c = true) (rest : List Char) :
    first? (c :: rest) = some (.blank, ((c :: rest).takeWhile Text.isBlank).length) := by
  obtain ⟨foreign, start, notDigit, notQuote⟩ := vacant_of_isBlank blank
  have digits : match? (c :: rest) ⟨.number, .number⟩ = none :=
    match?_eq_none.mpr (by simp [Pattern.coverage, notDigit])
  have quotes : match? (c :: rest) ⟨.string, .string⟩ = none := by
    apply match?_eq_none.mpr
    simp only [Pattern.coverage]
    split <;> simp_all
  have covers : Pattern.blank.coverage (c :: rest) =
      ((c :: rest).takeWhile Text.isBlank).length := rfl
  rw [first?_of_foreign foreign start, loose, List.drop_one, List.tail_cons, List.findSome?_cons,
    digits, List.findSome?_cons, quotes, List.findSome?_cons,
    match?_of_coverage covers (by simp [blank])]

end Rule

end SoftScript.Token
