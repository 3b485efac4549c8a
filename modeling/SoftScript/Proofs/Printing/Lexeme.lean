import SoftScript.Proofs.Printing.Printable

/-! Which rule reads a lexeme. The rules for comments, keywords and symbols come first and mostly
fail at the first character; a word then is an identifier exactly when no keyword is spelled like
it. -/
namespace SoftScript

/-- What holds of all ASCII characters can be checked. -/
theorem of_ascii {P : Char → Prop} (checked : ∀ n < 128, P (Char.ofNat n)) (c : Char)
    (h : c.toNat < 128) : P c := by
  simpa using checked c.toNat h

namespace Text

theorem ascii_of_isAlpha {c : Char} (h : c.isAlpha = true) : c.toNat < 128 := by
  have cases : (decide (c.val ≥ 'A'.val ∧ c.val ≤ 'Z'.val) ||
    (decide (c.val ≥ 'a'.val) && decide (c.val ≤ 'z'.val))) = true := h
  simp only [Bool.or_eq_true, Bool.and_eq_true, decide_eq_true_eq, UInt32.le_iff_toNat_le,
    ge_iff_le] at cases
  have : c.toNat = c.val.toNat := rfl
  rcases cases with ⟨_, h⟩ | ⟨_, h⟩ <;> simp at h <;> omega

theorem ascii_of_isDigit {c : Char} (h : c.isDigit = true) : c.toNat < 128 := by
  simp only [Char.isDigit, Bool.and_eq_true, decide_eq_true_eq, UInt32.le_iff_toNat_le,
    ge_iff_le] at h
  have : c.toNat = c.val.toNat := rfl
  obtain ⟨_, h⟩ := h
  simp at h
  omega

theorem ascii_of_isWordStart {c : Char} (h : isWordStart c = true) : c.toNat < 128 := by
  simp only [isWordStart, Bool.or_eq_true, decide_eq_true_eq] at h
  rcases h with h | rfl
  · exact ascii_of_isAlpha h
  · decide

/-- How the classes that a character may belong to lie to each other. -/
def Classed (c : Char) : Prop :=
  (c.isAlpha = true → isWordChar c = true ∧ c.toLower.isAlpha = true) ∧
  (isWordStart c = true → isWordChar c = true ∧ isBlank c = false) ∧
  (c.isDigit = true → isWordChar c = true ∧ isBlank c = false ∧ isWordStart c = false)

instance (c : Char) : Decidable (Classed c) := inferInstanceAs (Decidable (_ ∧ _))

theorem classed_of_ascii (c : Char) (ascii : c.toNat < 128) : Classed c :=
  of_ascii (by decide) c ascii

theorem classes_of_isAlpha {c : Char} (h : c.isAlpha = true) :
    isWordChar c = true ∧ c.toLower.isAlpha = true :=
  (classed_of_ascii c (ascii_of_isAlpha h)).1 h

theorem classes_of_isWordStart {c : Char} (h : isWordStart c = true) :
    isWordChar c = true ∧ isBlank c = false :=
  (classed_of_ascii c (ascii_of_isWordStart h)).2.1 h

theorem classes_of_isDigit {c : Char} (h : c.isDigit = true) :
    isWordChar c = true ∧ isBlank c = false ∧ isWordStart c = false :=
  (classed_of_ascii c (ascii_of_isDigit h)).2.2 h

theorem isAlpha_of_toLower_eq {c d : Char} (h : c.toLower = d.toLower) (alpha : d.isAlpha = true) :
    c.isAlpha = true := by
  by_cases upper : c.isUpper = true
  · have split : c.isAlpha = (c.isUpper || c.isLower) := rfl
    simp [split, upper]
  · have lower := (classes_of_isAlpha alpha).2
    have same : c.toLower = c := dif_neg (of_decide_eq_false (Bool.eq_false_iff.mpr upper))
    rwa [← h, same] at lower

/-- No word goes on here. -/
def Delimited (rest : List Char) : Prop := ∀ c ∈ rest.head?, isWordChar c = false

end Text

namespace Token

namespace Pattern

/-- Whether a pattern of fixed text may cover a text with this first character. -/
def opensWith : Pattern → Char → Bool
  | lineComment, c | blockComment, c => c = '/'
  | keyword word, c => word.toList.head?.any (·.toLower = c.toLower)
  | symbol word, c => word.toList.head?.any (· = c)
  | _, _ => true

theorem coverage_of_not_opensWith {pattern : Pattern} (h : pattern.opensWith c = false) :
    pattern.coverage (c :: tail) = 0 := by
  cases pattern with
  | lineComment =>
    have : c ≠ '/' := by simpa [opensWith] using h
    unfold coverage
    split <;> simp_all
  | blockComment =>
    have : c ≠ '/' := by simpa [opensWith] using h
    unfold coverage
    split <;> simp_all
  | keyword word =>
    simp only [opensWith] at h
    cases letters : word.toList with
    | nil =>
      have empty : word.length = 0 := by rw [← String.length_toList, letters]; rfl
      simp [coverage, empty]
    | cons d word' =>
      have size : word.length = word'.length + 1 := by rw [← String.length_toList, letters]; rfl
      have other : d.toLower ≠ c.toLower := by simpa [letters] using h
      simp [coverage, size, equalIgnoringCase, letters, other.symm]
  | symbol word =>
    simp only [opensWith] at h
    cases letters : word.toList with
    | nil =>
      have empty : word.length = 0 := by rw [← String.length_toList, letters]; rfl
      simp [coverage, empty]
    | cons d word' =>
      have other : d ≠ c := by simpa [letters] using h
      simp [coverage, letters, other]
  | _ => simp [opensWith] at h

/-- A keyword covers a word exactly when it is spelled like it. -/
theorem coverage_keyword {word : String} (letters : word.toList.all Char.isAlpha = true)
    {name rest : List Char} (run : name.all Text.isWordChar = true) (delimited : Text.Delimited rest) :
    (keyword word).coverage (name ++ rest) =
      if equalIgnoringCase name word.toList then word.length else 0 := by
  have size := String.length_toList (s := word)
  by_cases same : name.length = word.length
  · have taken : (name ++ rest).take word.length = name := by simp [← same]
    have left : (name ++ rest).drop word.length = rest := by simp [← same]
    have ended : rest.head?.any Text.isWordChar = false := by
      cases rest with
      | nil => rfl
      | cons c _ => simpa [Text.Delimited] using delimited
    simp [coverage, taken, left, ended]
  · have unlike : equalIgnoringCase name word.toList = false := by
      simp only [equalIgnoringCase, decide_eq_false_iff_not]
      intro equal
      exact same (by simpa [size] using congrArg List.length equal)
    rw [unlike]
    rcases Nat.lt_or_gt_of_ne same with shorter | longer
    · -- The keyword would have to reach into the rest, which begins with no letter.
      have unlike : equalIgnoringCase ((name ++ rest).take word.length) word.toList = false := by
        simp only [equalIgnoringCase, decide_eq_false_iff_not]
        intro equal
        have long := congrArg List.length equal
        cases rest with
        | nil => simp [size] at long; omega
        | cons c rest =>
          have atEnd := congrArg (·[name.length]?) equal
          obtain ⟨d, found⟩ : ∃ d, word.toList[name.length]? = some d :=
            ⟨_, List.getElem?_eq_getElem (by omega)⟩
          have alike : c.toLower = d.toLower := by
            simpa [List.getElem?_take, shorter, found] using atEnd
          have alpha : d.isAlpha = true := List.all_eq_true.mp letters d (List.mem_of_getElem? found)
          have continued := (Text.classes_of_isAlpha (Text.isAlpha_of_toLower_eq alike alpha)).1
          simp [Text.Delimited, continued] at delimited
      simp [coverage, unlike]
    · -- The word goes on where the keyword ends.
      have split : (name ++ rest).drop word.length =
          name.get ⟨word.length, longer⟩ :: (name.drop (word.length + 1) ++ rest) := by
        rw [List.drop_append_of_le_length (Nat.le_of_lt longer), List.drop_eq_getElem_cons longer]
        rfl
      have inside : Text.isWordChar (name.get ⟨word.length, longer⟩) = true :=
        List.all_eq_true.mp run _ (List.get_mem ..)
      simp only [coverage, split, List.head?_cons, Option.any_some, inside, Bool.not_true,
        Bool.and_false, Bool.false_eq_true, if_false]

end Pattern

namespace Rule

variable {text tail rest : List Char}

/-- The rules for comments, keywords and symbols. -/
def fixed : List Rule := all.take 38

/-- The rules after them. -/
def loose : List Rule :=
  [⟨.identifier, .identifier⟩, ⟨.number, .number⟩, ⟨.string, .string⟩, ⟨.blank, .blank⟩,
    ⟨.invalid, .invalid⟩]

def match? (text : List Char) (rule : Rule) : Option (Kind × Nat) :=
  (rule.pattern.length? text).map (rule.kind, ·)

theorem first?_eq (text : List Char) :
    first? text = (fixed.findSome? (match? text)).or (loose.findSome? (match? text)) := by
  have split : all = fixed ++ loose := rfl
  rw [first?, split, List.findSome?_append]
  rfl

theorem match?_eq_none {rule : Rule} :
    rule.match? text = none ↔ rule.pattern.coverage text = 0 := by
  simp [match?, Pattern.length?]

theorem match?_of_coverage {rule : Rule} (covers : rule.pattern.coverage text = n) (pos : 0 < n) :
    rule.match? text = some (rule.kind, n) := by
  simp [match?, Pattern.length?, covers, pos]

/-- None of the rules for fixed texts applies. -/
def Silent (text : List Char) : Prop := ∀ rule ∈ fixed, rule.pattern.coverage text = 0

theorem first?_of_silent (silent : Silent text) :
    first? text = loose.findSome? (match? text) := by
  have nothing : fixed.findSome? (match? text) = none :=
    List.findSome?_eq_none_iff.mpr fun rule member => match?_eq_none.mpr (silent rule member)
  rw [first?_eq, nothing, Option.none_or]

theorem silent_of_first? {kind : Kind} (h : first? text = some (kind, n))
    (foreign : kind ∉ fixed.map Rule.kind) :
    Silent text ∧ loose.findSome? (match? text) = some (kind, n) := by
  cases found : fixed.findSome? (match? text) with
  | none =>
    rw [first?_eq, found, Option.none_or] at h
    exact ⟨fun rule member => match?_eq_none.mp (List.findSome?_eq_none_iff.mp found rule member), h⟩
  | some decided =>
    obtain ⟨rule, member, same⟩ := List.exists_of_findSome?_eq_some found
    rw [first?_eq, found, Option.some_or, ← same] at h
    obtain ⟨_, _, equal⟩ := Option.map_eq_some_iff.mp h
    cases equal
    exact absurd (List.mem_map.mpr ⟨rule, member, rfl⟩) foreign

theorem silent_of_opensWith (h : fixed.all (!·.pattern.opensWith c) = true) : Silent (c :: tail) := by
  intro rule member
  exact Pattern.coverage_of_not_opensWith (by simpa using List.all_eq_true.mp h rule member)

def isKeyword (rule : Rule) : Bool :=
  match rule.pattern with
  | .keyword _ => true
  | _ => false

theorem mem_keywords {word : String} :
    word ∈ keywords ↔ ∃ rule ∈ fixed, rule.pattern = .keyword word := by
  constructor
  · intro member
    obtain ⟨rule, inAll, same⟩ := List.mem_filterMap.mp member
    have pattern : rule.pattern = .keyword word := by
      split at same
      · simp_all
      · contradiction
    refine ⟨rule, ?_, pattern⟩
    have split : all = fixed ++ loose := rfl
    rw [split, List.mem_append] at inAll
    rcases inAll with inFixed | inLoose
    · exact inFixed
    · simp only [loose, List.mem_cons, List.not_mem_nil, or_false] at inLoose
      rcases inLoose with rfl | rfl | rfl | rfl | rfl <;> simp at pattern
  · rintro ⟨rule, member, pattern⟩
    exact List.mem_filterMap.mpr ⟨rule, List.mem_of_mem_take member, by simp [pattern]⟩

/-- Of the fixed rules only keywords begin like a word, and none like a number, a string or white
space. -/
def Sorted (c : Char) : Prop :=
  (Text.isWordStart c = true →
    fixed.all (fun rule => rule.isKeyword || !rule.pattern.opensWith c) = true) ∧
  ((c.isDigit || c == '"' || Text.isBlank c) = true →
    fixed.all (!·.pattern.opensWith c) = true)

instance (c : Char) : Decidable (Sorted c) := inferInstanceAs (Decidable (_ ∧ _))

theorem sorted_of_ascii (c : Char) (ascii : c.toNat < 128) : Sorted c :=
  of_ascii (by decide +kernel) c ascii

theorem not_opensWith_of_isWordStart {c : Char} (start : Text.isWordStart c = true) :
    ∀ rule ∈ fixed, rule.isKeyword = false → rule.pattern.opensWith c = false := by
  have checked := (sorted_of_ascii c (Text.ascii_of_isWordStart start)).1 start
  intro rule member other
  simpa [other] using List.all_eq_true.mp checked rule member

/-- A keyword is silent before a word exactly when it is spelled otherwise. -/
theorem coverage_keyword_eq_zero {word : String} (member : word ∈ keywords) {name : List Char}
    (run : name.all Text.isWordChar = true) (delimited : Text.Delimited rest) :
    (Pattern.keyword word).coverage (name ++ rest) = 0 ↔
      Pattern.equalIgnoringCase name word.toList = false := by
  have letters : keywords.all (fun word => word.toList.all Char.isAlpha && 0 < word.length) = true := by
    decide
  have checked := List.all_eq_true.mp letters word member
  simp only [Bool.and_eq_true, decide_eq_true_eq] at checked
  rw [Pattern.coverage_keyword checked.1 run delimited]
  split <;> simp_all [Nat.pos_iff_ne_zero]

/-- A word is read by no fixed rule exactly when it is a name. -/
theorem silent_word {c : Char} (start : Text.isWordStart c = true)
    (run : tail.all Text.isWordChar = true) (delimited : Text.Delimited rest) :
    Silent (c :: tail ++ rest) ↔ isName (String.ofList (c :: tail)) = true := by
  have whole : (c :: tail).all Text.isWordChar = true := by
    simp [(Text.classes_of_isWordStart start).1, run]
  have name : isName (String.ofList (c :: tail)) = true ↔
      ∀ word ∈ keywords, Pattern.equalIgnoringCase (c :: tail) word.toList = false := by
    simp only [isName, String.toList_ofList, start, run, Bool.true_and, List.all_eq_true,
      Bool.not_eq_true']
  rw [name]
  constructor
  · intro silent word member
    obtain ⟨rule, inFixed, pattern⟩ := mem_keywords.mp member
    exact (coverage_keyword_eq_zero member whole delimited).mp (pattern ▸ silent rule inFixed)
  · intro unlike rule member
    cases pattern : rule.pattern with
    | keyword word =>
      have isWord := mem_keywords.mpr ⟨rule, member, pattern⟩
      exact (coverage_keyword_eq_zero isWord whole delimited).mpr (unlike word isWord)
    | _ =>
      rw [← pattern]
      apply Pattern.coverage_of_not_opensWith
      exact not_opensWith_of_isWordStart start rule member (by simp [isKeyword, pattern])

/-- A keyword in front of what does not go on with it. The rules before its own fail on its
letters alone. -/
theorem first?_keyword {kind : Kind} {word : String} (i : Nat)
    (placed : all = all.take i ++ ⟨kind, .keyword word⟩ :: all.drop (i + 1))
    (before : (all.take i).findSome? (match? (word.toList ++ rest)) = none)
    (letters : word.toList.all Char.isAlpha = true) (nonempty : 0 < word.length)
    (delimited : Text.Delimited rest) :
    first? (word.toList ++ rest) = some (kind, word.length) := by
  have run : word.toList.all Text.isWordChar = true := by
    rw [List.all_eq_true] at letters ⊢
    exact fun c member => (Text.classes_of_isAlpha (letters c member)).1
  have covers : (Pattern.keyword word).coverage (word.toList ++ rest) = word.length := by
    rw [Pattern.coverage_keyword letters run delimited]
    simp [Pattern.equalIgnoringCase]
  have whole : first? (word.toList ++ rest) = all.findSome? (match? (word.toList ++ rest)) := rfl
  rw [whole, placed, List.findSome?_append, before, Option.none_or, List.findSome?_cons,
    match?_of_coverage covers nonempty]

/-- A symbol of one character that also begins one of two, in front of what does not go on
with it. -/
theorem first?_symbol {kind : Kind} {word r : String} {c : Char} (i : Nat)
    (placed : all = all.take i ++ ⟨kind, .symbol word⟩ :: all.drop (i + 1))
    (letter : word.toList = [c]) (letters : r.toList = [c, '='])
    (rivals : ∀ rule ∈ all.take i, rule.pattern.opensWith c = true → rule.pattern = .symbol r)
    (apart : ∀ d ∈ rest.head?, d ≠ '=') :
    first? (word.toList ++ rest) = some (kind, word.length) := by
  have size : word.length = 1 := by rw [← String.length_toList, letter]; rfl
  have before : (all.take i).findSome? (match? (c :: rest)) = none := by
    apply List.findSome?_eq_none_iff.mpr
    intro rule member
    rw [match?_eq_none]
    cases opens : rule.pattern.opensWith c with
    | false => exact Pattern.coverage_of_not_opensWith opens
    | true =>
      rw [rivals rule member opens]
      cases rest with
      | nil => simp [Pattern.coverage, letters]
      | cons d rest =>
        have other : '=' ≠ d := (apart d rfl).symm
        simp [Pattern.coverage, letters, other]
  have covers : (Pattern.symbol word).coverage (c :: rest) = 1 := by
    simp [Pattern.coverage, letter, size]
  have whole : first? (c :: rest) = all.findSome? (match? (c :: rest)) := rfl
  rw [letter, List.singleton_append, whole, placed, List.findSome?_append, before, Option.none_or,
    List.findSome?_cons, match?_of_coverage covers (by omega), size]

theorem takeWhile_run {p : Char → Bool} (run : tail.all p = true)
    (ended : ∀ c ∈ rest.head?, p c = false) : (tail ++ rest).takeWhile p = tail := by
  rw [List.takeWhile_append_of_pos (List.all_eq_true.mp run)]
  cases rest with
  | nil => simp
  | cons c _ => simp [ended c rfl]

theorem isName_iff {name : String} : isName name = true ↔ ∃ c tail, name.toList = c :: tail ∧
    Text.isWordStart c = true ∧ tail.all Text.isWordChar = true ∧
    isName (String.ofList (c :: tail)) = true := by
  constructor
  · intro h
    cases letters : name.toList with
    | nil => simp [isName, letters] at h
    | cons c tail =>
      have same : String.ofList (c :: tail) = name := by rw [← letters, String.ofList_toList]
      refine ⟨c, tail, rfl, ?_, ?_, by rw [same]; exact h⟩
      · simp only [isName, letters, Bool.and_eq_true] at h
        exact h.1.1
      · simp only [isName, letters, Bool.and_eq_true] at h
        exact h.1.2
  · rintro ⟨c, tail, letters, _, _, h⟩
    rwa [← letters, String.ofList_toList] at h

theorem coverage_identifier {c : Char} (start : Text.isWordStart c = true)
    (run : tail.all Text.isWordChar = true) (delimited : Text.Delimited rest) :
    Pattern.identifier.coverage (c :: tail ++ rest) = 1 + tail.length := by
  simp only [List.cons_append, Pattern.coverage, start, if_true]
  rw [takeWhile_run run delimited]

theorem first?_name {name : String} (h : isName name = true) (delimited : Text.Delimited rest) :
    first? (name.toList ++ rest) = some (.identifier, name.length) := by
  obtain ⟨c, tail, letters, start, run, same⟩ := isName_iff.mp h
  have size : name.length = 1 + tail.length := by
    rw [← String.length_toList, letters, List.length_cons, Nat.add_comm]
  rw [letters, first?_of_silent ((silent_word start run delimited).mpr same), loose,
    List.findSome?_cons, match?_of_coverage (coverage_identifier start run delimited) (by omega),
    size]

/-- Which pattern has decided, when one after the fixed ones has. -/
theorem coverage_of_loose (rule : Rule) (member : rule ∈ loose)
    (found : loose.findSome? (match? text) = some (rule.kind, n)) :
    rule.pattern.coverage text = n ∧ 0 < n := by
  obtain ⟨other, otherMember, decided⟩ := List.exists_of_findSome?_eq_some found
  obtain ⟨m, covered, equal⟩ := Option.map_eq_some_iff.mp decided
  have same : other = rule := by
    have kinds : other.kind = rule.kind := (Prod.mk.inj equal).1
    have apart : ∀ a ∈ loose, ∀ b ∈ loose, a.kind = b.kind → a = b := by decide
    exact apart other otherMember rule member kinds
  subst same
  cases equal
  refine ⟨?_, Pattern.length?_pos covered⟩
  simp only [Pattern.length?, Option.ite_none_right_eq_some, Option.some.injEq] at covered
  exact covered.2

theorem isName_of_first? (h : first? text = some (.identifier, n)) :
    isName (String.ofList (text.take n)) = true := by
  obtain ⟨silent, found⟩ := silent_of_first? h (by decide)
  obtain ⟨covers, pos⟩ := coverage_of_loose ⟨.identifier, .identifier⟩ (by decide) found
  cases text with
  | nil => simp [Pattern.coverage] at covers; omega
  | cons c rest =>
    by_cases start : Text.isWordStart c = true
    · have run : (rest.takeWhile Text.isWordChar).all Text.isWordChar = true := by simp
      have delimited : Text.Delimited (rest.dropWhile Text.isWordChar) := by
        intro d found
        have stopped := List.head?_dropWhile_not Text.isWordChar rest
        rw [found] at stopped
        simpa using stopped
      have split : c :: rest =
          c :: rest.takeWhile Text.isWordChar ++ rest.dropWhile Text.isWordChar := by simp
      have size := coverage_identifier start run delimited
      rw [← split, covers] at size
      rw [split] at silent ⊢
      rw [size, Nat.add_comm, ← List.length_cons, List.take_left]
      exact (silent_word start run delimited).mp silent
    · simp [Pattern.coverage, start] at covers
      omega

/-- A text that begins like no fixed rule and no word is left to the last rules. -/
theorem first?_of_foreign {c : Char} (foreign : fixed.all (!·.pattern.opensWith c) = true)
    (start : Text.isWordStart c = false) :
    first? (c :: tail) = (loose.drop 1).findSome? (match? (c :: tail)) := by
  have unmatched : match? (c :: tail) ⟨.identifier, .identifier⟩ = none :=
    match?_eq_none.mpr (by simp [Pattern.coverage, start])
  rw [first?_of_silent (silent_of_opensWith foreign), loose, List.findSome?_cons, unmatched]
  rfl

theorem first?_number {digits : List Char} (nonempty : digits ≠ [])
    (run : digits.all Char.isDigit = true) (ended : ∀ c ∈ rest.head?, c.isDigit = false) :
    first? (digits ++ rest) = some (.number, digits.length) := by
  cases digits with
  | nil => contradiction
  | cons c digits =>
    have digit : c.isDigit = true := by simp at run; exact run.1
    have foreign := (sorted_of_ascii c (Text.ascii_of_isDigit digit)).2 (by simp [digit])
    have covers : Pattern.number.coverage (c :: digits ++ rest) = (c :: digits).length := by
      simp only [Pattern.coverage]
      rw [takeWhile_run run ended]
    rw [List.cons_append, first?_of_foreign foreign (Text.classes_of_isDigit digit).2.2, loose,
      List.drop_one, List.tail_cons, List.findSome?_cons, match?_of_coverage covers (by simp)]

theorem digits_of_first? (h : first? text = some (.number, n)) :
    (text.take n).all Char.isDigit = true := by
  obtain ⟨_, found⟩ := silent_of_first? h (by decide)
  obtain ⟨covers, _⟩ := coverage_of_loose ⟨.number, .number⟩ (by decide) found
  have taken : text.take n = text.takeWhile Char.isDigit := by
    rw [← covers]
    exact List.prefix_iff_eq_take.mp (List.takeWhile_prefix _) |>.symm
  rw [taken]
  exact List.all_takeWhile

theorem first?_string {body : List Char} (plain : body.all (· ≠ '"') = true) :
    first? ('"' :: body ++ '"' :: rest) = some (.string, body.length + 2) := by
  have body_eq : (body ++ '"' :: rest).takeWhile (· ≠ '"') = body :=
    takeWhile_run plain (by simp)
  have covers : Pattern.string.coverage ('"' :: (body ++ '"' :: rest)) = body.length + 2 := by
    simp only [Pattern.coverage, body_eq, List.drop_left]
    rfl
  have digits : match? ('"' :: (body ++ '"' :: rest)) ⟨.number, .number⟩ = none :=
    match?_eq_none.mpr rfl
  rw [List.cons_append, first?_of_foreign ((sorted_of_ascii '"' (by decide)).2 (by decide)) (by decide), loose, List.drop_one,
    List.tail_cons, List.findSome?_cons, digits, List.findSome?_cons,
    match?_of_coverage covers (by omega)]

theorem first?_blank {c d : Char} (member : c ∈ [' ', '\n']) (visible : Text.isBlank d = false) :
    first? (c :: d :: rest) = some (.blank, 1) := by
  obtain ⟨ascii, start, notDigit, notQuote, isBlank⟩ : c.toNat < 128 ∧ Text.isWordStart c = false ∧
      c.isDigit = false ∧ c ≠ '"' ∧ Text.isBlank c = true := by
    simp only [List.mem_cons, List.not_mem_nil, or_false] at member
    rcases member with rfl | rfl <;> decide
  have foreign := (sorted_of_ascii c ascii).2 (by simp [isBlank])
  have digits : match? (c :: d :: rest) ⟨.number, .number⟩ = none :=
    match?_eq_none.mpr (by simp [Pattern.coverage, notDigit])
  have quotes : match? (c :: d :: rest) ⟨.string, .string⟩ = none := by
    apply match?_eq_none.mpr
    simp only [Pattern.coverage]
    split <;> simp_all
  have covers : Pattern.blank.coverage (c :: d :: rest) = 1 := by
    simp [Pattern.coverage, isBlank, visible]
  rw [first?_of_foreign foreign start, loose, List.drop_one, List.tail_cons, List.findSome?_cons,
    digits, List.findSome?_cons, quotes, List.findSome?_cons, match?_of_coverage covers (by omega)]

end Rule

end Token

namespace Integer

theorem isDigit_toDigits (n : Nat) : (Nat.toDigits 10 n).all Char.isDigit = true :=
  List.all_eq_true.mpr fun _ member => Nat.isDigit_of_mem_toDigits (by omega) (by omega) member

/-- Digits have no sign to take off. -/
theorem decimal?_eq_digits? {digits : List Char} (all : digits.all Char.isDigit = true) :
    decimal? digits = (digits? digits).map fun n : Nat => (n : Int) := by
  unfold decimal?
  split
  · simp [Char.isDigit] at all
  · simp [Char.isDigit] at all
  · cases digits? digits <;> rfl

theorem decimal?_toDigits (n : Nat) : decimal? (Nat.toDigits 10 n) = some (n : Int) := by
  have all := isDigit_toDigits n
  have value : digitsValue (Nat.toDigits 10 n) = n :=
    Nat.ofDigitChars_toDigits (by omega) (by omega)
  have number : digits? (Nat.toDigits 10 n) = some n := by simp [digits?, all, value]
  rw [decimal?_eq_digits? all, number, Option.map_some]

theorem text_toList {value : Integer} {n : Nat} (equal : value.toInt = n) :
    value.text.toList = Nat.toDigits 10 n := by
  simp only [text, equal, Int.toString_eq_repr]
  exact Nat.toList_repr

/-- Integers from zero on are read back from their decimal digits. -/
theorem parse?_text {value : Integer} (nonneg : 0 ≤ value.toInt) :
    parse? value.text = some value := by
  obtain ⟨n, equal⟩ := Int.eq_ofNat_of_zero_le nonneg
  have fits : Fits (n : Int) := by
    have low := Int64.le_toInt value
    have high := Int64.toInt_lt value
    unfold Fits
    omega
  have same : Int64.ofInt (n : Int) = value := by rw [← equal, Int64.ofInt_toInt]
  rw [parse?, text_toList equal, decimal?_toDigits, Option.bind_some, ofInt?, if_pos fits, same]

/-- A number without a sign is no less than zero. -/
theorem nonneg_of_parse? {digits : List Char} {value : Integer}
    (all : digits.all Char.isDigit = true)
    (h : parse? (String.ofList digits) = some value) : 0 ≤ value.toInt := by
  have natural : ∀ n, decimal? digits = some n → 0 ≤ n := by
    intro n decimal
    rw [decimal?_eq_digits? all] at decimal
    obtain ⟨m, -, rfl⟩ := Option.map_eq_some_iff.mp decimal
    exact Int.natCast_nonneg m
  rw [parse?, String.toList_ofList] at h
  obtain ⟨n, decimal, kept⟩ := Option.bind_eq_some_iff.mp h
  have nonneg := natural n decimal
  unfold ofInt? at kept
  split at kept
  case isTrue fits =>
    cases kept
    rw [Int64.toInt_ofInt_of_le (by have := fits.1; omega) (by have := fits.2; omega)]
    exact nonneg
  case isFalse => contradiction

end Integer

end SoftScript
