import Mathlib.Data.Nat.Digits.Defs
import SoftScript.Proofs.Grammar.Trees
import SoftScript.Proofs.Run.Arithmetic
import SoftScript.Proofs.Scanning.Spaced

/-! What the literals of tokens denote. A number denotes its decimal value if 64 bits hold it and nothing
otherwise, and then it is refused where an expression is read; a string denotes what is between its
quotes. Constants are read back from their texts, each as one token. -/
namespace SoftScript

open Parse

namespace Integer

/-- The value of decimal digits, the last of which counts ones. -/
def decimalValue (digits : List Char) : Nat :=
  Nat.ofDigits 10 (digits.reverse.map fun c => c.toNat - '0'.toNat)

theorem digitsValue_eq (digits : List Char) : digitsValue digits = decimalValue digits := by
  induction digits using List.reverseRecOn with
  | nil => rfl
  | append_singleton digits digit ih =>
    calc digitsValue (digits ++ [digit])
      _ = 10 * digitsValue digits + (digit.toNat - '0'.toNat) := by
        simp [digitsValue, List.foldl_append]
      _ = (digit.toNat - '0'.toNat) + 10 * decimalValue digits := by rw [ih, Nat.add_comm]
      _ = decimalValue (digits ++ [digit]) := by
        simp [decimalValue, Nat.ofDigits_cons]

theorem decimal?_of_isDigit {digits : List Char} (some_ : digits ≠ [])
    (all : digits.all Char.isDigit = true) :
    decimal? digits = some (decimalValue digits : Int) := by
  have unsigned : digits? digits = some (decimalValue digits) := by
    simp [digits?, some_, all, digitsValue_eq]
  rw [decimal?_eq_digits? all, unsigned, Option.map_some]

theorem parse?_of_isDigit {text : String} (some_ : text ≠ "")
    (all : text.toList.all Char.isDigit = true) :
    parse? text = ofInt? (decimalValue text.toList) := by
  have nonempty : text.toList ≠ [] := fun none => some_ (String.toList_eq_nil_iff.mp none)
  rw [parse?, decimal?_of_isDigit nonempty all, Option.bind_some]

end Integer

namespace Token

variable {t : Token}

/-- Numbers are digits and denote their value if it fits. -/
theorem IsRead.number (read : t.IsRead) (kind : t.kind = .number) : t.lexeme ≠ "" ∧
    t.lexeme.toList.all Char.isDigit = true ∧
    t.literal = (Integer.ofInt? (Integer.decimalValue t.lexeme.toList)).map .int := by
  obtain ⟨text, n, first, lexeme, literal⟩ := read
  rw [kind] at first literal
  have digits : t.lexeme.toList.all Char.isDigit = true := lexeme ▸ Rule.digits_of_first? first
  have some_ : t.lexeme ≠ "" := by
    intro none
    have size : (text.take n).length = n := List.length_take_of_le (Rule.first?_le first)
    rw [← lexeme, none] at size
    exact absurd (Rule.first?_pos first) (by simp [← size])
  refine ⟨some_, digits, ?_⟩
  rw [literal, Literal.decode?, Integer.parse?_of_isDigit some_ digits]

theorem IsRead.literal_of_lt (read : t.IsRead) (kind : t.kind = .number)
    (small : Integer.decimalValue t.lexeme.toList < 2 ^ 63) : ∃ value : Integer,
      value.toInt = Integer.decimalValue t.lexeme.toList ∧ t.literal = some (.int value) := by
  obtain ⟨_, _, literal⟩ := read.number kind
  have fits : Integer.Fits (Integer.decimalValue t.lexeme.toList) := by
    unfold Integer.Fits
    omega
  refine ⟨_, Int64.toInt_ofInt_of_le fits.1 fits.2, ?_⟩
  rw [literal, Integer.ofInt?, if_pos fits, Option.map_some]

theorem IsRead.literal_of_le (read : t.IsRead) (kind : t.kind = .number)
    (large : 2 ^ 63 ≤ Integer.decimalValue t.lexeme.toList) : t.literal = none := by
  obtain ⟨_, _, literal⟩ := read.number kind
  have outside : ¬Integer.Fits (Integer.decimalValue t.lexeme.toList) := by
    unfold Integer.Fits
    omega
  rw [literal, Integer.ofInt?, if_neg outside, Option.map_none]

/-- Strings denote what is between their quotes. -/
theorem IsRead.string (read : t.IsRead) (kind : t.kind = .string) : ∃ body : String,
    '"' ∉ body.toList ∧ t.lexeme = "\"" ++ body ++ "\"" ∧ t.literal = some (.string body) := by
  obtain ⟨text, n, first, lexeme, literal⟩ := read
  rw [kind] at first literal
  obtain ⟨body, plain, _, taken⟩ := Rule.string_of_first? first
  have quoted : t.lexeme = "\"" ++ String.ofList body ++ "\"" := by
    rw [← String.toList_inj, lexeme, taken]
    simp
  have free : '"' ∉ (String.ofList body).toList := by
    rw [String.toList_ofList]
    intro member
    simpa using List.all_eq_true.mp plain _ member
  have bare : (String.ofList body).toList.all (· ≠ '"') = true := by rwa [String.toList_ofList]
  refine ⟨String.ofList body, free, quoted, ?_⟩
  rw [literal, Literal.decode?, quoted, withoutQuotes_quoted bare]

end Token

namespace Scan

/-- A text that a rule reads as a whole is one token. -/
theorem tokens_of_whole {text : String} {kind : Token.Kind}
    (visible : Text.allBlank text.toList = false)
    (first : Token.Rule.first? text.toList = some (kind, text.toList.length)) :
    ∃ t last, Token.tokenize text = [t, last] ∧ t.kind = kind ∧
      t.literal = Token.Literal.decode? kind text ∧ last.kind = .eof := by
  have read := tokens_of_first? (s := .ofText text) rfl visible first
  have rest : ((ofText text).take kind text.toList.length).2.rest = [] := List.drop_length
  have ended := tokens_of_blank (s := ((ofText text).take kind text.toList.length).2) rfl
    (by rw [rest]; rfl)
  rw [ended] at read
  refine ⟨_, _, read, rfl, ?_, rfl⟩
  have whole : ((ofText text).take kind text.toList.length).1.lexeme = text := by
    rw [← String.toList_inj, lexeme_take]
    exact List.take_length
  calc _ = Token.Literal.decode? kind
        ((ofText text).take kind text.toList.length).1.lexeme := rfl
    _ = Token.Literal.decode? kind text := by rw [whole]

end Scan

theorem tokenize_int {value : Integer} (nonneg : 0 ≤ value.toInt) :
    ∃ t last, Token.tokenize (Constant.int value).canonical = [t, last] ∧ t.kind = .number ∧
      t.literal = some (.int value) ∧ last.kind = .eof := by
  obtain ⟨n, equal⟩ := Int.eq_ofNat_of_zero_le nonneg
  have digits : value.text.toList = Nat.toDigits 10 n := Integer.text_toList equal
  have run : value.text.toList.all Char.isDigit = true := digits ▸ Integer.isDigit_toDigits n
  have some_ : value.text.toList ≠ [] := digits ▸ Nat.toDigits_ne_nil
  have first : Token.Rule.first? (value.text.toList ++ []) = some (.number, _) :=
    Token.Rule.first?_number some_ run (by simp)
  rw [List.append_nil] at first
  have visible : Text.allBlank value.text.toList = false := by
    obtain ⟨c, tail, begun⟩ := List.exists_cons_of_ne_nil some_
    rw [begun] at run ⊢
    have digit : c.isDigit = true := by simp at run; exact run.1
    simp [Text.allBlank, (Text.classes_of_isDigit digit).2.1]
  obtain ⟨t, last, read, kind, literal, ended⟩ := Scan.tokens_of_whole visible first
  refine ⟨t, last, read, kind, ?_, ended⟩
  rw [literal, Token.Literal.decode?, Integer.parse?_text nonneg, Option.map_some]

theorem tokenize_string {body : String} (plain : '"' ∉ body.toList) :
    ∃ t last, Token.tokenize (Constant.string body).canonical = [t, last] ∧ t.kind = .string ∧
      t.literal = some (.string body) ∧ last.kind = .eof := by
  have letters : ("\"" ++ body ++ "\"").toList = '"' :: body.toList ++ ['"'] := by simp
  have free : body.toList.all (· ≠ '"') = true := by
    apply List.all_eq_true.mpr
    intro c member
    exact decide_eq_true fun quote => plain (quote ▸ member)
  have first : Token.Rule.first? ("\"" ++ body ++ "\"").toList =
      some (.string, ("\"" ++ body ++ "\"").toList.length) := by
    rw [letters, Token.Rule.first?_string free]
    simp
  have visible : Text.allBlank ("\"" ++ body ++ "\"").toList = false := by
    rw [letters]
    rfl
  obtain ⟨t, last, read, kind, literal, ended⟩ := Scan.tokens_of_whole visible first
  refine ⟨t, last, read, kind, ?_, ended⟩
  rw [literal, Token.Literal.decode?, Token.withoutQuotes_quoted free]

namespace Parse

variable {expression : Parser Expr} {line : Parser Stmt} {c : Cursor}

/-- Where an expression is read, a number is passed or refused. -/
theorem primary_number (kind : c.current.kind = .number) (n : Nat) :
    primary expression line n c =
      match c.current.literal with
      | some (.int value) => .ok (.literal (.int value) c.current) c.advance
      | _ => .error (.refused ⟨.integerOutOfRange, c.current⟩) c := by
  have unended : c.atEnd = false := atEnd_of_kind kind (by simp)
  have passed (value : Constant) : literal value c = .ok (.literal value c.current) c.advance := by
    rw [← Cursor.previous_advance_of_unended unended]
    rfl
  have seen : Parser.current c = .ok c.current c := rfl
  rw [primary, Parser.bind_apply, seen]
  simp only [kind]
  cases c.current.literal with
  | none => rfl
  | some decoded =>
    cases decoded with
    | int value => exact passed _
    | string body => rfl

/-- A production that begins with another token refuses no number there. -/
theorem number_of_primary_refused {n : Nat} {c' : Cursor}
    (refused : primary (Parse.expression n .lowest) (Parse.line n) n c =
      .error (.refused ⟨.integerOutOfRange, c.current⟩) c') : c.current.kind = .number := by
  have builds := buildsAt n
  have ended := builds_primary (builds.expression c.inFunction .lowest) builds.line n rfl
  rw [refused] at ended
  exact ended.2.number rfl

end Parse

/-- Literals are decoded exactly. The lexeme of a number is made up of digits; the number denotes their
decimal value if it is below `2 ^ 63` and nothing otherwise, and just then it is refused where an
expression is read. The lexeme of a string is a quote, a body without quotes and a quote, and the string
denotes the body. No other token has a literal. Conversely the text of an integer from zero on, and
that of a string without quotes, is read as one token before the end, which denotes it. -/
theorem literals_exact :
    (∀ source, ∀ t ∈ Token.tokenize source,
      (t.kind = .number → t.lexeme ≠ "" ∧ t.lexeme.toList.all Char.isDigit = true) ∧
      (t.kind = .number → Integer.decimalValue t.lexeme.toList < 2 ^ 63 →
        ∃ value : Integer, value.toInt = Integer.decimalValue t.lexeme.toList ∧
          t.literal = some (.int value) ∧ ∀ expression line n c, c.current = t →
            primary expression line n c = .ok (.literal (.int value) t) c.advance) ∧
      (t.kind = .number → 2 ^ 63 ≤ Integer.decimalValue t.lexeme.toList →
        t.literal = none ∧ ∀ expression line n c, c.current = t →
          primary expression line n c = .error (.refused ⟨.integerOutOfRange, t⟩) c) ∧
      (∀ n c c', c.current = t →
        primary (expression n .lowest) (line n) n c =
          .error (.refused ⟨.integerOutOfRange, t⟩) c' →
        t.kind = .number ∧ 2 ^ 63 ≤ Integer.decimalValue t.lexeme.toList) ∧
      (t.kind = .string → ∃ body : String, '"' ∉ body.toList ∧ t.lexeme = "\"" ++ body ++ "\"" ∧
        t.literal = some (.string body)) ∧
      (t.kind ≠ .number → t.kind ≠ .string → t.literal = none)) ∧
    (∀ value : Integer, 0 ≤ value.toInt → ∃ t last,
      Token.tokenize (Constant.int value).canonical = [t, last] ∧ t.kind = .number ∧
        t.literal = some (.int value) ∧ last.kind = .eof) ∧
    ∀ body : String, '"' ∉ body.toList → ∃ t last,
      Token.tokenize (Constant.string body).canonical = [t, last] ∧ t.kind = .string ∧
        t.literal = some (.string body) ∧ last.kind = .eof := by
  refine ⟨?_, fun value nonneg => tokenize_int nonneg, fun body plain => tokenize_string plain⟩
  intro source t member
  have read {kind : Token.Kind} (known : t.kind = kind) (other : kind ≠ .eof) : t.IsRead :=
    Scan.isRead_of_mem_tokens _ t member (known ▸ other)
  have small (kind : t.kind = .number)
      (below : Integer.decimalValue t.lexeme.toList < 2 ^ 63) : ∃ value : Integer,
        value.toInt = Integer.decimalValue t.lexeme.toList ∧ t.literal = some (.int value) ∧
          ∀ expression line n c, c.current = t →
            primary expression line n c = .ok (.literal (.int value) t) c.advance := by
    obtain ⟨value, equal, literal⟩ := (read kind (by simp)).literal_of_lt kind below
    refine ⟨value, equal, literal, ?_⟩
    rintro expression line n c rfl
    rw [primary_number kind, literal]
  refine ⟨fun kind => ?_, small, fun kind large => ?_, ?_, fun kind => ?_, ?_⟩
  · obtain ⟨some_, digits, _⟩ := (read kind (by simp)).number kind
    exact ⟨some_, digits⟩
  · have literal := (read kind (by simp)).literal_of_le kind large
    refine ⟨literal, ?_⟩
    rintro expression line n c rfl
    rw [primary_number kind, literal]
  · rintro n c c' rfl refused
    have kind := number_of_primary_refused refused
    refine ⟨kind, Nat.le_of_not_lt fun below => ?_⟩
    obtain ⟨value, _, _, passed⟩ := small kind below
    rw [passed _ _ n c rfl] at refused
    cases refused
  · exact (read kind (by simp)).string kind
  · intro notNumber notString
    rw [literal_of_mem_tokens _ t member]
    cases kind : t.kind <;> first | rfl | contradiction

/-- Zeros in front, a number one too large, and a string over two lines. -/
def numbered : String := "007 9223372036854775808 \"é\n\""

theorem literals_exact_numbered :
    (Token.tokenize numbered).map (fun t => (t.kind, t.literal)) =
      [(.number, some (.int 7)), (.blank, none), (.number, none), (.blank, none),
        (.string, some (.string "é\n")), (.eof, none)] ∧
    (∀ t ∈ Token.tokenize numbered, t.kind = .number →
      2 ^ 63 ≤ Integer.decimalValue t.lexeme.toList → t.literal = none) ∧
    ∃ t last, Token.tokenize (Constant.int 9223372036854775807).canonical = [t, last] ∧
      t.literal = some (.int 9223372036854775807) := by
  obtain ⟨decoded, integers, _⟩ := literals_exact
  obtain ⟨t, last, read, _, literal, _⟩ := integers 9223372036854775807 (by decide)
  refine ⟨by decide +kernel, fun t member kind large => ?_, t, last, read, literal⟩
  obtain ⟨_, _, refused, _⟩ := decoded numbered t member
  exact (refused kind large).1

end SoftScript
