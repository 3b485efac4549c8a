import Mathlib.Data.List.Forall2
import SoftScript.Proofs.Printing.Spelling

/-! The canonical text of a tree is read back as the tree's words, with a grouping around every
operator application. A tree's text never ends in the middle of a word that could go on, so the
text of one part is read the same in front of every other. -/
namespace SoftScript

open Token (Kind)

/-- A text begins with something that neither is blank nor makes a longer symbol of a sign. -/
def Text.Opens (text : List Char) : Prop :=
  ∃ c tail, text = c :: tail ∧ isBlank c = false ∧ c ≠ '='

/-- A text is read as these words wherever no word goes on behind it. -/
structure Spells (text : List Char) (ws : List Word) : Prop where
  opens : Text.Opens text
  scans : ∀ rest, Text.Delimited rest → Scans (text ++ rest) ws rest

variable {text rest : List Char} {ws : List Word}

theorem Text.Opens.visible (h : Text.Opens text) : Text.Visible text := by
  obtain ⟨c, tail, rfl, visible, _⟩ := h
  exact ⟨c, tail, rfl, visible⟩

theorem Text.Opens.append (h : Text.Opens text) : Text.Opens (text ++ rest) := by
  obtain ⟨c, tail, rfl, facts⟩ := h
  exact ⟨c, tail ++ rest, rfl, facts⟩

theorem Spells.visible (h : Spells text ws) : Text.Visible (text ++ rest) := h.opens.append.visible

theorem Text.delimited_cons {c : Char} (h : isWordChar c = false) : Delimited (c :: rest) := by
  rintro _ ⟨rfl⟩
  exact h

/-- Parts of a text one after another. -/
theorem Scans.cast (h : Scans text ws rest) (same : ws = ws') : Scans text ws' rest := same ▸ h

/-! The fixed pieces between the parts. -/

namespace Scans

theorem comma (visible : Text.Visible rest) : Scans (", ".toList ++ rest) [.mark .comma] rest :=
  (mark (k := .comma) (by decide)).trans (space (by decide) visible)

theorem equals (visible : Text.Visible rest) : Scans (" = ".toList ++ rest) [.mark .equal] rest :=
  (space (by decide) ⟨'=', _, rfl, rfl⟩).trans
    (equal.trans (space (by decide) visible))

theorem opening (visible : Text.Visible rest) :
    Scans ("\x7b ".toList ++ rest) [.mark .leftBrace] rest :=
  (mark (k := .leftBrace) (by decide)).trans (space (by decide) visible)

theorem closing : Scans (" \x7d".toList ++ rest) [.mark .rightBrace] rest :=
  (space (by decide) ⟨'\x7d', _, rfl, rfl⟩).trans (mark (k := .rightBrace) (by decide))

theorem noMembers :
    Scans ("\x7b\x7d".toList ++ rest) [.mark .leftBrace, .mark .rightBrace] rest :=
  (mark (k := .leftBrace) (by decide)).trans (mark (k := .rightBrace) (by decide))

theorem noLines : Scans ("\x7b \x7d".toList ++ rest) [.mark .leftBrace, .mark .rightBrace] rest :=
  (mark (k := .leftBrace) (by decide)).trans closing

theorem closed (visible : Text.Visible rest) :
    Scans (") ".toList ++ rest) [.mark .rightParen] rest :=
  (mark (k := .rightParen) (by decide)).trans (space (by decide) visible)

/-- A keyword and a blank. -/
theorem word {k : Kind} (member : k ∈ [.funWord, .returnWord, .varWord])
    (visible : Text.Visible rest) :
    Scans ((k.spelling ++ " ").toList ++ rest) [.mark k] rest := by
  rw [String.toList_append, List.append_assoc]
  have listed : k ∈ [.ifWord, .elseWord, .funWord, .returnWord, .whileWord, .varWord] := by
    revert member
    cases k <;> decide
  exact (keyword listed (Text.delimited_cons rfl)).trans (space (by decide) visible)

/-- A keyword in front of a condition. -/
theorem condition {k : Kind} (member : k ∈ [.ifWord, .whileWord]) :
    Scans ((k.spelling ++ " (").toList ++ rest) [.mark k, .mark .leftParen] rest := by
  rw [String.toList_append, List.append_assoc]
  have listed : k ∈ [.ifWord, .elseWord, .funWord, .returnWord, .whileWord, .varWord] := by
    revert member
    cases k <;> decide
  exact (keyword listed (Text.delimited_cons rfl)).trans
    ((space (by decide) ⟨'(', _, rfl, rfl⟩).trans (mark (k := .leftParen) (by decide)))

theorem otherwise (visible : Text.Visible rest) :
    Scans (" else ".toList ++ rest) [.mark .elseWord] rest :=
  (space (by decide) ⟨'e', _, rfl, rfl⟩).trans
    ((keyword (k := .elseWord) (by decide) (Text.delimited_cons rfl)).trans
      (space (by decide) visible))

theorem nothing : Scans ("return;".toList ++ rest) [.mark .returnWord, .mark .semicolon] rest :=
  (keyword (k := .returnWord) (by decide) (Text.delimited_cons rfl)).trans
    (mark (k := .semicolon) (by decide))

end Scans

/-- Items with the same separator between them. -/
theorem Scans.joined (separator : List Char) (between : List Word) {texts : List (List Char)}
    (step : ∀ rest, Text.Visible rest → Scans (separator ++ rest) between rest)
    (delimits : ∀ rest, Text.Delimited (separator ++ rest)) (all : List.Forall₂ Spells texts wss)
    (delimited : Text.Delimited rest) :
    Scans (separator.intercalate texts ++ rest) (between.intercalate wss) rest := by
  induction all with
  | nil => exact refl
  | @cons t ws texts wss first others ih =>
    cases others with
    | nil => simpa using first.scans rest delimited
    | @cons u vs texts wss second others =>
      have visible : Text.Visible (separator.intercalate (u :: texts) ++ rest) := by
        cases texts with
        | nil => simpa using second.visible
        | cons => simpa using second.visible
      simp only [List.intercalate_cons_cons, List.append_assoc] at ih ⊢
      exact (first.scans _ (delimits _)).trans ((step _ visible).trans ih)

/-! Expressions. -/

def Expr.Spelled (e : Expr) : Prop := Spells e.canonical.toList e.grouped.words

def Expr.AllSpelled (es : List Expr) : Prop :=
  List.Forall₂ Spells ((Expr.canonicals es).map String.toList)
    (Expr.wordLists (Expr.groupeds es))

namespace Expr

theorem Spelled.assign (ht : target.Spelled) (hv : value.Spelled) : (assign target value).Spelled := by
  refine ⟨?_, fun rest delimited => ?_⟩
  · simpa only [canonical, String.toList_append, List.append_assoc] using ht.opens.append
  · simp only [canonical, String.toList_append, List.append_assoc]
    apply Scans.cast
    · exact (ht.scans _ (Text.delimited_cons rfl)).trans
        ((Scans.equals hv.visible).trans (hv.scans rest delimited))
    · simp [rebuilt, parenthesized, words]

theorem visible_operator (member : op ∈ Token.binaryOperators) :
    Text.Visible (op.spelling.toList ++ rest) := by
  have checked : ∀ op ∈ Token.binaryOperators, op.spelling.toList.head?.any (!Text.isBlank ·) = true := by
    decide
  have first := checked op member
  cases letters : op.spelling.toList with
  | nil => simp [letters] at first
  | cons c tail => exact ⟨c, _, rfl, by simpa [letters] using first⟩

theorem Spelled.binary (hl : left.Spelled) (member : op.kind ∈ Token.binaryOperators)
    (hr : right.Spelled) : (binary left op right).Spelled := by
  constructor
  · simp only [canonical, String.toList_append, List.append_assoc]
    exact ⟨'(', _, rfl, by decide, by decide⟩
  · intro rest delimited
    simp only [canonical, String.toList_append, List.append_assoc]
    apply Scans.cast
    · exact (Scans.mark (k := .leftParen) (by decide)).trans <|
        (hl.scans _ (Text.delimited_cons rfl)).trans <|
        (Scans.space (by decide) (visible_operator member)).trans <|
        (Scans.operator member).trans <|
        (Scans.space (by decide) hr.visible).trans <|
        (hr.scans _ (Text.delimited_cons rfl)).trans (Scans.mark (k := .rightParen) (by decide))
    · simp [rebuilt, parenthesized, words]

theorem Spelled.index (hl : left.Spelled) (hp : position.Spelled) :
    (index left bracket position).Spelled := by
  constructor
  · simp only [canonical, String.toList_append, List.append_assoc]
    exact hl.opens.append
  · intro rest delimited
    simp only [canonical, String.toList_append, List.append_assoc]
    apply Scans.cast
    · exact (hl.scans _ (Text.delimited_cons rfl)).trans <|
        (Scans.mark (k := .leftSquare) (by decide)).trans <|
        (hp.scans _ (Text.delimited_cons rfl)).trans (Scans.mark (k := .rightSquare) (by decide))
    · simp [rebuilt, parenthesized, words]

theorem Spelled.access (hl : left.Spelled) (isName : Token.isName member.lexeme = true) :
    (access left dot member).Spelled := by
  constructor
  · simp only [canonical, String.toList_append, List.append_assoc]
    exact hl.opens.append
  · intro rest delimited
    simp only [canonical, String.toList_append, List.append_assoc]
    apply Scans.cast
    · exact (hl.scans _ (Text.delimited_cons rfl)).trans <|
        (Scans.mark (k := .dot) (by decide)).trans (Scans.name isName delimited)
    · simp [rebuilt, parenthesized, words]

theorem AllSpelled.scans (h : AllSpelled es) (delimited : Text.Delimited rest) :
    Scans ((", ".intercalate (canonicals es)).toList ++ rest)
      (Word.listed (wordLists (groupeds es))) rest := by
  rw [String.toList_intercalate]
  exact Scans.joined _ _ (fun _ => Scans.comma) (fun _ => Text.delimited_cons rfl) h delimited

theorem Spelled.call (hc : callee.Spelled) (ha : AllSpelled args) :
    (call callee paren args).Spelled := by
  constructor
  · simp only [canonical, String.toList_append, List.append_assoc]
    exact hc.opens.append
  · intro rest delimited
    simp only [canonical, String.toList_append, List.append_assoc]
    apply Scans.cast
    · exact (hc.scans _ (Text.delimited_cons rfl)).trans <|
        (Scans.mark (k := .leftParen) (by decide)).trans <|
        (ha.scans (Text.delimited_cons rfl)).trans (Scans.mark (k := .rightParen) (by decide))
    · simp [rebuilt, parenthesized, words]

theorem Spelled.grouping {inner : Expr} (hi : inner.Spelled) : (grouping inner).Spelled := by
  constructor
  · simp only [canonical, String.toList_append, List.append_assoc]
    exact ⟨'(', _, rfl, by decide, by decide⟩
  · intro rest delimited
    simp only [canonical, String.toList_append, List.append_assoc]
    apply Scans.cast
    · exact (Scans.mark (k := .leftParen) (by decide)).trans <|
        (hi.scans _ (Text.delimited_cons rfl)).trans (Scans.mark (k := .rightParen) (by decide))
    · simp [rebuilt, parenthesized, words]

theorem opens_constant {value : Constant} (writable : value.isWritable = true) :
    Text.Opens value.canonical.toList := by
  cases value with
  | null => exact ⟨'n', _, rfl, by decide, by decide⟩
  | bool value => cases value <;> exact ⟨_, _, rfl, by decide, by decide⟩
  | string value =>
    simp only [Constant.canonical, String.toList_append, List.append_assoc]
    exact ⟨'"', _, rfl, by decide, by decide⟩
  | int value =>
    obtain ⟨n, equal⟩ := Int.eq_ofNat_of_zero_le (a := value.toInt)
      (by simpa [Constant.isWritable] using writable)
    have run := Integer.isDigit_toDigits n
    simp only [Constant.canonical, Integer.text_toList equal]
    cases split : Nat.toDigits 10 n with
    | nil => exact absurd split Nat.toDigits_ne_nil
    | cons c tail =>
      have digit : c.isDigit = true := by simp [split] at run; exact run.1
      refine ⟨c, tail, rfl, (Text.classes_of_isDigit digit).2.1, ?_⟩
      rintro rfl
      exact absurd digit (by decide)

theorem Spelled.literal {t : Token} (writable : value.isWritable = true) :
    (literal value t).Spelled :=
  ⟨opens_constant writable, fun _ delimited => Scans.constant writable delimited⟩

theorem Spelled.list (he : AllSpelled elements) : (list bracket elements).Spelled := by
  constructor
  · simp only [canonical, String.toList_append, List.append_assoc]
    exact ⟨'[', _, rfl, by decide, by decide⟩
  · intro rest delimited
    simp only [canonical, String.toList_append, List.append_assoc]
    apply Scans.cast
    · exact (Scans.mark (k := .leftSquare) (by decide)).trans <|
        (he.scans (Text.delimited_cons rfl)).trans (Scans.mark (k := .rightSquare) (by decide))
    · simp [rebuilt, parenthesized, words]

theorem Spelled.unary (member : op.kind ∈ Token.unaryOperators) (ho : operand.Spelled) :
    (unary op operand).Spelled := by
  constructor
  · simp only [canonical, String.toList_append, List.append_assoc]
    exact ⟨'(', _, rfl, by decide, by decide⟩
  · intro rest delimited
    have apart : ∀ c ∈ (operand.canonical.toList ++ (")".toList ++ rest)).head?, c ≠ '=' := by
      obtain ⟨c, tail, opens, _, other⟩ := ho.opens
      rw [opens]
      rintro _ ⟨rfl⟩
      exact other
    simp only [canonical, String.toList_append, List.append_assoc]
    apply Scans.cast
    · exact (Scans.mark (k := .leftParen) (by decide)).trans <|
        (Scans.sign member apart).trans <|
        (ho.scans _ (Text.delimited_cons rfl)).trans (Scans.mark (k := .rightParen) (by decide))
    · simp [rebuilt, parenthesized, words]

theorem opens_name {text : String} (isName : Token.isName text = true) : Text.Opens text.toList := by
  obtain ⟨c, tail, letters, start, _⟩ := Token.Rule.isName_iff.mp isName
  refine ⟨c, tail, letters, (Text.classes_of_isWordStart start).2, ?_⟩
  rintro rfl
  exact absurd start (by decide)

theorem Spelled.variable (isName : Token.isName name.lexeme = true) :
    (Expr.variable name).Spelled :=
  ⟨opens_name isName, fun _ delimited => Scans.name isName delimited⟩

end Expr

/-! Statements. -/

def Stmt.Spelled (s : Stmt) : Prop := Spells s.canonical.toList s.grouped.words

def Stmt.AllSpelled (body : List Stmt) : Prop :=
  List.Forall₂ Spells ((Stmt.canonicals body).map String.toList)
    ((Stmt.groupeds body).map Stmt.words)

theorem Stmt.allWords_eq (p : List Stmt) : Stmt.allWords p = (p.map Stmt.words).flatten := by
  induction p with
  | nil => rfl
  | cons s p ih => simp [allWords, ih]

theorem Word.intercalate_nothing (wss : List (List Word)) :
    ([] : List Word).intercalate wss = wss.flatten := by
  induction wss with
  | nil => rfl
  | cons ws wss ih =>
    cases wss with
    | nil => simp
    | cons => simpa using ih

theorem Stmt.AllSpelled.scans {c : Char} (h : AllSpelled body) (member : c ∈ [' ', '\n'])
    (delimited : Text.Delimited rest) :
    Scans (([c].intercalate ((Stmt.canonicals body).map String.toList)) ++ rest)
      (Stmt.allWords (Stmt.groupeds body)) rest := by
  have separates : Text.isWordChar c = false := by
    have checked : [' ', '\n'].all (!Text.isWordChar ·) = true := by decide
    simpa using List.all_eq_true.mp checked c member
  have joined := Scans.joined [c] [] (fun rest visible => Scans.space member visible)
    (fun _ => Text.delimited_cons separates) h delimited
  simpa [Stmt.allWords_eq, Word.intercalate_nothing] using joined

/-- Statements in braces. -/
theorem Stmt.AllSpelled.braced {empty : String} (h : AllSpelled body)
    (without : Scans (empty.toList ++ rest) [.mark .leftBrace, .mark .rightBrace] rest) :
    Scans ((inBraces empty (Stmt.canonicals body)).toList ++ rest)
      (.mark .leftBrace :: Stmt.allWords (Stmt.groupeds body) ++ [.mark .rightBrace]) rest := by
  cases body with
  | nil => exact without
  | cons s body =>
    have filled : inBraces empty (Stmt.canonicals (s :: body)) =
        "\x7b " ++ " ".intercalate (Stmt.canonicals (s :: body)) ++ " \x7d" := rfl
    have visible : Text.Visible ([' '].intercalate
        ((Stmt.canonicals (s :: body)).map String.toList) ++ (" \x7d".toList ++ rest)) := by
      cases h with
      | cons first =>
        cases body <;> simpa [Stmt.canonicals] using first.visible
    rw [filled]
    simp only [String.toList_append, String.toList_intercalate, List.append_assoc]
    apply Scans.cast
    · exact (Scans.opening visible).trans <|
        (h.scans (by decide) (Text.delimited_cons rfl)).trans Scans.closing
    · simp

theorem Stmt.opens_inBraces {empty : String} (without : Text.Opens empty.toList) :
    Text.Opens (inBraces empty parts).toList := by
  unfold SoftScript.inBraces
  split
  · exact without
  · simp only [String.toList_append, List.append_assoc]
    exact ⟨'\x7b', _, rfl, by decide, by decide⟩

theorem Expr.Spelled.object (h : Stmt.AllSpelled members) : (object brace members).Spelled := by
  constructor
  · exact Stmt.opens_inBraces ⟨'\x7b', _, rfl, by decide, by decide⟩
  · intro rest delimited
    simp only [canonical, rebuilt, parenthesized, words]
    exact h.braced Scans.noMembers

namespace Stmt

theorem Spelled.block (h : AllSpelled body) : (block body).Spelled := by
  constructor
  · simp only [canonical]
    exact opens_inBraces ⟨'\x7b', _, rfl, by decide, by decide⟩
  · intro rest delimited
    simp only [canonical, rebuilt, id, words]
    exact h.braced Scans.noLines

theorem Spelled.expression (h : value.Spelled) : (expression value).Spelled := by
  constructor
  · simp only [canonical, String.toList_append]
    exact h.opens.append
  · intro rest delimited
    simp only [canonical, String.toList_append, List.append_assoc, rebuilt, id, words]
    exact (h.scans _ (Text.delimited_cons rfl)).trans (Scans.mark (k := .semicolon) (by decide))

theorem spells_names {params : List Token}
    (names : params.all (Token.isName ·.lexeme) = true) :
    List.Forall₂ Spells ((params.map Token.lexeme).map String.toList) (Token.wordLists params) := by
  induction params with
  | nil => exact .nil
  | cons name params ih =>
    simp only [List.all_cons, Bool.and_eq_true] at names
    have first : (Expr.variable name).Spelled := .variable names.1
    exact .cons first (ih names.2)

theorem Spelled.function (isName : Token.isName name.lexeme = true)
    (names : params.all (Token.isName ·.lexeme) = true) (h : AllSpelled body) :
    (function name params body).Spelled := by
  constructor
  · simp only [canonical, String.toList_append, List.append_assoc]
    exact ⟨'f', _, rfl, by decide, by decide⟩
  · intro rest delimited
    have listed {rest : List Char} (delimited : Text.Delimited rest) :
        Scans ((", ".intercalate (params.map Token.lexeme)).toList ++ rest)
          (Word.listed (Token.wordLists params)) rest := by
      rw [String.toList_intercalate]
      exact Scans.joined _ _ (fun _ => Scans.comma) (fun _ => Text.delimited_cons rfl)
        (spells_names names) delimited
    have braces : Text.Visible ((inBraces "\x7b \x7d" (Stmt.canonicals body)).toList ++ rest) :=
      (opens_inBraces ⟨'\x7b', _, rfl, by decide, by decide⟩).append.visible
    simp only [canonical, String.toList_append, List.append_assoc, rebuilt, id, words]
    apply Scans.cast
    · exact (Scans.word (k := .funWord) (by decide) (Expr.opens_name isName).append.visible).trans <|
        (Scans.name isName (Text.delimited_cons rfl)).trans <|
        (Scans.mark (k := .leftParen) (by decide)).trans <|
        (listed (Text.delimited_cons rfl)).trans <|
        (Scans.closed braces).trans (h.braced Scans.noLines)
    · simp

theorem Spelled.branch (hc : condition.Spelled) (ht : thenBranch.Spelled) :
    (branch condition thenBranch none).Spelled := by
  constructor
  · simp only [canonical, String.toList_append, List.append_assoc]
    exact ⟨'i', _, rfl, by decide, by decide⟩
  · intro rest delimited
    simp only [canonical, String.toList_append, List.append_assoc, rebuilt, id, words]
    apply Scans.cast
    · exact (Scans.condition (k := .ifWord) (by decide)).trans <|
        (hc.scans _ (Text.delimited_cons rfl)).trans <|
        (Scans.closed ht.visible).trans (ht.scans rest delimited)
    · simp

theorem Spelled.branches (hc : condition.Spelled) (ht : thenBranch.Spelled)
    (he : elseBranch.Spelled) : (Stmt.branch condition thenBranch (some elseBranch)).Spelled := by
  constructor
  · simp only [canonical, String.toList_append, List.append_assoc]
    exact ⟨'i', _, rfl, by decide, by decide⟩
  · intro rest delimited
    simp only [canonical, String.toList_append, List.append_assoc, rebuilt, id, words]
    apply Scans.cast
    · exact (Scans.condition (k := .ifWord) (by decide)).trans <|
        (hc.scans _ (Text.delimited_cons rfl)).trans <| (Scans.closed ht.visible).trans <|
        (ht.scans _ (Text.delimited_cons rfl)).trans <|
        (Scans.otherwise he.visible).trans (he.scans rest delimited)
    · simp

theorem Spelled.returnsNothing : (returns keyword none).Spelled := by
  constructor
  · simp only [canonical]
    exact ⟨'r', _, rfl, by decide, by decide⟩
  · intro rest delimited
    simp only [canonical, rebuilt, id, words]
    exact Scans.nothing

theorem Spelled.returns (h : value.Spelled) : (returns keyword (some value)).Spelled := by
  constructor
  · simp only [canonical, String.toList_append, List.append_assoc]
    exact ⟨'r', _, rfl, by decide, by decide⟩
  · intro rest delimited
    simp only [canonical, String.toList_append, List.append_assoc, rebuilt, id, words]
    exact (Scans.word (k := .returnWord) (by decide) h.visible).trans <|
      (h.scans _ (Text.delimited_cons rfl)).trans (Scans.mark (k := .semicolon) (by decide))

theorem Spelled.bare (isName : Token.isName name.lexeme = true) : (var name none).Spelled := by
  constructor
  · simp only [canonical, String.toList_append, List.append_assoc]
    exact ⟨'v', _, rfl, by decide, by decide⟩
  · intro rest delimited
    simp only [canonical, String.toList_append, List.append_assoc, rebuilt, id, words]
    exact (Scans.word (k := .varWord) (by decide) (Expr.opens_name isName).append.visible).trans <|
      (Scans.name isName (Text.delimited_cons rfl)).trans (Scans.mark (k := .semicolon) (by decide))

theorem Spelled.var (isName : Token.isName name.lexeme = true) (h : initializer.Spelled) :
    (var name (some initializer)).Spelled := by
  constructor
  · simp only [canonical, String.toList_append, List.append_assoc]
    exact ⟨'v', _, rfl, by decide, by decide⟩
  · intro rest delimited
    simp only [canonical, String.toList_append, List.append_assoc, rebuilt, id, words]
    exact (Scans.word (k := .varWord) (by decide) (Expr.opens_name isName).append.visible).trans <|
      (Scans.name isName (Text.delimited_cons rfl)).trans <| (Scans.equals h.visible).trans <|
      (h.scans _ (Text.delimited_cons rfl)).trans (Scans.mark (k := .semicolon) (by decide))

theorem Spelled.loop (hc : condition.Spelled) (hb : body.Spelled) :
    (loop condition body).Spelled := by
  constructor
  · simp only [canonical, String.toList_append, List.append_assoc]
    exact ⟨'w', _, rfl, by decide, by decide⟩
  · intro rest delimited
    simp only [canonical, String.toList_append, List.append_assoc, rebuilt, id, words]
    apply Scans.cast
    · exact (Scans.condition (k := .whileWord) (by decide)).trans <|
        (hc.scans _ (Text.delimited_cons rfl)).trans <|
        (Scans.closed hb.visible).trans (hb.scans rest delimited)
    · simp

end Stmt

mutual
theorem Expr.spelled (e : Expr) (inside : Bool)
    (h : e.upholds Expr.isFormed Stmt.isFormed inside = true) : e.Spelled := by
  match e with
  | .assign target value =>
    simp only [Expr.upholds, Bool.and_eq_true] at h
    exact .assign (target.spelled inside h.1.2) (value.spelled inside h.2)
  | .binary left op right =>
    simp only [Expr.upholds, Expr.isFormed, Bool.and_eq_true, List.contains_iff_mem] at h
    exact .binary (left.spelled inside h.1.2) h.1.1.1 (right.spelled inside h.2)
  | .index left _ position =>
    simp only [Expr.upholds, Bool.and_eq_true] at h
    exact .index (left.spelled inside h.1.2) (position.spelled inside h.2)
  | .access left _ member =>
    simp only [Expr.upholds, Expr.isFormed, Bool.and_eq_true] at h
    exact .access (left.spelled inside h.2) h.1.2
  | .call callee _ args =>
    simp only [Expr.upholds, Bool.and_eq_true] at h
    exact .call (callee.spelled inside h.1.2) (Expr.allSpelled args inside h.2)
  | .grouping inner =>
    simp only [Expr.upholds, Bool.and_eq_true] at h
    exact .grouping (inner.spelled inside h.2)
  | .literal value _ => exact .literal (by simpa [Expr.upholds, Expr.isFormed] using h)
  | .list _ elements =>
    simp only [Expr.upholds, Bool.and_eq_true] at h
    exact .list (Expr.allSpelled elements inside h.2)
  | .unary op operand =>
    simp only [Expr.upholds, Expr.isFormed, Bool.and_eq_true, List.contains_iff_mem] at h
    exact .unary h.1.1 (operand.spelled inside h.2)
  | .variable name => exact .variable (by simpa [Expr.upholds, Expr.isFormed] using h)
  | .object _ declarations =>
    simp only [Expr.upholds, Bool.and_eq_true] at h
    exact .object (Stmt.allSpelled declarations inside h.2)

theorem Expr.allSpelled (es : List Expr) (inside : Bool)
    (h : Expr.allUphold Expr.isFormed Stmt.isFormed inside es = true) : Expr.AllSpelled es := by
  match es with
  | [] => exact .nil
  | e :: rest =>
    simp only [Expr.allUphold, Bool.and_eq_true] at h
    exact .cons (e.spelled inside h.1) (Expr.allSpelled rest inside h.2)

theorem Stmt.spelled (s : Stmt) (inside : Bool)
    (h : s.upholds Expr.isFormed Stmt.isFormed inside = true) : s.Spelled := by
  match s with
  | .block body =>
    simp only [Stmt.upholds, Bool.and_eq_true] at h
    exact .block (Stmt.allSpelled body inside h.2)
  | .expression value =>
    simp only [Stmt.upholds, Bool.and_eq_true] at h
    exact .expression (value.spelled inside h.2)
  | .function name params body =>
    simp only [Stmt.upholds, Stmt.isFormed, Bool.and_eq_true] at h
    exact .function h.1.1.1 h.1.1.2 (Stmt.allSpelled body true h.2)
  | .branch condition thenBranch none =>
    simp only [Stmt.upholds, Bool.and_eq_true] at h
    exact .branch (condition.spelled inside h.1.2) (thenBranch.spelled inside h.2)
  | .branch condition thenBranch (some elseBranch) =>
    simp only [Stmt.upholds, Bool.and_eq_true] at h
    exact .branches (condition.spelled inside h.1.1.2) (thenBranch.spelled inside h.1.2)
      (elseBranch.spelled inside h.2)
  | .returns _ none => exact .returnsNothing
  | .returns _ (some value) =>
    simp only [Stmt.upholds, Bool.and_eq_true] at h
    exact .returns (value.spelled inside h.2)
  | .var name none => exact .bare (by simpa [Stmt.upholds, Stmt.isFormed] using h)
  | .var name (some initializer) =>
    simp only [Stmt.upholds, Stmt.isFormed, Bool.and_eq_true] at h
    exact .var h.1 (initializer.spelled inside h.2)
  | .loop condition body =>
    simp only [Stmt.upholds, Bool.and_eq_true] at h
    exact .loop (condition.spelled inside h.1.2) (body.spelled inside h.2)

theorem Stmt.allSpelled (body : List Stmt) (inside : Bool)
    (h : Stmt.allUphold Expr.isFormed Stmt.isFormed inside body = true) : Stmt.AllSpelled body := by
  match body with
  | [] => exact .nil
  | s :: rest =>
    simp only [Stmt.allUphold, Bool.and_eq_true] at h
    exact .cons (s.spelled inside h.1) (Stmt.allSpelled rest inside h.2)
end

/-- The canonical text of a program has the words of the program with its groupings. -/
theorem words_canonicalLines (formed : Stmt.WellFormed p) :
    (Token.sentence (Token.tokenize (Stmt.canonicalLines p))).map Token.word =
      Stmt.allWords (Stmt.groupeds p) := by
  apply Scans.words_ofText
  have ended : Text.Delimited [] := by simp [Text.Delimited]
  have scans := (Stmt.allSpelled p false formed).scans (c := '\n') (by decide) ended
  simpa [Stmt.canonicalLines, String.toList_intercalate] using scans

end SoftScript
