import SoftScript.Proofs.Grammar.Boundary
import SoftScript.Proofs.Printing.Derived
import SoftScript.Proofs.Run.Local

/-! Compound assignments. The text of one and the text of its expansion are both read, and their
trees are alike: a compound assignment makes up the operator that the expansion writes out, and the
expansion groups the value. So they have the same meaning, however often the target is evaluated
and whatever happens on the way. -/
namespace SoftScript

/-- Trees that may differ in where their tokens stand and how they are spelled, but not in what kind
of tokens these are, and in groupings that stand on the right. -/
def Likeness.expanding : Likeness := ⟨fun t t' => t.kind = t'.kind, True, False, True⟩

theorem Likeness.expanding_reflexive : Likeness.expanding.Reflexive := ⟨fun _ => rfl, trivial⟩

theorem Likeness.layout_finer : Likeness.layout.Finer .expanding :=
  ⟨fun same => same.kind, id, id, False.elim⟩

/-- The operators of compound assignments, and those that they apply. -/
inductive Token.Kind.Compounds : Token.Kind → Token.Kind → Prop
  | plus : Compounds .plusEqual .plus
  | minus : Compounds .minusEqual .minus

theorem Token.Kind.Compounds.sign {given applied : Kind} (operator : Compounds given applied) :
    applied ∈ [.minus, .plus] := by
  cases operator <;> simp

/-- Tokens that mark the parts of a text: neither trivia nor an end. -/
def Token.IsMark (t : Token) : Prop := t.kind.isTrivia = false ∧ t.kind ≠ .eof

theorem Token.Kind.Compounds.marks {op sign : Token} (operator : Compounds op.kind sign.kind) :
    op.IsMark ∧ sign.IsMark := by
  unfold IsMark
  generalize op.kind = given at operator ⊢
  generalize sign.kind = applied at operator ⊢
  cases operator <;> decide

/-- Tokens with the same ones among them that count, up to the places where they stand. -/
abbrev Token.Copies (ts ts' : List Token) : Prop :=
  List.Forall₂ SameText (significant ts) (significant ts')

theorem Token.copies_of_eq {ts ts' : List Token}
    (same : (significant ts).map (fun t => (t.kind, t.lexeme, t.literal)) =
      (significant ts').map fun t => (t.kind, t.lexeme, t.literal)) : Copies ts ts' := by
  apply related_of_map same
  rintro ⟨kind, lexeme, _, literal, _⟩ _ ⟨kind', lexeme', _, literal', _⟩ _ told
  obtain ⟨rfl, rfl, rfl⟩ := told
  exact ⟨rfl, rfl, rfl⟩

theorem Token.Copies.unended {ts ts' : List Token} (copies : Copies ts ts')
    (unended : ∀ t ∈ ts, t.kind ≠ .eof) : ∀ t ∈ ts', t.kind ≠ .eof := by
  intro t' member ended
  have counts : t' ∈ significant ts' :=
    List.mem_filter.mpr ⟨member, by simp [ended, Kind.isTrivia]⟩
  have kinds : (significant ts).map kind = (significant ts').map kind :=
    related_map copies fun _ _ same => same.kind
  have ends : Kind.eof ∈ (significant ts).map kind := by
    rw [kinds, ← ended]
    exact List.mem_map_of_mem counts
  obtain ⟨t, member, isEnd⟩ := List.mem_map.mp ends
  exact unended t (List.mem_of_mem_filter member) isEnd

theorem Token.sentence_unended {ts : List Token} (unended : ∀ t ∈ ts, t.kind ≠ .eof) :
    sentence ts = significant ts := by
  simpa [sentence, significant] using sentence_append [] unended

theorem Token.IsMark.significant_cons {t : Token} (mark : t.IsMark) (ts : List Token) :
    significant (t :: ts) = t :: significant ts := by
  simp [significant, mark.1]

namespace Parse

open SoftScript.Parse.Parser SoftScript.Grammar

/-- What tokens are read as by themselves: an expression, if they are passed up to the end and no
error is noted. -/
def expressionOf (level : Level) (tokens : List Token) : Option Expr :=
  match bounded (fun n => expression n level) (Cursor.ofTokens tokens) with
  | .ok e c => if c.atEnd && c.errors.isEmpty then some e else none
  | .error .. => none

theorem depth_expression (level : Level) (tokens : List Token) :
    8 * (Cursor.ofTokens tokens).ahead.length + level.depth ≤
      depthFor (Cursor.ofTokens tokens).remaining := by
  have := depth_ofTokens tokens
  have : level.depth ≤ 4 := by cases level <;> decide
  omega

/-- Tokens are read as an expression if and only if they derive it. -/
theorem expressionOf_eq_some {level : Level} {tokens : List Token} {e : Expr} :
    expressionOf level tokens = some e ↔ Expression false level (Token.sentence tokens) e := by
  have fits := depth_expression level tokens
  constructor
  · intro found
    have read := (readsAll _).expression level (Cursor.ofTokens tokens) fits
    unfold Reads at read
    unfold expressionOf at found
    split at found
    · next e' c ran =>
      rw [bounded] at ran
      rw [ran] at read
      obtain ⟨_, u, split, _, derived⟩ := read
      split at found
      · next ended =>
        cases found
        simp only [Bool.and_eq_true, Array.isEmpty_iff] at ended
        rw [Cursor.ahead_of_atEnd ended.1, List.append_nil, Cursor.ahead_ofTokens] at split
        rw [split]
        exact derived ended.2
      · cases found
    · cases found
  · intro derived
    obtain ⟨c, ran, ahead, errors, _⟩ := passes_expression derived (Cursor.ofTokens tokens) _ []
      (by rw [Cursor.ahead_ofTokens, List.append_nil]) (inFunction_ofTokens tokens)
      (by simp [Stops]) fits
    have ended : c.atEnd = true := Cursor.ahead_eq_nil.mp ahead
    simp [expressionOf, bounded, ran, ended, errors, errors_ofTokens]

/-- What the copy of some tokens is read as. -/
theorem expressionOf_copy {level : Level} {ts ts' : List Token} {e : Expr}
    (copies : Token.Copies ts ts') (found : expressionOf level ts = some e) :
    ∃ e', expressionOf level ts' = some e' ∧ Expr.Alike .layout e e' := by
  have read := (readsAll _).expression level (Cursor.ofTokens ts') (depth_expression level ts')
  have met := agree_bounded (fun n n' => (agreeAt .inText n n').expression level) _ _
    (Cursor.alike_ofTokens copies)
  unfold expressionOf at found ⊢
  cases ran : bounded (fun n => expression n level) (Cursor.ofTokens ts) with
  | error stop c =>
    rw [ran] at found
    cases found
  | ok e₁ c =>
    rw [ran] at found met
    cases ran' : bounded (fun n => expression n level) (Cursor.ofTokens ts') with
    | error stop c' =>
      rw [ran'] at met
      cases met
      rw [bounded] at ran'
      simp [Reads, ran'] at read
    | ok e' c' =>
      rw [ran'] at met
      cases met with
      | ok alike cursors =>
        have errors : c'.errors.isEmpty = c.errors.isEmpty := by
          have lengths := cursors.errors.length_eq
          simp only [Array.length_toList] at lengths
          simp [Array.isEmpty, lengths]
        simp only [cursors.atEnd, ← errors] at found
        simp only [Option.ite_none_right_eq_some] at found
        obtain ⟨ended, same⟩ := found
        cases same
        exact ⟨e', by simp only [ended, if_true], alike⟩

/-- What a compound assignment stands for. -/
def compound (target : Expr) (op : Token) (kind : Token.Kind) (value : Expr) : Expr :=
  .assign target (.binary target (.synthetic kind op) value)

/-- What its expansion stands for, where the target is written a second time. -/
def expansion (target again : Expr) (sign : Token) (value : Expr) : Expr :=
  .assign target (.binary again sign (.grouping value))

variable {inside : Bool} {u u' v : List Token} {target target' again value value' : Expr}
  {op equal sign opening closing : Token} {kind : Token.Kind}

theorem derives_compound (onTarget : Expression inside .call u target)
    (assignable : target.isAssignable = true) (onValue : Expression inside .assignment v value)
    (operator : Token.Kind.Compounds op.kind kind) :
    Expression inside .lowest (u ++ op :: v) (compound target op kind value) := by
  generalize known : op.kind = given at operator
  cases operator with
  | plus => exact .lowest (.increase onTarget assignable known onValue)
  | minus => exact .lowest (.decrease onTarget assignable known onValue)

theorem derives_expansion (onTarget : Expression inside .call u target)
    (assignable : target.isAssignable = true) (onAgain : Expression inside .call u' again)
    (onValue : Expression inside .assignment v value) (isEqual : equal.kind = .equal)
    (isSign : sign.kind ∈ [Token.Kind.minus, .plus]) (isOpening : opening.kind = .leftParen)
    (isClosing : closing.kind = .rightParen) :
    Expression inside .lowest (u ++ equal :: (u' ++ sign :: (opening :: v ++ [closing])))
      (expansion target again sign value) := by
  have grouped : Expression inside .product (opening :: v ++ [closing]) (.grouping value) :=
    .of_call (.of_primary (.grouping isOpening (.lowest onValue) isClosing)) _
  have sum : Expression inside .sum (u' ++ sign :: (opening :: v ++ [closing]))
      (.binary again sign (.grouping value)) := by
    simpa using Expression.operation .sum (onAgain.of_call .product) (.cons isSign grouped .nil)
  exact .lowest (.assign onTarget assignable isEqual (.of_next 5 .assignment sum))

/-- The text of a compound assignment is read as one. -/
theorem expressionOf_compound {T V : List Token} (onTarget : expressionOf .lowest T = some target)
    (assignable : target.isAssignable = true) (onValue : expressionOf .assignment V = some value)
    (before : ∀ t ∈ T, t.kind ≠ .eof) (after : ∀ t ∈ V, t.kind ≠ .eof)
    (operator : Token.Kind.Compounds op.kind sign.kind) :
    expressionOf .lowest (T ++ op :: V) = some (compound target op sign.kind value) := by
  rw [expressionOf_eq_some, Token.sentence_unended before] at onTarget
  rw [expressionOf_eq_some, Token.sentence_unended after] at onValue
  have mark := operator.marks.1
  have whole : Token.sentence (T ++ op :: V) =
      Token.significant T ++ op :: Token.significant V := by
    rw [Token.sentence_unended, Token.significant_append, mark.significant_cons]
    simp only [List.mem_append, List.mem_cons, or_imp, forall_and, forall_eq]
    exact ⟨before, mark.2, after⟩
  rw [expressionOf_eq_some, whole]
  exact derives_compound (onTarget.call_of_assignable assignable) assignable onValue operator

/-- And so is the text of an expansion. -/
theorem expressionOf_expansion {T T' V : List Token}
    (onTarget : expressionOf .lowest T = some target) (assignable : target.isAssignable = true)
    (onAgain : expressionOf .lowest T' = some again) (assignable' : again.isAssignable = true)
    (onValue : expressionOf .assignment V = some value) (before : ∀ t ∈ T, t.kind ≠ .eof)
    (between : ∀ t ∈ T', t.kind ≠ .eof) (after : ∀ t ∈ V, t.kind ≠ .eof)
    (operator : Token.Kind.Compounds op.kind sign.kind) (isEqual : equal.kind = .equal)
    (isOpening : opening.kind = .leftParen) (isClosing : closing.kind = .rightParen) :
    expressionOf .lowest (T ++ equal :: (T' ++ sign :: (opening :: V ++ [closing]))) =
      some (expansion target again sign value) := by
  rw [expressionOf_eq_some, Token.sentence_unended before] at onTarget
  rw [expressionOf_eq_some, Token.sentence_unended between] at onAgain
  rw [expressionOf_eq_some, Token.sentence_unended after] at onValue
  have markEqual : equal.IsMark := by simp [Token.IsMark, isEqual, Token.Kind.isTrivia]
  have markSign := operator.marks.2
  have markOpening : opening.IsMark := by simp [Token.IsMark, isOpening, Token.Kind.isTrivia]
  have markClosing : closing.IsMark := by simp [Token.IsMark, isClosing, Token.Kind.isTrivia]
  have whole : Token.sentence (T ++ equal :: (T' ++ sign :: (opening :: V ++ [closing]))) =
      Token.significant T ++ equal :: (Token.significant T' ++
        sign :: (opening :: Token.significant V ++ [closing])) := by
    rw [Token.sentence_unended]
    · simp only [Token.significant_append, List.cons_append, markEqual.significant_cons,
        markSign.significant_cons, markOpening.significant_cons, markClosing.significant_cons]
      rfl
    · simp only [List.mem_append, List.mem_cons, List.not_mem_nil, or_false, or_imp, forall_and,
        forall_eq, List.cons_append]
      exact ⟨before, markEqual.2, between, markSign.2, markOpening.2, after, markClosing.2⟩
  rw [expressionOf_eq_some, whole]
  exact derives_expansion (onTarget.call_of_assignable assignable) assignable
    (onAgain.call_of_assignable assignable') onValue isEqual operator.sign isOpening isClosing

theorem isAssignable_of_layout (alike : Expr.Alike .layout target target') :
    target.isAssignable = target'.isAssignable := by
  cases alike with
  | drops allowed _ | adds allowed _ => exact allowed.elim
  | _ => rfl

/-- A compound assignment is alike to an expansion that has copies of its parts. -/
theorem compound_alike (onTarget : Expr.Alike .layout target target')
    (onAgain : Expr.Alike .layout target again) (onValue : Expr.Alike .layout value value')
    (operator : Token.Kind.Compounds op.kind sign.kind) :
    Expr.Alike .expanding (compound target op sign.kind value)
      (expansion target' again sign value') := by
  have same : target.isGrouping = target'.isGrouping := by
    cases onTarget with
    | drops allowed _ | adds allowed _ => exact allowed.elim
    | _ => rfl
  have used : Token.binaryOperators.contains sign.kind = true := by
    generalize op.kind = given at operator
    generalize sign.kind = applied at operator
    cases operator <;> decide
  have sum : Expr.Alike .expanding (.binary target (.synthetic sign.kind op) value)
      (.binary again sign (.grouping value')) :=
    .binary (onAgain.mono Likeness.layout_finer) ⟨rfl, rfl, .inl used⟩
      (.adds trivial (onValue.mono Likeness.layout_finer))
  exact .assign (onTarget.mono Likeness.layout_finer) same sum

end Parse

open SoftScript.Parse

namespace Run

/-- Expressions of which the second has more groupings end alike if one of them ends. -/
theorem evaluate_expanding {e e' : Expr} {m m' : Machine} (alike : Expr.Alike .expanding e e')
    (machine : m.Alike .expanding m') :
    (∀ n, isOver (evaluate n e m) = true → ∃ enough, ∀ k, enough ≤ k →
      Ends .expanding (Value.Alike .expanding) (evaluate n e m) (evaluate k e' m')) ∧
    ∀ n, isOver (evaluate n e' m') = true →
      Ends .expanding (Value.Alike .expanding) (evaluate n e m) (evaluate n e' m') := by
  constructor
  · intro n halts
    obtain ⟨enough, _, later⟩ := evaluate_alike alike machine halts
    exact ⟨enough, later⟩
  · intro n halts
    obtain ⟨enough, small, later⟩ := evaluate_alike alike.swap machine.swap halts
    exact (later n (small id)).flip fun _ _ => Value.Alike.swap

/-- A compound assignment means its expansion. Let some tokens be read by themselves as a name or
a member access, and others as an assignment or a tighter expression. Then the compound assignment
of the two and the expansion, made of any copies of them, are read without an error, and their trees
are alike. From machines that are alike, the same one in particular, if one of the trees comes to an
end, so does the other, with values that are alike or with the same fault at tokens of the same
kind, and with machines that are alike. -/
theorem compound_means_expansion {T T₁ T₂ V V₁ : List Token} {target value : Expr}
    {op equal sign opening closing : Token}
    (onTarget : expressionOf .lowest T = some target) (assignable : target.isAssignable = true)
    (onValue : expressionOf .assignment V = some value)
    (unended : ∀ t ∈ T ++ V, t.kind ≠ .eof)
    (copies : Token.Copies T T₁ ∧ Token.Copies T T₂ ∧ Token.Copies V V₁)
    (operator : Token.Kind.Compounds op.kind sign.kind) (isEqual : equal.kind = .equal)
    (isOpening : opening.kind = .leftParen) (isClosing : closing.kind = .rightParen) :
    (∃ e e', expressionOf .lowest (T ++ op :: V) = some e ∧
      expressionOf .lowest (T₁ ++ equal :: (T₂ ++ sign :: (opening :: V₁ ++ [closing]))) = some e' ∧
      Expr.Alike .expanding e e' ∧ ∀ m m' : Machine, m.Alike .expanding m' →
        (∀ n, isOver (evaluate n e m) = true → ∃ enough, ∀ k, enough ≤ k →
          Ends .expanding (Value.Alike .expanding) (evaluate n e m) (evaluate k e' m')) ∧
        ∀ n, isOver (evaluate n e' m') = true →
          Ends .expanding (Value.Alike .expanding) (evaluate n e m) (evaluate n e' m')) ∧
    ∀ m : Machine, m.Alike .expanding m := by
  obtain ⟨onT₁, onT₂, onV₁⟩ := copies
  obtain ⟨target₁, onTarget₁, alike₁⟩ := expressionOf_copy onT₁ onTarget
  obtain ⟨again, onAgain, alike₂⟩ := expressionOf_copy onT₂ onTarget
  obtain ⟨value₁, onValue₁, alikeValue⟩ := expressionOf_copy onV₁ onValue
  have before : ∀ t ∈ T, t.kind ≠ .eof := fun t member => unended t (List.mem_append_left _ member)
  have after : ∀ t ∈ V, t.kind ≠ .eof := fun t member => unended t (List.mem_append_right _ member)
  have assignable₁ : target₁.isAssignable = true := (isAssignable_of_layout alike₁) ▸ assignable
  have assignable₂ : again.isAssignable = true := (isAssignable_of_layout alike₂) ▸ assignable
  have alike := compound_alike alike₁ alike₂ alikeValue operator
  refine ⟨⟨_, _, ?_, ?_, alike, ?_⟩, ?_⟩
  · exact expressionOf_compound onTarget assignable onValue before after operator
  · exact expressionOf_expansion onTarget₁ assignable₁ onAgain assignable₂ onValue₁
      (onT₁.unended before) (onT₂.unended before) (onV₁.unended after) operator isEqual isOpening
      isClosing
  · exact fun m m' machine => evaluate_expanding alike machine
  · exact fun m => m.alike_refl Likeness.expanding_reflexive

/-- The tokens of a text before its end. -/
def textTokens (source : String) : List Token := (Token.tokenize source).dropLast

/-- A machine with an object and a function that changes it. -/
def counting : Machine :=
  let p := Parse.ofSource "var o = {var n = 1;}; fun f(x) { x.n = x.n + 4; return print(x); }"
  after (interpret 9 p.statements (.start .unlimited fun _ => 0))

/-- Here the value changes what the target holds. -/
theorem compound_means_expansion_counting :
    let mark (kind : Token.Kind) : Token := .read kind kind.spelling 1 (.point 0)
    ∃ e e', expressionOf .lowest (textTokens "o.n" ++ mark .plusEqual :: textTokens "f(o) or 2") =
        some e ∧
      expressionOf .lowest (textTokens "o . n" ++ mark .equal :: (textTokens "o.n /* old */" ++
        mark .plus :: (mark .leftParen :: textTokens "f(o) or 2" ++ [mark .rightParen]))) =
        some e' ∧
      ∃ enough, ∀ k, enough ≤ k → Ends .expanding (Value.Alike .expanding)
        (evaluate 20 e counting) (evaluate k e' counting) := by
  intro mark
  obtain ⟨isTarget, isValue, unended, halts, respaced, noted⟩ :
      (expressionOf .lowest (textTokens "o.n")).any Expr.isAssignable = true ∧
      (expressionOf .assignment (textTokens "f(o) or 2")).isSome = true ∧
      (∀ t ∈ textTokens "o.n" ++ textTokens "f(o) or 2", t.kind ≠ .eof) ∧
      (expressionOf .lowest (textTokens "o.n" ++ mark .plusEqual :: textTokens "f(o) or 2")).any
        (fun e => isOver (evaluate 20 e counting)) = true ∧
      (Token.significant (textTokens "o.n")).map (fun t => (t.kind, t.lexeme, t.literal)) =
        (Token.significant (textTokens "o . n")).map (fun t => (t.kind, t.lexeme, t.literal)) ∧
      (Token.significant (textTokens "o.n")).map (fun t => (t.kind, t.lexeme, t.literal)) =
        (Token.significant (textTokens "o.n /* old */")).map
          fun t => (t.kind, t.lexeme, t.literal) := by
    decide +kernel
  obtain ⟨target, onTarget, assignable⟩ := (Option.any_eq_true _ _).mp isTarget
  obtain ⟨value, onValue⟩ := Option.isSome_iff_exists.mp isValue
  have operator : Token.Kind.Compounds (mark .plusEqual).kind (mark .plus).kind := .plus
  have isEqual : (mark .equal).kind = .equal := rfl
  have isOpening : (mark .leftParen).kind = .leftParen := rfl
  have isClosing : (mark .rightParen).kind = .rightParen := rfl
  obtain ⟨⟨e, e', found, found', _, ends⟩, self⟩ := compound_means_expansion onTarget assignable
    onValue unended
    ⟨Token.copies_of_eq respaced, Token.copies_of_eq noted, Token.copies_of_eq rfl⟩ operator isEqual
    isOpening isClosing
  rw [found] at halts
  exact ⟨e, e', found, found', (ends counting counting (self counting)).1 20 halts⟩

end Run

end SoftScript
