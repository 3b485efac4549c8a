import SoftScript.Proofs.Printing.Formed
import SoftScript.Proofs.Printing.Regroup
import SoftScript.Proofs.Printing.RoundTrip

/-! Which programs a canonical text renders faithfully. Where an assignment is added to a target, or
an object literal stands in front of a clause, the text of the tree means something else; for every
other text that is read without errors, reading its canonical text gives the same program. -/
namespace SoftScript

/-! Conditions on trees follow from one another node by node. -/

theorem upholds_mono_all {f f' : Expr → Bool} {g g' : Bool → Stmt → Bool}
    (hf : ∀ e, f e = true → f' e = true) (hg : ∀ inside s, g inside s = true → g' inside s = true) :
    (∀ e : Expr, ∀ inside, e.upholds f g inside = true → e.upholds f' g' inside = true) ∧
    (∀ p : List Stmt, ∀ inside,
      Stmt.allUphold f g inside p = true → Stmt.allUphold f' g' inside p = true) ∧
    (∀ s : Stmt, ∀ inside, s.upholds f g inside = true → s.upholds f' g' inside = true) ∧
    (∀ es : List Expr, ∀ inside,
      Expr.allUphold f g inside es = true → Expr.allUphold f' g' inside es = true) := by
  apply Expr.canonical.mutual_induct <;> intros <;>
    simp_all only [Expr.upholds, Expr.allUphold, Stmt.upholds, Stmt.allUphold, Bool.and_eq_true,
      and_self]

theorem allUphold_mono {f f' : Expr → Bool} {g g' : Bool → Stmt → Bool}
    (hf : ∀ e, f e = true → f' e = true) (hg : ∀ inside s, g inside s = true → g' inside s = true)
    (h : Stmt.allUphold f g inside p = true) : Stmt.allUphold f' g' inside p = true :=
  (upholds_mono_all hf hg).2.1 p inside h

theorem wellFormed_of_allFit (h : Stmt.AllFit plain false p) : Stmt.WellFormed p := by
  apply allUphold_mono ?_ ?_ h
  · intro e fit
    simp only [Expr.isFit, Bool.and_eq_true] at fit
    exact fit.1
  · intro inside s fit
    simp only [Stmt.isFit, Bool.and_eq_true] at fit
    exact fit.1

theorem keepsParts_of_allFit (h : Stmt.AllFit true false p) : Stmt.KeepsParts p := by
  apply allUphold_mono ?_ ?_ h
  · intro e fit
    simp only [Expr.isFit, Bool.and_eq_true] at fit
    exact fit.2
  · intro inside s fit
    simp only [Stmt.isFit, Bool.and_eq_true] at fit
    exact fit.2

/-! Places, spellings and groupings have no part in whether a tree keeps its parts. -/

theorem isAssign_erased (e : Expr) : e.erased.isAssign = e.isAssign := by
  cases e <;> rfl

theorem isAssign_grouped (e : Expr) : e.grouped.isAssign = e.isAssign := by
  cases e <;> rfl

theorem startsWithObject_erased (e : Expr) : e.erased.startsWithObject = e.startsWithObject := by
  match e with
  | .assign left _ | .index left _ _ | .access left _ _ | .call left _ _ =>
    exact startsWithObject_erased left
  | .binary .. | .grouping _ | .literal .. | .list .. | .unary .. | .variable _ | .object .. => rfl

theorem startsWithObject_grouped (e : Expr) : e.grouped.startsWithObject = e.startsWithObject := by
  match e with
  | .assign left _ | .index left _ _ | .access left _ _ | .call left _ _ =>
    exact startsWithObject_grouped left
  | .binary .. | .grouping _ | .literal .. | .list .. | .unary .. | .variable _ | .object .. => rfl

/-- Whether an expression keeps its parts, wherever it stands. -/
abbrev Expr.keeps (inside : Bool) (e : Expr) : Bool :=
  e.upholds Expr.keepsOperands (fun _ => Stmt.keepsBraces) inside

abbrev Expr.allKeep (inside : Bool) (es : List Expr) : Bool :=
  Expr.allUphold Expr.keepsOperands (fun _ => Stmt.keepsBraces) inside es

abbrev Stmt.keeps (inside : Bool) (s : Stmt) : Bool :=
  s.upholds Expr.keepsOperands (fun _ => Stmt.keepsBraces) inside

abbrev Stmt.allKeep (inside : Bool) (p : List Stmt) : Bool :=
  Stmt.allUphold Expr.keepsOperands (fun _ => Stmt.keepsBraces) inside p

theorem keeps_erased_all :
    (∀ e : Expr, ∀ inside, e.erased.keeps inside = e.keeps inside) ∧
    (∀ p : List Stmt, ∀ inside, Stmt.allKeep inside (Stmt.eraseds p) = Stmt.allKeep inside p) ∧
    (∀ s : Stmt, ∀ inside, s.erased.keeps inside = s.keeps inside) ∧
    (∀ es : List Expr, ∀ inside,
      Expr.allKeep inside (Expr.eraseds es) = Expr.allKeep inside es) := by
  apply Expr.canonical.mutual_induct <;> intros <;>
    simp_all [-Bool.forall_bool, Expr.rebuilt, Expr.rebuilts, Stmt.rebuilt, Stmt.rebuilts,
      Expr.unplaced, Stmt.unplaced, Expr.upholds, Expr.allUphold, Stmt.upholds, Stmt.allUphold,
      Expr.keepsOperands, Stmt.keepsBraces, isAssign_erased, startsWithObject_erased]

theorem keeps_grouped_all :
    (∀ e : Expr, ∀ inside, e.grouped.keeps inside = e.keeps inside) ∧
    (∀ p : List Stmt, ∀ inside, Stmt.allKeep inside (Stmt.groupeds p) = Stmt.allKeep inside p) ∧
    (∀ s : Stmt, ∀ inside, s.grouped.keeps inside = s.keeps inside) ∧
    (∀ es : List Expr, ∀ inside,
      Expr.allKeep inside (Expr.groupeds es) = Expr.allKeep inside es) := by
  apply Expr.canonical.mutual_induct <;> intros <;>
    simp_all [-Bool.forall_bool, Expr.rebuilt, Expr.rebuilts, Stmt.rebuilt, Stmt.rebuilts,
      Expr.parenthesized, Expr.upholds, Expr.allUphold, Stmt.upholds, Stmt.allUphold,
      Expr.keepsOperands, Stmt.keepsBraces, isAssign_grouped, startsWithObject_grouped]

theorem keepsParts_of_same {p q : List Stmt} (h : Stmt.KeepsParts q)
    (same : Stmt.eraseds q = Stmt.eraseds (Stmt.groupeds p)) : Stmt.KeepsParts p := by
  have erased := keeps_erased_all.2.1 q false
  rw [same, keeps_erased_all.2.1, keeps_grouped_all.2.1] at erased
  exact erased.trans h

/-- What is read from a text without errors is well-formed. -/
theorem wellFormed_ofSource {source : String} (valid : (Parse.ofSource source).isValid = true) :
    Stmt.WellFormed (Parse.ofSource source).statements := by
  have derived := Parse.derived_of_accepted valid
  have fit : Token.AllMeet (Word.isFit false) (Token.sentence (Token.tokenize source)) := by
    simpa [Token.AllMeet, Word.isFit] using Token.isSound_sentence source
  exact wellFormed_of_allFit (Grammar.Lines.fits derived fit)

/-- What is derived from the words of a tree with its groupings differs from that tree in nothing,
unless it differs in more than groupings. -/
theorem same_of_words {p q : List Stmt} {w : List Token} (derived : Grammar.Program w q)
    (words : w.map Token.word = Stmt.allWords (Stmt.groupeds p))
    (tree : Stmt.eraseds (Stmt.ungroupeds q) = Stmt.eraseds (Stmt.ungroupeds p)) :
    Stmt.eraseds q = Stmt.eraseds (Stmt.groupeds p) := by
  have plain : Token.AllMeet Word.isPlain w := by
    rw [Token.AllMeet, words]
    exact isPlain_words_all.2.1 _
  have yield := Grammar.Lines.words derived plain
  apply eq_of_ungroupeds
  · rw [← eraseds_ungroupeds, ← eraseds_ungroupeds, ungroupeds_groupeds, tree]
  · rw [allWords_eraseds, allWords_eraseds, ← yield, words]

/-- What is derived from the words of a tree keeps its parts. -/
theorem keepsParts_of_words {p q : List Stmt} {w : List Token} (derived : Grammar.Program w q)
    (words : w.map Token.word = Stmt.allWords (Stmt.groupeds p))
    (sound : Token.AllMeet Word.isSound w) : Stmt.KeepsParts q := by
  have plain := isPlain_words_all.2.1 (Stmt.groupeds p)
  rw [← words] at plain
  have fit : Token.AllMeet (Word.isFit true) w := by
    simp only [Token.AllMeet, List.all_eq_true] at sound plain ⊢
    intro x member
    simp [Word.isFit, sound x member, plain x member]
  exact keepsParts_of_allFit (Grammar.Lines.fits derived fit)

/-- A text that is read without errors is rendered faithfully by the canonical text of its program
exactly if that program keeps its parts. -/
theorem canonical_faithful_iff (source : String)
    (valid : (Parse.ofSource source).isValid = true) :
    ((Parse.ofSource (Parse.ofSource source).canonical).isValid = true ∧
      Stmt.eraseds (Stmt.ungroupeds
          (Parse.ofSource (Parse.ofSource source).canonical).statements) =
        Stmt.eraseds (Stmt.ungroupeds (Parse.ofSource source).statements)) ↔
      Stmt.KeepsParts (Parse.ofSource source).statements := by
  have formed := wellFormed_ofSource valid
  have words := words_canonicalLines formed
  constructor
  · rintro ⟨again, tree⟩
    have derived := Parse.derived_of_accepted again
    have kept := keepsParts_of_words derived words (Token.isSound_sentence _)
    exact keepsParts_of_same kept (same_of_words derived words tree)
  · intro kept
    obtain ⟨q, derived, same⟩ := derives_canonicalLines ⟨formed, kept⟩
    obtain ⟨again, statements⟩ := Parse.accepted_of_derived derived
    refine ⟨again, ?_⟩
    rw [Parse.ofSource, Parse.Program.canonical, statements, eraseds_ungroupeds, same,
      ← eraseds_ungroupeds, ungroupeds_groupeds]

/-- An assignment that is added to a target has a text that is not even valid; the same assignment
in parentheses is rendered faithfully. -/
theorem canonical_faithful_iff_samples :
    ((Parse.ofSource "a += b = c;").isValid = true ∧
      ¬ ((Parse.ofSource (Parse.ofSource "a += b = c;").canonical).isValid = true ∧
        Stmt.eraseds (Stmt.ungroupeds
            (Parse.ofSource (Parse.ofSource "a += b = c;").canonical).statements) =
          Stmt.eraseds (Stmt.ungroupeds (Parse.ofSource "a += b = c;").statements))) ∧
    (Parse.ofSource "a += (b = c);").isValid = true ∧
      (Parse.ofSource (Parse.ofSource "a += (b = c);").canonical).isValid = true ∧
        Stmt.eraseds (Stmt.ungroupeds
            (Parse.ofSource (Parse.ofSource "a += (b = c);").canonical).statements) =
          Stmt.eraseds (Stmt.ungroupeds (Parse.ofSource "a += (b = c);").statements) := by
  have valid : (Parse.ofSource "a += b = c;").isValid = true := by decide +kernel
  have lost : ¬ Stmt.KeepsParts (Parse.ofSource "a += b = c;").statements := by decide +kernel
  have valid' : (Parse.ofSource "a += (b = c);").isValid = true := by decide +kernel
  have kept : Stmt.KeepsParts (Parse.ofSource "a += (b = c);").statements := by decide +kernel
  exact ⟨⟨valid, mt (canonical_faithful_iff _ valid).mp lost⟩,
    valid', (canonical_faithful_iff _ valid').mpr kept⟩

end SoftScript
