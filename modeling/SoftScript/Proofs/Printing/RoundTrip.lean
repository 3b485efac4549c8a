import SoftScript.Proofs.Grammar.Acceptance
import SoftScript.Proofs.Printing.Derived

/-! Reading undoes printing. The canonical text of a printable program is valid, and what is read
from it is the program with one grouping more around every operator application. -/
namespace SoftScript

/-- The tokens of a printable program's text derive the program with its groupings. -/
theorem derives_canonicalLines {p : List Stmt} (h : Stmt.Printable p) :
    ∃ q, Grammar.Program (Token.sentence (Token.tokenize (Stmt.canonicalLines p))) q ∧
      Stmt.eraseds q = Stmt.eraseds (Stmt.groupeds p) := by
  obtain ⟨formed, kept⟩ := h
  have lines := Stmt.AllDerive.of_forall (Stmt.allDerived p false formed kept)
  exact lines _ (words_canonicalLines formed)

/-- A printable program is read back from its canonical text, with its operator applications in
groupings and everything else in its place. -/
theorem ofSource_canonicalLines (p : List Stmt) (h : Stmt.Printable p) :
    (Parse.ofSource (Stmt.canonicalLines p)).isValid = true ∧
      Stmt.eraseds (Parse.ofSource (Stmt.canonicalLines p)).statements =
        Stmt.eraseds (Stmt.groupeds p) := by
  obtain ⟨q, derived, same⟩ := derives_canonicalLines h
  obtain ⟨valid, statements⟩ := Parse.accepted_of_derived derived
  refine ⟨valid, ?_⟩
  rw [Parse.ofSource, statements, same]

/-- A tree that no text gives, since its operators stand without groupings. -/
def ungroupedSample : List Stmt :=
  let name (text : String) : Token := .read .identifier text 1 default
  let sign (kind : Token.Kind) : Token := .read kind kind.spelling 1 default
  let one : Expr := .literal (.int 1) (.read .number "1" 1 default)
  [.loop (.binary (.unary (sign .bang) (.variable (name "x"))) (sign .orWord) one)
    (.branch (.call (.access (.variable (name "f")) default (name "g")) default [.assign (.variable (name "x")) one])
      (.block [.expression (.index (.binary one (sign .minus) (.binary one (sign .star) one)) default one)])
      (some (.expression (.variable (name "y")))))]

theorem ofSource_canonicalLines_ungroupedSample : Stmt.Printable ungroupedSample ∧
    (Parse.ofSource (Stmt.canonicalLines ungroupedSample)).isValid = true ∧
    Stmt.eraseds (Parse.ofSource (Stmt.canonicalLines ungroupedSample)).statements =
      Stmt.eraseds (Stmt.groupeds ungroupedSample) := by
  have printable : Stmt.Printable ungroupedSample := by decide
  exact ⟨printable, ofSource_canonicalLines ungroupedSample printable⟩

end SoftScript
