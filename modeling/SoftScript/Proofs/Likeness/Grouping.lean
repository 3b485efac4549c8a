import SoftScript.Proofs.Likeness.Printed
import SoftScript.Proofs.Session.Reached

/-! Groupings have no part in what a program does. A program without its groupings, on a machine
whose functions have lost theirs, ends as the program does, and leaves what it leaves without the
groupings. Only an assignment looks at its target closely enough to tell a grouping. -/
namespace SoftScript

/-- Nothing is assigned to a grouping. -/
def Expr.assignsPlainly : Expr → Bool
  | .assign target _ => !target.isGrouping
  | _ => true

/-- No assignment in a program has a grouping for its target. -/
def Stmt.PlainTargets (p : List Stmt) : Prop :=
  Stmt.allUphold Expr.assignsPlainly (fun _ _ => true) false p = true

/-- No assignment in a declared function has a grouping for its target. -/
def Machine.PlainTargets (m : Machine) : Prop :=
  m.heap.Declares Expr.assignsPlainly fun _ _ => true

instance (p : List Stmt) : Decidable (Stmt.PlainTargets p) := inferInstanceAs (Decidable (_ = _))

def Callable.ungrouped : Callable → Callable
  | .user declaration closure =>
    .user { declaration with body := Stmt.ungroupeds declaration.body } closure
  | .builtin native => .builtin native

/-- The machine with no grouping left in its functions. -/
def Machine.ungrouped (m : Machine) : Machine :=
  { m with heap.functions := m.heap.functions.map Callable.ungrouped }

/-- Trees that differ in groupings only, which all stand on the left. -/
def Likeness.ungrouping : Likeness := ⟨Eq, False, True, False⟩

theorem isGrouping_ungrouped : ∀ e : Expr, e.ungrouped.isGrouping = false
  | .grouping inner => isGrouping_ungrouped inner
  | .assign .. | .binary .. | .index .. | .access .. | .call .. | .literal .. | .list ..
  | .unary .. | .variable _ | .object .. => rfl

namespace Likeness

theorem ungrouping_name (t : Token) : ungrouping.name t t := ⟨rfl, rfl⟩

theorem ungrouping_operator (t : Token) : ungrouping.operator known t t := ⟨rfl, rfl, .inr rfl⟩

theorem ungrouping_names (ts : List Token) : List.Forall₂ ungrouping.name ts ts :=
  List.forall₂_same.mpr fun t _ => ungrouping_name t

theorem eq_of_ungrouping_names (h : List.Forall₂ ungrouping.name ts ts') : ts' = ts :=
  eq_of_related h fun _ _ same => same.1.symm

end Likeness

open Likeness

mutual
/-- A tree is alike to itself without its groupings. -/
theorem Expr.alike_ungrouped : ∀ e : Expr,
    e.upholds Expr.assignsPlainly (fun _ _ => true) inside = true → Expr.Alike ungrouping e e.ungrouped
  | .assign target value, plain => by
    simp only [Expr.upholds, Bool.and_eq_true, Expr.assignsPlainly, Bool.not_eq_true'] at plain
    exact .assign (Expr.alike_ungrouped target plain.1.2)
      (plain.1.1.trans (isGrouping_ungrouped target).symm) (Expr.alike_ungrouped value plain.2)
  | .binary left op right, plain => by
    simp only [Expr.upholds, Bool.and_eq_true] at plain
    exact .binary (Expr.alike_ungrouped left plain.1.2) (ungrouping_operator op)
      (Expr.alike_ungrouped right plain.2)
  | .index left bracket position, plain => by
    simp only [Expr.upholds, Bool.and_eq_true] at plain
    exact .index (Expr.alike_ungrouped left plain.1.2) rfl (Expr.alike_ungrouped position plain.2)
  | .access left dot member, plain => by
    simp only [Expr.upholds, Bool.and_eq_true] at plain
    exact .access (Expr.alike_ungrouped left plain.2) rfl (ungrouping_name member)
  | .call callee paren args, plain => by
    simp only [Expr.upholds, Bool.and_eq_true] at plain
    exact .call (Expr.alike_ungrouped callee plain.1.2) rfl (Expr.allAlike_ungroupeds args plain.2)
  | .grouping inner, plain => by
    simp only [Expr.upholds, Bool.and_eq_true] at plain
    exact .drops trivial (Expr.alike_ungrouped inner plain.2)
  | .literal _ _, _ => .literal rfl
  | .list bracket elements, plain => by
    simp only [Expr.upholds, Bool.and_eq_true] at plain
    exact .list rfl (Expr.allAlike_ungroupeds elements plain.2)
  | .unary op operand, plain => by
    simp only [Expr.upholds, Bool.and_eq_true] at plain
    exact .unary (ungrouping_operator op) (Expr.alike_ungrouped operand plain.2)
  | .variable name, _ => .variable (ungrouping_name name)
  | .object brace declarations, plain => by
    simp only [Expr.upholds, Bool.and_eq_true] at plain
    exact .object rfl (Stmt.allAlike_ungroupeds declarations plain.2)

theorem Expr.allAlike_ungroupeds : ∀ es : List Expr,
    Expr.allUphold Expr.assignsPlainly (fun _ _ => true) inside es = true →
      Expr.AllAlike ungrouping es (Expr.ungroupeds es)
  | [], _ => .nil
  | e :: rest, plain => by
    simp only [Expr.allUphold, Bool.and_eq_true] at plain
    exact .cons (Expr.alike_ungrouped e plain.1) (Expr.allAlike_ungroupeds rest plain.2)

theorem Stmt.alike_ungrouped : ∀ s : Stmt,
    s.upholds Expr.assignsPlainly (fun _ _ => true) inside = true → Stmt.Alike ungrouping s s.ungrouped
  | .block body, plain => by
    simp only [Stmt.upholds, Bool.and_eq_true] at plain
    exact .block (Stmt.allAlike_ungroupeds body plain.2)
  | .expression value, plain => by
    simp only [Stmt.upholds, Bool.and_eq_true] at plain
    exact .expression (Expr.alike_ungrouped value plain.2)
  | .function name params body, plain => by
    simp only [Stmt.upholds, Bool.and_eq_true] at plain
    exact .function (ungrouping_name name) (ungrouping_names params)
      (Stmt.allAlike_ungroupeds body plain.2)
  | .branch condition thenBranch none, plain => by
    simp only [Stmt.upholds, Bool.and_eq_true] at plain
    exact .branch (Expr.alike_ungrouped condition plain.1.2) (Stmt.alike_ungrouped thenBranch plain.2)
  | .branch condition thenBranch (some elseBranch), plain => by
    simp only [Stmt.upholds, Bool.and_eq_true] at plain
    exact .branches (Expr.alike_ungrouped condition plain.1.1.2)
      (Stmt.alike_ungrouped thenBranch plain.1.2) (Stmt.alike_ungrouped elseBranch plain.2)
  | .returns _ none, _ => .returns rfl
  | .returns _ (some value), plain => by
    simp only [Stmt.upholds, Bool.and_eq_true] at plain
    exact .returnsValue rfl (Expr.alike_ungrouped value plain.2)
  | .var name none, _ => .var (ungrouping_name name)
  | .var name (some value), plain => by
    simp only [Stmt.upholds, Bool.and_eq_true] at plain
    exact .varValue (ungrouping_name name) (Expr.alike_ungrouped value plain.2)
  | .loop condition body, plain => by
    simp only [Stmt.upholds, Bool.and_eq_true] at plain
    exact .loop (Expr.alike_ungrouped condition plain.1.2) (Stmt.alike_ungrouped body plain.2)

theorem Stmt.allAlike_ungroupeds : ∀ p : List Stmt,
    Stmt.allUphold Expr.assignsPlainly (fun _ _ => true) inside p = true →
      Stmt.AllAlike ungrouping p (Stmt.ungroupeds p)
  | [], _ => .nil
  | s :: rest, plain => by
    simp only [Stmt.allUphold, Bool.and_eq_true] at plain
    exact .cons (Stmt.alike_ungrouped s plain.1) (Stmt.allAlike_ungroupeds rest plain.2)
end

mutual
/-- And it is alike to no other tree. -/
theorem Expr.Alike.eq_ungrouped : Expr.Alike ungrouping e e' → e' = e.ungrouped
  | .assign target _ value => by rw [target.eq_ungrouped, value.eq_ungrouped]; rfl
  | .binary left op right => by rw [left.eq_ungrouped, ← op.1, right.eq_ungrouped]; rfl
  | .index left bracket position => by rw [left.eq_ungrouped, ← bracket, position.eq_ungrouped]; rfl
  | .access left dot member => by rw [left.eq_ungrouped, ← dot, ← member.1]; rfl
  | .call callee paren args => by rw [callee.eq_ungrouped, ← paren, args.eq_ungroupeds]; rfl
  | .drops _ inner => inner.eq_ungrouped
  | .literal token => by rw [← token]; rfl
  | .list bracket elements => by rw [← bracket, elements.eq_ungroupeds]; rfl
  | .unary op operand => by rw [← op.1, operand.eq_ungrouped]; rfl
  | .variable name => by rw [← name.1]; rfl
  | .object brace declarations => by rw [← brace, declarations.eq_ungroupeds]; rfl

theorem Expr.AllAlike.eq_ungroupeds : Expr.AllAlike ungrouping es es' → es' = Expr.ungroupeds es
  | .nil => rfl
  | .cons first rest => by rw [first.eq_ungrouped, rest.eq_ungroupeds]; rfl

theorem Stmt.Alike.eq_ungrouped : Stmt.Alike ungrouping s s' → s' = s.ungrouped
  | .block body => by rw [body.eq_ungroupeds]; rfl
  | .expression value => by rw [value.eq_ungrouped]; rfl
  | .function name params body => by
    rw [← name.1, eq_of_ungrouping_names params, body.eq_ungroupeds]
    rfl
  | .branch condition thenBranch => by rw [condition.eq_ungrouped, thenBranch.eq_ungrouped]; rfl
  | .branches condition thenBranch elseBranch => by
    rw [condition.eq_ungrouped, thenBranch.eq_ungrouped, elseBranch.eq_ungrouped]
    rfl
  | .returns keyword => by rw [← keyword]; rfl
  | .returnsValue keyword value => by rw [← keyword, value.eq_ungrouped]; rfl
  | .var name => by rw [← name.1]; rfl
  | .varValue name value => by rw [← name.1, value.eq_ungrouped]; rfl
  | .loop condition body => by rw [condition.eq_ungrouped, body.eq_ungrouped]; rfl

theorem Stmt.AllAlike.eq_ungroupeds : Stmt.AllAlike ungrouping p p' → p' = Stmt.ungroupeds p
  | .nil => rfl
  | .cons first rest => by rw [first.eq_ungrouped, rest.eq_ungroupeds]; rfl
end

/-! Machines. -/

theorem Callable.alike_ungrouped {c : Callable}
    (plain : ∀ declaration closure, c = .user declaration closure →
      Stmt.allUphold Expr.assignsPlainly (fun _ _ => true) true declaration.body = true) :
    c.Alike ungrouping c.ungrouped := by
  cases c with
  | user declaration closure =>
    exact .user ⟨ungrouping_name _, ungrouping_names _,
      Stmt.allAlike_ungroupeds _ (plain declaration closure rfl)⟩
  | builtin => exact .builtin

theorem FunctionDecl.Alike.eq_ungrouped {f f' : FunctionDecl} (alike : f.Alike ungrouping f') :
    f' = { f with body := Stmt.ungroupeds f.body } := by
  obtain ⟨name, params, body⟩ := f
  obtain ⟨name', params', body'⟩ := f'
  simp only [FunctionDecl.mk.injEq]
  exact ⟨alike.name.1.symm, eq_of_ungrouping_names alike.params, alike.body.eq_ungroupeds⟩

theorem Callable.Alike.eq_ungrouped {c c' : Callable} (alike : c.Alike ungrouping c') :
    c' = c.ungrouped := by
  cases alike with
  | user alike => rw [alike.eq_ungrouped, Callable.ungrouped]
  | builtin => rfl

theorem Machine.alike_ungrouped {m : Machine} (plain : m.PlainTargets) :
    m.Alike ungrouping m.ungrouped := by
  apply Machine.alike_functions fun _ => rfl
  rw [Array.toList_map, List.forall₂_map_right_iff]
  apply List.forall₂_same.mpr
  intro c member
  apply Callable.alike_ungrouped
  rintro declaration closure rfl
  obtain ⟨id, found⟩ := List.mem_iff_getElem?.mp member
  exact plain id declaration closure (by simpa using found)

theorem Value.Alike.eq_self {v v' : Value} (alike : v.Alike ungrouping v') : v' = v := by
  obtain ⟨payload, name⟩ := v
  obtain ⟨payload', name'⟩ := v'
  obtain ⟨rfl, name⟩ := alike
  cases name with
  | none => rfl
  | some name => rw [name.1]

theorem Bindings.Alike.eq_self (alike : Bindings.Alike ungrouping b b') : b' = b :=
  eq_of_related alike fun _ _ slot => Prod.ext slot.1.symm slot.2.eq_self

theorem Frame.Alike.eq_self {frame frame' : Frame} (alike : frame.Alike ungrouping frame') :
    frame' = frame := by
  have bindings := Bindings.Alike.eq_self alike.bindings
  have enclosing := alike.enclosing
  cases frame
  cases frame'
  simp_all

theorem Machine.Alike.eq_ungrouped {m m' : Machine} (alike : m.Alike ungrouping m') :
    m' = m.ungrouped := by
  have frames : m'.heap.frames = m.heap.frames :=
    Array.toList_inj.mp (eq_of_related alike.heap.frames fun _ _ => Frame.Alike.eq_self)
  have functions : m'.heap.functions = m.heap.functions.map Callable.ungrouped := by
    apply Array.toList_inj.mp
    rw [Array.toList_map]
    exact eq_map_of_related alike.heap.functions fun _ _ => Callable.Alike.eq_ungrouped
  have lists : m'.heap.lists = m.heap.lists := by
    apply Array.toList_inj.mp
    apply eq_of_related alike.heap.lists
    intro items items' same
    exact Array.toList_inj.mp (eq_of_related same fun _ _ => Value.Alike.eq_self)
  have objects : m'.heap.objects = m.heap.objects :=
    Array.toList_inj.mp (eq_of_related alike.heap.objects fun _ _ => Bindings.Alike.eq_self)
  obtain ⟨⟨_, _, _, _⟩, _, _, _, _, _, _⟩ := m'
  obtain ⟨_, rfl, rfl, rfl, rfl, rfl, rfl⟩ := alike
  simp only at frames functions lists objects
  subst frames functions lists objects
  rfl

namespace Run

variable {m : Machine} {p : List Stmt}

/-- What a run leaves as a result, told of the machine without groupings. -/
theorem Ends.eq_ungrouped {r r' : EStateM.Result Halt Machine Unit}
    (ended : Ends ungrouping Eq r r') : r' = leaving Machine.ungrouped r := by
  cases ended with
  | ok _ alike => rw [alike.eq_ungrouped]; rfl
  | fault place alike => rw [alike.eq_ungrouped, ← place]; rfl

/-- A run that ends ends in the same way without groupings, under the same bound. -/
theorem interpret_ungrouped (plain : Stmt.PlainTargets p) (functions : m.PlainTargets) {n : Nat}
    (halts : isOver (interpret n p m) = true) :
    interpret n (Stmt.ungroupeds p) m.ungrouped = leaving Machine.ungrouped (interpret n p m) := by
  obtain ⟨enough, small, later⟩ := interpret_alike (Stmt.allAlike_ungroupeds p plain)
    (Machine.alike_ungrouped functions) halts
  exact (later n (small id)).eq_ungrouped

/-- A run that ends without groupings ends with them, if the bound is large enough. -/
theorem isOver_of_ungrouped (plain : Stmt.PlainTargets p) (functions : m.PlainTargets) {n : Nat}
    (halts : isOver (interpret n (Stmt.ungroupeds p) m.ungrouped) = true) :
    ∃ enough, ∀ k, enough ≤ k → isOver (interpret k p m) = true := by
  obtain ⟨enough, _, later⟩ := interpret_alike (Stmt.allAlike_ungroupeds p plain).swap
    (Machine.alike_ungrouped functions).swap halts
  exact ⟨enough, fun k le => (later k le).isOver⟩

theorem plainTargets_ofSource {source : String} (valid : (Parse.ofSource source).isValid = true) :
    Stmt.PlainTargets (Parse.ofSource source).statements := by
  apply allUphold_mono ?_ (fun _ _ _ => rfl) (wellFormed_ofSource valid)
  intro e formed
  cases e with
  | assign target value =>
    simp only [Expr.isFormed] at formed
    cases target <;> first | rfl | cases formed
  | _ => rfl

theorem plainTargets_reached {s : Session} (reached : s.Reached) : s.machine.PlainTargets :=
  (declares_law _ _).declares_reached (fun _ => plainTargets_ofSource) reached

/-- A printable program and its canonical text end alike. -/
theorem canonicalLines_alike (printable : Stmt.Printable p) (m : Machine) :
    (∀ n, isOver (interpret n p m) = true → ∃ enough, ∀ k, enough ≤ k →
      Ends printing Eq (interpret n p m)
        (interpret k (Parse.ofSource (Stmt.canonicalLines p)).statements m)) ∧
    ∀ n, isOver (interpret n (Parse.ofSource (Stmt.canonicalLines p)).statements m) = true →
      Ends printing Eq (interpret n p m)
        (interpret n (Parse.ofSource (Stmt.canonicalLines p)).statements m) := by
  obtain ⟨q, derived, same⟩ := derives_canonicalLines printable
  have statements := (Parse.accepted_of_derived derived).2
  rw [Parse.ofSource, statements]
  have alike := Stmt.allAlike_printed p q same printable.1
  have self := m.alike_refl printing_reflexive
  refine ⟨fun n halts => ?_, fun n halts => ?_⟩
  · obtain ⟨enough, _, later⟩ := interpret_alike alike self halts
    exact ⟨enough, later⟩
  · obtain ⟨enough, small, later⟩ := interpret_alike alike.swap self.swap halts
    exact (later n (small id)).swap

/-- Groupings are transparent. Of a program and a machine in which nothing is assigned to a
grouping, a run without any groupings ends if the run with them does, and ends the same: with the
same outcome, and with the machine that is left, less its groupings. Nothing is assigned to a
grouping at the start, after such a run, or in valid programs and the sessions that run them.
Therefore a printable program and its canonical text end alike. -/
theorem groupings_transparent :
    (∀ (p : List Stmt) (m : Machine), Stmt.PlainTargets p → m.PlainTargets →
      (∀ n, isOver (interpret n p m) = true →
        interpret n (Stmt.ungroupeds p) m.ungrouped =
          leaving Machine.ungrouped (interpret n p m)) ∧
      (∀ n, isOver (interpret n (Stmt.ungroupeds p) m.ungrouped) = true →
        ∃ enough, ∀ k, enough ≤ k → isOver (interpret k p m) = true) ∧
      ∀ n, (after (interpret n p m)).PlainTargets) ∧
    (∀ output clock, (Machine.start output clock).PlainTargets) ∧
    (∀ source, (Parse.ofSource source).isValid = true →
      Stmt.PlainTargets (Parse.ofSource source).statements) ∧
    (∀ s : Session, s.Reached → s.machine.PlainTargets) ∧
    ∀ (p : List Stmt) (m : Machine), Stmt.Printable p →
      (∀ n, isOver (interpret n p m) = true → ∃ enough, ∀ k, enough ≤ k →
        Ends printing Eq (interpret n p m)
          (interpret k (Parse.ofSource (Stmt.canonicalLines p)).statements m)) ∧
      ∀ n, isOver (interpret n (Parse.ofSource (Stmt.canonicalLines p)).statements m) = true →
        Ends printing Eq (interpret n p m)
          (interpret n (Parse.ofSource (Stmt.canonicalLines p)).statements m) := by
  refine ⟨fun p m plain functions => ⟨?_, ?_, ?_⟩, ?_, ?_, ?_, ?_⟩
  · exact fun n halts => interpret_ungrouped plain functions halts
  · exact fun n halts => isOver_of_ungrouped plain functions halts
  · exact fun n => ((declares_law _ _).obeys_interpret n plain functions).1
  · exact fun output clock => Session.declares_start _ _ output clock
  · exact fun source => plainTargets_ofSource
  · exact fun s => plainTargets_reached
  · exact fun p m printable => canonicalLines_alike printable m

/-- Groupings in a function and around a call of it. -/
def groupedSample : List Stmt :=
  (Parse.ofSource "fun f(a) { return (a) - ((1)); } print((f(2)));").statements

theorem groupings_transparent_groupedSample :
    let m := Machine.start .unlimited fun _ => 0
    isOver (interpret 12 groupedSample m) = true ∧
      interpret 12 (Stmt.ungroupeds groupedSample) m.ungrouped =
        leaving Machine.ungrouped (interpret 12 groupedSample m) ∧
      ∃ enough, ∀ k, enough ≤ k → Ends printing Eq (interpret 12 groupedSample m)
        (interpret k (Parse.ofSource (Stmt.canonicalLines groupedSample)).statements m) := by
  intro m
  obtain ⟨halts, plain, printable⟩ : isOver (interpret 12 groupedSample m) = true ∧
      Stmt.PlainTargets groupedSample ∧ Stmt.Printable groupedSample := by
    decide +kernel
  have functions : m.PlainTargets := groupings_transparent.2.1 _ _
  exact ⟨halts, (groupings_transparent.1 groupedSample m plain functions).1 12 halts,
    (groupings_transparent.2.2.2.2 groupedSample m printable).1 12 halts⟩

end Run

end SoftScript
