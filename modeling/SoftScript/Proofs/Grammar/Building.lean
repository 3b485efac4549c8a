import SoftScript.Proofs.Grammar.Noting

/-! How trees are built. Whatever its tokens are, a parser that succeeds gives a well-built tree whose
places are told by the tokens it passed and the errors it noted meanwhile; one that fails has noted
nothing at tokens that are still to be read but the one in view. -/
namespace SoftScript

open Parse Grammar

/-- What is known of an expression that has been read, next to the places told meanwhile. -/
structure Expr.Built (inside : Bool) (level : Level) (e : Expr) (sites : List Site) : Prop where
  wellBuilt : e.WellBuilt
  binds : e.Binds level
  sites : e.sites inside ⊆ sites

structure Stmt.Built (inside : Bool) (s : Stmt) (sites : List Site) : Prop where
  wellBuilt : s.WellBuilt
  sites : s.sites inside ⊆ sites

/-- A statement that is a declaration or is none. -/
def Stmt.BuiltAs (declares inside : Bool) (s : Stmt) (sites : List Site) : Prop :=
  s.isDeclaration = declares ∧ s.Built inside sites

section

variable {inside : Bool} {level : Level} {e : Expr} {s : Stmt} {sites more : List Site}

theorem Expr.Built.mono (built : e.Built inside level sites) (sub : sites ⊆ more) :
    e.Built inside level more :=
  ⟨built.wellBuilt, built.binds, List.Subset.trans built.sites sub⟩

theorem Stmt.Built.mono (built : s.Built inside sites) (sub : sites ⊆ more) :
    s.Built inside more :=
  ⟨built.wellBuilt, List.Subset.trans built.sites sub⟩

theorem Stmt.BuiltAs.mono (built : s.BuiltAs declares inside sites) (sub : sites ⊆ more) :
    s.BuiltAs declares inside more :=
  ⟨built.1, built.2.mono sub⟩

theorem append_sites_subset {a b a' b' : List Site} (first : a ⊆ a') (second : b ⊆ b') :
    a ++ b ⊆ a' ++ b' :=
  List.append_subset.mpr ⟨List.subset_append_of_subset_left _ first,
    List.subset_append_of_subset_right _ second⟩

theorem Expr.allSites_subset {es : List Expr} (all : ∀ e ∈ es, e.sites inside ⊆ sites) :
    Expr.allSites inside es ⊆ sites := by
  induction es with
  | nil => simp [Expr.allSites]
  | cons e rest ih =>
    rw [List.forall_mem_cons] at all
    exact List.append_subset.mpr ⟨all.1, ih all.2⟩

theorem Stmt.allSites_subset {p : List Stmt} (all : ∀ s ∈ p, s.sites inside ⊆ sites) :
    Stmt.allSites inside p ⊆ sites := by
  induction p with
  | nil => simp [Stmt.allSites]
  | cons s rest ih =>
    rw [List.forall_mem_cons] at all
    exact List.append_subset.mpr ⟨all.1, ih all.2⟩

/-- What is assignable binds as tightly as can be. -/
theorem Expr.binds_of_isAssignable (assignable : e.isAssignable = true) (level : Level) :
    e.Binds level := by
  have tight : e.looseness = 1 := by
    cases e <;> first | rfl | cases assignable
  unfold Expr.Binds
  rw [tight]
  cases level <;> decide

end

namespace Parse

namespace Parser

variable {α β : Type} {inside : Bool} {V : α → List Site → Prop} {W : β → List Site → Prop}
  {U : α → Prop} {p : Parser α} {c c' : Cursor} {sites : List Site}

/-- From a cursor on, inside a function or not, something is known of the result of a parser and the
places told meanwhile. -/
def Builds (inside : Bool) (V : α → List Site → Prop) (p : Parser α) (c : Cursor) : Prop :=
  c.inFunction = inside → match p c with
    | .ok a c' => ∃ sites, c.Spans c' sites ∧ V a sites
    | .error (.refused e) c' => c.Breaks c' ∧ e.Stops
    | .error .exhausted _ => True

theorem builds_pure {a : α} (h : V a []) : (pure a : Parser α).Builds inside V c :=
  fun _ => ⟨[], .refl c, h⟩

theorem builds_exhausted : (exhausted : Parser α).Builds inside V c := fun _ => trivial

theorem builds_refuse {cause : Cause} {t : Token} (stops : Error.Stops ⟨cause, t⟩) :
    (refuse cause t : Parser α).Builds inside V c :=
  fun _ => ⟨.refl c, stops⟩

/-- A parser that comes to another cursor first and goes on from there. -/
theorem Builds.from {q : Parser α} (spans : c.Spans c' sites) (ran : q c = p c')
    (h : p.Builds inside (fun a more => V a (sites ++ more)) c') : q.Builds inside V c := by
  intro here
  have built := h (spans.inFunction.trans here)
  rw [ran]
  cases ended : p c' with
  | ok a c'' =>
    rw [ended] at built
    obtain ⟨more, spans', valued⟩ := built
    exact ⟨_, spans.trans spans', valued⟩
  | error stop c'' =>
    rw [ended] at built
    cases stop with
    | refused e => exact ⟨spans.breaks built.1, built.2⟩
    | exhausted => trivial

theorem Builds.bind {next : α → Parser β} (first : p.Builds inside V c)
    (second : ∀ a sites c', V a sites →
      (next a).Builds inside (fun b more => W b (sites ++ more)) c') :
    (p >>= next).Builds inside W c := by
  intro here
  have built := first here
  cases ended : p c with
  | ok a c' =>
    rw [ended] at built
    obtain ⟨sites, spans, valued⟩ := built
    have ran : (p >>= next) c = next a c' := by rw [bind_apply, ended]
    exact Builds.from spans ran (second a sites c' valued) here
  | error stop c' =>
    rw [ended] at built
    rw [bind_apply, ended]
    cases stop <;> exact built

theorem Builds.mono {V' : α → List Site → Prop} (h : p.Builds inside V c)
    (imp : ∀ a sites, V a sites → V' a sites) : p.Builds inside V' c := by
  intro here
  have built := h here
  cases ended : p c with
  | ok a c' =>
    rw [ended] at built
    exact built.imp fun sites h => ⟨h.1, imp a sites h.2⟩
  | error stop c' =>
    rw [ended] at built
    cases stop <;> exact built

theorem Builds.map {f : α → β} (h : p.Builds inside V c)
    (image : ∀ a sites, V a sites → W (f a) sites) : (f <$> p).Builds inside W c := by
  rw [map_eq_pure_bind]
  exact h.bind fun a sites _ valued => builds_pure (by simpa using image a sites valued)

/-- A step at which no places are told. -/
theorem Builds.past {next : α → Parser β} (first : p.Builds inside (fun a sites => U a ∧ sites = []) c)
    (second : ∀ a c', U a → (next a).Builds inside W c') : (p >>= next).Builds inside W c := by
  apply first.bind
  rintro a _ c' ⟨known, rfl⟩
  exact second a c' known

/-! Looking at the cursor. -/

theorem builds_current_bind {next : Token → Parser α} (h : (next c.current).Builds inside V c) :
    (current >>= next).Builds inside V c := h

theorem builds_check_bind {next : Bool → Parser α} {kind : Token.Kind}
    (h : (next (c.check kind)).Builds inside V c) : (check kind >>= next).Builds inside V c := h

theorem builds_atEnd_bind {next : Bool → Parser α} (h : (next c.atEnd).Builds inside V c) :
    (atEnd >>= next).Builds inside V c := h

/-! Passing tokens. -/

theorem builds_advance : advance.Builds inside (fun _ sites => True ∧ sites = []) c :=
  fun _ => ⟨[], c.spans_advance, trivial, rfl⟩

theorem builds_eat? (kinds : List Token.Kind) :
    (eat? kinds).Builds inside (fun t? sites => (∀ t ∈ t?, t.kind ∈ kinds) ∧ sites = []) c := by
  intro _
  rcases eat?_cases kinds c with ⟨t, w, _, member, ate⟩ | ⟨_, ate⟩
  · rw [ate]
    exact ⟨[], c.spans_advance, by simpa using member, rfl⟩
  · rw [ate]
    exact ⟨[], .refl c, by simp, rfl⟩

theorem builds_eat (kind : Token.Kind) :
    (eat kind).Builds inside (fun _ sites => True ∧ sites = []) c :=
  (builds_eat? [kind]).past fun _ _ _ => builds_pure ⟨trivial, rfl⟩

theorem builds_consume (kind : Token.Kind) {cause : Cause} (unmarked : cause.marks = false)
    (other : cause ≠ .integerOutOfRange) :
    (consume kind cause).Builds inside (fun t sites => t.kind = kind ∧ sites = []) c := by
  intro _
  rw [consume_apply]
  cases checked : c.check kind with
  | true =>
    have passed : c.advance.previous = c.current := by
      simp [Cursor.advance, atEnd_of_check checked]
    have kinds : c.current.kind = kind := by
      simp only [Cursor.check, Bool.and_eq_true, decide_eq_true_eq] at checked
      exact checked.2
    exact ⟨[], c.spans_advance, passed ▸ kinds, rfl⟩
  | false => exact ⟨.refl c, unmarked, fun out => absurd out other⟩

theorem builds_expect (kind : Token.Kind) (context : String) :
    (expect kind context).Builds inside (fun _ sites => True ∧ sites = []) c :=
  (builds_consume kind rfl (by simp)).mono fun _ _ h => ⟨trivial, h.2⟩

theorem builds_report {cause : Cause} (unmarked : cause.marks = false) (t : Token) :
    (report cause t).Builds inside (fun _ sites => True ∧ sites = []) c :=
  fun _ => ⟨[], Cursor.spans_report unmarked t, trivial, rfl⟩

/-- Inside a function places are told as such. -/
theorem builds_insideFunction (h : p.Builds true V c.enterFunction) :
    (insideFunction p).Builds inside V c := by
  intro _
  have built := h (by simp [Cursor.inFunction, Cursor.enterFunction])
  have left {c' : Cursor} {passed : List Token} {noted : List Error}
      (takes : c.enterFunction.Takes c' passed noted) : c.Takes c'.leaveFunction passed noted :=
    ⟨takes.ahead, takes.errors, congrArg (· - 1) takes.functionDepth⟩
  unfold insideFunction
  cases ended : p c.enterFunction with
  | ok a c' =>
    rw [ended] at built
    obtain ⟨sites, ⟨passed, noted, takes, accounts⟩, valued⟩ := built
    exact ⟨sites, ⟨passed, noted, left takes, accounts⟩, valued⟩
  | error stop c' =>
    rw [ended] at built
    cases stop with
    | refused e =>
      obtain ⟨⟨passed, noted, takes, placed⟩, stops⟩ := built
      exact ⟨⟨passed, noted, left takes, placed⟩, stops⟩
    | exhausted => trivial

theorem builds_recover (h : p.Builds inside V c) :
    (recover p).Builds inside (fun a? sites => ∀ a ∈ a?, V a sites) c := by
  intro here
  have built := h here
  unfold recover
  cases ended : p c with
  | ok a c' =>
    rw [ended] at built
    obtain ⟨sites, spans, valued⟩ := built
    exact ⟨sites, spans, by rintro _ ⟨⟩; exact valued⟩
  | error stop c' =>
    rw [ended] at built
    cases stop with
    | refused e => exact ⟨[], built.1.recovered built.2, by simp⟩
    | exhausted => trivial

theorem builds_bounded {p : Nat → Parser α} (each : ∀ n, (p n).Builds inside V c) :
    (bounded p).Builds inside V c :=
  fun here => each _ here

/-- What is known of the items so far stays known when more places are told. -/
theorem all_push_told {P : α → List Site → Prop} {items : Array α} {a : α} {before sites : List Site}
    (mono : ∀ {a sites more}, P a sites → sites ⊆ more → P a more)
    (earlier : ∀ b ∈ items.toList, P b before) (new : P a sites) :
    ∀ b ∈ (items.push a).toList, P b (before ++ sites) := by
  apply all_push
  · exact fun b member => mono (earlier b member) (List.subset_append_left ..)
  · exact mono new (List.subset_append_right ..)

end Parser

end Parse

end SoftScript
