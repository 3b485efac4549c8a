import SoftScript.Proofs.Grammar.Building
import SoftScript.Proofs.Likeness.Layout
import SoftScript.Proofs.Scanning.Lossless

/-! The trees that the grammar's productions build, after errors as well. -/
namespace SoftScript

open Parse Grammar

namespace Parse

open SoftScript.Parse.Parser

variable {α : Type} {V : α → List Site → Prop} {inside : Bool} {c : Cursor}

section Parts

variable {expression : Parser Expr} {line statement : Parser Stmt} {before : List Site}

theorem builds_commaItems (part : ∀ c, expression.Builds inside (Expr.Built inside .lowest) c)
    (n : Nat) {items : Array Expr} (earlier : ∀ e ∈ items.toList, e.Built inside .lowest before) :
    (commaItems expression n items).Builds inside
      (fun all sites => ∀ e ∈ all, e.Built inside .lowest (before ++ sites)) c := by
  induction n generalizing items before c with
  | zero => exact builds_exhausted
  | succ n ih =>
    apply (part c).bind
    intro e sites c built
    have known := all_push_told (P := Expr.Built inside .lowest) Expr.Built.mono earlier built
    apply (builds_eat .comma).past
    intro more c _
    cases more with
    | true =>
      apply (ih known).mono
      intro all later
      simp only [List.append_assoc, imp_self]
    | false => exact builds_pure (by simpa using known)

theorem builds_itemsBefore (part : ∀ c, expression.Builds inside (Expr.Built inside .lowest) c)
    (close : Token.Kind) (n : Nat) :
    (itemsBefore close expression n).Builds inside
      (fun all sites => ∀ e ∈ all, e.Built inside .lowest sites) c := by
  have none : ∀ e ∈ (#[] : Array Expr).toList, e.Built inside .lowest [] := by simp
  apply builds_check_bind
  split
  · exact builds_pure (by simp)
  · exact builds_commaItems part n none

/-- The lines so far, and one more if it was not refused. -/
theorem built_recovered {done : Array Stmt} {recovered : Option Stmt}
    (earlier : ∀ s ∈ done.toList, s.Built inside before)
    (built : ∀ s, recovered = some s → s.Built inside sites) :
    ∀ s ∈ (recovered.elim done done.push).toList, s.Built inside (before ++ sites) := by
  cases recovered with
  | none => exact fun s member => (earlier s member).mono (List.subset_append_left ..)
  | some s => exact all_push_told (P := Stmt.Built inside) Stmt.Built.mono earlier (built s rfl)

theorem builds_blockLines (each : ∀ c, line.Builds inside (Stmt.Built inside) c) (n : Nat)
    {done : Array Stmt} (earlier : ∀ s ∈ done.toList, s.Built inside before) :
    (blockLines line n done).Builds inside
      (fun body sites => ∀ s ∈ body, s.Built inside (before ++ sites)) c := by
  induction n generalizing done before c with
  | zero => exact builds_exhausted
  | succ n ih =>
    unfold blockLines
    apply builds_check_bind
    apply builds_atEnd_bind
    split
    · exact (builds_expect _ _).past fun _ _ _ => builds_pure (by simpa using earlier)
    · apply (builds_recover (each c)).bind
      intro recovered sites c built
      have known := built_recovered earlier built
      cases recovered <;>
        simpa only [Option.elim_none, Option.elim_some, List.append_assoc] using ih (c := c) known

theorem builds_block (each : ∀ c, line.Builds inside (Stmt.Built inside) c) (n : Nat) :
    (block line n).Builds inside (fun body sites => ∀ s ∈ body, s.Built inside sites) c := by
  have none : ∀ s ∈ (#[] : Array Stmt).toList, s.Built inside [] := by simp
  exact builds_blockLines each n none

end Parts

/-! Parameters. One too many is noted before it is read, so the error may be noted at what turns out
to be none. -/

namespace Cursor

variable {c' c'' : Cursor} {passed params more : List Token} {k : Nat}

/-- The cursor at a parameter after so many. -/
def atParameter (c : Cursor) (already : Nat) : Cursor :=
  if maxParameters ≤ already then c.report .tooManyParameters c.current else c

/-- Between two cursors the names of parameters were passed, after so many others, and those too many
were noted. -/
def Names (c c' : Cursor) (already : Nat) (params : List Token) : Prop :=
  ∃ passed, c.Takes c' passed
      ((params.drop (maxParameters - already)).map (⟨.tooManyParameters, ·⟩)) ∧
    params ⊆ passed ∧ ∀ t ∈ params, t.kind ≠ .eof

theorem takes_atParameter (c : Cursor) (k : Nat) : c.Takes (c.atParameter k) []
    (([c.current].drop (maxParameters - k)).map (⟨.tooManyParameters, ·⟩)) := by
  unfold atParameter
  by_cases full : maxParameters ≤ k
  · rw [if_pos full, Nat.sub_eq_zero_of_le full]
    exact c.takes_report _ _
  · have some_ : [c.current].length ≤ maxParameters - k := Nat.sub_pos_of_lt (Nat.lt_of_not_le full)
    rw [if_neg full, List.drop_eq_nil_of_le some_]
    exact .refl c

theorem breaks_atParameter (c : Cursor) (k : Nat) : c.Breaks (c.atParameter k) := by
  refine ⟨[], _, c.takes_atParameter k, ?_⟩
  intro e member marks
  obtain ⟨t, among, rfl⟩ := List.mem_map.mp member
  obtain rfl := List.mem_singleton.mp (List.mem_of_mem_drop among)
  have unended : c.atEnd = false := by simpa [atEnd] using marks.2
  have same : (c.atParameter k).ahead = c.ahead := (c.takes_atParameter k).ahead.symm
  rw [same, head?_ahead unended]
  exact .inr rfl

theorem Takes.names (takes : c.Takes c' passed []) : c.Names c' k [] :=
  ⟨passed, by simpa using takes, by simp, by simp⟩

theorem Names.trans (first : c.Names c' k params)
    (second : c'.Names c'' (k + params.length) more) : c.Names c'' k (params ++ more) := by
  obtain ⟨passed, takes, among, unended⟩ := first
  obtain ⟨later, takes', among', unended'⟩ := second
  refine ⟨passed ++ later, ?_, List.append_subset.mpr ⟨?_, ?_⟩,
    List.forall_mem_append.mpr ⟨unended, unended'⟩⟩
  · rw [List.drop_append, List.map_append, Nat.sub_sub]
    exact takes.trans takes'
  · exact List.subset_append_of_subset_left _ among
  · exact List.subset_append_of_subset_right _ among'

theorem atEnd_atParameter (c : Cursor) (k : Nat) : (c.atParameter k).atEnd = c.atEnd := by
  unfold atParameter
  split <;> rfl

theorem current_atParameter (c : Cursor) (k : Nat) : (c.atParameter k).current = c.current := by
  unfold atParameter
  split <;> rfl

theorem names_parameter (checked : c.check .identifier = true) :
    c.Names (c.atParameter k).advance k [c.current] := by
  have unended : (c.atParameter k).atEnd = false := by
    rw [atEnd_atParameter]
    exact atEnd_of_check checked
  have passes := (c.takes_atParameter k).trans (takes_advance_of_unended unended)
  rw [List.append_nil, current_atParameter] at passes
  have kind : c.current.kind = .identifier := by
    simp only [check, Bool.and_eq_true, decide_eq_true_eq] at checked
    exact checked.2
  exact ⟨_, passes, by simp, by simp [kind]⟩

theorem Names.spans (read : c.Names c' k params) : c.Spans c' [] := by
  obtain ⟨passed, takes, among, unended⟩ := read
  refine ⟨passed, _, takes, ?_, by simp⟩
  intro e member marks
  obtain ⟨t, late, rfl⟩ := List.mem_map.mp member
  exact among (List.mem_of_mem_drop late)

/-- All parameters of a function are a place. -/
theorem Names.spans_function (read : c.Names c' 0 params) : c.Spans c' [.function params] := by
  obtain ⟨passed, takes, among, unended⟩ := read
  refine ⟨passed, _, takes, ?_, ?_⟩
  · intro e member marks
    obtain ⟨t, late, rfl⟩ := List.mem_map.mp member
    exact among (List.mem_of_mem_drop late)
  · intro x member
    obtain rfl := List.mem_singleton.mp member
    refine ⟨unended, among, List.infix_rfl, fun _ => List.filter_eq_self.mpr ?_⟩
    intro e member
    obtain ⟨t, late, rfl⟩ := List.mem_map.mp member
    simpa [Site.concerns, Site.cause, Site.tokens] using List.mem_of_mem_drop late

end Cursor

/-- A parameter, and those after it if there is a comma. -/
theorem parameters_succ (n : Nat) (params : Array Token) (c : Cursor) :
    parameters (n + 1) params c = (consume .identifier .expectParameterName >>= fun t => do
      if ← eat .comma then parameters n (params.push t) else return (params.push t).toList)
        (c.atParameter params.size) := by
  unfold Cursor.atParameter
  rw [parameters]
  by_cases full : maxParameters ≤ params.size
  · rw [if_pos full, if_pos full]
    rfl
  · rw [if_neg full, if_neg full]

theorem consume_parameter (c : Cursor) (k : Nat) :
    consume .identifier .expectParameterName (c.atParameter k) =
      if c.check .identifier then .ok c.current (c.atParameter k).advance
      else refuse .expectParameterName c.current (c.atParameter k) := by
  have same : (c.atParameter k).check .identifier = c.check .identifier := by
    unfold Cursor.check
    rw [c.atEnd_atParameter, c.current_atParameter]
  rw [consume_apply, same, c.current_atParameter]
  by_cases checked : c.check .identifier = true
  · have unended : (c.atParameter k).atEnd = false := by
      rw [c.atEnd_atParameter]
      exact atEnd_of_check checked
    have passed := Cursor.previous_advance_of_unended unended
    rw [c.current_atParameter] at passed
    rw [if_pos checked, if_pos checked, ← passed]
    rfl
  · rw [if_neg checked, if_neg checked]

/-- What is read of the names of parameters. -/
theorem parameters_names (n : Nat) (params : Array Token) (c : Cursor) :
    match parameters n params c with
    | .ok all c' => ∃ more, all = params.toList ++ more ∧ c.Names c' params.size more
    | .error (.refused e) c' => c.Breaks c' ∧ e.Stops
    | .error .exhausted _ => True := by
  induction n generalizing params c with
  | zero => trivial
  | succ n ih =>
    rw [parameters_succ, bind_apply, consume_parameter]
    by_cases checked : c.check .identifier = true
    · rw [if_pos checked]
      have read := Cursor.names_parameter (k := params.size) checked
      generalize (c.atParameter params.size).advance = c₁ at read
      simp only [bind_apply, eat_apply]
      rcases eat?_cases [.comma] c₁ with ⟨t, w, _, _, ate⟩ | ⟨_, ate⟩
      · have later := ih (params.push c.current) c₁.advance
        obtain ⟨_, comma⟩ := c₁.takes_advance
        have begun := read.trans comma.names
        simp only [ate, Option.isSome_some, if_true]
        cases ended : parameters n (params.push c.current) c₁.advance with
        | ok all c' =>
          rw [ended] at later
          obtain ⟨more, rfl, names⟩ := later
          exact ⟨c.current :: more, by simp, begun.trans (by simpa using names)⟩
        | error stop c' =>
          rw [ended] at later
          cases stop with
          | refused e => exact ⟨begun.spans.breaks later.1, later.2⟩
          | exhausted => trivial
      · simp only [ate]
        exact ⟨[c.current], by simp, read⟩
    · rw [if_neg checked]
      exact ⟨c.breaks_atParameter _, rfl, by simp⟩

theorem builds_parameters (n : Nat) :
    (parameters n #[]).Builds inside (fun params sites => .function params ∈ sites) c := by
  intro _
  have read := parameters_names n #[] c
  cases ended : parameters n #[] c with
  | ok all c' =>
    rw [ended] at read
    obtain ⟨more, rfl, names⟩ := read
    exact ⟨_, names.spans_function, by simp⟩
  | error stop c' =>
    rw [ended] at read
    cases stop <;> exact read

theorem builds_noParameters :
    (pure [] : Parser (List Token)).Builds inside (fun params sites => .function params ∈ sites) c :=
  fun _ => ⟨_, (Cursor.Takes.refl c).names.spans_function, by simp⟩

section Parts

variable {expression : Parser Expr} {line statement : Parser Stmt} {before : List Site}

theorem builds_some (part : ∀ c, expression.Builds inside (Expr.Built inside .lowest) c) :
    (some <$> expression).Builds inside
      (fun e? sites => ∀ e ∈ e?, e.Built inside .lowest sites) c :=
  (part c).map fun e sites built => by rintro _ ⟨⟩; exact built

/-- An expression that may be missing. -/
theorem builds_optional_bind {next : Option Expr → Parser α}
    (part : ∀ c, expression.Builds inside (Expr.Built inside .lowest) c) (missing : Bool)
    (later : ∀ e? sites c, (∀ e ∈ e?, e.Built inside .lowest sites) →
      (next e?).Builds inside (fun a more => V a (sites ++ more)) c) :
    (if missing then pure none >>= next else (some <$> expression) >>= next).Builds inside V c := by
  cases missing with
  | true => exact later none [] c (by simp)
  | false => exact (builds_some part).bind later

theorem built_var {name : Token} {e? : Option Expr} {sites : List Site}
    (built : ∀ e ∈ e?, e.Built inside .lowest sites) : (Stmt.var name e?).Built inside sites where
  wellBuilt := .var fun e given => (built e given).wellBuilt
  sites := by
    cases e? with
    | none => exact List.nil_subset _
    | some e => exact (built e rfl).sites

theorem builds_varDeclaration (part : ∀ c, expression.Builds inside (Expr.Built inside .lowest) c) :
    (varDeclaration expression).Builds inside (Stmt.BuiltAs true inside) c := by
  apply (builds_consume _ rfl (by simp)).past
  intro name c _
  have rest (e? : Option Expr) (sites : List Site) (c : Cursor)
      (built : ∀ e ∈ e?, e.Built inside .lowest sites) : (do
        let _ ← expect .semicolon "after variable declaration."
        return Stmt.var name e?).Builds inside
          (fun s more => Stmt.BuiltAs true inside s (sites ++ more)) c :=
    (builds_expect _ _).past fun _ _ _ =>
      builds_pure ⟨rfl, by simpa using built_var built⟩
  apply (builds_eat .equal).past
  intro given c _
  cases given with
  | true => exact (builds_some part).bind rest
  | false => exact rest none [] c (by simp)

theorem builds_functionDeclaration (each : ∀ inside c, line.Builds inside (Stmt.Built inside) c)
    (n : Nat) :
    (functionDeclaration line n).Builds inside (fun f sites => f.toStmt.Built inside sites) c := by
  apply (builds_consume _ rfl (by simp)).past
  intro name c _
  apply (builds_expect _ _).past
  intro _ c _
  have rest (params : List Token) (sites : List Site) (c : Cursor)
      (told : .function params ∈ sites) : (do
      let _ ← expect .rightParen "after parameters."
      let _ ← expect .leftBrace "before function body."
      let body ← insideFunction (block line n)
      return FunctionDecl.mk name params body).Builds inside
        (fun f more => Stmt.Built inside (FunctionDecl.toStmt f) (sites ++ more)) c := by
    apply (builds_expect _ _).past
    intro _ c _
    apply (builds_expect _ _).past
    intro _ c _
    apply (builds_insideFunction (builds_block (each true) n)).bind
    intro body more c built
    refine builds_pure ⟨.function fun s member => (built s member).wellBuilt, ?_⟩
    rw [List.append_nil]
    exact List.cons_subset.mpr ⟨List.mem_append_left _ told, List.subset_append_of_subset_right _
      (Stmt.allSites_subset fun s member => (built s member).sites)⟩
  apply builds_check_bind
  split
  · exact builds_noParameters.bind rest
  · exact (builds_parameters n).bind rest

theorem builds_listLiteral (part : ∀ c, expression.Builds inside (Expr.Built inside .lowest) c)
    (n : Nat) : (listLiteral expression n).Builds inside (Expr.Built inside .call) c := by
  apply (builds_expect _ _).past
  intro bracket c _
  apply (builds_itemsBefore part _ n).bind
  intro elements sites c built
  refine (builds_expect _ _).past fun _ _ _ => builds_pure ⟨?_, Nat.le_refl _, ?_⟩
  · exact .list fun e member => (built e member).wellBuilt
  · rw [List.append_nil]
    exact Expr.allSites_subset fun e member => (built e member).sites

theorem builds_objectMembers (part : ∀ c, expression.Builds inside (Expr.Built inside .lowest) c)
    (each : ∀ inside c, line.Builds inside (Stmt.Built inside) c) (n m : Nat) {members : Array Stmt}
    (earlier : ∀ s ∈ members.toList, s.BuiltAs true inside before) :
    (objectMembers expression line n m members).Builds inside
      (fun all sites => ∀ s ∈ all, s.BuiltAs true inside (before ++ sites)) c := by
  induction m generalizing members before c with
  | zero => exact builds_exhausted
  | succ m ih =>
    have later (sites : List Site) (s : Stmt) (c : Cursor)
        (known : s.BuiltAs true inside sites) :
        (objectMembers expression line n m (members.push s)).Builds inside
          (fun all more => ∀ s ∈ all, s.BuiltAs true inside (before ++ (sites ++ more))) c := by
      have all := all_push_told (P := Stmt.BuiltAs true inside) Stmt.BuiltAs.mono earlier known
      simpa only [List.append_assoc] using ih (c := c) all
    unfold objectMembers
    apply builds_check_bind
    apply builds_atEnd_bind
    split
    · exact (builds_expect _ _).past fun _ _ _ => builds_pure (by simpa using earlier)
    · apply (builds_eat .varWord).past
      intro isVar c _
      split
      · exact (builds_varDeclaration part).bind fun s sites c known => later sites s c known
      · apply (builds_eat .funWord).past
        intro isFun c _
        split
        · exact (builds_functionDeclaration each n).bind fun f sites c built =>
            later sites f.toStmt c ⟨rfl, built⟩
        · exact builds_current_bind (builds_refuse ⟨rfl, by simp⟩)

theorem builds_objectLiteral (part : ∀ c, expression.Builds inside (Expr.Built inside .lowest) c)
    (each : ∀ inside c, line.Builds inside (Stmt.Built inside) c) (n : Nat) :
    (objectLiteral expression line n).Builds inside (Expr.Built inside .call) c := by
  apply (builds_expect _ _).past
  intro brace c _
  have none : ∀ s ∈ (#[] : Array Stmt).toList, s.BuiltAs true inside [] := by simp
  apply (builds_objectMembers part each n n none).bind
  intro members sites c known
  refine builds_pure ⟨?_, Nat.le_refl _, ?_⟩
  · exact .object (fun s member => (known s member).1) fun s member => (known s member).2.wellBuilt
  · rw [List.append_nil]
    exact Stmt.allSites_subset fun s member => (known s member).2.sites

theorem builds_literal (value : Constant) :
    (literal value).Builds inside (Expr.Built inside .call) c :=
  builds_advance.past fun _ _ _ => builds_pure ⟨.literal, Nat.le_refl _, List.nil_subset _⟩

theorem builds_primary (part : ∀ c, expression.Builds inside (Expr.Built inside .lowest) c)
    (each : ∀ inside c, line.Builds inside (Stmt.Built inside) c) (n : Nat) :
    (primary expression line n).Builds inside (Expr.Built inside .call) c := by
  apply builds_current_bind
  split
  case h_1 | h_2 | h_3 => exact builds_literal _
  case h_4 => split <;> exact builds_literal _
  case h_5 kind =>
    split
    · exact builds_literal _
    · exact builds_refuse ⟨rfl, fun _ => kind⟩
  case h_6 =>
    exact builds_advance.past fun _ _ _ =>
      builds_pure ⟨.variable, Nat.le_refl _, List.nil_subset _⟩
  case h_7 =>
    apply builds_advance.past
    intro _ c _
    apply (part c).bind
    intro inner sites c built
    exact (builds_expect _ _).past fun _ _ _ =>
      builds_pure ⟨.grouping built.wellBuilt, Nat.le_refl _, by simpa [Expr.sites] using built.sites⟩
  case h_8 => exact builds_listLiteral part n
  case h_9 => exact builds_objectLiteral part each n
  case h_10 => exact builds_refuse ⟨rfl, by simp⟩

/-- Calls, indexing and member access bind tightly. -/
theorem builds_suffixes (part : ∀ c, expression.Builds inside (Expr.Built inside .lowest) c)
    (n m : Nat) {e : Expr} (built : e.Built inside .call before) :
    (suffixes expression n m e).Builds inside
      (fun e sites => e.Built inside .call (before ++ sites)) c := by
  induction m generalizing e before c with
  | zero => exact builds_exhausted
  | succ m ih =>
    have later {sites : List Site} {e' : Expr} {c : Cursor} (wellBuilt : e'.WellBuilt)
        (tight : e'.Binds .call) (told : e'.sites inside ⊆ before ++ sites) :
        (suffixes expression n m e').Builds inside
          (fun e more => e.Built inside .call (before ++ (sites ++ more))) c := by
      simpa only [List.append_assoc] using ih (c := c) ⟨wellBuilt, tight, told⟩
    apply (builds_eat .leftParen).past
    intro isCall c _
    split
    · apply (builds_itemsBefore part _ n).bind
      intro args sites c known
      apply (builds_expect _ _).past
      intro paren c _
      refine later ?_ (Nat.le_refl _) ?_
      · exact .call built.wellBuilt fun e member => (known e member).wellBuilt
      · exact append_sites_subset built.sites
          (Expr.allSites_subset fun e member => (known e member).sites)
    · apply (builds_eat? _).past
      intro bracket? c _
      cases bracket? with
      | some bracket =>
        apply (part c).bind
        intro position sites c inner
        apply (builds_expect _ _).past
        intro _ c _
        exact later (.index built.wellBuilt inner.wellBuilt) (Nat.le_refl _)
          (append_sites_subset built.sites inner.sites)
      | none =>
        apply (builds_eat? _).past
        intro dot? c _
        cases dot? with
        | some dot =>
          apply (builds_consume _ rfl (by simp)).past
          intro member c _
          exact ih ⟨.access built.wellBuilt, Nat.le_refl _, built.sites⟩
        | none => exact builds_pure (by simpa using built)

/-- Operators of one level are applied from the left, so what they yield binds at that level. -/
theorem builds_applications (operation : Operation level operand operators)
    (part : ∀ c, expression.Builds inside (Expr.Built inside operand) c) (n : Nat) {left : Expr}
    (built : left.Built inside level before) :
    (applications operators expression n left).Builds inside
      (fun e sites => e.Built inside level (before ++ sites)) c := by
  induction n generalizing left before c with
  | zero => exact builds_exhausted
  | succ n ih =>
    apply (builds_eat? operators).past
    intro op? c found
    cases op? with
    | some op =>
      have among : op.kind ∈ operators := found op rfl
      apply (part c).bind
      intro right sites c onRight
      have applied : Expr.Built inside level (.binary left op right) (before ++ sites) :=
        ⟨.binary operation among built.binds onRight.binds built.wellBuilt onRight.wellBuilt,
          Nat.le_of_eq (looseness_operator operation among),
          append_sites_subset built.sites onRight.sites⟩
      simpa only [List.append_assoc] using ih (c := c) applied
    | none => exact builds_pure (by simpa using built)

/-- The operation made up for `+=` and `-=`. -/
theorem built_assignment {target value : Expr} {op : Token} {sites more : List Site}
    (assignable : target.isAssignable = true) (onTarget : target.Built inside .or sites)
    (onValue : value.Built inside .assignment more) :
    (assignment target op value).Built inside .assignment (sites ++ more) := by
  have both := append_sites_subset onTarget.sites onValue.sites
  have compounded {sign : Token.Kind} {operand : Level} {operators : List Token.Kind}
      (operator : Token.Kind.Compounds op.kind sign) (operation : Operation .sum operand operators)
      (among : sign ∈ operators) :
      (Expr.assign target (.binary target (.synthetic sign op) value)).Built inside .assignment
        (sites ++ more) := by
    refine ⟨.compound assignable operator operation among (Expr.binds_of_isAssignable assignable _)
      onTarget.wellBuilt onValue.wellBuilt, Nat.le_refl _, ?_⟩
    exact List.append_subset.mpr ⟨List.subset_append_of_subset_left _ onTarget.sites, both⟩
  unfold assignment
  split
  case h_1 kind => exact compounded (kind ▸ .plus) .sum (by simp)
  case h_2 kind => exact compounded (kind ▸ .minus) .sum (by simp)
  case h_3 => exact ⟨.assign assignable onTarget.wellBuilt onValue.wellBuilt, Nat.le_refl _, both⟩

theorem builds_expressionStatement
    (part : ∀ c, expression.Builds inside (Expr.Built inside .lowest) c) :
    (expressionStatement expression).Builds inside (Stmt.BuiltAs false inside) c := by
  apply (part c).bind
  intro value sites c built
  exact (builds_expect _ _).past fun _ _ _ =>
    builds_pure ⟨rfl, .expression built.wellBuilt, by simpa [Stmt.sites] using built.sites⟩

/-- A condition in parentheses after a keyword. -/
theorem builds_condition_bind {next : Expr → Parser α}
    (part : ∀ c, expression.Builds inside (Expr.Built inside .lowest) c) (opening closing : String)
    (later : ∀ e sites c, e.Built inside .lowest sites →
      (next e).Builds inside (fun a more => V a (sites ++ more)) c) : (do
      let _ ← advance
      let _ ← expect .leftParen opening
      let condition ← expression
      let _ ← expect .rightParen closing
      next condition).Builds inside V c := by
  apply builds_advance.past
  intro _ c _
  apply (builds_expect _ _).past
  intro _ c _
  apply (part c).bind
  intro condition sites c built
  exact (builds_expect _ _).past fun _ c _ => later condition sites c built

theorem builds_branch (part : ∀ c, expression.Builds inside (Expr.Built inside .lowest) c)
    (inner : ∀ c, statement.Builds inside (Stmt.BuiltAs false inside) c) :
    (branch expression statement).Builds inside (Stmt.BuiltAs false inside) c := by
  apply builds_condition_bind part
  intro condition sites c onCondition
  apply (inner c).bind
  rintro thenBranch more c ⟨thenInner, onThen⟩
  have both := append_sites_subset onCondition.sites onThen.sites
  apply (builds_eat .elseWord).past
  intro given c _
  cases given with
  | true =>
    apply (inner c).bind
    rintro elseBranch further c ⟨elseInner, onElse⟩
    refine builds_pure ⟨rfl, .branch thenInner ?_ onCondition.wellBuilt onThen.wellBuilt ?_, ?_⟩
    · rintro _ ⟨⟩; exact elseInner
    · rintro _ ⟨⟩; exact onElse.wellBuilt
    · simpa [Stmt.sites] using append_sites_subset both onElse.sites
  | false =>
    refine builds_pure ⟨rfl, .branch thenInner (by simp) onCondition.wellBuilt onThen.wellBuilt
      (by simp), ?_⟩
    simpa [Stmt.sites] using both

theorem builds_whileLoop (part : ∀ c, expression.Builds inside (Expr.Built inside .lowest) c)
    (inner : ∀ c, statement.Builds inside (Stmt.BuiltAs false inside) c) :
    (whileLoop expression statement).Builds inside (Stmt.BuiltAs false inside) c := by
  apply builds_condition_bind part
  intro condition sites c onCondition
  apply (inner c).bind
  rintro body more c ⟨bodyInner, onBody⟩
  refine builds_pure ⟨rfl, .loop bodyInner onCondition.wellBuilt onBody.wellBuilt, ?_⟩
  simpa [Stmt.sites] using append_sites_subset onCondition.sites onBody.sites

theorem built_loopOf {keyword : Token} {initializer : Option Stmt} {condition increment : Option Expr}
    {body : Stmt} {sites : List Site} (onInitializer : ∀ s ∈ initializer, s.Built inside sites)
    (onCondition : ∀ e ∈ condition, e.Built inside .lowest sites)
    (onIncrement : ∀ e ∈ increment, e.Built inside .lowest sites)
    (onBody : body.BuiltAs false inside sites) :
    (loopOf keyword initializer condition increment body).BuiltAs false inside sites := by
  have test : (condition.getD
      (.literal (.bool true) (.synthetic .trueWord keyword))).Built inside .lowest sites := by
    cases condition with
    | none => exact ⟨.literal, Nat.le_of_ble_eq_true rfl, List.nil_subset _⟩
    | some e => exact onCondition e rfl
  have loop : Stmt.BuiltAs false inside (loopOf keyword none condition increment body) sites := by
    cases increment with
    | none =>
      exact ⟨rfl, .loop onBody.1 test.wellBuilt onBody.2.wellBuilt,
        List.append_subset.mpr ⟨test.sites, onBody.2.sites⟩⟩
    | some e =>
      have step := onIncrement e rfl
      refine ⟨rfl, .loop rfl test.wellBuilt (.block ?_), List.append_subset.mpr ⟨test.sites, ?_⟩⟩
      · simpa using ⟨onBody.2.wellBuilt, .expression step.wellBuilt⟩
      · apply Stmt.allSites_subset
        simpa [Stmt.sites] using ⟨onBody.2.sites, step.sites⟩
  cases initializer with
  | none => exact loop
  | some s =>
    have first := onInitializer s rfl
    refine ⟨rfl, .block ?_, Stmt.allSites_subset ?_⟩
    · simpa using ⟨first.wellBuilt, loop.2.wellBuilt⟩
    · simpa using ⟨first.sites, loop.2.sites⟩

theorem builds_loopInitializer
    (part : ∀ c, expression.Builds inside (Expr.Built inside .lowest) c) :
    (loopInitializer expression).Builds inside
      (fun s? sites => ∀ s ∈ s?, s.Built inside sites) c := by
  apply (builds_eat .semicolon).past
  intro missing c _
  cases missing with
  | true => exact builds_pure (by simp)
  | false =>
    apply (builds_eat .varWord).past
    intro isVar c _
    cases isVar with
    | true =>
      exact (builds_varDeclaration part).map fun s sites built => by rintro _ ⟨⟩; exact built.2
    | false =>
      exact (builds_expressionStatement part).map fun s sites built => by
        rintro _ ⟨⟩; exact built.2

theorem builds_forLoop (part : ∀ c, expression.Builds inside (Expr.Built inside .lowest) c)
    (inner : ∀ c, statement.Builds inside (Stmt.BuiltAs false inside) c) :
    (forLoop expression statement).Builds inside (Stmt.BuiltAs false inside) c := by
  apply builds_advance.past
  intro keyword c _
  apply (builds_expect _ _).past
  intro _ c _
  apply (builds_loopInitializer part).bind
  intro initializer first c onInitializer
  apply builds_check_bind
  apply builds_optional_bind part
  intro condition second c onCondition
  apply (builds_expect _ _).past
  intro _ c _
  apply builds_check_bind
  apply builds_optional_bind part
  intro increment third c onIncrement
  apply (builds_expect _ _).past
  intro _ c _
  apply (inner c).bind
  intro body fourth c onBody
  apply builds_pure
  exact built_loopOf (fun s given => (onInitializer s given).mono (by simp))
    (fun e given => (onCondition e given).mono (by simp))
    (fun e given => (onIncrement e given).mono fun x member => by simp [member])
    (onBody.mono fun x member => by simp [member])

/-- A return statement is told by its keyword. -/
theorem spans_keyword (unended : c.atEnd = false) :
    c.Spans (if c.inFunction then c.advance else c.advance.report .topLevelReturn c.current)
      [.returns c.inFunction c.current] := by
  have passes := Cursor.takes_advance_of_unended unended
  have kind : c.current.kind ≠ .eof := by simpa [Cursor.atEnd] using unended
  cases within : c.inFunction with
  | true =>
    refine ⟨_, _, passes, by simp, ?_⟩
    intro x member
    obtain rfl := List.mem_singleton.mp member
    exact ⟨by simpa [Site.tokens] using kind, by simp [Site.tokens], by simp [Site.errors, Site.due],
      fun _ => rfl⟩
  | false =>
    have noted := passes.trans (c.advance.takes_report .topLevelReturn c.current)
    rw [List.append_nil, List.nil_append] at noted
    refine ⟨_, _, noted, by simp, ?_⟩
    intro x member
    obtain rfl := List.mem_singleton.mp member
    exact ⟨by simpa [Site.tokens] using kind, by simp [Site.tokens], List.infix_rfl,
      fun _ => by simp [Site.concerns, Site.cause, Site.tokens, Site.errors, Site.due]⟩

theorem built_returns {keyword : Token} {e? : Option Expr} {sites : List Site}
    (built : ∀ e ∈ e?, e.Built inside .lowest sites) :
    (Stmt.returns keyword e?).Built inside (.returns inside keyword :: sites) where
  wellBuilt := .returns fun e given => (built e given).wellBuilt
  sites := by
    cases e? with
    | none => exact List.cons_subset_cons _ (List.nil_subset _)
    | some e => exact List.cons_subset_cons _ (built e rfl).sites

theorem builds_returnStatement (unended : c.atEnd = false)
    (part : ∀ c, expression.Builds inside (Expr.Built inside .lowest) c) :
    (returnStatement expression).Builds inside (Stmt.BuiltAs false inside) c := by
  intro here
  have told := spans_keyword unended
  have ran : returnStatement expression c = (do
      let value ← if ← check .semicolon then pure none else some <$> expression
      let _ ← expect .semicolon "after return value."
      return Stmt.returns c.current value)
        (if c.inFunction then c.advance else c.advance.report .topLevelReturn c.current) := by
    have passed : advance c = .ok c.current c.advance := by
      rw [← Cursor.previous_advance_of_unended unended]
      rfl
    have depth : c.advance.inFunction = c.inFunction := by simp [Cursor.inFunction]
    have seen : (get : Parser Cursor) c.advance = .ok c.advance c.advance := rfl
    rw [returnStatement, bind_apply, passed]
    dsimp only
    rw [bind_apply, seen]
    dsimp only
    rw [depth]
    cases c.inFunction <;> rfl
  apply Builds.from told ran _ here
  apply builds_check_bind
  apply builds_optional_bind part
  intro value sites c' built
  refine (builds_expect _ _).past fun _ _ _ => builds_pure ⟨rfl, ?_⟩
  rw [here]
  simpa using built_returns built

end Parts

/-- What the parsers of expressions, lines and statements build. -/
structure BuildsAt (n : Nat) : Prop where
  expression : ∀ inside level c, (expression n level).Builds inside (Expr.Built inside level) c
  line : ∀ inside c, (line n).Builds inside (Stmt.Built inside) c
  statement : ∀ inside c, (statement n).Builds inside (Stmt.BuiltAs false inside) c

theorem builds_assignmentLevel (h : BuildsAt n) :
    (expression (n + 1) .assignment).Builds inside (Expr.Built inside .assignment) c := by
  apply (h.expression inside .or c).bind
  intro target sites c onTarget
  have bare : target.Built inside .assignment sites :=
    ⟨onTarget.wellBuilt, Nat.le_succ_of_le onTarget.binds, onTarget.sites⟩
  apply (builds_eat? _).past
  intro op? c _
  cases op? with
  | none => exact builds_pure (by simpa using bare)
  | some op =>
    apply (h.expression inside .assignment c).bind
    intro value more c onValue
    by_cases assignable : target.isAssignable = true
    · rw [if_pos assignable]
      exact builds_pure (by simpa using built_assignment assignable onTarget onValue)
    · rw [if_neg assignable]
      exact (builds_report rfl _).past fun _ _ _ => builds_pure (bare.mono (by simp))

theorem builds_operation (h : BuildsAt n) (operation : Operation level operand operators)
    (first : ∀ c, (expression (n + 1) operand).Builds inside (Expr.Built inside operand) c)
    (notProduct : level ≠ .product) :
    (expression (n + 1) level).Builds inside (Expr.Built inside level) c := by
  rw [expression_operation operation notProduct]
  apply (first c).bind
  intro left sites c built
  have loose : left.Built inside level sites :=
    ⟨built.wellBuilt, Nat.le_of_lt (built.binds.tighter operation), built.sites⟩
  exact builds_applications operation (h.expression inside operand) n loose

theorem builds_product (h : BuildsAt n) :
    (expression (n + 1) .product).Builds inside (Expr.Built inside .product) c := by
  rw [expression_product]
  apply (h.expression inside .unary c).bind
  intro left sites c built
  have loose : left.Built inside .product sites :=
    ⟨built.wellBuilt, Nat.le_succ_of_le built.binds, built.sites⟩
  exact builds_applications .product (h.expression inside .unary) n loose

theorem builds_expression_succ (h : BuildsAt n) (level : Level) :
    (expression (n + 1) level).Builds inside (Expr.Built inside level) c := by
  have product (c : Cursor) : (expression (n + 1) .product).Builds inside _ c := builds_product h
  have sum (c : Cursor) : (expression (n + 1) .sum).Builds inside _ c :=
    builds_operation h .sum product (by simp)
  have comparison (c : Cursor) : (expression (n + 1) .comparison).Builds inside _ c :=
    builds_operation h .comparison sum (by simp)
  have equality (c : Cursor) : (expression (n + 1) .equality).Builds inside _ c :=
    builds_operation h .equality comparison (by simp)
  have and (c : Cursor) : (expression (n + 1) .and).Builds inside _ c :=
    builds_operation h .and equality (by simp)
  cases level with
  | assignment => exact builds_assignmentLevel h
  | lowest =>
    have same : expression (n + 1) .lowest = expression (n + 1) .assignment := by
      simp only [expression]
    rw [same]
    exact (builds_assignmentLevel h).mono fun _ _ built => ⟨built.wellBuilt, built.binds, built.sites⟩
  | or => exact builds_operation h .or and (by simp)
  | and => exact and c
  | equality => exact equality c
  | comparison => exact comparison c
  | sum => exact sum c
  | product => exact product c
  | unary =>
    apply (builds_eat? _).past
    intro op? c found
    cases op? with
    | some op =>
      apply (h.expression inside .unary c).bind
      intro operand sites c built
      exact builds_pure ⟨.unary (found op rfl) built.wellBuilt, Nat.le_refl _,
        by simpa [Expr.sites] using built.sites⟩
    | none =>
      exact (h.expression inside .call c).mono fun _ _ built =>
        ⟨built.wellBuilt, built.binds, built.sites⟩
  | call =>
    apply (builds_primary (h.expression inside .lowest) h.line n).bind
    intro first sites c built
    exact builds_suffixes (h.expression inside .lowest) n n built

theorem builds_line_succ (h : BuildsAt n) : (line (n + 1)).Builds inside (Stmt.Built inside) c := by
  apply (builds_eat .varWord).past
  intro isVar c _
  cases isVar with
  | true =>
    exact (builds_varDeclaration (h.expression inside .lowest)).mono fun _ _ built => built.2
  | false =>
    apply (builds_eat .funWord).past
    intro isFun c _
    cases isFun with
    | true =>
      exact (builds_functionDeclaration h.line n).map fun _ _ built => built
    | false => exact (h.statement inside c).mono fun _ _ built => built.2

theorem builds_statement_succ (h : BuildsAt n) :
    (statement (n + 1)).Builds inside (Stmt.BuiltAs false inside) c := by
  apply builds_current_bind
  split
  case h_1 =>
    apply builds_advance.past
    intro _ c _
    apply (builds_block (h.line inside) n).bind
    intro body sites c built
    refine builds_pure ⟨rfl, .block fun s member => (built s member).wellBuilt, ?_⟩
    rw [List.append_nil]
    exact Stmt.allSites_subset fun s member => (built s member).sites
  case h_2 => exact builds_branch (h.expression inside .lowest) (h.statement inside)
  case h_3 => exact builds_whileLoop (h.expression inside .lowest) (h.statement inside)
  case h_4 => exact builds_forLoop (h.expression inside .lowest) (h.statement inside)
  case h_5 kind =>
    exact builds_returnStatement (atEnd_of_kind kind (by simp)) (h.expression inside .lowest)
  case h_6 => exact builds_expressionStatement (h.expression inside .lowest)

theorem buildsAt (n : Nat) : BuildsAt n := by
  induction n with
  | zero =>
    exact ⟨fun _ _ _ => builds_exhausted, fun _ _ => builds_exhausted, fun _ _ => builds_exhausted⟩
  | succ n ih =>
    exact ⟨fun _ level _ => builds_expression_succ ih level, fun _ _ => builds_line_succ ih,
      fun _ _ => builds_statement_succ ih⟩

theorem builds_lines {line : Parser Stmt} {before : List Site}
    (each : ∀ c, line.Builds inside (Stmt.Built inside) c) (n : Nat) {done : Array Stmt}
    (earlier : ∀ s ∈ done.toList, s.Built inside before) :
    (lines line n done).Builds inside
      (fun p sites => ∀ s ∈ p, s.Built inside (before ++ sites)) c := by
  induction n generalizing done before c with
  | zero => exact builds_exhausted
  | succ n ih =>
    apply builds_atEnd_bind
    split
    · exact builds_pure (by simpa using earlier)
    · apply (builds_recover (each c)).bind
      intro recovered sites c built
      have known := built_recovered earlier built
      cases recovered <;>
        simpa only [Option.elim_none, Option.elim_some, List.append_assoc] using ih (c := c) known

/-- Reading a whole program builds its lines. -/
theorem builds_allLines (c : Cursor) :
    (bounded fun n => lines (line n) n #[]).Builds inside
      (fun p sites => ∀ s ∈ p, s.Built inside sites) c := by
  have none : ∀ s ∈ (#[] : Array Stmt).toList, s.Built inside [] := by simp
  exact builds_bounded fun n => builds_lines ((buildsAt n).line inside) n none

theorem Token.sentence_sublist (tokens : List Token) : (Token.sentence tokens).Sublist tokens := by
  unfold Token.sentence Token.significant
  exact List.filter_sublist.trans (List.takeWhile_sublist _)

/-- The lines of a program are built, and its errors tell of their places. -/
theorem ofTokens_built (tokens : List Token) :
    (∀ s ∈ (ofTokens tokens).statements, s.WellBuilt) ∧ ∃ passed, passed.Sublist tokens ∧
      ∀ x ∈ Stmt.allSites false (ofTokens tokens).statements,
        x.Told passed (ofTokens tokens).errors := by
  obtain ⟨p, c, ran⟩ := lines_ran tokens
  have built := builds_allLines (Cursor.ofTokens tokens) (inFunction_ofTokens tokens)
  rw [ran] at built
  obtain ⟨sites, ⟨passed, noted, takes, accounts⟩, known⟩ := built
  have errors : c.errors.toList = noted := by
    rw [takes.errors, errors_ofTokens]
    rfl
  rw [ofTokens_of_lines ran]
  refine ⟨fun s member => (known s member).wellBuilt, passed, ?_, ?_⟩
  · have ahead := takes.ahead
    rw [Cursor.ahead_ofTokens] at ahead
    have first : passed.Sublist (Token.sentence tokens) := ahead ▸ List.sublist_append_left ..
    exact first.trans (Token.sentence_sublist tokens)
  · intro x member
    have all : Stmt.allSites false p ⊆ sites :=
      Stmt.allSites_subset fun s member => (known s member).sites
    exact errors ▸ accounts.told x (all member)

/-- Every tree is well built, also between errors: targets can be assigned, operators stand between
operands that bind tightly enough, objects hold declarations, and branches and bodies of loops are
none. A line or statement leaves the depth of functions as it was, whether it was read or refused. A
function has an error in a row for each parameter too many, and a return statement outside all
functions is an error; when no token is met twice, as in the tokens of a text, the errors at the tokens
of such a place are its own, and so a return statement inside a function is none. -/
theorem trees_well_built (tokens : List Token) :
    (∀ s ∈ (ofTokens tokens).statements, s.WellBuilt) ∧
    (∀ n c, (line n).Orderly c ∧ (recover (line n)).Orderly c ∧ (statement n).Orderly c) ∧
    (∀ params, .function params ∈ Stmt.allSites false (ofTokens tokens).statements →
      (params.drop maxParameters).map (⟨.tooManyParameters, ·⟩) <:+: (ofTokens tokens).errors) ∧
    (∀ keyword, .returns false keyword ∈ Stmt.allSites false (ofTokens tokens).statements →
      ⟨.topLevelReturn, keyword⟩ ∈ (ofTokens tokens).errors) ∧
    (tokens.Nodup → ∀ x ∈ Stmt.allSites false (ofTokens tokens).statements,
      (ofTokens tokens).errors.filter x.concerns = x.errors) ∧
    (tokens.Nodup → ∀ inside keyword,
      .returns inside keyword ∈ Stmt.allSites false (ofTokens tokens).statements →
      (⟨.topLevelReturn, keyword⟩ ∈ (ofTokens tokens).errors ↔ inside = false)) ∧
    ∀ source, (Token.tokenize source).Nodup := by
  obtain ⟨wellBuilt, passed, sub, told⟩ := ofTokens_built tokens
  refine ⟨wellBuilt, ?_, ?_, ?_, ?_, ?_, Token.nodup_tokenize⟩
  · intro n c
    have orderly := orderlyAt n
    exact ⟨orderly.line c, orderly_recover (orderly.line c), orderly.statement c⟩
  · exact fun params member => (told _ member).due
  · intro keyword member
    exact (told _ member).due.subset (List.mem_singleton_self _)
  · exact fun once x member => (told x member).only (once.sublist sub)
  · intro once inside keyword member
    have own := (told _ member).only (once.sublist sub)
    have concerned : (Site.returns inside keyword).concerns ⟨.topLevelReturn, keyword⟩ = true := by
      simp [Site.concerns, Site.cause, Site.tokens]
    calc _ ↔ _ ∈ (ofTokens tokens).errors.filter (Site.returns inside keyword).concerns := by
          rw [List.mem_filter, concerned, and_iff_left rfl]
      _ ↔ inside = false := by
          rw [own]
          cases inside <;> simp [Site.errors, Site.due, Site.cause]

/-- Two return statements outside all functions, one of them after an error, and one inside. -/
def astray : List Token :=
  Token.tokenize "return 1;\nfun f(a) \x7b x = ; return a; \x7d\nif (1 \x7b\nreturn;\ny += 1 or 2;"

theorem trees_well_built_astray : astray.Nodup ∧
    (ofTokens astray).errors.map (fun e => (e.cause, e.token.line)) =
      [(.topLevelReturn, 1), (.expectExpression, 2),
        (.expected .rightParen "after if condition.", 3), (.topLevelReturn, 4)] ∧
    (∀ s ∈ (ofTokens astray).statements, s.WellBuilt) ∧
    ∀ inside keyword, .returns inside keyword ∈ Stmt.allSites false (ofTokens astray).statements →
      (⟨.topLevelReturn, keyword⟩ ∈ (ofTokens astray).errors ↔ inside = false) := by
  have distinct : astray.Nodup := Token.nodup_tokenize _
  obtain ⟨wellBuilt, _, _, _, _, told, _⟩ := trees_well_built astray
  exact ⟨distinct, by decide +kernel, wellBuilt, told distinct⟩

end Parse

end SoftScript
