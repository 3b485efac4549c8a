import SoftScript.Proofs.Likeness.Parsing

/-! Laws of parsers. A law says something of cursors, of the tokens they show, and of the tokens that
trees bear: those shown, and those made up in their places. If passing a token, noting an error and
entering a function keep it, then so does every production of the grammar, however it ends; the
tokens it refuses are shown, and the trees it builds bear tokens of the law only. -/
namespace SoftScript

/-- Trees are alike to themselves in this way if their tokens have a property. -/
def Likeness.only (P : Token → Prop) : Likeness := ⟨fun t t' => t = t' ∧ P t, True, False, False⟩

namespace Likeness

variable {P : Token → Prop} {t : Token}

theorem only_place (h : P t) : (only P).place t t := ⟨rfl, h⟩

theorem only_name (h : P t) : (only P).name t t := ⟨only_place h, rfl⟩

theorem only_operator (h : P t) : (only P).operator known t t := ⟨only_place h, rfl, .inr rfl⟩

theorem only_names {ts : List Token} (h : ∀ t ∈ ts, P t) : List.Forall₂ (only P).name ts ts :=
  List.forall₂_same.mpr fun t member => only_name (h t member)

end Likeness

open Likeness

/-- All tokens of an expression have a property. -/
abbrev Expr.Bears (P : Token → Prop) (e : Expr) : Prop := Expr.Alike (only P) e e

/-- All tokens of a statement have a property. -/
abbrev Stmt.Bears (P : Token → Prop) (s : Stmt) : Prop := Stmt.Alike (only P) s s

theorem Expr.allAlike_of_bears {P : Token → Prop} {es : List Expr} (h : ∀ e ∈ es, e.Bears P) :
    Expr.AllAlike (only P) es es :=
  .of_related (List.forall₂_same.mpr h)

theorem Stmt.allAlike_of_bears {P : Token → Prop} {p : List Stmt} (h : ∀ s ∈ p, s.Bears P) :
    Stmt.AllAlike (only P) p p :=
  .of_related (List.forall₂_same.mpr h)

theorem Expr.optional_of_bears {P : Token → Prop} {e? : Option Expr} (h : ∀ e ∈ e?, e.Bears P) :
    Option.Rel (Expr.Alike (only P)) e? e? := by
  cases e? with
  | none => exact .none
  | some e => exact .some (h e rfl)

namespace Parse

/-- Something that holds of cursors and the tokens they show, and that every step keeps. -/
structure Law where
  cursor : Cursor → Prop
  token : Token → Prop
  borne : Token → Prop
  current : ∀ {c}, cursor c → token c.current
  advance : ∀ {c}, cursor c → cursor c.advance
  report : ∀ {c cause t}, cursor c → token t → cursor (c.report cause t)
  enterFunction : ∀ {c}, cursor c → cursor c.enterFunction
  leaveFunction : ∀ {c}, cursor c → cursor c.leaveFunction
  bears : ∀ {t}, token t → borne t
  synthetic : ∀ {kind t}, token t → borne (.synthetic kind t)

theorem Law.settle (law : Law) {c : Cursor} (here : law.cursor c) : law.cursor c.settle := by
  fun_induction Cursor.settle c with
  | case1 c ended => exact here
  | case2 c unended settled => exact here
  | case3 c unended unsettled ih => exact ih (law.advance here)

theorem Law.synchronize (law : Law) {c : Cursor} (here : law.cursor c) :
    law.cursor c.synchronize :=
  law.settle (law.advance here)

namespace Parser

variable {α β : Type} {law : Law} {V : α → Prop} {W : β → Prop} {p : Parser α} {c : Cursor}

/-- From a cursor on a parser keeps a law, and its result has a property. -/
def Keeps (law : Law) (V : α → Prop) (p : Parser α) (c : Cursor) : Prop :=
  law.cursor c → match p c with
    | .ok a c' => law.cursor c' ∧ V a
    | .error (.refused e) c' => law.cursor c' ∧ law.token e.token
    | .error .exhausted _ => True

theorem keeps_pure {a : α} (h : V a) : (pure a : Parser α).Keeps law V c :=
  fun here => ⟨here, h⟩

theorem keeps_exhausted : (exhausted : Parser α).Keeps law V c := fun _ => trivial

theorem keeps_refuse {t : Token} (cause : Cause) (h : law.token t) :
    (refuse cause t : Parser α).Keeps law V c :=
  fun here => ⟨here, h⟩

theorem Keeps.bind {next : α → Parser β} (first : p.Keeps law V c)
    (second : ∀ a c', V a → (next a).Keeps law W c') : (p >>= next).Keeps law W c := by
  intro here
  have kept := first here
  rw [bind_apply]
  cases ran : p c with
  | ok a c' =>
    rw [ran] at kept
    exact second a c' kept.2 kept.1
  | error stop c' =>
    rw [ran] at kept
    cases stop with
    | refused e => exact kept
    | exhausted => trivial

theorem Keeps.map {f : α → β} (h : p.Keeps law V c) (image : ∀ a, V a → W (f a)) :
    (f <$> p).Keeps law W c := by
  rw [map_eq_pure_bind]
  exact h.bind fun a _ valued => keeps_pure (image a valued)

theorem keeps_current_bind {next : Token → Parser α}
    (h : law.token c.current → (next c.current).Keeps law V c) :
    (current >>= next).Keeps law V c :=
  fun here => h (law.current here) here

theorem keeps_check_bind {next : Bool → Parser α} {kind : Token.Kind}
    (h : (next (c.check kind)).Keeps law V c) : (check kind >>= next).Keeps law V c := h

theorem keeps_atEnd_bind {next : Bool → Parser α} (h : (next c.atEnd).Keeps law V c) :
    (atEnd >>= next).Keeps law V c := h

theorem keeps_get_bind {next : Cursor → Parser α} (h : (next c).Keeps law V c) :
    ((get : Parser Cursor) >>= next).Keeps law V c := h

/-- Passing a token shows it, but at the end there is none to pass. -/
theorem keeps_advance : advance.Keeps law (fun t => c.atEnd = false → law.token t) c := by
  intro here
  refine ⟨law.advance here, ?_⟩
  intro unended
  have passed : c.advance.previous = c.current := by simp [Cursor.advance, unended]
  exact passed ▸ law.current here

theorem atEnd_of_check {kind : Token.Kind} (checked : c.check kind = true) : c.atEnd = false := by
  simp only [Cursor.check, Bool.and_eq_true, Bool.not_eq_true'] at checked
  exact checked.1

theorem keeps_eat? (kinds : List Token.Kind) :
    (eat? kinds).Keeps law (fun t? => ∀ t ∈ t?, law.token t) c := by
  intro here
  rw [eat?_apply]
  by_cases eaten : kinds.any c.check = true
  · rw [if_pos eaten]
    obtain ⟨kind, _, checked⟩ := List.any_eq_true.mp eaten
    have passed := (keeps_advance here).2 (atEnd_of_check checked)
    exact ⟨law.advance here, by rintro _ ⟨⟩; exact passed⟩
  · rw [if_neg eaten]
    exact ⟨here, by simp⟩

theorem keeps_eat (kind : Token.Kind) : (eat kind).Keeps law (fun _ => True) c :=
  (keeps_eat? [kind]).bind fun _ _ _ => keeps_pure trivial

theorem keeps_consume (kind : Token.Kind) (cause : Cause) :
    (consume kind cause).Keeps law law.token c := by
  intro here
  rw [consume_apply]
  by_cases checked : c.check kind = true
  · rw [if_pos checked]
    exact ⟨law.advance here, (keeps_advance here).2 (atEnd_of_check checked)⟩
  · rw [if_neg checked]
    exact ⟨here, law.current here⟩

theorem keeps_expect (kind : Token.Kind) (context : String) :
    (expect kind context).Keeps law law.token c :=
  keeps_consume kind _

theorem keeps_report {t : Token} (cause : Cause) (h : law.token t) :
    (report cause t).Keeps law (fun _ => True) c :=
  fun here => ⟨law.report here h, trivial⟩

theorem keeps_insideFunction (inner : ∀ c, p.Keeps law V c) :
    (insideFunction p).Keeps law V c := by
  intro here
  have kept := inner _ (law.enterFunction here)
  unfold insideFunction
  cases ran : p c.enterFunction with
  | ok a c' =>
    rw [ran] at kept
    exact ⟨law.leaveFunction kept.1, kept.2⟩
  | error stop c' =>
    rw [ran] at kept
    cases stop with
    | refused e => exact ⟨law.leaveFunction kept.1, kept.2⟩
    | exhausted => trivial

theorem keeps_recover (h : p.Keeps law V c) :
    (recover p).Keeps law (fun a? => ∀ a ∈ a?, V a) c := by
  intro here
  have kept := h here
  unfold recover
  cases ran : p c with
  | ok a c' =>
    rw [ran] at kept
    exact ⟨kept.1, by rintro _ ⟨⟩; exact kept.2⟩
  | error stop c' =>
    rw [ran] at kept
    cases stop with
    | refused e => exact ⟨law.synchronize (law.report kept.1 kept.2), by simp⟩
    | exhausted => trivial

theorem keeps_bounded {p : Nat → Parser α} (each : ∀ n, (p n).Keeps law V c) :
    (bounded p).Keeps law V c :=
  fun here => each _ here

end Parser

/-! The productions of the grammar. -/

open SoftScript.Parse.Parser

variable {α : Type} {law : Law} {V : α → Prop} {c : Cursor}

theorem all_push {items : Array α} {a : α} (before : ∀ b ∈ items.toList, V b) (new : V a) :
    ∀ b ∈ (items.push a).toList, V b := by
  intro b member
  rw [Array.toList_push, List.mem_append, List.mem_singleton] at member
  rcases member with earlier | rfl
  · exact before b earlier
  · exact new

theorem keeps_commaItems {item : Parser α} (each : ∀ c, item.Keeps law V c) (n : Nat)
    {items : Array α} (before : ∀ a ∈ items.toList, V a) :
    (commaItems item n items).Keeps law (fun l => ∀ a ∈ l, V a) c := by
  induction n generalizing items c with
  | zero => exact keeps_exhausted
  | succ n ih =>
    apply (each c).bind
    intro a c new
    apply (keeps_eat .comma).bind
    intro more c _
    cases more with
    | true => exact ih (all_push before new)
    | false => exact keeps_pure (all_push before new)

theorem keeps_itemsBefore {item : Parser α} (close : Token.Kind) (each : ∀ c, item.Keeps law V c)
    (n : Nat) : (itemsBefore close item n).Keeps law (fun l => ∀ a ∈ l, V a) c := by
  apply keeps_check_bind
  split
  · exact keeps_pure (by simp)
  · exact keeps_commaItems each n (by simp)

theorem keeps_parameters (n : Nat) {params : Array Token}
    (before : ∀ t ∈ params.toList, law.token t) :
    (parameters n params).Keeps law (fun ts => ∀ t ∈ ts, law.token t) c := by
  induction n generalizing params c with
  | zero => exact keeps_exhausted
  | succ n ih =>
    have rest (c : Cursor) : (do
        let params := params.push (← consume .identifier .expectParameterName)
        if ← eat .comma then parameters n params else return params.toList).Keeps law
          (fun ts => ∀ t ∈ ts, law.token t) c := by
      apply (keeps_consume _ _).bind
      intro t c new
      apply (keeps_eat .comma).bind
      intro more c _
      cases more with
      | true => exact ih (all_push before new)
      | false => exact keeps_pure (all_push before new)
    unfold parameters
    split
    · apply keeps_current_bind
      intro token
      exact (keeps_report _ token).bind fun _ c _ => rest c
    · exact rest c

theorem keeps_blockLines {line : Parser Stmt} (each : ∀ c, line.Keeps law (Stmt.Bears law.borne) c)
    (n : Nat) {done : Array Stmt} (before : ∀ s ∈ done.toList, s.Bears law.borne) :
    (blockLines line n done).Keeps law (fun p => ∀ s ∈ p, s.Bears law.borne) c := by
  induction n generalizing done c with
  | zero => exact keeps_exhausted
  | succ n ih =>
    unfold blockLines
    apply keeps_check_bind
    apply keeps_atEnd_bind
    split
    · exact (keeps_expect _ _).bind fun _ _ _ => keeps_pure before
    · apply (keeps_recover (each c)).bind
      intro recovered c new
      cases recovered with
      | none => exact ih before
      | some stmt => exact ih (all_push before (new stmt rfl))

theorem keeps_block {line : Parser Stmt} (each : ∀ c, line.Keeps law (Stmt.Bears law.borne) c)
    (n : Nat) : (block line n).Keeps law (fun p => ∀ s ∈ p, s.Bears law.borne) c :=
  keeps_blockLines each n (by simp)

section Parts

variable {expression : Parser Expr} {line statement : Parser Stmt}

theorem keeps_some (part : ∀ c, expression.Keeps law (Expr.Bears law.borne) c) :
    (some <$> expression).Keeps law (fun e? => ∀ e ∈ e?, e.Bears law.borne) c :=
  (part c).map fun e bears => by rintro _ ⟨⟩; exact bears

/-- An expression that may be missing. -/
theorem keeps_optional_bind {next : Option Expr → Parser α}
    (part : ∀ c, expression.Keeps law (Expr.Bears law.borne) c) (missing : Bool)
    (later : ∀ e? c, (∀ e ∈ e?, e.Bears law.borne) → (next e?).Keeps law V c) :
    (if missing then pure none >>= next else (some <$> expression) >>= next).Keeps law V c := by
  cases missing with
  | true => exact later none c (by simp)
  | false => exact (keeps_some part).bind later

theorem keeps_varDeclaration (part : ∀ c, expression.Keeps law (Expr.Bears law.borne) c) :
    (varDeclaration expression).Keeps law (Stmt.Bears law.borne) c := by
  apply (keeps_consume _ _).bind
  intro name c named
  have rest (e? : Option Expr) (c : Cursor) (initializer : ∀ e ∈ e?, e.Bears law.borne) : (do
      let _ ← expect .semicolon "after variable declaration."
      return Stmt.var name e?).Keeps law (Stmt.Bears law.borne) c :=
    (keeps_expect _ _).bind fun _ _ _ =>
      keeps_pure (.varOption (only_name (law.bears named)) (Expr.optional_of_bears initializer))
  apply (keeps_eat .equal).bind
  intro given c _
  cases given with
  | true => exact (keeps_some part).bind rest
  | false => exact rest none c (by simp)

theorem keeps_functionDeclaration (each : ∀ c, line.Keeps law (Stmt.Bears law.borne) c) (n : Nat) :
    (functionDeclaration line n).Keeps law (fun f => f.toStmt.Bears law.borne) c := by
  apply (keeps_consume _ _).bind
  intro name c named
  apply (keeps_expect _ _).bind
  intro _ c _
  have rest (params : List Token) (c : Cursor) (names : ∀ t ∈ params, law.token t) : (do
      let _ ← expect .rightParen "after parameters."
      let _ ← expect .leftBrace "before function body."
      let body ← insideFunction (block line n)
      return FunctionDecl.mk name params body).Keeps law
        (fun f => Stmt.Bears law.borne (FunctionDecl.toStmt f)) c := by
    apply (keeps_expect _ _).bind
    intro _ c _
    apply (keeps_expect _ _).bind
    intro _ c _
    apply (keeps_insideFunction fun c => keeps_block each n).bind
    intro body c bears
    exact keeps_pure (.function (only_name (law.bears named))
      (only_names fun t member => law.bears (names t member)) (Stmt.allAlike_of_bears bears))
  apply keeps_check_bind
  split
  · exact rest [] c (by simp)
  · exact (keeps_parameters n (by simp)).bind rest

theorem keeps_listLiteral (part : ∀ c, expression.Keeps law (Expr.Bears law.borne) c) (n : Nat) :
    (listLiteral expression n).Keeps law (Expr.Bears law.borne) c := by
  apply (keeps_expect _ _).bind
  intro bracket c token
  apply (keeps_itemsBefore _ part n).bind
  intro elements c bears
  exact (keeps_expect _ _).bind fun _ _ _ =>
    keeps_pure (.list (only_place (law.bears token)) (Expr.allAlike_of_bears bears))

theorem keeps_objectMembers (part : ∀ c, expression.Keeps law (Expr.Bears law.borne) c)
    (each : ∀ c, line.Keeps law (Stmt.Bears law.borne) c) (n m : Nat) {members : Array Stmt}
    (before : ∀ s ∈ members.toList, s.Bears law.borne) :
    (objectMembers expression line n m members).Keeps law (fun p => ∀ s ∈ p, s.Bears law.borne) c := by
  induction m generalizing members c with
  | zero => exact keeps_exhausted
  | succ m ih =>
    unfold objectMembers
    apply keeps_check_bind
    apply keeps_atEnd_bind
    split
    · exact (keeps_expect _ _).bind fun _ _ _ => keeps_pure before
    · apply (keeps_eat .varWord).bind
      intro isVar c _
      split
      · apply (keeps_varDeclaration part).bind
        intro member c bears
        exact ih (all_push before bears)
      · apply (keeps_eat .funWord).bind
        intro isFun c _
        split
        · apply (keeps_functionDeclaration each n).bind
          intro member c bears
          exact ih (all_push before bears)
        · exact keeps_current_bind fun token => keeps_refuse _ token

theorem keeps_objectLiteral (part : ∀ c, expression.Keeps law (Expr.Bears law.borne) c)
    (each : ∀ c, line.Keeps law (Stmt.Bears law.borne) c) (n : Nat) :
    (objectLiteral expression line n).Keeps law (Expr.Bears law.borne) c := by
  apply (keeps_expect _ _).bind
  intro brace c token
  apply (keeps_objectMembers part each n n (by simp)).bind
  intro members c bears
  exact keeps_pure (.object (only_place (law.bears token)) (Stmt.allAlike_of_bears bears))

/-- A token of a known kind is not the end. -/
theorem atEnd_of_kind {kind : Token.Kind} (known : c.current.kind = kind) (other : kind ≠ .eof) :
    c.atEnd = false := by
  simp [Cursor.atEnd, known, other]

theorem keeps_literal (value : Constant) (unended : c.atEnd = false) :
    (literal value).Keeps law (Expr.Bears law.borne) c :=
  keeps_advance.bind fun _ _ passed =>
    keeps_pure (.literal (only_place (law.bears (passed unended))))

theorem keeps_primary (part : ∀ c, expression.Keeps law (Expr.Bears law.borne) c)
    (each : ∀ c, line.Keeps law (Stmt.Bears law.borne) c) (n : Nat) :
    (primary expression line n).Keeps law (Expr.Bears law.borne) c := by
  apply keeps_current_bind
  intro token
  split
  case h_1 kind | h_2 kind | h_3 kind => exact keeps_literal _ (atEnd_of_kind kind (by decide))
  case h_4 kind =>
    have unended := atEnd_of_kind kind (by decide)
    split <;> exact keeps_literal _ unended
  case h_5 kind =>
    split
    · exact keeps_literal _ (atEnd_of_kind kind (by decide))
    · exact keeps_refuse _ token
  case h_6 kind =>
    have unended := atEnd_of_kind kind (by decide)
    exact keeps_advance.bind fun _ _ passed =>
      keeps_pure (.variable (only_name (law.bears (passed unended))))
  case h_7 kind =>
    apply keeps_advance.bind
    intro _ c _
    apply (part c).bind
    intro inner c bears
    exact (keeps_expect _ _).bind fun _ _ _ => keeps_pure (.keeps trivial bears)
  case h_8 kind => exact keeps_listLiteral part n
  case h_9 kind => exact keeps_objectLiteral part each n
  case h_10 => exact keeps_refuse _ token

theorem keeps_suffixes (part : ∀ c, expression.Keeps law (Expr.Bears law.borne) c) (n m : Nat)
    {e : Expr} (bears : e.Bears law.borne) :
    (suffixes expression n m e).Keeps law (Expr.Bears law.borne) c := by
  induction m generalizing e c with
  | zero => exact keeps_exhausted
  | succ m ih =>
    apply (keeps_eat .leftParen).bind
    intro isCall c _
    split
    · apply (keeps_itemsBefore _ part n).bind
      intro args c all
      apply (keeps_expect _ _).bind
      intro paren c token
      exact ih (.call bears (only_place (law.bears token)) (Expr.allAlike_of_bears all))
    · apply (keeps_eat? _).bind
      intro bracket? c found
      cases bracket? with
      | some bracket =>
        apply (part c).bind
        intro position c inner
        apply (keeps_expect _ _).bind
        intro _ c _
        exact ih (.index bears (only_place (law.bears (found bracket rfl))) inner)
      | none =>
        apply (keeps_eat? _).bind
        intro dot? c found
        cases dot? with
        | some dot =>
          apply (keeps_consume _ _).bind
          intro member c named
          exact ih (.access bears (only_place (law.bears (found dot rfl)))
            (only_name (law.bears named)))
        | none => exact keeps_pure bears

theorem keeps_applications (operators : List Token.Kind)
    (part : ∀ c, expression.Keeps law (Expr.Bears law.borne) c) (n : Nat) {left : Expr}
    (bears : left.Bears law.borne) :
    (applications operators expression n left).Keeps law (Expr.Bears law.borne) c := by
  induction n generalizing left c with
  | zero => exact keeps_exhausted
  | succ n ih =>
    apply (keeps_eat? operators).bind
    intro op? c found
    cases op? with
    | some op =>
      apply (part c).bind
      intro right c operand
      exact ih (.binary bears (only_operator (law.bears (found op rfl))) operand)
    | none => exact keeps_pure bears

theorem keeps_applicationsUpTo {operand : Level → Parser Expr}
    (part : ∀ level c, (operand level).Keeps law (Expr.Bears law.borne) c) (n : Nat)
    (levels : List Level) {left : Expr} (bears : left.Bears law.borne) :
    (applicationsUpTo operand n levels left).Keeps law (Expr.Bears law.borne) c := by
  induction levels generalizing left c with
  | nil => exact keeps_pure bears
  | cons level looser ih =>
    apply (keeps_applications level.operators (part level.next) n bears).bind
    intro left c bears
    exact ih bears

theorem bears_assignment {target value : Expr} {op : Token} (onTarget : target.Bears law.borne)
    (token : law.token op) (onValue : value.Bears law.borne) :
    (assignment target op value).Bears law.borne := by
  unfold assignment
  split
  · exact .assign onTarget rfl (.binary onTarget (only_operator (law.synthetic token)) onValue)
  · exact .assign onTarget rfl (.binary onTarget (only_operator (law.synthetic token)) onValue)
  · exact .assign onTarget rfl onValue

theorem keeps_expressionStatement (part : ∀ c, expression.Keeps law (Expr.Bears law.borne) c) :
    (expressionStatement expression).Keeps law (Stmt.Bears law.borne) c := by
  apply (part c).bind
  intro value c bears
  exact (keeps_expect _ _).bind fun _ _ _ => keeps_pure (.expression bears)

theorem keeps_branch (part : ∀ c, expression.Keeps law (Expr.Bears law.borne) c)
    (inner : ∀ c, statement.Keeps law (Stmt.Bears law.borne) c) :
    (branch expression statement).Keeps law (Stmt.Bears law.borne) c := by
  apply keeps_advance.bind
  intro _ c _
  apply (keeps_expect _ _).bind
  intro _ c _
  apply (part c).bind
  intro condition c onCondition
  apply (keeps_expect _ _).bind
  intro _ c _
  apply (inner c).bind
  intro thenBranch c onThen
  apply (keeps_eat .elseWord).bind
  intro given c _
  cases given with
  | true => exact (inner c).bind fun _ _ onElse => keeps_pure (.branches onCondition onThen onElse)
  | false => exact keeps_pure (.branch onCondition onThen)

theorem keeps_whileLoop (part : ∀ c, expression.Keeps law (Expr.Bears law.borne) c)
    (inner : ∀ c, statement.Keeps law (Stmt.Bears law.borne) c) :
    (whileLoop expression statement).Keeps law (Stmt.Bears law.borne) c := by
  apply keeps_advance.bind
  intro _ c _
  apply (keeps_expect _ _).bind
  intro _ c _
  apply (part c).bind
  intro condition c onCondition
  apply (keeps_expect _ _).bind
  intro _ c _
  exact (inner c).bind fun _ _ onBody => keeps_pure (.loop onCondition onBody)

theorem bears_loopOf {keyword : Token} {initializer : Option Stmt}
    {condition increment : Option Expr} {body : Stmt} (token : law.token keyword)
    (onInitializer : ∀ s ∈ initializer, s.Bears law.borne)
    (onCondition : ∀ e ∈ condition, e.Bears law.borne)
    (onIncrement : ∀ e ∈ increment, e.Bears law.borne) (onBody : body.Bears law.borne) :
    (loopOf keyword initializer condition increment body).Bears law.borne := by
  have test : (condition.getD
      (.literal (.bool true) (.synthetic .trueWord keyword))).Bears law.borne := by
    cases condition with
    | none => exact .literal (only_place (law.synthetic token))
    | some e => exact onCondition e rfl
  have loop : Stmt.Bears law.borne (loopOf keyword none condition increment body) := by
    cases increment with
    | none => exact .loop test onBody
    | some e =>
      exact .loop test (.block (.cons onBody (.cons (.expression (onIncrement e rfl)) .nil)))
  cases initializer with
  | none => exact loop
  | some s => exact .block (.cons (onInitializer s rfl) (.cons loop .nil))

theorem keeps_loopInitializer (part : ∀ c, expression.Keeps law (Expr.Bears law.borne) c) :
    (loopInitializer expression).Keeps law (fun s? => ∀ s ∈ s?, s.Bears law.borne) c := by
  apply (keeps_eat .semicolon).bind
  intro missing c _
  cases missing with
  | true => exact keeps_pure (by simp)
  | false =>
    apply (keeps_eat .varWord).bind
    intro isVar c _
    cases isVar with
    | true =>
      exact (keeps_varDeclaration part).map fun s bears => by rintro _ ⟨⟩; exact bears
    | false =>
      exact (keeps_expressionStatement part).map fun s bears => by rintro _ ⟨⟩; exact bears

theorem keeps_forLoop (unended : c.atEnd = false)
    (part : ∀ c, expression.Keeps law (Expr.Bears law.borne) c)
    (inner : ∀ c, statement.Keeps law (Stmt.Bears law.borne) c) :
    (forLoop expression statement).Keeps law (Stmt.Bears law.borne) c := by
  apply keeps_advance.bind
  intro keyword c passed
  apply (keeps_expect _ _).bind
  intro _ c _
  apply (keeps_loopInitializer part).bind
  intro initializer c onInitializer
  apply keeps_check_bind
  apply keeps_optional_bind part
  intro condition c onCondition
  apply (keeps_expect _ _).bind
  intro _ c _
  apply keeps_check_bind
  apply keeps_optional_bind part
  intro increment c onIncrement
  apply (keeps_expect _ _).bind
  intro _ c _
  apply (inner c).bind
  intro body c onBody
  exact keeps_pure
    (bears_loopOf (passed unended) onInitializer onCondition onIncrement onBody)

theorem keeps_returnStatement (unended : c.atEnd = false)
    (part : ∀ c, expression.Keeps law (Expr.Bears law.borne) c) :
    (returnStatement expression).Keeps law (Stmt.Bears law.borne) c := by
  apply keeps_advance.bind
  intro keyword c passed
  have rest (c : Cursor) : (do
      let value ← if ← check .semicolon then pure none else some <$> expression
      let _ ← expect .semicolon "after return value."
      return Stmt.returns keyword value).Keeps law (Stmt.Bears law.borne) c := by
    apply keeps_check_bind
    apply keeps_optional_bind part
    intro value c bears
    exact (keeps_expect _ _).bind fun _ _ _ =>
      keeps_pure (.returnsOption (only_place (law.bears (passed unended)))
        (Expr.optional_of_bears bears))
  apply keeps_get_bind
  split
  · exact (keeps_report _ (passed unended)).bind fun _ c _ => rest c
  · exact rest c

end Parts

/-- The parsers of expressions, lines and statements keep a law. -/
structure KeepsAt (law : Law) (n : Nat) : Prop where
  expression : ∀ level c, (expression n level).Keeps law (Expr.Bears law.borne) c
  line : ∀ c, (line n).Keeps law (Stmt.Bears law.borne) c
  statement : ∀ c, (statement n).Keeps law (Stmt.Bears law.borne) c

theorem keeps_assignmentLevel (h : KeepsAt law n) :
    (expression (n + 1) .assignment).Keeps law (Expr.Bears law.borne) c := by
  apply (h.expression .or c).bind
  intro target c onTarget
  apply (keeps_eat? _).bind
  intro op? c found
  cases op? with
  | none => exact keeps_pure onTarget
  | some op =>
    have token := found op rfl
    apply (h.expression .assignment c).bind
    intro value c onValue
    split
    · exact keeps_pure (bears_assignment onTarget token onValue)
    · exact (keeps_report _ token).bind fun _ _ _ => keeps_pure onTarget

theorem keeps_expression_succ (h : KeepsAt law n) (level : Level) :
    (expression (n + 1) level).Keeps law (Expr.Bears law.borne) c := by
  have operators (levels : List Level) :
      (do applicationsUpTo (expression n) n levels (← expression n .unary)).Keeps law
        (Expr.Bears law.borne) c := by
    apply (h.expression .unary c).bind
    intro first c bears
    exact keeps_applicationsUpTo h.expression n levels bears
  cases level with
  | lowest | assignment => exact keeps_assignmentLevel h
  | unary =>
    apply (keeps_eat? _).bind
    intro op? c found
    cases op? with
    | some op =>
      exact (h.expression .unary c).bind fun _ _ operand =>
        keeps_pure (.unary (only_operator (law.bears (found op rfl))) operand)
    | none => exact h.expression .call c
  | call =>
    apply (keeps_primary (h.expression .lowest) h.line n).bind
    intro first c bears
    exact keeps_suffixes (h.expression .lowest) n n bears
  | or | and | equality | comparison | sum | product => exact operators _

theorem keeps_line_succ (h : KeepsAt law n) : (line (n + 1)).Keeps law (Stmt.Bears law.borne) c := by
  apply (keeps_eat .varWord).bind
  intro isVar c _
  cases isVar with
  | true => exact keeps_varDeclaration (h.expression .lowest)
  | false =>
    apply (keeps_eat .funWord).bind
    intro isFun c _
    cases isFun with
    | true =>
      exact (keeps_functionDeclaration h.line n).bind fun _ _ bears => keeps_pure bears
    | false => exact h.statement c

theorem keeps_statement_succ (h : KeepsAt law n) :
    (statement (n + 1)).Keeps law (Stmt.Bears law.borne) c := by
  apply keeps_current_bind
  intro token
  split
  case h_1 =>
    apply keeps_advance.bind
    intro _ c _
    apply (keeps_block h.line n).bind
    intro body c bears
    exact keeps_pure (.block (Stmt.allAlike_of_bears bears))
  case h_2 => exact keeps_branch (h.expression .lowest) h.statement
  case h_3 => exact keeps_whileLoop (h.expression .lowest) h.statement
  case h_4 kind =>
    exact keeps_forLoop (atEnd_of_kind kind (by decide)) (h.expression .lowest) h.statement
  case h_5 kind =>
    exact keeps_returnStatement (atEnd_of_kind kind (by decide)) (h.expression .lowest)
  case h_6 => exact keeps_expressionStatement (h.expression .lowest)

theorem keepsAt (law : Law) (n : Nat) : KeepsAt law n := by
  induction n with
  | zero => exact ⟨fun _ _ => keeps_exhausted, fun _ => keeps_exhausted, fun _ => keeps_exhausted⟩
  | succ n ih =>
    exact ⟨fun level _ => keeps_expression_succ ih level, fun _ => keeps_line_succ ih,
      fun _ => keeps_statement_succ ih⟩

theorem keeps_lines {line : Parser Stmt} (each : ∀ c, line.Keeps law (Stmt.Bears law.borne) c)
    (n : Nat) {done : Array Stmt} (before : ∀ s ∈ done.toList, s.Bears law.borne) :
    (lines line n done).Keeps law (fun p => ∀ s ∈ p, s.Bears law.borne) c := by
  induction n generalizing done c with
  | zero => exact keeps_exhausted
  | succ n ih =>
    apply keeps_atEnd_bind
    split
    · exact keeps_pure before
    · apply (keeps_recover (each c)).bind
      intro recovered c new
      cases recovered with
      | none => exact ih before
      | some stmt => exact ih (all_push before (new stmt rfl))

/-- Reading a whole program keeps a law. -/
theorem keeps_allLines (law : Law) (c : Cursor) :
    (bounded fun n => lines (line n) n #[]).Keeps law (fun p => ∀ s ∈ p, s.Bears law.borne) c :=
  keeps_bounded fun n => keeps_lines (keepsAt law n).line n (by simp)

end Parse

end SoftScript
