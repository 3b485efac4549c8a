import SoftScript.Proofs.Grammar.Passes

/-! What the grammar derives, the parser reads. A derivation says where each part ends; the parser
has to find that out from the next token. So a part is read in front of tokens that cannot go on
with it: an expression of a level in front of a token that binds looser than the level, and a
statement that is ajar not in front of an `else`. -/
namespace SoftScript.Parse

open SoftScript.Parse.Parser SoftScript.Grammar

/-- How loosely a token joins what stands left of it to what follows; the last number is for those
that join nothing. -/
def looseness : Token.Kind → Nat
  | .leftParen | .leftSquare | .dot => 1
  | .slash | .star | .percent => 2
  | .minus | .plus => 3
  | .greater | .greaterEqual | .lesser | .lesserEqual => 4
  | .bangEqual | .equalEqual => 5
  | .andWord => 6
  | .orWord => 7
  | .equal | .plusEqual | .minusEqual => 8
  | _ => 9

/-- The loosest joint inside an expression of a level. -/
def Level.reach : Level → Nat
  | .call | .unary => 1
  | .product => 2
  | .sum => 3
  | .comparison => 4
  | .equality => 5
  | .and => 6
  | .or => 7
  | .assignment | .lowest => 8

/-- An expression of the level ends before these tokens. -/
def Stops (level : Level) (v : List Token) : Prop :=
  ∀ t ∈ v.head?, level.reach < looseness t.kind

theorem stops_cons {level : Level} : Stops level (t :: v) ↔ level.reach < looseness t.kind := by
  simp [Stops]

theorem Stops.tighter {level operand : Level} (h : Stops level v)
    (le : operand.reach ≤ level.reach) : Stops operand v :=
  fun t ht => Nat.lt_of_le_of_lt le (h t ht)

theorem Stops.not_mem {level : Level} {kinds : List Token.Kind} (h : Stops level v)
    (joined : ∀ kind ∈ kinds, looseness kind ≤ level.reach) : ∀ t ∈ v.head?, t.kind ∉ kinds := by
  intro t ht member
  exact absurd (h t ht) (Nat.not_lt.mpr (joined _ member))

theorem looseness_operator (operation : Operation level operand operators)
    (member : kind ∈ operators) : looseness kind = level.reach := by
  cases operation <;> simp at member <;> rcases member with rfl | rfl | rfl | rfl <;> rfl

theorem reach_operand (operation : Operation level operand operators) :
    operand.reach < level.reach := by
  cases operation <;> decide

section Steps

variable {inside : Bool} {c : Cursor} {v : List Token}

theorem passes_unary {n : Nat} (ahead : c.ahead = t :: u) (starts : startsPrimary t.kind = true)
    (h : (expression n .call).Passes c e v) : (expression (n + 1) .unary).Passes c e v := by
  rw [expression]
  apply passes_not_eat? _ h
  rw [ahead]
  rintro _ ⟨rfl⟩ member
  simp only [List.mem_cons, List.not_mem_nil, or_false] at member
  rcases member with kind | kind <;> simp [kind, startsPrimary] at starts

/-- Where no operator follows, the binary levels leave an expression as it is. -/
theorem passes_applicationsUpTo (stops : Stops .or v) (ahead : c.ahead = v) (n : Nat)
    (operand : Level → Parser Expr) (levels : List Level)
    (binary : ∀ level ∈ levels, ∀ kind ∈ level.operators, looseness kind ≤ 7) :
    (applicationsUpTo operand (n + 1) levels e).Passes c e v := by
  induction levels generalizing c with
  | nil => exact passes_pure ahead
  | cons level looser ih =>
    have unapplied : (applications level.operators (operand level.next) (n + 1) e).Passes c e v := by
      unfold applications
      apply passes_not_eat? (by rw [ahead]; exact stops.not_mem (binary level (by simp)))
      exact passes_pure ahead
    apply unapplied.bind
    intro c₁ ahead₁ _
    exact ih ahead₁ fun level member => binary level (by simp [member])

theorem passes_or {n : Nat} (ahead : c.ahead = t :: u) (starts : startsPrimary t.kind = true)
    (stops : Stops .or v) (h : (expression (n + 1) .call).Passes c e v) :
    (expression (n + 3) .or).Passes c e v := by
  have unrolled : expression (n + 3) .or = expression (n + 2) .unary >>=
      applicationsUpTo (expression (n + 2)) (n + 2) (Level.upTo .or) := by simp [expression]
  rw [unrolled]
  apply (passes_unary ahead starts h).bind
  intro c₁ ahead₁ _
  exact passes_applicationsUpTo stops ahead₁ (n + 1) _ _ (by decide)

/-! What is shown of each kind of derivation: its tokens are passed, with depth enough, in front
of all that may follow. -/

def PassesExpression (inside : Bool) (level : Level) (u : List Token) (e : Expr) : Prop :=
  ∀ (c : Cursor) (n : Nat) (v : List Token), c.ahead = u ++ v → c.inFunction = inside →
    Stops level v → 8 * c.ahead.length + level.depth ≤ n → (expression n level).Passes c e v

def PassesApplied (inside : Bool) (operand : Level) (operators : List Token.Kind) (left : Expr)
    (w : List Token) (e : Expr) : Prop :=
  ∀ (level : Level), Operation level operand operators →
    ∀ (c : Cursor) (depth n : Nat) (v : List Token), c.ahead = w ++ v → c.inFunction = inside →
      Stops level v → 8 * c.ahead.length ≤ depth → c.ahead.length < n →
        (applications operators (expression depth operand) n left).Passes c e v

def PassesSuffixed (inside : Bool) (first : Expr) (w : List Token) (e : Expr) : Prop :=
  ∀ (c : Cursor) (depth n : Nat) (v : List Token), c.ahead = w ++ v → c.inFunction = inside →
    Stops .call v → 8 * c.ahead.length ≤ depth → c.ahead.length < n →
      (suffixes (expression depth .lowest) depth n first).Passes c e v

def PassesPrimary (inside : Bool) (u : List Token) (e : Expr) : Prop :=
  ∀ (c : Cursor) (depth : Nat) (v : List Token), c.ahead = u ++ v → c.inFunction = inside →
    8 * c.ahead.length ≤ depth →
      (primary (expression depth .lowest) (line depth) depth).Passes c e v

def PassesArguments (inside : Bool) (u : List Token) (args : List Expr) : Prop :=
  ∀ (c : Cursor) (depth n : Nat) (done : Array Expr) (closing : Token) (v : List Token),
    c.ahead = u ++ closing :: v → c.inFunction = inside →
      closing.kind = .rightParen ∨ closing.kind = .rightSquare →
      8 * c.ahead.length + 4 ≤ depth → c.ahead.length < n →
        (commaItems (expression depth .lowest) n done).Passes c (done.toList ++ args) (closing :: v)

def PassesArgumentList (inside : Bool) (u : List Token) (args : List Expr) : Prop :=
  ∀ (c : Cursor) (depth : Nat) (closing : Token) (v : List Token),
    c.ahead = u ++ closing :: v → c.inFunction = inside →
      closing.kind = .rightParen ∨ closing.kind = .rightSquare →
      8 * c.ahead.length + 4 ≤ depth →
        (itemsBefore closing.kind (expression depth .lowest) depth).Passes c args (closing :: v)

def PassesOptional (inside : Bool) (u : List Token) (o : Option Expr) : Prop :=
  Optional inside u o ∧ ∀ e, o = some e → PassesExpression inside .lowest u e

def PassesVariable (inside : Bool) (w : List Token) (s : Stmt) : Prop :=
  ∃ keyword u, w = keyword :: u ∧ keyword.kind = .varWord ∧
    ∀ (c : Cursor) (depth : Nat) (v : List Token), c.ahead = u ++ v → c.inFunction = inside →
      8 * c.ahead.length + 4 ≤ depth → (varDeclaration (expression depth .lowest)).Passes c s v

def PassesFunction (w : List Token) (s : Stmt) : Prop :=
  ∃ keyword u, ∃ f : FunctionDecl, w = keyword :: u ∧ keyword.kind = .funWord ∧ s = f.toStmt ∧
    ∀ (c : Cursor) (depth : Nat) (v : List Token), c.ahead = u ++ v →
      8 * c.ahead.length + 6 ≤ depth → (functionDeclaration (line depth) depth).Passes c f v

def PassesDeclarations (inside : Bool) (w : List Token) (members : List Stmt) : Prop :=
  ∀ (c : Cursor) (depth n : Nat) (done : Array Stmt) (closing : Token) (v : List Token),
    c.ahead = w ++ closing :: v → c.inFunction = inside → closing.kind = .rightBrace →
      8 * c.ahead.length + 6 ≤ depth → c.ahead.length < n →
        (objectMembers (expression depth .lowest) (line depth) depth n done).Passes c
          (done.toList ++ members) v

def PassesInitializer (inside : Bool) (u : List Token) (o : Option Stmt) : Prop :=
  ∀ (c : Cursor) (depth : Nat) (v : List Token), c.ahead = u ++ v → c.inFunction = inside →
    8 * c.ahead.length + 4 ≤ depth → (loopInitializer (expression depth .lowest)).Passes c o v

def PassesStatement (inside ajar : Bool) (u : List Token) (s : Stmt) : Prop :=
  ∀ (c : Cursor) (n : Nat) (v : List Token), c.ahead = u ++ v → c.inFunction = inside →
    (ajar = true → ∀ t ∈ v.head?, t.kind ≠ .elseWord) → 8 * c.ahead.length + 5 ≤ n →
      (statement n).Passes c s v

def PassesLine (inside : Bool) (u : List Token) (s : Stmt) : Prop :=
  ∀ (c : Cursor) (n : Nat) (v : List Token), c.ahead = u ++ v → c.inFunction = inside →
    (∀ t ∈ v.head?, t.kind ≠ .elseWord) → 8 * c.ahead.length + 6 ≤ n → (line n).Passes c s v

def PassesLines (inside : Bool) (w : List Token) (body : List Stmt) : Prop :=
  ∀ (c : Cursor) (depth n : Nat) (done : Array Stmt) (closing : Token) (v : List Token),
    c.ahead = w ++ closing :: v → c.inFunction = inside → closing.kind = .rightBrace →
      8 * c.ahead.length + 6 ≤ depth → c.ahead.length < n →
        (blockLines (line depth) n done).Passes c (done.toList ++ body) v

/-- The same at a fixed depth, for the productions. -/
theorem PassesExpression.within {n : Nat} (h : PassesExpression inside level u e)
    (stops : Stops level v) (fits : 8 * (u ++ v).length + level.depth ≤ n) :
    PassesFrom (expression n level) inside (u ++ v) e v :=
  fun c ahead hf => h c n v ahead hf stops (by rw [ahead]; exact fits)

theorem PassesStatement.within {n : Nat} (h : PassesStatement inside ajar u s)
    (closed : ajar = true → ∀ t ∈ v.head?, t.kind ≠ .elseWord)
    (fits : 8 * (u ++ v).length + 5 ≤ n) : PassesFrom (statement n) inside (u ++ v) s v :=
  fun c ahead hf => h c n v ahead hf closed (by rw [ahead]; exact fits)

theorem stops_closing {closing : Token}
    (kind : closing.kind = .rightParen ∨ closing.kind = .rightSquare) :
    Stops .lowest (closing :: v) := by
  rw [stops_cons]
  rcases kind with kind | kind <;> simp [kind, looseness, Level.reach]

theorem stops_semicolon {semicolon : Token} (kind : semicolon.kind = .semicolon) :
    Stops .lowest (semicolon :: v) := by
  simp [stops_cons, kind, looseness, Level.reach]

/-! Expressions. -/

theorem PassesExpression.lowest (h : PassesExpression inside .assignment u e) :
    PassesExpression inside .lowest u e := by
  intro c n v ahead hf stops fits
  obtain ⟨n, rfl⟩ : ∃ m, n = m + 1 := ⟨n - 1, by simp [Level.depth] at fits; omega⟩
  have same : expression (n + 1) .lowest = expression (n + 1) .assignment := by
    rw [expression, expression]
  rw [same]
  exact h c _ v ahead hf stops fits

/-- The target is read as an expression of the loosest binary level, which ends where the
assignment operator stands. -/
theorem PassesExpression.assignment (derived : Expression inside .call u target)
    (ht : PassesExpression inside .call u target)
    (hv : PassesExpression inside .assignment w value) (assignable : target.isAssignable = true)
    (kind : op.kind = .equal ∨ op.kind = .plusEqual ∨ op.kind = .minusEqual) :
    PassesExpression inside .assignment (u ++ op :: w) (Parse.assignment target op value) := by
  intro c n v ahead hf stops fits
  simp only [Level.depth] at fits
  obtain ⟨n, rfl⟩ : ∃ m, n = m + 4 := ⟨n - 4, by omega⟩
  obtain ⟨t, u, rfl, starts⟩ := derived.starts_call
  have joint : looseness op.kind = 8 := by
    rcases kind with kind | kind | kind <;> simp [kind, looseness]
  have joined : Stops .or (op :: (w ++ v)) := by simp [stops_cons, joint, Level.reach]
  have target := ht c (n + 1) (op :: (w ++ v)) (by simpa using ahead) hf
    (joined.tighter (by decide)) (by simp only [Level.depth]; omega)
  rw [expression]
  apply (passes_or ahead starts joined target).bind
  intro c₁ ahead₁ in₁
  apply passes_eat? ahead₁ (by simpa using kind)
  intro c₂ ahead₂ in₂
  apply (hv c₂ (n + 3) v ahead₂ (in₂.trans (in₁.trans hf)) stops
    (by simp [ahead] at fits; simp [ahead₂, Level.depth]; omega)).bind
  intro c₃ ahead₃ _
  rw [if_pos assignable]
  exact passes_pure ahead₃

theorem PassesExpression.unassigned (h : PassesExpression inside .or u e) :
    PassesExpression inside .assignment u e := by
  intro c n v ahead hf stops fits
  simp only [Level.depth] at fits
  obtain ⟨n, rfl⟩ : ∃ m, n = m + 1 := ⟨n - 1, by omega⟩
  rw [expression]
  apply (h c n v ahead hf (stops.tighter (by decide)) (by simp only [Level.depth]; omega)).bind
  intro c₁ ahead₁ _
  apply passes_not_eat? (by rw [ahead₁]; exact stops.not_mem (by decide))
  exact passes_pure ahead₁

/-- The first operand ends at an operator of its level or at what ends the whole. -/
theorem applied_stops (h : Applied inside operand operators left w e)
    (operation : Operation level operand operators) (stops : Stops level v) :
    Stops operand (w ++ v) := by
  cases h with
  | nil => exact stops.tighter (Nat.le_of_lt (reach_operand operation))
  | cons member =>
    rw [List.cons_append, List.cons_append, stops_cons, looseness_operator operation member]
    exact reach_operand operation

theorem depth_operation (operation : Operation level operand operators) :
    level.depth = 3 ∧ operand.depth ≤ 3 := by
  cases operation <;> decide

theorem PassesExpression.operation (operation : Operation level operand operators)
    (first : PassesExpression inside operand u left)
    (derived : Applied inside operand operators left w e)
    (after : PassesApplied inside operand operators left w e) :
    PassesExpression inside level (u ++ w) e := by
  intro c n v ahead hf stops fits
  obtain ⟨deep, shallow⟩ := depth_operation operation
  obtain ⟨n, rfl⟩ : ∃ m, n = m + 1 := ⟨n - 1, by omega⟩
  have left (m : Nat) (fits : 8 * c.ahead.length + operand.depth ≤ m) :
      (expression m operand).Passes c left (w ++ v) :=
    first c m (w ++ v) (by simpa using ahead) hf (applied_stops derived operation stops) fits
  have shorter : (w ++ v).length ≤ c.ahead.length := by simp [ahead]
  have rest (c' : Cursor) (ahead' : c'.ahead = w ++ v) (in' : c'.inFunction = c.inFunction) :=
    after level operation c' n n v ahead' (in'.trans hf) stops (by rw [ahead']; omega)
      (by rw [ahead']; omega)
  by_cases product : level = .product
  · subst product
    cases operation
    rw [expression_product]
    exact (left n (by simp only [Level.depth] at fits ⊢; omega)).bind rest
  · rw [expression_operation operation product]
    exact (left (n + 1) (by omega)).bind rest

theorem PassesExpression.signed (kind : op.kind = .bang ∨ op.kind = .minus)
    (h : PassesExpression inside .unary u e) :
    PassesExpression inside .unary (op :: u) (.unary op e) := by
  intro c n v ahead hf stops fits
  simp only [Level.depth] at fits
  obtain ⟨n, rfl⟩ : ∃ m, n = m + 1 := ⟨n - 1, by omega⟩
  rw [expression]
  apply passes_eat? ahead (by simpa using kind)
  intro c₁ ahead₁ in₁
  change c₁.ahead = u ++ v at ahead₁
  apply (h c₁ n v ahead₁ (in₁.trans hf) stops
    (by simp [ahead] at fits; simp [ahead₁, Level.depth]; omega)).bind
  intro c₂ ahead₂ _
  exact passes_pure ahead₂

theorem PassesExpression.unsigned (derived : Expression inside .call u e)
    (h : PassesExpression inside .call u e) : PassesExpression inside .unary u e := by
  intro c n v ahead hf stops fits
  simp only [Level.depth] at fits
  obtain ⟨n, rfl⟩ : ∃ m, n = m + 1 := ⟨n - 1, by omega⟩
  obtain ⟨t, u, rfl, starts⟩ := derived.starts_call
  exact passes_unary ahead starts
    (h c n v ahead hf stops (by simp only [Level.depth]; omega))

theorem PassesExpression.suffixed (nonempty : 0 < u.length) (first : PassesPrimary inside u e)
    (after : PassesSuffixed inside e w e') : PassesExpression inside .call (u ++ w) e' := by
  intro c n v ahead hf stops fits
  simp only [Level.depth] at fits
  obtain ⟨n, rfl⟩ : ∃ m, n = m + 1 := ⟨n - 1, by omega⟩
  rw [expression]
  apply (first c n (w ++ v) (by simpa using ahead) hf (by omega)).bind
  intro c₁ ahead₁ in₁
  have shorter : c₁.ahead.length < c.ahead.length := by simp [ahead, ahead₁]; omega
  exact after c₁ n n v ahead₁ (in₁.trans hf) stops (by omega) (by omega)

theorem PassesApplied.nil : PassesApplied inside operand operators e [] e := by
  intro level operation c depth n v ahead hf stops fits room
  obtain ⟨n, rfl⟩ : ∃ m, n = m + 1 := ⟨n - 1, by omega⟩
  unfold applications
  apply passes_not_eat?
  · rw [ahead]
    exact stops.not_mem fun kind member => Nat.le_of_eq (looseness_operator operation member)
  · exact passes_pure ahead

theorem PassesApplied.cons (member : op.kind ∈ operators)
    (hr : PassesExpression inside operand u right)
    (derived : Applied inside operand operators (.binary left op right) w e)
    (after : PassesApplied inside operand operators (.binary left op right) w e) :
    PassesApplied inside operand operators left (op :: u ++ w) e := by
  intro level operation c depth n v ahead hf stops fits room
  obtain ⟨n, rfl⟩ : ∃ m, n = m + 1 := ⟨n - 1, by omega⟩
  obtain ⟨_, shallow⟩ := depth_operation operation
  unfold applications
  apply passes_eat? ahead member
  intro c₁ ahead₁ in₁
  have ahead₁ : c₁.ahead = u ++ (w ++ v) := by simpa using ahead₁
  simp only [ahead, List.length_append, List.length_cons] at fits room
  apply (hr c₁ depth (w ++ v) ahead₁ (in₁.trans hf) (applied_stops derived operation stops)
    (by simp [ahead₁]; omega)).bind
  intro c₂ ahead₂ in₂
  exact after level operation c₂ depth n v ahead₂ (in₂.trans (in₁.trans hf)) stops
    (by simp [ahead₂]; omega) (by simp [ahead₂]; omega)

theorem PassesSuffixed.nil : PassesSuffixed inside e [] e := by
  intro c depth n v ahead hf stops fits room
  obtain ⟨n, rfl⟩ : ∃ m, n = m + 1 := ⟨n - 1, by omega⟩
  have absent : ∀ t ∈ c.ahead.head?, t.kind ∉ [.leftParen, .leftSquare, .dot] := by
    rw [ahead]
    exact stops.not_mem (by decide)
  simp only [List.mem_cons, List.not_mem_nil, or_false, not_or] at absent
  unfold suffixes
  apply passes_not_eat fun t ht => (absent t ht).1
  apply passes_not_eat? (by simpa using fun t ht => (absent t ht).2.1)
  apply passes_not_eat? (by simpa using fun t ht => (absent t ht).2.2)
  exact passes_pure ahead

theorem PassesSuffixed.call (isOpening : opening.kind = .leftParen)
    (ha : PassesArgumentList inside u args) (isClosing : closing.kind = .rightParen)
    (after : PassesSuffixed inside (.call callee closing args) w e) :
    PassesSuffixed inside callee (opening :: u ++ closing :: w) e := by
  intro c depth n v ahead hf stops fits room
  obtain ⟨n, rfl⟩ : ∃ m, n = m + 1 := ⟨n - 1, by omega⟩
  simp only [ahead, List.length_append, List.length_cons] at fits room
  unfold suffixes
  apply passes_eat ahead isOpening
  intro c₁ ahead₁ in₁
  have ahead₁ : c₁.ahead = u ++ closing :: (w ++ v) := by simpa using ahead₁
  have passed := ha c₁ depth closing (w ++ v) ahead₁ (in₁.trans hf) (.inl isClosing)
    (by simp [ahead₁]; omega)
  rw [isClosing] at passed
  apply passed.bind
  intro c₂ ahead₂ in₂
  apply (passes_expect ahead₂ isClosing _).bind
  intro c₃ ahead₃ in₃
  exact after c₃ depth n v ahead₃ (in₃.trans (in₂.trans (in₁.trans hf))) stops
    (by simp [ahead₃]; omega) (by simp [ahead₃]; omega)

theorem PassesSuffixed.index (isOpening : opening.kind = .leftSquare)
    (hx : PassesExpression inside .lowest u position) (isClosing : closing.kind = .rightSquare)
    (after : PassesSuffixed inside (.index left opening position) w e) :
    PassesSuffixed inside left (opening :: u ++ closing :: w) e := by
  intro c depth n v ahead hf stops fits room
  obtain ⟨n, rfl⟩ : ∃ m, n = m + 1 := ⟨n - 1, by omega⟩
  simp only [ahead, List.length_append, List.length_cons] at fits room
  unfold suffixes
  apply passes_not_eat (by simp [ahead, isOpening])
  apply passes_eat? ahead (by simp [isOpening])
  intro c₁ ahead₁ in₁
  have ahead₁ : c₁.ahead = u ++ closing :: (w ++ v) := by simpa using ahead₁
  apply (hx c₁ depth (closing :: (w ++ v)) ahead₁ (in₁.trans hf) (stops_closing (.inr isClosing))
    (by simp [ahead₁, Level.depth]; omega)).bind
  intro c₂ ahead₂ in₂
  apply (passes_expect ahead₂ isClosing _).bind
  intro c₃ ahead₃ in₃
  exact after c₃ depth n v ahead₃ (in₃.trans (in₂.trans (in₁.trans hf))) stops
    (by simp [ahead₃]; omega) (by simp [ahead₃]; omega)

theorem PassesSuffixed.member (isDot : dot.kind = .dot) (isName : name.kind = .identifier)
    (after : PassesSuffixed inside (.access left dot name) w e) :
    PassesSuffixed inside left (dot :: name :: w) e := by
  intro c depth n v ahead hf stops fits room
  obtain ⟨n, rfl⟩ : ∃ m, n = m + 1 := ⟨n - 1, by omega⟩
  simp only [ahead, List.length_append, List.length_cons] at fits room
  unfold suffixes
  apply passes_not_eat (by simp [ahead, isDot])
  apply passes_not_eat? (by simp [ahead, isDot])
  apply passes_eat? ahead (by simp [isDot])
  intro c₁ ahead₁ in₁
  apply (passes_consume ahead₁ isName _).bind
  intro c₂ ahead₂ in₂
  have ahead₂ : c₂.ahead = w ++ v := ahead₂
  exact after c₂ depth n v ahead₂ (in₂.trans (in₁.trans hf)) stops
    (by simp [ahead₂]; omega) (by simp [ahead₂]; omega)

theorem PassesPrimary.literal (denotes : constant? t = some value) :
    PassesPrimary inside [t] (.literal value t) := by
  intro c depth v ahead hf fits
  unfold primary
  apply passes_current ahead
  have read : ∀ constant, (Parse.literal constant).Passes c (.literal constant t) v := by
    intro constant
    apply (passes_advance ahead).bind
    intro c₁ ahead₁ _
    exact passes_pure ahead₁
  unfold constant? at denotes
  split at denotes <;> simp_all

theorem PassesPrimary.name (isName : t.kind = .identifier) :
    PassesPrimary inside [t] (.variable t) := by
  intro c depth v ahead hf fits
  unfold primary
  apply passes_current ahead
  simp only [isName]
  apply (passes_advance ahead).bind
  intro c₁ ahead₁ _
  exact passes_pure ahead₁

theorem PassesPrimary.grouping (isOpening : opening.kind = .leftParen)
    (hx : PassesExpression inside .lowest u e) (isClosing : closing.kind = .rightParen) :
    PassesPrimary inside (opening :: u ++ [closing]) (.grouping e) := by
  intro c depth v ahead hf fits
  simp only [ahead, List.length_append, List.length_cons] at fits
  unfold primary
  apply passes_current ahead
  simp only [isOpening]
  apply (passes_advance ahead).bind
  intro c₁ ahead₁ in₁
  have ahead₁ : c₁.ahead = u ++ closing :: v := by simpa using ahead₁
  apply (hx c₁ depth (closing :: v) ahead₁ (in₁.trans hf) (stops_closing (.inl isClosing))
    (by simp [ahead₁, Level.depth]; omega)).bind
  intro c₂ ahead₂ _
  exact passes_expect_pure ahead₂ isClosing ..

theorem PassesPrimary.list (isOpening : opening.kind = .leftSquare)
    (ha : PassesArgumentList inside u elements) (isClosing : closing.kind = .rightSquare) :
    PassesPrimary inside (opening :: u ++ [closing]) (.list opening elements) := by
  intro c depth v ahead hf fits
  simp only [ahead, List.length_append, List.length_cons] at fits
  unfold primary
  apply passes_current ahead
  simp only [isOpening]
  unfold listLiteral
  apply (passes_expect ahead isOpening _).bind
  intro c₁ ahead₁ in₁
  have ahead₁ : c₁.ahead = u ++ closing :: v := by simpa using ahead₁
  have passed := ha c₁ depth closing v ahead₁ (in₁.trans hf) (.inr isClosing)
    (by simp [ahead₁]; omega)
  rw [isClosing] at passed
  apply passed.bind
  intro c₂ ahead₂ _
  exact passes_expect_pure ahead₂ isClosing ..

theorem PassesPrimary.object (isOpening : opening.kind = .leftBrace)
    (hd : PassesDeclarations inside u members) (isClosing : closing.kind = .rightBrace) :
    PassesPrimary inside (opening :: u ++ [closing]) (.object opening members) := by
  intro c depth v ahead hf fits
  simp only [ahead, List.length_append, List.length_cons] at fits
  unfold primary
  apply passes_current ahead
  simp only [isOpening]
  unfold objectLiteral
  apply (passes_expect ahead isOpening _).bind
  intro c₁ ahead₁ in₁
  have ahead₁ : c₁.ahead = u ++ closing :: v := by simpa using ahead₁
  have passed := hd c₁ depth depth #[] closing v ahead₁ (in₁.trans hf) isClosing
    (by simp [ahead₁]; omega) (by simp [ahead₁]; omega)
  apply passed.bind
  intro c₂ ahead₂ _
  simpa using passes_pure ahead₂

theorem PassesArguments.one (hx : PassesExpression inside .lowest u e) :
    PassesArguments inside u [e] := by
  intro c depth n done closing v ahead hf kind fits room
  obtain ⟨n, rfl⟩ : ∃ m, n = m + 1 := ⟨n - 1, by omega⟩
  unfold commaItems
  apply (hx c depth (closing :: v) ahead hf (stops_closing kind) fits).bind
  intro c₁ ahead₁ _
  apply passes_not_eat (by rcases kind with kind | kind <;> simp [ahead₁, kind])
  simpa using passes_pure ahead₁

theorem PassesArguments.more (hx : PassesExpression inside .lowest u e)
    (isComma : comma.kind = .comma) (after : PassesArguments inside w rest) :
    PassesArguments inside (u ++ comma :: w) (e :: rest) := by
  intro c depth n done closing v ahead hf kind fits room
  obtain ⟨n, rfl⟩ : ∃ m, n = m + 1 := ⟨n - 1, by omega⟩
  have joined : Stops .lowest (comma :: (w ++ closing :: v)) := by
    simp [stops_cons, isComma, looseness, Level.reach]
  unfold commaItems
  apply (hx c depth _ (by simpa using ahead) hf joined fits).bind
  intro c₁ ahead₁ in₁
  apply passes_eat ahead₁ isComma
  intro c₂ ahead₂ in₂
  simp only [ahead, List.length_append, List.length_cons] at fits room
  have passed := after c₂ depth n (done.push e) closing v ahead₂ (in₂.trans (in₁.trans hf)) kind
    (by simp [ahead₂]; omega) (by simp [ahead₂]; omega)
  simpa using passed

theorem PassesArgumentList.none : PassesArgumentList inside [] [] := by
  intro c depth closing v ahead hf kind fits
  unfold itemsBefore
  apply passes_check ahead rfl
  exact passes_pure ahead

theorem PassesArgumentList.some (starts : ∃ t u', u = t :: u' ∧ startsExpression t.kind = true)
    (ha : PassesArguments inside u args) : PassesArgumentList inside u args := by
  intro c depth closing v ahead hf kind fits
  obtain ⟨t, u, rfl, starts⟩ := starts
  have other : t.kind ≠ closing.kind := by
    intro same
    rcases kind with kind | kind <;> simp [same, kind, startsExpression, startsPrimary] at starts
  unfold itemsBefore
  apply passes_not_check ahead other
  simpa using ha c depth depth #[] closing v ahead hf kind fits (by omega)

/-! Declarations. -/

theorem PassesVariable.bare (isVar : keyword.kind = .varWord) (isName : name.kind = .identifier)
    (isSemicolon : semicolon.kind = .semicolon) :
    PassesVariable inside [keyword, name, semicolon] (.var name none) := by
  refine ⟨keyword, _, rfl, isVar, ?_⟩
  intro c depth v ahead hf fits
  exact passes_varDeclaration_bare ahead isName isSemicolon

theorem PassesVariable.initialized (isVar : keyword.kind = .varWord)
    (isName : name.kind = .identifier) (isEqual : equal.kind = .equal)
    (hx : PassesExpression inside .lowest u e) (isSemicolon : semicolon.kind = .semicolon) :
    PassesVariable inside (keyword :: name :: equal :: u ++ [semicolon]) (.var name (some e)) := by
  refine ⟨keyword, _, rfl, isVar, ?_⟩
  intro c depth v ahead hf fits
  subst hf
  have ahead : c.ahead = name :: equal :: u ++ semicolon :: v := by simpa using ahead
  apply passes_varDeclaration_initialized ahead isName isEqual isSemicolon
  apply hx.within (stops_semicolon isSemicolon)
  simp [ahead] at fits
  simp [Level.depth]
  omega

theorem PassesFunction.mk (isFun : keyword.kind = .funWord) (isName : name.kind = .identifier)
    (isOpening : opening.kind = .leftParen) (listed : ParameterList q params)
    (few : params.length ≤ parameterLimit) (isClosing : closing.kind = .rightParen)
    (isBrace : brace.kind = .leftBrace) (hb : PassesLines true w body)
    (isUnbrace : unbrace.kind = .rightBrace) :
    PassesFunction (keyword :: name :: opening :: q ++ closing :: brace :: w ++ [unbrace])
      (.function name params body) := by
  refine ⟨keyword, _, ⟨name, params, body⟩, rfl, isFun, rfl, ?_⟩
  intro c depth v ahead fits
  have ahead : c.ahead = name :: opening :: q ++ closing :: brace :: (w ++ unbrace :: v) := by
    simpa using ahead
  apply passes_functionDeclaration depth ahead isName isOpening listed few isClosing isBrace
    (by omega)
  intro c₁ ahead₁ in₁
  simp [ahead] at fits
  have passed := hb c₁ depth depth #[] unbrace v ahead₁ in₁ isUnbrace
    (by simp [ahead₁]; omega) (by simp [ahead₁]; omega)
  simpa [block] using passed

theorem PassesDeclarations.nil : PassesDeclarations inside [] [] := by
  intro c depth n done closing v ahead hf isClosing fits room
  obtain ⟨n, rfl⟩ : ∃ m, n = m + 1 := ⟨n - 1, by omega⟩
  unfold objectMembers
  apply passes_check ahead isClosing
  apply passes_not_atEnd ahead
  simpa using passes_expect_pure ahead isClosing "after Object." done.toList

theorem PassesDeclarations.var (hd : PassesVariable inside u s)
    (after : PassesDeclarations inside w rest) :
    PassesDeclarations inside (u ++ w) (s :: rest) := by
  intro c depth n done closing v ahead hf isClosing fits room
  obtain ⟨keyword, u, rfl, isVar, hd⟩ := hd
  obtain ⟨n, rfl⟩ : ∃ m, n = m + 1 := ⟨n - 1, by omega⟩
  simp only [ahead, List.length_append, List.length_cons] at fits room
  unfold objectMembers
  apply passes_not_check ahead (by simp [isVar])
  apply passes_not_atEnd ahead
  apply passes_eat ahead isVar
  intro c₁ ahead₁ in₁
  have ahead₁ : c₁.ahead = u ++ (w ++ closing :: v) := by simpa using ahead₁
  apply (hd c₁ depth _ ahead₁ (in₁.trans hf) (by simp [ahead₁]; omega)).bind
  intro c₂ ahead₂ in₂
  have passed := after c₂ depth n (done.push s) closing v ahead₂ (in₂.trans (in₁.trans hf))
    isClosing (by simp [ahead₂]; omega) (by simp [ahead₂]; omega)
  simpa using passed

theorem PassesDeclarations.function (hd : PassesFunction u s)
    (after : PassesDeclarations inside w rest) :
    PassesDeclarations inside (u ++ w) (s :: rest) := by
  intro c depth n done closing v ahead hf isClosing fits room
  obtain ⟨keyword, u, f, rfl, isFun, rfl, hd⟩ := hd
  obtain ⟨n, rfl⟩ : ∃ m, n = m + 1 := ⟨n - 1, by omega⟩
  simp only [ahead, List.length_append, List.length_cons] at fits room
  unfold objectMembers
  apply passes_not_check ahead (by simp [isFun])
  apply passes_not_atEnd ahead
  apply passes_not_eat (by simp [ahead, isFun])
  apply passes_eat ahead isFun
  intro c₁ ahead₁ in₁
  have ahead₁ : c₁.ahead = u ++ (w ++ closing :: v) := by simpa using ahead₁
  apply (hd c₁ depth _ ahead₁ (by simp [ahead₁]; omega)).bind
  intro c₂ ahead₂ in₂
  have passed := after c₂ depth n (done.push f.toStmt) closing v ahead₂ (in₂.trans (in₁.trans hf))
    isClosing (by simp [ahead₂]; omega) (by simp [ahead₂]; omega)
  simpa using passed

/-! Statements. -/

theorem PassesInitializer.none (isSemicolon : semicolon.kind = .semicolon) :
    PassesInitializer inside [semicolon] none := by
  intro c depth v ahead hf fits
  unfold loopInitializer
  apply passes_eat ahead isSemicolon
  intro c₁ ahead₁ _
  exact passes_pure ahead₁

theorem PassesInitializer.var (hd : PassesVariable inside w s) :
    PassesInitializer inside w (some s) := by
  intro c depth v ahead hf fits
  obtain ⟨keyword, u, rfl, isVar, hd⟩ := hd
  unfold loopInitializer
  apply passes_not_eat (by simp [ahead, isVar])
  apply passes_eat ahead isVar
  intro c₁ ahead₁ in₁
  have ahead₁ : c₁.ahead = u ++ v := ahead₁
  exact (hd c₁ depth v ahead₁ (in₁.trans hf) (by simp [ahead] at fits; simp [ahead₁]; omega)).map

theorem passes_expressionStatement {n : Nat} (ahead : c.ahead = u ++ semicolon :: v)
    (hf : c.inFunction = inside) (hx : PassesExpression inside .lowest u e)
    (isSemicolon : semicolon.kind = .semicolon) (fits : 8 * c.ahead.length + 4 ≤ n) :
    (expressionStatement (expression n .lowest)).Passes c (.expression e) v := by
  unfold expressionStatement
  apply (hx c n _ ahead hf (stops_semicolon isSemicolon) fits).bind
  intro c₁ ahead₁ _
  exact passes_expect_pure ahead₁ isSemicolon ..

theorem startsExpression_not_word (starts : startsExpression kind = true) :
    kind ∉ [.semicolon, .varWord, .funWord, .ifWord, .whileWord, .forWord, .returnWord] := by
  cases kind <;> first | decide | simp [startsExpression, startsPrimary] at starts

theorem PassesInitializer.expression (starts : ∃ t u', u = t :: u' ∧ startsExpression t.kind = true)
    (hx : PassesExpression inside .lowest u e) (isSemicolon : semicolon.kind = .semicolon) :
    PassesInitializer inside (u ++ [semicolon]) (some (.expression e)) := by
  intro c depth v ahead hf fits
  obtain ⟨t, u, rfl, starts⟩ := starts
  have foreign := startsExpression_not_word starts
  simp only [List.mem_cons, not_or] at foreign
  unfold loopInitializer
  apply passes_not_eat (by simpa [ahead] using foreign.1)
  apply passes_not_eat (by simpa [ahead] using foreign.2.1)
  exact (passes_expressionStatement (by simpa using ahead) hf hx isSemicolon fits).map

theorem PassesStatement.expression (starts : startsExpression t.kind = true)
    (plain : t.kind ≠ .leftBrace) (hx : PassesExpression inside .lowest (t :: u) e)
    (isSemicolon : semicolon.kind = .semicolon) :
    PassesStatement inside false (t :: u ++ [semicolon]) (.expression e) := by
  intro c n v ahead hf closed fits
  obtain ⟨n, rfl⟩ : ∃ m, n = m + 1 := ⟨n - 1, by omega⟩
  have foreign := startsExpression_not_word starts
  simp only [List.mem_cons, not_or] at foreign
  obtain ⟨_, _, _, notIf, notWhile, notFor, notReturn, _⟩ := foreign
  unfold statement
  apply passes_current ahead
  simp only
  exact passes_expressionStatement (by simpa using ahead) hf hx isSemicolon (by omega)

theorem PassesStatement.forLoop {initializer : Option Stmt} {condition increment : Option Expr}
    (isFor : keyword.kind = .forWord) (isOpening : opening.kind = .leftParen)
    (hi : PassesInitializer inside u initializer) (hc : PassesOptional inside q condition)
    (isSemicolon : semicolon.kind = .semicolon) (hn : PassesOptional inside r increment)
    (isClosing : closing.kind = .rightParen) (hs : PassesStatement inside ajar x body) :
    PassesStatement inside ajar (keyword :: opening :: u ++ q ++ semicolon :: r ++ closing :: x)
      (unrolled keyword initializer condition increment body) := by
  intro c n v ahead hf closed fits
  obtain ⟨n, rfl⟩ : ∃ m, n = m + 1 := ⟨n - 1, by omega⟩
  subst hf
  have ahead : c.ahead = keyword :: opening :: u ++
      (q ++ semicolon :: (r ++ closing :: (x ++ v))) := by simpa using ahead
  unfold statement
  apply passes_current ahead
  simp only [isFor]
  simp only [ahead, List.length_append, List.length_cons] at fits
  apply passes_forLoop ahead isOpening isSemicolon isClosing
  · intro c₁ ahead₁ in₁
    exact hi c₁ n _ ahead₁ in₁ (by simp [ahead₁]; omega)
  · exact hc.1
  · intro e he
    exact (hc.2 e he).within (stops_semicolon isSemicolon) (by simp [Level.depth]; omega)
  · exact hn.1
  · intro e he
    exact (hn.2 e he).within (stops_closing (.inl isClosing)) (by simp [Level.depth]; omega)
  · exact hs.within closed (by simp; omega)

theorem PassesStatement.whileLoop (isWhile : keyword.kind = .whileWord)
    (isOpening : opening.kind = .leftParen) (hx : PassesExpression inside .lowest u condition)
    (isClosing : closing.kind = .rightParen) (hs : PassesStatement inside ajar x body) :
    PassesStatement inside ajar (keyword :: opening :: u ++ closing :: x)
      (.loop condition body) := by
  intro c n v ahead hf closed fits
  obtain ⟨n, rfl⟩ : ∃ m, n = m + 1 := ⟨n - 1, by omega⟩
  subst hf
  have ahead : c.ahead = keyword :: opening :: u ++ closing :: (x ++ v) := by simpa using ahead
  unfold statement
  apply passes_current ahead
  simp only [isWhile]
  simp only [ahead, List.length_append, List.length_cons] at fits
  apply passes_whileLoop ahead isOpening isClosing
  · exact hx.within (stops_closing (.inl isClosing)) (by simp [Level.depth]; omega)
  · exact hs.within closed (by simp; omega)

theorem PassesStatement.branch (isIf : keyword.kind = .ifWord)
    (isOpening : opening.kind = .leftParen) (hx : PassesExpression inside .lowest u condition)
    (isClosing : closing.kind = .rightParen) (hs : PassesStatement inside ajar x thenBranch) :
    PassesStatement inside true (keyword :: opening :: u ++ closing :: x)
      (.branch condition thenBranch none) := by
  intro c n v ahead hf closed fits
  obtain ⟨n, rfl⟩ : ∃ m, n = m + 1 := ⟨n - 1, by omega⟩
  subst hf
  have ahead : c.ahead = keyword :: opening :: u ++ closing :: (x ++ v) := by simpa using ahead
  unfold statement
  apply passes_current ahead
  simp only [isIf]
  simp only [ahead, List.length_append, List.length_cons] at fits
  apply passes_branch ahead isOpening isClosing
  · exact hx.within (stops_closing (.inl isClosing)) (by simp [Level.depth]; omega)
  · exact hs.within (fun _ => closed rfl) (by simp; omega)
  · exact closed rfl

theorem PassesStatement.branches (isIf : keyword.kind = .ifWord)
    (isOpening : opening.kind = .leftParen) (hx : PassesExpression inside .lowest u condition)
    (isClosing : closing.kind = .rightParen) (ht : PassesStatement inside false x thenBranch)
    (isElse : otherwise.kind = .elseWord) (he : PassesStatement inside ajar y elseBranch) :
    PassesStatement inside ajar (keyword :: opening :: u ++ closing :: x ++ otherwise :: y)
      (.branch condition thenBranch (some elseBranch)) := by
  intro c n v ahead hf closed fits
  obtain ⟨n, rfl⟩ : ∃ m, n = m + 1 := ⟨n - 1, by omega⟩
  subst hf
  have ahead : c.ahead = keyword :: opening :: u ++ closing :: (x ++ otherwise :: (y ++ v)) := by
    simpa using ahead
  unfold statement
  apply passes_current ahead
  simp only [isIf]
  simp only [ahead, List.length_append, List.length_cons] at fits
  apply passes_branches ahead isOpening isClosing isElse
  · exact hx.within (stops_closing (.inl isClosing)) (by simp [Level.depth]; omega)
  · exact ht.within (by simp) (by simp; omega)
  · exact he.within closed (by simp; omega)

theorem PassesStatement.block (isOpening : opening.kind = .leftBrace)
    (hb : PassesLines inside w body) (isClosing : closing.kind = .rightBrace) :
    PassesStatement inside false (opening :: w ++ [closing]) (.block body) := by
  intro c n v ahead hf closed fits
  obtain ⟨n, rfl⟩ : ∃ m, n = m + 1 := ⟨n - 1, by omega⟩
  unfold statement
  apply passes_current ahead
  simp only [isOpening]
  simp only [ahead, List.length_append, List.length_cons] at fits
  apply (passes_advance ahead).bind
  intro c₁ ahead₁ in₁
  have ahead₁ : c₁.ahead = w ++ closing :: v := by simpa using ahead₁
  apply (hb c₁ n n #[] closing v ahead₁ (in₁.trans hf) isClosing
    (by simp [ahead₁]; omega) (by simp [ahead₁]; omega)).bind
  intro c₂ ahead₂ _
  simpa using passes_pure ahead₂

theorem PassesStatement.returns (isReturn : keyword.kind = .returnWord)
    (hx : PassesOptional true w value) (isSemicolon : semicolon.kind = .semicolon) :
    PassesStatement true false (keyword :: w ++ [semicolon]) (.returns keyword value) := by
  intro c n v ahead hf closed fits
  obtain ⟨n, rfl⟩ : ∃ m, n = m + 1 := ⟨n - 1, by omega⟩
  have ahead : c.ahead = keyword :: w ++ semicolon :: v := by simpa using ahead
  unfold statement
  apply passes_current ahead
  simp only [isReturn]
  simp only [ahead, List.length_append, List.length_cons] at fits
  apply passes_returnStatement ahead isSemicolon hf hx.1
  intro e he
  exact (hx.2 e he).within (stops_semicolon isSemicolon) (by simp [Level.depth]; omega)

theorem PassesLine.var (hd : PassesVariable inside w s) : PassesLine inside w s := by
  intro c n v ahead hf closed fits
  obtain ⟨keyword, u, rfl, isVar, hd⟩ := hd
  obtain ⟨n, rfl⟩ : ∃ m, n = m + 1 := ⟨n - 1, by omega⟩
  unfold line
  apply passes_eat ahead isVar
  intro c₁ ahead₁ in₁
  have ahead₁ : c₁.ahead = u ++ v := ahead₁
  exact hd c₁ n v ahead₁ (in₁.trans hf) (by simp [ahead] at fits; simp [ahead₁]; omega)

theorem PassesLine.function (hd : PassesFunction w s) : PassesLine inside w s := by
  intro c n v ahead hf closed fits
  obtain ⟨keyword, u, f, rfl, isFun, rfl, hd⟩ := hd
  obtain ⟨n, rfl⟩ : ∃ m, n = m + 1 := ⟨n - 1, by omega⟩
  unfold line
  apply passes_not_eat (by simp [ahead, isFun])
  apply passes_eat ahead isFun
  intro c₁ ahead₁ _
  have ahead₁ : c₁.ahead = u ++ v := ahead₁
  apply (hd c₁ n v ahead₁ (by simp [ahead] at fits; simp [ahead₁]; omega)).bind
  intro c₂ ahead₂ _
  exact passes_pure ahead₂

theorem PassesLine.statement (starts : ∃ t u', u = t :: u' ∧ t.kind ≠ .varWord ∧ t.kind ≠ .funWord)
    (hs : PassesStatement inside ajar u s) : PassesLine inside u s := by
  intro c n v ahead hf closed fits
  obtain ⟨t, u, rfl, notVar, notFun⟩ := starts
  obtain ⟨n, rfl⟩ : ∃ m, n = m + 1 := ⟨n - 1, by omega⟩
  unfold line
  apply passes_not_eat (by simpa [ahead] using notVar)
  apply passes_not_eat (by simpa [ahead] using notFun)
  exact hs c n v ahead hf (fun _ => closed) (by omega)

theorem PassesLines.nil : PassesLines inside [] [] := by
  intro c depth n done closing v ahead hf isClosing fits room
  obtain ⟨n, rfl⟩ : ∃ m, n = m + 1 := ⟨n - 1, by omega⟩
  unfold blockLines
  apply passes_check ahead isClosing
  apply passes_not_atEnd ahead
  simpa using passes_expect_pure ahead isClosing "after block." done.toList

theorem startsLine_not_word (starts : startsLine kind = true) :
    kind ≠ .rightBrace ∧ kind ≠ .elseWord := by
  cases kind <;> first | decide |
    simp [startsLine, startsExpression, startsPrimary, Token.Kind.startsStatement] at starts

theorem PassesLines.cons (starts : ∃ t u', u = t :: u' ∧ startsLine t.kind = true)
    (hl : PassesLine inside u s) (follow : ∀ t ∈ w.head?, t.kind ≠ .elseWord)
    (after : PassesLines inside w rest) : PassesLines inside (u ++ w) (s :: rest) := by
  intro c depth n done closing v ahead hf isClosing fits room
  obtain ⟨t, u, rfl, starts⟩ := starts
  obtain ⟨n, rfl⟩ : ∃ m, n = m + 1 := ⟨n - 1, by omega⟩
  have follow : ∀ t ∈ (w ++ closing :: v).head?, t.kind ≠ .elseWord := by
    cases w with
    | nil => simp [isClosing]
    | cons => simpa using follow
  have passed := hl c depth (w ++ closing :: v) (by simpa using ahead) hf follow fits
  unfold blockLines
  apply passes_not_check ahead (startsLine_not_word starts).1
  apply passes_not_atEnd ahead
  apply (passes_recover passed).bind
  intro c₁ ahead₁ in₁
  simp only [ahead, List.length_append, List.length_cons] at fits room
  have passed := after c₁ depth n (done.push s) closing v ahead₁ (in₁.trans hf) isClosing
    (by simp [ahead₁]; omega) (by simp [ahead₁]; omega)
  simpa using passed

end Steps

/-! Every derivation is read. -/

theorem arguments_start (h : Arguments inside w args) :
    ∃ t u, w = t :: u ∧ startsExpression t.kind = true := by
  cases h with
  | one derived => exact derived.starts
  | more derived =>
    obtain ⟨t, u, rfl, starts⟩ := derived.starts
    exact ⟨t, _, rfl, starts⟩

theorem statement_start (h : Statement inside ajar w s) :
    ∃ t u, w = t :: u ∧ t.kind ≠ .varWord ∧ t.kind ≠ .funWord := by
  cases h with
  | expression derived =>
    obtain ⟨t, u, same, starts⟩ := derived.starts
    cases same
    have foreign := startsExpression_not_word starts
    simp only [List.mem_cons, not_or] at foreign
    exact ⟨_, _, rfl, foreign.2.1, foreign.2.2.1⟩
  | forLoop kind | whileLoop kind | branch kind | branches kind | block kind | returns kind =>
    exact ⟨_, _, rfl, by simp [kind], by simp [kind]⟩

theorem lines_start (h : Lines inside w body) : ∀ t ∈ w.head?, t.kind ≠ .elseWord := by
  cases h with
  | nil => simp
  | cons first _ =>
    obtain ⟨t, u, rfl, starts⟩ := first.starts
    simpa using (startsLine_not_word starts).2

mutual
theorem passes_expression (h : Expression inside level u e) :
    PassesExpression inside level u e := by
  match h with
  | .lowest h => exact (passes_expression h).lowest
  | .unassigned h => exact (passes_expression h).unassigned
  | .operation operation first after =>
    exact .operation operation (passes_expression first) after (passes_applied after)
  | .signed kind h => exact .signed kind (passes_expression h)
  | .unsigned h => exact .unsigned h (passes_expression h)
  | .suffixed first after =>
    obtain ⟨t, v, same, _⟩ := first.starts
    exact .suffixed (by simp [same]) (passes_primary first) (passes_suffixed after)
  | .assign target assignable kind value =>
    have passed := PassesExpression.assignment target (passes_expression target)
      (passes_expression value) assignable (.inl kind)
    simpa only [Parse.assignment, kind] using passed
  | .increase target assignable kind value =>
    have passed := PassesExpression.assignment target (passes_expression target)
      (passes_expression value) assignable (.inr (.inl kind))
    simpa only [Parse.assignment, kind] using passed
  | .decrease target assignable kind value =>
    have passed := PassesExpression.assignment target (passes_expression target)
      (passes_expression value) assignable (.inr (.inr kind))
    simpa only [Parse.assignment, kind] using passed

theorem passes_applied (h : Applied inside operand operators left w e) :
    PassesApplied inside operand operators left w e := by
  match h with
  | .nil => exact .nil
  | .cons member right after =>
    exact .cons member (passes_expression right) after (passes_applied after)

theorem passes_suffixed (h : Suffixed inside first w e) : PassesSuffixed inside first w e := by
  match h with
  | .nil => exact .nil
  | .call isOpening args isClosing after =>
    exact .call isOpening (passes_argumentList args) isClosing (passes_suffixed after)
  | .index isOpening position isClosing after =>
    exact .index isOpening (passes_expression position) isClosing (passes_suffixed after)
  | .member isDot isName after => exact .member isDot isName (passes_suffixed after)

theorem passes_primary (h : Primary inside u e) : PassesPrimary inside u e := by
  match h with
  | .literal denotes => exact .literal denotes
  | .name isName => exact .name isName
  | .grouping isOpening inner isClosing =>
    exact .grouping isOpening (passes_expression inner) isClosing
  | .list isOpening elements isClosing =>
    exact .list isOpening (passes_argumentList elements) isClosing
  | .object isOpening members isClosing =>
    exact .object isOpening (passes_declarations members) isClosing

theorem passes_arguments (h : Arguments inside u args) : PassesArguments inside u args := by
  match h with
  | .one derived => exact .one (passes_expression derived)
  | .more derived isComma after =>
    exact .more (passes_expression derived) isComma (passes_arguments after)

theorem passes_argumentList (h : ArgumentList inside u args) :
    PassesArgumentList inside u args := by
  match h with
  | .none => exact .none
  | .some derived => exact .some (arguments_start derived) (passes_arguments derived)

theorem passes_clause (h : Optional inside u o) : PassesOptional inside u o := by
  match h with
  | .none => exact ⟨.none, nofun⟩
  | .some derived =>
    have passed := passes_expression derived
    exact ⟨.some derived, by rintro _ ⟨rfl⟩; exact passed⟩

theorem passes_variable (h : VariableDeclaration inside w s) : PassesVariable inside w s := by
  match h with
  | .bare isVar isName isSemicolon => exact .bare isVar isName isSemicolon
  | .initialized isVar isName isEqual derived isSemicolon =>
    exact .initialized isVar isName isEqual (passes_expression derived) isSemicolon

theorem passes_function (h : FunctionDeclaration inside w s) : PassesFunction w s := by
  match h with
  | .mk isFun isName isOpening listed few isClosing isBrace body isUnbrace =>
    exact .mk isFun isName isOpening listed few isClosing isBrace (passes_lines body) isUnbrace

theorem passes_declarations (h : Declarations inside w members) :
    PassesDeclarations inside w members := by
  match h with
  | .nil => exact .nil
  | .cons (.var first) after => exact .var (passes_variable first) (passes_declarations after)
  | .cons (.function first) after =>
    exact .function (passes_function first) (passes_declarations after)

theorem passes_initializer (h : Initializer inside u o) : PassesInitializer inside u o := by
  match h with
  | .none isSemicolon => exact .none isSemicolon
  | .var declared => exact .var (passes_variable declared)
  | .expression derived isSemicolon =>
    exact .expression derived.starts (passes_expression derived) isSemicolon

theorem passes_statement (h : Statement inside ajar u s) : PassesStatement inside ajar u s := by
  match h with
  | .expression derived plain isSemicolon =>
    have passed := passes_expression derived
    obtain ⟨_, _, same, starts⟩ := derived.starts
    cases same
    exact .expression starts plain passed isSemicolon
  | .forLoop isFor isOpening initializer condition isSemicolon increment isClosing body =>
    exact .forLoop isFor isOpening (passes_initializer initializer) (passes_clause condition)
      isSemicolon (passes_clause increment) isClosing (passes_statement body)
  | .whileLoop isWhile isOpening condition isClosing body =>
    exact .whileLoop isWhile isOpening (passes_expression condition) isClosing
      (passes_statement body)
  | .branch isIf isOpening condition isClosing thenBranch =>
    exact .branch isIf isOpening (passes_expression condition) isClosing
      (passes_statement thenBranch)
  | .branches isIf isOpening condition isClosing thenBranch isElse elseBranch =>
    exact .branches isIf isOpening (passes_expression condition) isClosing
      (passes_statement thenBranch) isElse (passes_statement elseBranch)
  | .block isOpening body isClosing => exact .block isOpening (passes_lines body) isClosing
  | .returns isReturn value isSemicolon =>
    exact .returns isReturn (passes_clause value) isSemicolon

theorem passes_line (h : Line inside u s) : PassesLine inside u s := by
  match h with
  | .declaration (.var declared) => exact .var (passes_variable declared)
  | .declaration (.function declared) => exact .function (passes_function declared)
  | .statement derived => exact .statement (statement_start derived) (passes_statement derived)

theorem passes_lines (h : Lines inside w body) : PassesLines inside w body := by
  match h with
  | .nil => exact .nil
  | .cons first after =>
    exact .cons first.starts (passes_line first) (lines_start after) (passes_lines after)
end

end SoftScript.Parse
