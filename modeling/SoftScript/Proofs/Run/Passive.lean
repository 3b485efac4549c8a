import SoftScript.Proofs.Run.Renaming
import SoftScript.Proofs.Run.Rounds

/-! Expressions without calls and assignments. Their evaluation comes to an end within as many steps
as they have parts and does nothing but add cells to the heap. Evaluated once more in the heap with
these cells they take the same course with other places for the new cells, so they come to the same
fault or to a value that cannot be told from the first one by its text or its truth. -/
namespace SoftScript

mutual
/-- Nothing is called or assigned, but for what stands in the body of a function. -/
def Expr.isPassive : Expr → Bool
  | .assign .. | .call .. => false
  | .binary left _ right => left.isPassive && right.isPassive
  | .index left _ position => left.isPassive && position.isPassive
  | .access left _ _ => left.isPassive
  | .grouping inner => inner.isPassive
  | .literal .. | .variable _ => true
  | .list _ elements => Expr.allPassive elements
  | .unary _ operand => operand.isPassive
  | .object _ declarations => Stmt.allPassive declarations

def Expr.allPassive : List Expr → Bool
  | [] => true
  | e :: rest => e.isPassive && Expr.allPassive rest

/-- A member of an object literal. -/
def Stmt.isPassive : Stmt → Bool
  | .var _ none | .function .. => true
  | .var _ (some initializer) => initializer.isPassive
  | .block _ | .expression _ | .branch .. | .returns .. | .loop .. => false

def Stmt.allPassive : List Stmt → Bool
  | [] => true
  | s :: rest => s.isPassive && Stmt.allPassive rest
end

namespace Run

variable {f : Renaming} {m m' : Machine} {n : Nat}

/-- Within as many steps as it has parts, a passive expression comes to the same in machines that
differ in places only. -/
def EchoesPassive (n : Nat) : Prop :=
  ∀ e : Expr, e.isPassive = true → sizeOf e ≤ n → ∀ (f : Renaming) (m m' : Machine),
    EchoesValue f (evaluate n e) (evaluate n e) m m'

theorem holds_scope (formed : m.WellFormed) : m.heap.Holds Cell.Anywhere (.frame m.scope) :=
  ⟨trivial, formed.scope⟩

theorem echoes_evaluate_bind {α : Type} {g : α → α} {e : Expr} {next next' : Value → Run α}
    (first : EchoesValue f (evaluate n e) (evaluate n e) m m')
    (later : ∀ v k k', m.Onward Cell.Anywhere k → v.Held Cell.Anywhere k.heap →
      Echoes f g (next v) (next' (v.renamed f)) k k') :
    Echoes f g (evaluate n e >>= next) (evaluate n e >>= next') m m' :=
  echoes_of fun formed _ =>
    first.bind ((within_all Cell.Anywhere n).1 e m (holds_scope formed)) later

theorem echoes_mapM (value : EchoesPassive n) {es : List Expr} (passive : Expr.allPassive es = true)
    (fits : sizeOf es ≤ n) : Echoes f (List.map (Value.renamed f)) (es.mapM (evaluate n))
      (es.mapM (evaluate n)) m m' := by
  induction es generalizing m m' with
  | nil => exact echoes_pure []
  | cons e rest ih =>
    simp only [Expr.allPassive, Bool.and_eq_true] at passive
    simp only [List.cons.sizeOf_spec] at fits
    rw [List.mapM_cons]
    apply echoes_evaluate_bind (value e passive.1 (by omega) f m m')
    intro v k k' _ _
    apply echoes_of
    intro formed _
    apply (ih passive.2 (by omega)).bind
      (within_mapM (within_all Cell.Anywhere n).1 (holds_scope formed) rest)
    intro vs l l' _ _
    exact echoes_pure (v :: vs)

theorem echoes_initial (value : EchoesPassive n) {name : Token} {initializer : Option Expr}
    (passive : (Stmt.var name initializer).isPassive = true)
    (fits : sizeOf (Stmt.var name initializer) ≤ n) :
    EchoesValue f (initial (evaluate n) initializer) (initial (evaluate n) initializer) m m' := by
  cases initializer with
  | none => exact echoes_pure Value.null
  | some e =>
    simp only [Stmt.var.sizeOf_spec, Option.some.sizeOf_spec] at fits
    exact value e passive (by omega) f m m'

theorem echoes_objectMembers (value : EchoesPassive n) {declarations : List Stmt}
    (passive : Stmt.allPassive declarations = true) (fits : sizeOf declarations ≤ n)
    {members : Bindings} (held : members.Held Cell.Anywhere m.heap) :
    Echoes f (Bindings.renamed f) (objectMembers (evaluate n) (execute n) declarations members)
      (objectMembers (evaluate n) (execute n) declarations (members.renamed f)) m m' := by
  induction declarations generalizing members m m' with
  | nil => exact echoes_pure members
  | cons declaration rest ih =>
    simp only [Stmt.allPassive, Bool.and_eq_true] at passive
    simp only [List.cons.sizeOf_spec] at fits
    apply echoes_of
    intro formed _
    -- A member is added to those before it, and the others follow.
    have added (name : Token) (v : Value) (k k' : Machine) (onward : m.Onward Cell.Anywhere k)
        (heldValue : v.Held Cell.Anywhere k.heap) : Echoes f (Bindings.renamed f)
        (addMember members name v >>= objectMembers (evaluate n) (execute n) rest)
        (addMember (members.renamed f) name (v.renamed f) >>=
          objectMembers (evaluate n) (execute n) rest) k k' := by
      apply (echoes_addMember members name v).bind
        (within_addMember (held.mono onward.heap) heldValue name)
      intro members' l l' _ held'
      exact ih passive.2 (by omega) held'
    cases declaration with
    | var name initializer =>
      apply (echoes_initial value passive.1 (by omega)).bind
        (yields_initial (within_all Cell.Anywhere n).1 (holds_scope formed) initializer)
      intro v k k' onward heldValue
      exact added name (v.named name) k k' onward (heldValue.named name)
    | function name params body =>
      apply (echoes_bindFunction _).bind (yields_bindFunction (holds_scope formed) _)
      exact added name
    | block | expression | branch | returns | loop => cases passive.1

/-- By cases of the expression: its parts come to the same, and so do the steps on their values. -/
theorem echoesPassive_succ (value : EchoesPassive n) : EchoesPassive (n + 1) := by
  intro e passive fits f m m'
  cases e with
  | assign | call => cases passive
  | binary left op right =>
    simp only [Expr.isPassive, Bool.and_eq_true] at passive
    simp only [Expr.binary.sizeOf_spec] at fits
    apply echoes_evaluate_bind (value left passive.1 (by omega) f m m')
    intro a k k' _ heldLeft
    apply echoes_evaluate_bind (value right passive.2 (by omega) f k k')
    intro b l l' onward heldRight
    exact echoes_binary op (heldLeft.mono onward.heap) heldRight
  | index left bracket position =>
    simp only [Expr.isPassive, Bool.and_eq_true] at passive
    simp only [Expr.index.sizeOf_spec] at fits
    apply echoes_evaluate_bind (value left passive.1 (by omega) f m m')
    intro a k k' _ _
    apply echoes_evaluate_bind (value position passive.2 (by omega) f k k')
    intro b l l' _ held
    exact echoes_indexAccess a bracket held
  | access left dot member =>
    simp only [Expr.access.sizeOf_spec] at fits
    apply echoes_evaluate_bind (value left passive (by omega) f m m')
    intro a k k' _ _
    exact echoes_dotAccess a dot member
  | grouping inner =>
    simp only [Expr.grouping.sizeOf_spec] at fits
    exact value inner passive (by omega) f m m'
  | literal constant token => cases constant <;> exact echoes_pure _
  | list bracket elements =>
    simp only [Expr.list.sizeOf_spec] at fits
    apply echoes_of
    intro formed _
    apply (echoes_mapM value passive (by omega)).bind
      (within_mapM (within_all Cell.Anywhere n).1 (holds_scope formed) elements)
    intro vs k k' _ _
    rw [← List.map_toArray]
    exact echoes_newList vs.toArray
  | unary op operand =>
    simp only [Expr.unary.sizeOf_spec] at fits
    apply echoes_evaluate_bind (value operand passive (by omega) f m m')
    intro a k k' _ _
    exact echoes_unary op a
  | «variable» name => exact echoes_lookup name
  | object brace declarations =>
    simp only [Expr.object.sizeOf_spec] at fits
    apply echoes_of
    intro formed _
    have all := within_all Cell.Anywhere n
    apply (echoes_objectMembers value passive (by omega) Bindings.held_nil).bind
      (within_objectMembers all.1 all.2 (holds_scope formed) Bindings.held_nil declarations)
    intro members k k' _ _
    exact echoes_newObject members

theorem echoesPassive (n : Nat) : EchoesPassive n := by
  induction n with
  | zero =>
    intro e _ fits
    cases e <;> simp at fits
  | succ n ih => exact echoesPassive_succ ih

/-- Two evaluations that both came to an end, with values of the same text and truth, or with the
same fault. -/
inductive EndsAlike : EStateM.Result Halt Machine Value → EStateM.Result Halt Machine Value → Prop
  | value {v v' : Value} {k k' : Machine} : k'.heap.text v'.payload = k.heap.text v.payload →
    v'.payload.isTruthy = v.payload.isTruthy → EndsAlike (.ok v k) (.ok v' k')
  | fault {fault : Fault} {k k' : Machine} :
    EndsAlike (.error (.fault fault) k) (.error (.fault fault) k')

theorem mirrors_evaluate {e : Expr} (passive : e.isPassive = true) (formed : m.WellFormed)
    {k : Machine} (grows : m.Grows k) :
    Mirrors (m.heap.past k.heap) (Value.renamed (m.heap.past k.heap)) m k
      (evaluate (sizeOf e) e m) (evaluate (sizeOf e) e k) :=
  echoesPassive (sizeOf e) e passive (Nat.le_refl _) _ m k formed (grows.renames formed)

theorem endsAlike_of_mirrors {x : Run Value} {r' : EStateM.Result Halt Machine Value}
    (formed : m.WellFormed) (yields : Yields Cell.Anywhere x m)
    (mirrors : Mirrors f (Value.renamed f) m m' (x m) r') : EndsAlike (x m) r' := by
  have ran := yields formed.intact.confined_anywhere
  generalize x m = r at mirrors ran ⊢
  cases mirrors with
  | fault => exact .fault
  | ok _ _ renames =>
    obtain ⟨onward, held⟩ := ran
    refine .value ?_ (Payload.isTruthy_renamed f _)
    exact renames.heap.text (formed.onward onward).intact fun c refers => (held c refers).allocated

/-- An expression without calls and assignments always comes to an end, within as many steps as it
has parts. Whether it ends with a value or with a fault, the machine is as it was but for functions,
lists and objects added to its heap. Evaluated once more from there it ends alike: with the same
fault, or with a value of the same text and truth. -/
theorem passive_evaluation (e : Expr) (passive : e.isPassive = true) (m : Machine)
    (formed : m.WellFormed) :
    ∃ r r', (∀ n, sizeOf e ≤ n → evaluate n e m = r ∧ evaluate n e (after r) = r') ∧
      m.Grows (after r) ∧ (after r).Grows (after r') ∧ EndsAlike r r' := by
  -- The first evaluation beside itself tells that it ends and what it adds.
  have once := mirrors_evaluate passive formed (.refl m)
  have twice := mirrors_evaluate passive formed once.grows.1
  have yields := (within_all Cell.Anywhere (sizeOf e)).1 e m (holds_scope formed)
  refine ⟨evaluate (sizeOf e) e m, _, ?_, once.grows.1, twice.grows.2,
    endsAlike_of_mirrors formed yields twice⟩
  intro n enough
  have first := steady_evaluate e m (sizeOf e) once.isOver.1 n enough
  exact ⟨first, steady_evaluate e _ (sizeOf e) twice.isOver.2 n enough⟩

/-- A list that holds itself, under the name `xs`. -/
def entwined : Machine where
  heap := ⟨#[⟨[("xs", .of (.list 0))], none⟩], #[], #[#[.int 1, .of (.list 0)]], #[]⟩
  globals := 0
  scope := 0
  depth := 0
  output := .unlimited
  clock := fun _ => 0
  readings := 0

/-- An object of the items of `xs` and one more, and of a function that calls itself. -/
def gathered : Expr :=
  .object (.read .leftBrace "\x7b" 1 ⟨0, 1⟩) [
    .var (.read .identifier "all" 1 ⟨2, 5⟩) (some (.binary
      (.variable (.read .identifier "xs" 1 ⟨6, 8⟩)) (.read .plus "+" 1 ⟨9, 10⟩)
      (.list (.read .leftSquare "[" 1 ⟨11, 12⟩)
        [.literal (.int 2) (.read .number "2" 1 ⟨12, 13⟩)]))),
    .function (.read .identifier "get" 1 ⟨14, 17⟩) [] [.expression (.call
      (.variable (.read .identifier "get" 1 ⟨18, 21⟩)) (.read .rightParen ")" 1 ⟨22, 23⟩) [])]]

theorem passive_evaluation_entwined :
    entwined.WellFormed ∧ gathered.isPassive = true ∧
    ∃ v k v' k', evaluate 9 gathered entwined = .ok v k ∧
      (∀ n, sizeOf gathered ≤ n → evaluate n gathered k = .ok v' k') ∧
      k'.heap.text v'.payload = "\x7ball: [1, [1, [...]], 2], get: <fn get>\x7d" := by
  have formed : entwined.WellFormed := ⟨by decide, by decide +kernel⟩
  have passive : gathered.isPassive = true := rfl
  obtain ⟨v, k, ran, shown⟩ : ∃ v k, evaluate 9 gathered entwined = .ok v k ∧
      k.heap.text v.payload = "\x7ball: [1, [1, [...]], 2], get: <fn get>\x7d" :=
    ⟨_, _, rfl, by decide +kernel⟩
  have more : evaluate (max 9 (sizeOf gathered)) gathered entwined = .ok v k :=
    (steady_evaluate gathered entwined 9 (congrArg isOver ran) _ (Nat.le_max_left ..)).trans ran
  obtain ⟨r, r', same, -, -, alike⟩ := passive_evaluation gathered passive entwined formed
  obtain rfl : r = .ok v k := (same _ (Nat.le_max_right ..)).1.symm.trans more
  cases alike with
  | @value _ v' _ k' text =>
    exact ⟨formed, passive, v, k, v', k', ran, fun n enough => (same n enough).2, text.trans shown⟩

end Run

end SoftScript
