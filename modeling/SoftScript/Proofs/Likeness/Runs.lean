import SoftScript.Eval.Basic
import SoftScript.Proofs.Likeness.Steps

/-! Programs that are alike, run on machines that are alike. If the first run comes to an end, so
does the second, and they end alike. The second may need a larger bound, since a grouping counts as
a step, but only if it has groupings that the first one lacks. -/
namespace SoftScript

/-- Statements that ended alike. -/
inductive Flow.Alike (L : Likeness) : Flow → Flow → Prop
  | completed : Flow.Alike L .completed .completed
  | returned {v v' : Value} : v.Alike L v' → Flow.Alike L (.returned v) (.returned v')

namespace Run

variable {L : Likeness} {α α' β β' : Type} {V : α → α' → Prop} {W : β → β' → Prop} {m m' : Machine}
  {n : Nat}

theorem exhausted_of_not_isOver {r : EStateM.Result Halt Machine α} (cut : isOver r = false) :
    ∃ m, r = .error .exhausted m := by
  rcases r with ⟨a, m⟩ | ⟨_ | _, m⟩
  · cases cut
  · cases cut
  · exact ⟨m, rfl⟩

/-- From machines that are alike, if the first run comes to an end, then the second one comes to an
end alike under every bound that is large enough; unless groupings are added, the given one is. -/
def Follows (L : Likeness) (n : Nat) (V : α → α' → Prop) (x : Run α) (x' : Nat → Run α')
    (m m' : Machine) : Prop :=
  m.Alike L m' → isOver (x m) = true → ∃ r, Ends L V (x m) r ∧
    ∃ enough, (¬ L.adds → enough ≤ n) ∧ ∀ k, enough ≤ k → x' k m' = r

theorem Agree.follows {x : Run α} {x' : Run α'} (h : Agree L V x x' m m') :
    Follows L n V x (fun _ => x') m m' :=
  fun alike halts => ⟨_, h alike halts, 0, fun _ => Nat.zero_le n, fun _ _ => rfl⟩

theorem follows_exhausted {x' : Nat → Run α'} : Follows L n V exhausted x' m m' := by
  intro _ halts
  cases halts

theorem follows_of_alike {x : Run α} {x' : Nat → Run α'}
    (h : m.Alike L m' → Follows L n V x x' m m') : Follows L n V x x' m m' :=
  fun alike => h alike alike

theorem follows_bind {x : Run α} {x' : Nat → Run α'} {next : α → Run β} {next' : Nat → α' → Run β'}
    (first : Follows L n V x x' m m')
    (second : ∀ a a' m m', V a a' → Follows L n W (next a) (fun k => next' k a') m m') :
    Follows L n W (x >>= next) (fun k => x' k >>= next' k) m m' := by
  intro alike halts
  obtain ⟨r, ended, enough, small, later⟩ := first alike (isOver_bind halts)
  rw [bind_apply] at halts ⊢
  generalize x m = l at halts ended
  cases ended with
  | ok result alike =>
    obtain ⟨r', ended', enough', small', later'⟩ := second _ _ _ _ result alike halts
    refine ⟨r', ended', max enough enough', fun exact => ?_, fun k le => ?_⟩
    · exact Nat.max_le.mpr ⟨small exact, small' exact⟩
    · obtain ⟨le, le'⟩ := Nat.max_le.mp le
      change (x' k >>= next' k) m' = r'
      rw [bind_apply, later k le]
      exact later' k le'
  | fault place alike =>
    refine ⟨_, .fault place alike, enough, small, fun k le => ?_⟩
    change (x' k >>= next' k) m' = _
    rw [bind_apply, later k le]

theorem follows_get {next : Machine → Run α} {next' : Nat → Machine → Run α'}
    (later : Follows L n V (next m) (fun k => next' k m') m m') :
    Follows L n V (get >>= next) (fun k => get >>= next' k) m m' :=
  later

theorem follows_heap {next : Heap → Run α} {next' : Nat → Heap → Run α'}
    (later : m.heap.Alike L m'.heap → Follows L n V (next m.heap) (fun k => next' k m'.heap) m m') :
    Follows L n V (heap >>= next) (fun k => heap >>= next' k) m m' :=
  fun alike => later alike.heap alike

/-- Once a run is over, a larger bound makes no difference. -/
def Steady (x : Nat → Run α) : Prop :=
  ∀ m n, isOver (x n m) = true → ∀ k, n ≤ k → x k m = x n m

/-- Such are runs that are followed by themselves. -/
theorem steady_of_follows {V : α → α → Prop} {x : Nat → Run α} (self : L.Reflexive)
    (exact : ¬ L.adds) (follows : ∀ n m, Follows L n V (x n) x m m) : Steady x := by
  intro m n halts k le
  obtain ⟨r, _, enough, small, later⟩ := follows n m (m.alike_refl self) halts
  have fits := small exact
  exact (later k (Nat.le_trans fits le)).trans (later n fits).symm

/-- What the second run does under small bounds does not matter. -/
theorem follows_of_le {x : Run α} {x' y' : Nat → Run α'} (least : Nat) (small : least ≤ n)
    (same : ∀ k, least ≤ k → y' k = x' k) (h : Follows L n V x x' m m') :
    Follows L n V x y' m m' := by
  intro alike halts
  obtain ⟨r, ended, enough, fits, later⟩ := h alike halts
  refine ⟨r, ended, max least enough, fun exact => ?_, fun k le => ?_⟩
  · exact Nat.max_le.mpr ⟨small, fits exact⟩
  · obtain ⟨le, le'⟩ := Nat.max_le.mp le
    rw [same k le]
    exact later k le'

/-- One step more on both sides. -/
theorem follows_succ {x : Run α} {x' : Nat → Run α'}
    (h : Follows L n V x (fun k => x' (k + 1)) m m') : Follows L (n + 1) V x x' m m' := by
  intro alike halts
  obtain ⟨r, ended, enough, fits, later⟩ := h alike halts
  refine ⟨r, ended, enough + 1, fun exact => Nat.succ_le_succ (fits exact), fun k le => ?_⟩
  obtain ⟨k, rfl⟩ : ∃ j, k = j + 1 := ⟨k - 1, by omega⟩
  exact later k (Nat.le_of_succ_le_succ le)

/-- One step more on the left. -/
theorem follows_left {x : Run α} {x' : Nat → Run α'} (h : Follows L n V x x' m m') :
    Follows L (n + 1) V x x' m m' := by
  intro alike halts
  obtain ⟨r, ended, enough, fits, later⟩ := h alike halts
  exact ⟨r, ended, enough, fun exact => Nat.le_succ_of_le (fits exact), later⟩

/-- One step more on the right, where a grouping is added. -/
theorem follows_right {x : Run α} {x' y' : Nat → Run α'} (adds : L.adds)
    (step : ∀ k, y' (k + 1) = x' k) (h : Follows L n V x x' m m') : Follows L n V x y' m m' := by
  intro alike halts
  obtain ⟨r, ended, enough, _, later⟩ := h alike halts
  refine ⟨r, ended, enough + 1, fun exact => absurd adds exact, fun k le => ?_⟩
  obtain ⟨k, rfl⟩ : ∃ j, k = j + 1 := ⟨k - 1, by omega⟩
  rw [step]
  exact later k (Nat.le_of_succ_le_succ le)

/-- A result with something done to the machine that is left. -/
def leaving (leave : Machine → Machine) :
    EStateM.Result Halt Machine α → EStateM.Result Halt Machine α
  | .ok a m => .ok a (leave m)
  | .error e m => .error e (leave m)

theorem isOver_leaving (leave : Machine → Machine) (r : EStateM.Result Halt Machine α) :
    isOver (leaving leave r) = isOver r := by
  rcases r with ⟨a, l⟩ | ⟨_ | _, l⟩ <;> rfl

theorem follows_leaving (leave leave' : Machine → Machine) {x y : Run α} {x' y' : Nat → Run α'}
    {b b' : Machine} (inner : Follows L n V x x' b b') (begun : b.Alike L b')
    (leaves : ∀ l l', l.Alike L l' → (leave l).Alike L (leave' l'))
    (run : y m = leaving leave (x b)) (run' : ∀ k, y' k m' = leaving leave' (x' k b')) :
    Follows L n V y y' m m' := by
  intro _ halts
  rw [run, isOver_leaving] at halts
  rw [run]
  obtain ⟨r, ended, enough, fits, later⟩ := inner begun halts
  refine ⟨leaving leave' r, ?_, enough, fits, fun k le => ?_⟩
  · generalize x b = l at ended
    cases ended with
    | ok result left => exact .ok result (leaves _ _ left)
    | fault place left => exact .fault place (leaves _ _ left)
  · rw [run', later k le]

theorem follows_inScope {x : Run α} {x' : Nat → Run α'} {frame : FrameId}
    (inner : Follows L n V x x' { m with scope := frame } { m' with scope := frame }) :
    Follows L n V (inScope frame x) (fun k => inScope frame (x' k)) m m' := by
  apply follows_of_alike
  intro alike
  apply follows_leaving ({ · with scope := m.scope }) ({ · with scope := m'.scope }) inner
    { alike with scope := rfl }
  · intro l l' left
    exact { left with scope := alike.scope }
  · rfl
  · exact fun _ => rfl

theorem follows_deeper {x : Run α} {x' : Nat → Run α'}
    (inner : Follows L n V x x' { m with depth := m.depth + 1 } { m' with depth := m'.depth + 1 }) :
    Follows L n V (deeper x) (fun k => deeper (x' k)) m m' := by
  apply follows_of_alike
  intro alike
  apply follows_leaving (fun l => { l with depth := l.depth - 1 })
    (fun l => { l with depth := l.depth - 1 }) inner
    { alike with depth := congrArg (· + 1) alike.depth }
  · intro l l' left
    exact { left with depth := congrArg (· - 1) left.depth }
  · rfl
  · exact fun _ => rfl

/-- Whatever is run after it, a step without a bound is followed by its like. -/
theorem follows_step {x : Run α} {x' : Run α'} {next : α → Run β} {next' : Nat → α' → Run β'}
    (first : Agree L V x x' m m')
    (second : ∀ a a' m m', V a a' → Follows L n W (next a) (fun k => next' k a') m m') :
    Follows L n W (x >>= next) (fun k => x' >>= next' k) m m' :=
  follows_bind first.follows second

/-! Evaluation and execution. -/

/-- Expressions that are alike are followed by their likes. -/
def FollowsValues (L : Likeness) (n : Nat) : Prop :=
  ∀ e e' m m', Expr.Alike L e e' →
    Follows L n (Value.Alike L) (evaluate n e) (fun k => evaluate k e') m m'

def FollowsFlows (L : Likeness) (n : Nat) : Prop :=
  ∀ s s' m m', Stmt.Alike L s s' →
    Follows L n (Flow.Alike L) (execute n s) (fun k => execute k s') m m'

theorem follows_statements (flows : FollowsFlows L n) {p p' : List Stmt}
    (alike : Stmt.AllAlike L p p') (m m' : Machine) :
    Follows L n (Flow.Alike L) (statements (execute n) p) (fun k => statements (execute k) p')
      m m' := by
  induction p generalizing p' m m' with
  | nil =>
    cases alike
    exact (agree_pure .completed).follows
  | cons s rest ih =>
    cases alike with
    | cons first later =>
      apply follows_bind (flows _ _ m m' first)
      intro flow flow' m m' ended
      cases ended with
      | completed => exact ih later m m'
      | returned value => exact (agree_pure (.returned value)).follows

theorem agree_bindFunction {declaration declaration' : FunctionDecl}
    (alike : declaration.Alike L declaration') :
    Agree L (Value.Alike L) (bindFunction declaration) (bindFunction declaration') m m' := by
  apply agree_of_heaps
  intro heap' _
  apply agree_get
  apply agree_bind (agree_newFunction (.user alike))
  intro function function' _ _ value
  exact agree_pure (value.named alike.name)

theorem agree_bindParameters {params params' : List Token} {args args' : List Value}
    {bound bound' : Bindings} (names : List.Forall₂ L.name params params')
    (values : Values.Alike L args args') (alike : Bindings.Alike L bound bound') :
    Agree L (Bindings.Alike L) (bindParameters params args bound)
      (bindParameters params' args' bound') m m' := by
  induction names generalizing args args' bound bound' with
  | nil => exact agree_pure alike
  | cons name _ ih =>
    cases values with
    | nil => exact agree_pure alike
    | cons value values =>
      rw [bindParameters, bindParameters, ← name.2, alike.contains]
      split
      · exact agree_fail _ name.1
      · exact ih values (alike.insert _ (value.named name))

theorem follows_callFunction (flows : FollowsFlows L n) {declaration declaration' : FunctionDecl}
    (alike : declaration.Alike L declaration') (closure : FrameId) {args args' : List Value}
    (values : Values.Alike L args args') (place : L.place paren paren') :
    Follows L n (Value.Alike L) (callFunction (execute n) declaration closure args paren)
      (fun k => callFunction (execute k) declaration' closure args' paren') m m' := by
  apply follows_of_alike
  intro machine
  apply follows_get
  rw [machine.depth]
  split
  · exact (agree_fail _ place).follows
  · apply follows_step (agree_bindParameters alike.params values .nil)
    intro bound bound' m m' bindings
    have frames : Frame.Alike L ⟨bound, some closure⟩ ⟨bound', some closure⟩ := ⟨bindings, rfl⟩
    apply follows_step (agree_newFrame frames)
    rintro frame _ m m' rfl
    apply follows_bind (follows_deeper (follows_inScope (follows_statements flows alike.body _ _)))
    intro flow flow' _ _ ended
    cases ended with
    | completed => exact (agree_pure (.of _)).follows
    | returned value => exact (agree_pure value).follows

theorem follows_call (flows : FollowsFlows L n) {callee callee' : Value}
    (alike : callee.Alike L callee') {args args' : List Value} (values : Values.Alike L args args')
    (place : L.place paren paren') :
    Follows L n (Value.Alike L) (call (execute n) callee args paren)
      (fun k => call (execute k) callee' args' paren') m m' := by
  unfold call
  rw [← alike.payload]
  split
  · rename_i id _
    apply follows_heap
    intro heap
    rcases related_cases (heap.function? id) with ⟨left, right⟩ | ⟨c, c', left, right, callable⟩
    · rw [left, right]
      exact (agree_fail _ place).follows
    · simp only [left, right]
      rw [← callable.arity, ← values.length_eq]
      split
      · exact (agree_fail _ place).follows
      · cases callable with
        | user declaration => exact follows_callFunction flows declaration _ values place
        | builtin => exact (agree_callNative _ values place).follows
  · exact (agree_fail _ place).follows

theorem agree_addMember {members members' : Bindings} {v v' : Value}
    (alike : Bindings.Alike L members members') (name : L.name t t') (value : v.Alike L v') :
    Agree L (Bindings.Alike L) (addMember members t v) (addMember members' t' v') m m' := by
  unfold addMember
  rw [← name.2, alike.contains]
  split
  · exact agree_fail _ name.1
  · exact agree_pure (alike.insert _ value)

theorem follows_objectMembers (values : FollowsValues L n) (flows : FollowsFlows L n)
    {declarations declarations' : List Stmt} (alike : Stmt.AllAlike L declarations declarations')
    {members members' : Bindings} (bound : Bindings.Alike L members members') (m m' : Machine) :
    Follows L n (Bindings.Alike L) (objectMembers (evaluate n) (execute n) declarations members)
      (fun k => objectMembers (evaluate k) (execute k) declarations' members') m m' := by
  induction declarations generalizing declarations' members members' m m' with
  | nil =>
    cases alike
    exact (agree_pure bound).follows
  | cons declaration rest ih =>
    cases alike with
    | @cons _ declaration' _ rest' first later =>
      have onward {t t' : Token} {v v' : Value} (name : L.name t t') (value : v.Alike L v')
          (m m' : Machine) : Follows L n (Bindings.Alike L)
            (do objectMembers (evaluate n) (execute n) rest (← addMember members t v))
            (fun k => do objectMembers (evaluate k) (execute k) rest' (← addMember members' t' v'))
            m m' := by
        apply follows_step (agree_addMember bound name value)
        intro more more' m m' bound
        exact ih later bound m m'
      have other : Follows L n (Bindings.Alike L)
          (do let _ ← execute n declaration; objectMembers (evaluate n) (execute n) rest members)
          (fun k => do
            let _ ← execute k declaration'
            objectMembers (evaluate k) (execute k) rest' members') m m' :=
        follows_bind (flows _ _ m m' first) fun _ _ m m' _ => ih later bound m m'
      cases first with
      | var name => exact onward name (Value.Alike.named (.of _) name) m m'
      | varValue name value =>
        apply follows_bind (values _ _ m m' value)
        intro v v' m m' value
        exact onward name (value.named name) m m'
      | function name params body =>
        apply follows_step (agree_bindFunction ⟨name, params, body⟩)
        intro f f' m m' function
        exact onward name function m m'
      | block | expression | branch | branches | returns | returnsValue | loop => exact other

/-- Each time round, both sides have gone as far; what the second one has left of its bound is
told by how often it has come round. -/
theorem follows_repeatWhile (values : FollowsValues L n) (flows : FollowsFlows L n)
    {condition condition' : Expr} {body body' : Stmt} (alike : Expr.Alike L condition condition')
    (alike' : Stmt.Alike L body body') {rounds done : Nat} (total : rounds + done = n)
    (m m' : Machine) :
    Follows L n (Flow.Alike L) (repeatWhile (evaluate n condition) (execute n body) rounds)
      (fun k => repeatWhile (evaluate k condition') (execute k body') (k - done)) m m' := by
  induction rounds generalizing done m m' with
  | zero => exact follows_exhausted
  | succ rounds ih =>
    have round : Follows L n (Flow.Alike L)
        (repeatWhile (evaluate n condition) (execute n body) (rounds + 1))
        (fun k => repeatWhile (evaluate k condition') (execute k body') (k - (done + 1) + 1)) m m' := by
      apply follows_bind (values _ _ m m' alike)
      intro v v' m m' value
      rw [← value.payload]
      split
      · apply follows_bind (flows _ _ m m' alike')
        intro flow flow' m m' ended
        cases ended with
        | completed => exact ih (by omega) m m'
        | returned value => exact (agree_pure (.returned value)).follows
      · exact (agree_pure .completed).follows
    apply follows_of_le (done + 1) (by omega) ?_ round
    intro k le
    have left : k - done = k - (done + 1) + 1 := by omega
    rw [left]

theorem follows_mapM (values : FollowsValues L n) {es es' : List Expr}
    (alike : Expr.AllAlike L es es') (m m' : Machine) :
    Follows L n (Values.Alike L) (es.mapM (evaluate n)) (fun k => es'.mapM (evaluate k)) m m' := by
  induction es generalizing es' m m' with
  | nil =>
    cases alike
    exact (agree_pure .nil).follows
  | cons e rest ih =>
    cases alike with
    | cons first later =>
      simp only [List.mapM_cons]
      apply follows_bind (values _ _ m m' first)
      intro v v' m m' value
      apply follows_bind (ih later m m')
      intro vs vs' m m' values
      exact (agree_pure (.cons value values)).follows

theorem alike_constant (value : Constant) : (constant value).Alike L (constant value) := by
  cases value <;> exact .of _

/-- Assignments of values that are alike to targets that are alike. -/
theorem follows_assign (values : FollowsValues L n) {target target' : Expr} {v v' : Value}
    (alike : Expr.Alike L target target') (same : target.isGrouping = target'.isGrouping)
    (value : v.Alike L v') (m m' : Machine) :
    Follows L n (Value.Alike L) (do
      match target with
      | .variable name => assign name v
      | .access left dot member => assignMember (← evaluate n left) dot member v
      | other => fail .invalidAssignmentTarget other.token
      return v) (fun k => do
      match target' with
      | .variable name => assign name v'
      | .access left dot member => assignMember (← evaluate k left) dot member v'
      | other => fail .invalidAssignmentTarget other.token
      return v') m m' := by
  have answer {m m' : Machine} : Follows L n (Value.Alike L) (pure v) (fun _ => pure v') m m' :=
    (agree_pure value).follows
  have refused (place : L.place target.token target'.token) : Follows L n (Value.Alike L)
      (do fail (α := Unit) .invalidAssignmentTarget target.token; return v)
      (fun _ => do fail (α := Unit) .invalidAssignmentTarget target'.token; return v') m m' :=
    (agree_bind (V := Eq) (agree_fail _ place) fun _ _ _ _ _ => agree_pure value).follows
  have place := alike.token
  cases alike with
  | «variable» name => exact follows_step (agree_assign name value) fun _ _ _ _ _ => answer
  | access left dot member =>
    apply follows_bind (values _ _ m m' left)
    intro a a' m m' left
    exact follows_step (agree_assignMember left dot member value) fun _ _ _ _ _ => answer
  | drops _ _ =>
    obtain ⟨inner, rfl⟩ : ∃ inner, target' = .grouping inner := by
      cases target' <;> simp_all [Expr.isGrouping]
    exact refused place
  | adds _ _ =>
    obtain ⟨inner, rfl⟩ : ∃ inner, target = .grouping inner := by
      cases target <;> simp_all [Expr.isGrouping]
    exact refused place
  | assign | binary | index | call | keeps | literal | list | unary | object =>
    exact refused place

/-- One step more, by recursion on the likeness: groupings on the right do not make the left any
smaller. -/
theorem value_follows_succ (values : FollowsValues L n) (flows : FollowsFlows L n) :
    ∀ {e e'}, Expr.Alike L e e' → ∀ m m',
      Follows L (n + 1) (Value.Alike L) (evaluate (n + 1) e) (fun k => evaluate k e') m m'
  | _, _, .adds allowed inner, m, m' =>
    follows_right allowed (fun _ => rfl) (value_follows_succ values flows inner m m')
  | _, _, .drops _ inner, m, m' => follows_left (values _ _ m m' inner)
  | _, _, .keeps _ inner, m, m' => follows_succ (values _ _ m m' inner)
  | _, _, .assign target same value, m, m' => by
    apply follows_succ
    apply follows_bind (values _ _ m m' value)
    intro v v' m m' value
    exact follows_assign values target same value m m'
  | _, _, .binary left op right, m, m' => by
    apply follows_succ
    apply follows_bind (values _ _ m m' left)
    intro a a' m m' left
    apply follows_bind (values _ _ m m' right)
    intro b b' m m' right
    exact (agree_binary op left right).follows
  | _, _, .index left bracket position, m, m' => by
    apply follows_succ
    apply follows_bind (values _ _ m m' left)
    intro a a' m m' left
    apply follows_bind (values _ _ m m' position)
    intro b b' m m' position
    exact (agree_indexAccess left bracket position).follows
  | _, _, .access left dot member, m, m' => by
    apply follows_succ
    apply follows_bind (values _ _ m m' left)
    intro a a' m m' left
    exact (agree_dotAccess left dot member).follows
  | _, _, .call callee paren args, m, m' => by
    apply follows_succ
    apply follows_bind (values _ _ m m' callee)
    intro f f' m m' function
    apply follows_bind (follows_mapM values args m m')
    intro vs vs' m m' args
    exact follows_call flows function args paren
  | _, _, .literal _, m, m' => follows_succ (agree_pure (alike_constant _)).follows
  | _, _, .list _ elements, m, m' => by
    apply follows_succ
    apply follows_bind (follows_mapM values elements m m')
    intro vs vs' m m' items
    exact (agree_newList items).follows
  | _, _, .unary op operand, m, m' => by
    apply follows_succ
    apply follows_bind (values _ _ m m' operand)
    intro a a' m m' operand
    exact (agree_unary op operand).follows
  | _, _, .variable name, m, m' => follows_succ (agree_lookup name).follows
  | _, _, .object _ declarations, m, m' => by
    apply follows_succ
    apply follows_bind (follows_objectMembers values flows declarations .nil m m')
    intro b b' m m' members
    exact (agree_newObject members).follows

theorem follows_block (flows : FollowsFlows L n) {body body' : List Stmt}
    (alike : Stmt.AllAlike L body body') (m m' : Machine) :
    Follows L n (Flow.Alike L) (do
      let frame ← newFrame ⟨[], some (← get).scope⟩
      inScope frame (statements (execute n) body)) (fun k => do
      let frame ← newFrame ⟨[], some (← get).scope⟩
      inScope frame (statements (execute k) body')) m m' := by
  apply follows_of_alike
  intro machine
  apply follows_get
  have frames : Frame.Alike L ⟨[], some m.scope⟩ ⟨[], some m'.scope⟩ :=
    ⟨.nil, congrArg some machine.scope⟩
  apply follows_step (agree_newFrame frames)
  rintro frame _ m m' rfl
  exact follows_inScope (follows_statements flows alike _ _)

theorem agree_declaring {v v' : Value} (name : L.name t t') (value : v.Alike L v') :
    Agree L (Flow.Alike L) (do define t v; return .completed) (do define t' v'; return .completed)
      m m' :=
  agree_bind (agree_define name value) fun _ _ _ _ _ => agree_pure .completed

theorem flow_follows_succ (values : FollowsValues L n) (flows : FollowsFlows L n) :
    FollowsFlows L (n + 1) := by
  intro s s' m m' alike
  apply follows_succ
  cases alike with
  | block body => exact follows_block flows body m m'
  | expression value =>
    exact follows_bind (values _ _ m m' value) fun _ _ _ _ _ => (agree_pure .completed).follows
  | function name params body =>
    apply follows_step (agree_bindFunction ⟨name, params, body⟩)
    intro f f' m m' function
    exact (agree_declaring name function).follows
  | branch condition thenBranch =>
    apply follows_bind (values _ _ m m' condition)
    intro v v' m m' value
    rw [← value.payload]
    split
    · exact flows _ _ m m' thenBranch
    · exact (agree_pure .completed).follows
  | branches condition thenBranch elseBranch =>
    apply follows_bind (values _ _ m m' condition)
    intro v v' m m' value
    rw [← value.payload]
    split
    · exact flows _ _ m m' thenBranch
    · exact flows _ _ m m' elseBranch
  | returns => exact (agree_pure (.returned (.of _))).follows
  | returnsValue _ value =>
    apply follows_bind (values _ _ m m' value)
    intro v v' m m' value
    exact (agree_pure (.returned value)).follows
  | var name => exact (agree_declaring name (Value.Alike.named (.of _) name)).follows
  | varValue name value =>
    apply follows_bind (values _ _ m m' value)
    intro v v' m m' value
    exact (agree_declaring name (value.named name)).follows
  | loop condition body =>
    exact follows_repeatWhile values flows condition body (Nat.add_zero n) m m'

theorem follows_all (L : Likeness) (n : Nat) : FollowsValues L n ∧ FollowsFlows L n := by
  induction n with
  | zero => exact ⟨fun _ _ _ _ _ => follows_exhausted, fun _ _ _ _ _ => follows_exhausted⟩
  | succ n ih =>
    obtain ⟨values, flows⟩ := ih
    exact ⟨fun _ _ m m' alike => value_follows_succ values flows alike m m',
      flow_follows_succ values flows⟩

/-- Whole programs that are alike are followed by their likes. -/
theorem follows_interpret (n : Nat) {p p' : List Stmt} (alike : Stmt.AllAlike L p p')
    (m m' : Machine) : Follows L n Eq (interpret n p) (fun k => interpret k p') m m' := by
  induction p generalizing p' m m' with
  | nil =>
    cases alike
    exact (agree_pure rfl).follows
  | cons s rest ih =>
    cases alike with
    | cons first later =>
      exact follows_bind ((follows_all L n).2 _ _ m m' first) fun _ _ m m' _ => ih later m m'

theorem steady_evaluate (e : Expr) : Steady fun n => evaluate n e :=
  steady_of_follows Likeness.same_reflexive id fun n m =>
    (follows_all .same n).1 e e m m (Expr.alike_refl Likeness.same_reflexive e)

theorem steady_execute (s : Stmt) : Steady fun n => execute n s :=
  steady_of_follows Likeness.same_reflexive id fun n m =>
    (follows_all .same n).2 s s m m (Stmt.alike_refl Likeness.same_reflexive s)

theorem steady_interpret (p : List Stmt) : Steady fun n => interpret n p :=
  steady_of_follows Likeness.same_reflexive id fun n m =>
    follows_interpret n (Stmt.allAlike_refl Likeness.same_reflexive p) m m

/-- If a program comes to an end, so does one that is alike, and they end alike. -/
theorem interpret_alike {p p' : List Stmt} (alike : Stmt.AllAlike L p p') (machine : m.Alike L m')
    (halts : isOver (interpret n p m) = true) : ∃ enough, (¬ L.adds → enough ≤ n) ∧
      ∀ k, enough ≤ k → Ends L Eq (interpret n p m) (interpret k p' m') := by
  obtain ⟨r, ended, enough, small, later⟩ := follows_interpret n alike m m' machine halts
  refine ⟨enough, small, fun k le => ?_⟩
  have same : interpret k p' m' = r := later k le
  rwa [same]

/-- If an expression comes to an end, so does one that is alike, and they end alike. -/
theorem evaluate_alike {e e' : Expr} (alike : Expr.Alike L e e') (machine : m.Alike L m')
    (halts : isOver (evaluate n e m) = true) : ∃ enough, (¬ L.adds → enough ≤ n) ∧
      ∀ k, enough ≤ k → Ends L (Value.Alike L) (evaluate n e m) (evaluate k e' m') := by
  obtain ⟨r, ended, enough, small, later⟩ := (follows_all L n).1 e e' m m' alike machine halts
  refine ⟨enough, small, fun k le => ?_⟩
  have same : evaluate k e' m' = r := later k le
  rwa [same]

theorem Ends.flip {U : α' → α → Prop} {r : EStateM.Result Halt Machine α}
    {r' : EStateM.Result Halt Machine α'} (ended : Ends L V r r')
    (results : ∀ a a', V a a' → U a' a) : Ends L.swap U r' r := by
  cases ended with
  | ok result alike => exact .ok (results _ _ result) alike.swap
  | fault place alike => exact .fault place alike.swap

theorem Ends.swap {r : EStateM.Result Halt Machine α} {r' : EStateM.Result Halt Machine α}
    (ended : Ends L Eq r r') : Ends L.swap Eq r' r :=
  ended.flip fun _ _ => Eq.symm

theorem Ends.isOver {r : EStateM.Result Halt Machine α} {r' : EStateM.Result Halt Machine α'}
    (ended : Ends L V r r') : Run.isOver r' = true := by
  cases ended <;> rfl

end Run

end SoftScript
