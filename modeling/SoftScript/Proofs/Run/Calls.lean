import Mathlib.Data.List.Induction
import Mathlib.Tactic.ByContra
import SoftScript.Proofs.Run.Depth
import SoftScript.Proofs.Run.ListMethods

/-! Calls that are refused. A call is checked before it begins: what is called, the number of arguments,
the calls under way and the names of the parameters, in this order. A call that does not pass has no
effect at all, and one that does begins with its parameters and nothing else in its scope. -/
namespace SoftScript

/-- Faults of a call itself, not of anything that runs in its course. -/
def Fault.Cause.refuses : Fault.Cause → Bool
  | notCallable | arityMismatch _ _ | stackOverflow | duplicateDefinition _ => true
  | _ => false

/-- The first token that is written like one before it. -/
def FirstRepeated (tokens : List Token) (t : Token) : Prop :=
  ∃ before after, tokens = before ++ t :: after ∧ (before.map (·.lexeme)).Nodup ∧
    t.lexeme ∈ before.map (·.lexeme)

theorem FirstRepeated.append {tokens : List Token} {t : Token} (first : FirstRepeated tokens t)
    (more : List Token) : FirstRepeated (tokens ++ more) t := by
  obtain ⟨before, after, rfl, distinct, met⟩ := first
  exact ⟨before, after ++ more, by simp, distinct, met⟩

theorem exists_firstRepeated_iff (tokens : List Token) :
    (∃ t, FirstRepeated tokens t) ↔ ¬(tokens.map (·.lexeme)).Nodup := by
  constructor
  · rintro ⟨t, before, after, rfl, _, met⟩ distinct
    rw [List.map_append, List.map_cons] at distinct
    exact (List.nodup_append.mp distinct).2.2 _ met _ List.mem_cons_self rfl
  · intro repeated
    induction tokens using List.reverseRecOn with
    | nil => exact absurd List.nodup_nil repeated
    | append_singleton tokens t ih =>
      by_cases distinct : (tokens.map (·.lexeme)).Nodup
      · refine ⟨t, tokens, [], rfl, distinct, ?_⟩
        by_contra new
        apply repeated
        rw [List.map_append, List.map_singleton]
        exact (List.perm_append_singleton _ _).nodup_iff.mpr (List.nodup_cons.mpr ⟨new, distinct⟩)
      · obtain ⟨t', first⟩ := ih distinct
        exact ⟨t', first.append [t]⟩

namespace Bindings

variable {b : Bindings} {name : String}

/-- A name that was not bound is bound beside the others. -/
theorem perm_insert (absent : b.contains name = false) (v : Value) :
    (b.insert name v).Perm ((name, v) :: b) := by
  fun_induction insert b name v with
  | case1 => exact List.Perm.refl _
  | case2 => exact List.Perm.refl _
  | case3 => simp [contains, get?] at absent
  | case4 key old rest name v _ different ih =>
    have later : contains rest name = false := by
      simpa [contains, get?, Ne.symm different] using absent
    exact ((ih later).cons _).trans (List.Perm.swap ..)

end Bindings

namespace Run

variable {m : Machine} {callee : Value} {args : List Value} {paren : Token}

/-- Each parameter with its argument, which is known by the name of the parameter. -/
def bindingsOf (params : List Token) (args : List Value) : Bindings :=
  List.zipWith (fun param arg => (param.lexeme, arg.named param)) params args

/-- Names that differ from a name and were not bound are not bound beside it. -/
theorem new_insert {p : Token} {params : List Token} {bound : Bindings}
    (distinct : ((p :: params).map (·.lexeme)).Nodup)
    (new : ∀ q ∈ p :: params, bound.contains q.lexeme = false) (v : Value) :
    ∀ q ∈ params, (bound.insert p.lexeme v).contains q.lexeme = false := by
  intro q member
  have other : p.lexeme ≠ q.lexeme := by
    intro same
    apply (List.nodup_cons.mp distinct).1
    exact List.mem_map.mpr ⟨q, member, same.symm⟩
  rw [Bindings.contains_insert, new q (List.mem_cons_of_mem _ member)]
  simpa using other

/-- Parameters with different names that are new are bound to their arguments. -/
theorem bindParameters_distinct {params : List Token} {bound : Bindings}
    (distinct : (params.map (·.lexeme)).Nodup)
    (new : ∀ p ∈ params, bound.contains p.lexeme = false) (args : List Value) :
    ∃ b : Bindings, b.Perm (bindingsOf params args ++ bound) ∧
      ∀ m, bindParameters params args bound m = .ok b m := by
  induction params generalizing args bound with
  | nil => exact ⟨bound, .refl _, fun _ => by rw [bindParameters]; rfl; simp⟩
  | cons p params ih =>
    cases args with
    | nil => exact ⟨bound, .refl _, fun _ => by rw [bindParameters]; rfl; simp⟩
    | cons arg args =>
      have absent := new p List.mem_cons_self
      obtain ⟨b, perm, ran⟩ :=
        ih (List.nodup_cons.mp distinct).2 (new_insert distinct new (arg.named p)) args
      refine ⟨b, perm.trans ?_, fun m => ?_⟩
      · exact ((Bindings.perm_insert absent _).append_left _).trans List.perm_middle
      · rw [bindParameters, if_neg (by simp [absent]), ran]

/-- Binding parameters stops at one that is bound already. -/
theorem bindParameters_repeated {before after : List Token} {t : Token} {bound : Bindings}
    (distinct : (before.map (·.lexeme)).Nodup)
    (new : ∀ p ∈ before, bound.contains p.lexeme = false)
    (met : t.lexeme ∈ before.map (·.lexeme) ∨ bound.contains t.lexeme = true) {args : List Value}
    (enough : before.length < args.length) (m : Machine) :
    bindParameters (before ++ t :: after) args bound m =
      .error (.fault ⟨.duplicateDefinition t.lexeme, t⟩) m := by
  induction before generalizing args bound with
  | nil =>
    obtain ⟨arg, rest, rfl⟩ := List.exists_cons_of_length_pos enough
    have met : bound.contains t.lexeme = true := by simpa using met
    rw [List.nil_append, bindParameters, if_pos met]
    rfl
  | cons p before ih =>
    obtain ⟨arg, rest, rfl⟩ := List.exists_cons_of_length_pos (Nat.zero_lt_of_lt enough)
    have met : t.lexeme ∈ before.map (·.lexeme) ∨
        (bound.insert p.lexeme (arg.named p)).contains t.lexeme = true := by
      rw [Bindings.contains_insert]
      rcases met with met | met
      · rcases List.mem_cons.mp met with same | met
        · exact .inr (by simp [same])
        · exact .inl met
      · exact .inr (by simp [met])
    rw [List.cons_append, bindParameters, if_neg (by simp [new p List.mem_cons_self])]
    exact ih (List.nodup_cons.mp distinct).2 (new_insert distinct new _) met
      (Nat.lt_of_succ_lt_succ enough)

/-! What is checked before a call begins. -/

/-- Why a call is refused. Each reason supposes that none before it holds. -/
inductive Refusal (m : Machine) (callee : Value) (args : List Value) (paren : Token) : Fault → Prop
  | notCallable : callee.payload.kind ≠ .func → Refusal m callee args paren ⟨.notCallable, paren⟩
  | arityMismatch {id : FunctionId} {callable : Callable} : callee.payload = .function id →
    m.heap.functions[id]? = some callable → args.length ≠ callable.arity →
    Refusal m callee args paren ⟨.arityMismatch callable.arity args.length, paren⟩
  | stackOverflow {id : FunctionId} {declaration : FunctionDecl} {closure : FrameId} :
    callee.payload = .function id → m.heap.functions[id]? = some (.user declaration closure) →
    args.length = declaration.arity → maxCallDepth ≤ m.depth →
    Refusal m callee args paren ⟨.stackOverflow, paren⟩
  | duplicateDefinition {id : FunctionId} {declaration : FunctionDecl} {closure : FrameId}
    {t : Token} : callee.payload = .function id →
    m.heap.functions[id]? = some (.user declaration closure) →
    args.length = declaration.arity → m.depth < maxCallDepth → FirstRepeated declaration.params t →
    Refusal m callee args paren ⟨.duplicateDefinition t.lexeme, t⟩

/-- A call that fails whatever executing statements would do, since it executes none, and that leaves
the machine as it was: its output, its depth and everything in its heap. -/
def Refuses (m : Machine) (callee : Value) (args : List Value) (paren : Token) (fault : Fault) :
    Prop :=
  ∀ execute, call execute callee args paren m = .error (.fault fault) m

/-- What a call yields and leaves when the statements of its body have ended. -/
def returning (m : Machine) :
    EStateM.Result Halt Machine Flow → EStateM.Result Halt Machine Value
  | .ok (.returned v) m' => .ok v { m' with scope := m.scope, depth := m'.depth - 1 }
  | .ok .completed m' => .ok .null { m' with scope := m.scope, depth := m'.depth - 1 }
  | .error e m' => .error e { m' with scope := m.scope, depth := m'.depth - 1 }

/-- How a call goes on that is not refused. -/
inductive Proceeds (m : Machine) (callee : Value) (args : List Value) (paren : Token) : Prop
  | builtin {id : FunctionId} {native : Native} : callee.payload = .function id →
    m.heap.functions[id]? = some (.builtin native) →
    (∀ execute, call execute callee args paren m = callNative native args paren m) →
    Proceeds m callee args paren
  /-- The statements run in a new scope inside the one the function was declared in. It binds the
  parameters to the arguments, and nothing else. -/
  | body {id : FunctionId} {declaration : FunctionDecl} {closure : FrameId} {bound : Bindings} :
    callee.payload = .function id → m.heap.functions[id]? = some (.user declaration closure) →
    args.length = declaration.arity → bound.Perm (bindingsOf declaration.params args) →
    (∀ execute, call execute callee args paren m = returning m
      (statements execute declaration.body (m.calling ⟨bound, some closure⟩))) →
    Proceeds m callee args paren

theorem call_notFunction {execute : Stmt → Run Flow} (other : callee.payload.kind ≠ .func) :
    call execute callee args paren m = .error (.fault ⟨.notCallable, paren⟩) m := by
  cases called : callee.payload with
  | function id =>
    rw [called] at other
    exact absurd rfl other
  | _ =>
    rw [call, called]
    rfl

/-- Statements that run as a body, one call deeper and in a scope of their own. -/
theorem called_apply (body : Run Flow) (frame : Frame) (m : Machine) :
    (do
      let scope ← newFrame frame
      match ← deeper (inScope scope body) with
      | .returned value => return value
      | .completed => return .null) m = returning m (body (m.calling frame)) := by
  rw [bind_apply]
  change (deeper (inScope m.heap.frames.size body) >>= _ : Run Value)
    { m with heap := (m.heap.newFrame frame).2 } = _
  rw [bind_apply]
  unfold deeper inScope Machine.calling Machine.entering
  dsimp only
  generalize body _ = ended
  rcases ended with ⟨_ | value, m'⟩ | ⟨e, m'⟩ <;> rfl

section User

variable {id : FunctionId} {declaration : FunctionDecl} {closure : FrameId}
  (isFunction : callee.payload = .function id)
  (found : m.heap.functions[id]? = some (.user declaration closure))
  (counted : args.length = declaration.arity)

include isFunction found counted

theorem call_user (execute : Stmt → Run Flow) : call execute callee args paren m =
    callFunction execute declaration closure args paren m := by
  have counted : args.length = (Callable.user declaration closure).arity := counted
  rw [call_apply isFunction args paren found, if_pos counted]

/-- The parameters of a call that is not too deep are bound, and then its statements run. -/
theorem call_shallow (shallow : m.depth < maxCallDepth) (execute : Stmt → Run Flow) :
    call execute callee args paren m =
      match bindParameters declaration.params args [] m with
      | .ok bound m' => returning m'
          (statements execute declaration.body (m'.calling ⟨bound, some closure⟩))
      | .error e m' => .error e m' := by
  rw [call_user isFunction found counted]
  change (if maxCallDepth ≤ m.depth then _ else _ : Run Value) m = _
  rw [if_neg (Nat.not_le.mpr shallow), bind_apply]
  cases bindParameters declaration.params args [] m with
  | error e m' => rfl
  | ok bound m' =>
    exact called_apply (statements execute declaration.body) ⟨bound, some closure⟩ m'

theorem call_repeated (shallow : m.depth < maxCallDepth) {t : Token}
    (first : FirstRepeated declaration.params t) (execute : Stmt → Run Flow) :
    call execute callee args paren m = .error (.fault ⟨.duplicateDefinition t.lexeme, t⟩) m := by
  obtain ⟨before, after, split, distinct, met⟩ := first
  have enough : before.length < args.length := by
    rw [counted, FunctionDecl.arity, split, List.length_append, List.length_cons]
    omega
  rw [call_shallow isFunction found counted shallow, split,
    bindParameters_repeated distinct (fun _ _ => rfl) (.inl met) enough]

theorem call_begun (shallow : m.depth < maxCallDepth)
    (distinct : (declaration.params.map (·.lexeme)).Nodup) :
    ∃ bound : Bindings, bound.Perm (bindingsOf declaration.params args) ∧
      ∀ execute, call execute callee args paren m = returning m
        (statements execute declaration.body (m.calling ⟨bound, some closure⟩)) := by
  have new : ∀ p ∈ declaration.params, Bindings.contains [] p.lexeme = false := fun _ _ => rfl
  obtain ⟨bound, perm, ran⟩ := bindParameters_distinct distinct new args
  refine ⟨bound, by simpa using perm, fun execute => ?_⟩
  rw [call_shallow isFunction found counted shallow, ran]

end User

theorem insertItem_fault {list : ListId} {index v : Value} {f : Fault} {m' : Machine}
    (failed : insertItem list index v paren m = .error (.fault f) m') : f.cause.refuses = false := by
  by_cases isInt : index.payload.kind = .int
  · obtain ⟨i, isInt⟩ := payload_of_kind_int isInt
    rw [insertItem_int isInt] at failed
    split at failed <;> cases failed
    rfl
  · rw [insertItem, asInt?_eq_none isInt] at failed
    cases failed
    rfl

theorem write_fault {text : String} {f : Fault} {m' : Machine}
    (failed : write text paren m = .error (.fault f) m') : f.cause.refuses = false := by
  rw [write_apply] at failed
  split at failed
  · cases failed
  · cases failed
  · cases failed
    rfl

theorem first_of_answer {run : Run Unit} {e : Halt} {m' : Machine}
    (failed : (do run; return Value.null) m = .error e m') : run m = .error e m' := by
  rw [bind_apply] at failed
  cases ran : run m with
  | ok _ _ =>
    rw [ran] at failed
    cases failed
  | error _ _ =>
    rw [ran] at failed
    cases failed
    rfl

/-- The faults of built-in functions are others than those of calls. -/
theorem callNative_fault {native : Native} {f : Fault} {m' : Machine}
    (failed : callNative native args paren m = .error (.fault f) m') : f.cause.refuses = false := by
  cases native with
  | clock => cases failed
  | print => exact write_fault (first_of_answer failed)
  | add list => cases failed
  | addRange list =>
    unfold callNative at failed
    dsimp only at failed
    cases other : (args[0]?.getD Value.null).payload.asList? with
    | none =>
      rw [other] at failed
      cases failed
      rfl
    | some id =>
      rw [other] at failed
      cases failed
  | insert list => exact insertItem_fault (first_of_answer failed)
  | remove list => cases failed

theorem Refuses.unique {f f' : Fault} (refuses : Refuses m callee args paren f)
    (refuses' : Refuses m callee args paren f') : f = f' := by
  have same := (refuses fun _ => exhausted).symm.trans (refuses' fun _ => exhausted)
  cases same
  rfl

theorem Refusal.refuses {f : Fault} (refusal : Refusal m callee args paren f) :
    Refuses m callee args paren f := by
  intro execute
  cases refusal with
  | notCallable other => exact call_notFunction other
  | arityMismatch isFunction found miscounted =>
    rw [call_apply isFunction args paren found, if_neg miscounted]
  | stackOverflow isFunction found counted deep => exact call_overflow isFunction found counted deep
  | duplicateDefinition isFunction found counted shallow first =>
    exact call_repeated isFunction found counted shallow first execute

/-- A call is refused for one of the reasons or else begins. -/
theorem refused_or_proceeds (live : ∀ id, callee.payload = .function id → id < m.heap.functions.size)
    (args : List Value) (paren : Token) :
    (∃ f, Refusal m callee args paren f) ∨ Proceeds m callee args paren := by
  by_cases called : callee.payload.kind = .func
  · obtain ⟨id, isFunction⟩ : ∃ id, callee.payload = .function id := by
      cases payload : callee.payload <;> simp_all [Payload.kind]
    obtain ⟨callable, found⟩ : ∃ callable, m.heap.functions[id]? = some callable :=
      ⟨_, Array.getElem?_eq_getElem (live id isFunction)⟩
    by_cases counted : args.length = callable.arity
    · cases callable with
      | builtin native =>
        refine .inr (.builtin isFunction found fun execute => ?_)
        rw [call_apply isFunction args paren found, if_pos counted]
      | user declaration closure =>
        rcases Nat.lt_or_ge m.depth maxCallDepth with shallow | deep
        · by_cases distinct : (declaration.params.map (·.lexeme)).Nodup
          · obtain ⟨bound, perm, ran⟩ := call_begun isFunction found counted shallow distinct
            exact .inr (.body isFunction found counted perm ran)
          · obtain ⟨t, first⟩ := (exists_firstRepeated_iff _).mpr distinct
            exact .inl ⟨_, .duplicateDefinition isFunction found counted shallow first⟩
        · exact .inl ⟨_, .stackOverflow isFunction found counted deep⟩
    · exact .inl ⟨_, .arityMismatch isFunction found counted⟩
  · exact .inl ⟨_, .notCallable called⟩

/-- A call that begins is not refused: a built-in function does not fail like a call, and a body may
have no statements or may run out of steps. -/
theorem Proceeds.not_refuses {f : Fault} (proceeds : Proceeds m callee args paren)
    (own : f.cause.refuses = true) : ¬Refuses m callee args paren f := by
  intro refuses
  have failed := refuses fun _ => exhausted
  cases proceeds with
  | builtin _ _ ran =>
    rw [ran] at failed
    rw [callNative_fault failed] at own
    cases own
  | @body id declaration closure bound _ _ _ _ ran =>
    rw [ran] at failed
    cases body : declaration.body with
    | nil =>
      rw [body] at failed
      cases failed
    | cons s rest =>
      rw [body] at failed
      cases failed

/-- A call is refused if what is called is no function; else if the number of arguments is not that of
the parameters, of built-in functions too; else, of a declared function, if too many calls are under way;
else if two of its parameters have the same name, at the first that repeats one. A refused call executes
no statement and leaves the machine as it was. A call that is not refused begins: a built-in function does
its work, and the body of a declared one runs in a new scope inside the scope of its declaration, with
the parameters bound to the arguments by position and nothing else. -/
theorem calls_refused (m : Machine) (callee : Value) (args : List Value) (paren : Token)
    (live : ∀ id, callee.payload = .function id → id < m.heap.functions.size) :
    (∀ fault : Fault, fault.cause.refuses = true →
      (Refuses m callee args paren fault ↔ Refusal m callee args paren fault)) ∧
    (∀ params, (∃ t, FirstRepeated params t) ↔ ¬(params.map (·.lexeme)).Nodup) ∧
    ((∀ fault, ¬Refusal m callee args paren fault) → Proceeds m callee args paren) := by
  have either := refused_or_proceeds live args paren
  refine ⟨fun fault own => ⟨fun refuses => ?_, Refusal.refuses⟩, exists_firstRepeated_iff, ?_⟩
  · rcases either with ⟨reason, refusal⟩ | proceeds
    · exact refuses.unique refusal.refuses ▸ refusal
    · exact absurd refuses (proceeds.not_refuses own)
  · intro free
    exact either.resolve_left fun ⟨fault, refusal⟩ => free fault refusal

/-- A function whose third parameter has the name of the first. -/
def repeats : FunctionDecl where
  name := .read .identifier "f" 1 ⟨4, 5⟩
  params := [.read .identifier "a" 1 ⟨6, 7⟩, .read .identifier "b" 1 ⟨8, 9⟩,
    .read .identifier "a" 1 ⟨10, 11⟩]
  body := []

def repeating : Machine where
  heap := ⟨#[⟨[], none⟩], #[.user repeats 0], #[], #[]⟩
  globals := 0
  scope := 0
  depth := 0
  output := .unlimited
  clock := fun _ => 0
  readings := 0

/-- Too few arguments are refused before the names of the parameters are looked at. -/
theorem calls_refused_repeating :
    Refuses repeating (.of (.function 0)) [.int 1, .int 2] (.read .leftParen "(" 2 ⟨20, 21⟩)
      ⟨.arityMismatch 3 2, .read .leftParen "(" 2 ⟨20, 21⟩⟩ ∧
    Refuses repeating (.of (.function 0)) [.int 1, .int 2, .int 3] (.read .leftParen "(" 2 ⟨20, 21⟩)
      ⟨.duplicateDefinition "a", .read .identifier "a" 1 ⟨10, 11⟩⟩ := by
  have live : ∀ id, (Value.of (.function 0)).payload = .function id →
      id < repeating.heap.functions.size := by
    rintro id ⟨⟩
    decide
  have found : repeating.heap.functions[0]? = some (.user repeats 0) := rfl
  have first : FirstRepeated repeats.params (.read .identifier "a" 1 ⟨10, 11⟩) :=
    ⟨repeats.params.take 2, [], rfl, by decide, by decide⟩
  constructor
  · exact ((calls_refused repeating _ _ _ live).1 _ rfl).mpr
      (.arityMismatch rfl found (by decide))
  · exact ((calls_refused repeating _ _ _ live).1 _ rfl).mpr
      (.duplicateDefinition rfl found (by decide) (by decide) first)

end Run
end SoftScript
