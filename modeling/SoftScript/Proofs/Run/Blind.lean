import SoftScript.Proofs.Likeness.Runs
import SoftScript.Proofs.Run.Course

/-! Steps that take no notice of the output. All steps but writing are of this kind, and most of them
leave scopes and objects alone too. -/
namespace SoftScript.Run

variable {α β : Type}

/-- A run that goes the same way whatever the output is, and leaves it as it is. -/
def Blind (run : Run α) : Prop :=
  ∀ (m : Machine) output, run { m with output } = leaving ({ · with output }) (run m)

theorem Blind.output {run : Run α} (blind : Blind run) (m : Machine) :
    (after (run m)).output = m.output := by
  have same : run m = leaving ({ · with output := m.output }) (run m) := blind m m.output
  rw [same]
  cases run m <;> rfl

theorem blind_pure (a : α) : Blind (pure a : Run α) := fun _ _ => rfl

theorem blind_fail (cause : Fault.Cause) (token : Token) : Blind (fail cause token : Run α) :=
  fun _ _ => rfl

theorem blind_bind {x : Run α} {next : α → Run β} (first : Blind x) (later : ∀ a, Blind (next a)) :
    Blind (x >>= next) := by
  intro m output
  rw [bind_apply, bind_apply, first]
  cases x m with
  | ok a m' => exact later a m' output
  | error e m' => rfl

/-- A step that is chosen by looking at the heap, the scope or the depth. -/
theorem blind_get {next : Machine → Run α} (same : ∀ m output, next { m with output } = next m)
    (later : ∀ m, Blind (next m)) : Blind (get >>= next) := by
  intro m output
  change next { m with output } { m with output } = _
  rw [same]
  exact later m m output

/-! What the steps do that look names up, or change scopes, objects and the output. -/

theorem bind_get_apply (next : Machine → Run α) (m : Machine) : (get >>= next) m = next m m := rfl

theorem lookup_apply (name : Token) (m : Machine) : lookup name m =
    match m.heap.lookup? m.scope name.lexeme with
    | some v => .ok v m
    | none => .error (.fault ⟨.undefinedVariable name.lexeme, name⟩) m := by
  unfold lookup
  rw [bind_get_apply]
  cases m.heap.lookup? m.scope name.lexeme <;> rfl

theorem define_apply (name : Token) (value : Value) (m : Machine) : define name value m =
    if (m.heap.bindings m.scope).contains name.lexeme then
      .error (.fault ⟨.duplicateDefinition name.lexeme, name⟩) m
    else .ok () { m with heap := m.heap.bind m.scope name.lexeme value } := by
  unfold define
  rw [bind_get_apply]
  split <;> rfl

theorem assign_apply (name : Token) (value : Value) (m : Machine) : assign name value m =
    match m.heap.holder? m.scope name.lexeme with
    | some holder => .ok () { m with heap := m.heap.rebind holder name.lexeme value.payload }
    | none => .error (.fault ⟨.undefinedAssignment name.lexeme, name⟩) m := by
  unfold assign
  rw [bind_get_apply]
  cases m.heap.holder? m.scope name.lexeme <;> rfl

theorem assignMember_apply (v : Value) (dot member : Token) (value : Value) (m : Machine) :
    assignMember v dot member value m =
      match v.payload with
      | .object id =>
        if (m.heap.members id).contains member.lexeme then
          .ok () { m with heap := m.heap.modifyMembers id (·.modify member.lexeme fun _ => value) }
        else .error (.fault ⟨.undefinedMember member.lexeme v.owner, member⟩) m
      | _ => .error (.fault ⟨.unsupportedMemberAssignment v.payload.kind, dot⟩) m := by
  unfold assignMember
  cases v.payload with
  | object id =>
    change (if _ then modifyMembers _ _ else _ : Run PUnit) m = _
    dsimp only
    split <;> rfl
  | int | bool | function | string | list | null => rfl

theorem write_apply (line : String) (token : Token) (m : Machine) : write line token m =
    match m.output.write line with
    | none => .error .exhausted m
    | some (none, output) => .ok () { m with output }
    | some (some error, output) => .error (.fault ⟨.output error, token⟩) { m with output } := by
  unfold write
  rw [bind_get_apply]
  rcases m.output.write line with _ | ⟨_ | error, output⟩ <;> rfl

theorem blind_define (name : Token) (value : Value) : Blind (define name value) := by
  intro m output
  rw [define_apply, define_apply]
  dsimp only
  split <;> rfl

theorem blind_assign (name : Token) (value : Value) : Blind (assign name value) := by
  intro m output
  rw [assign_apply, assign_apply]
  dsimp only
  cases m.heap.holder? m.scope name.lexeme <;> rfl

theorem blind_assignMember (v : Value) (dot member : Token) (value : Value) :
    Blind (assignMember v dot member value) := by
  intro m output
  rw [assignMember_apply, assignMember_apply]
  dsimp only
  cases v.payload with
  | object id => dsimp only; split <;> rfl
  | int | bool | function | string | list | null => rfl

theorem blind_newObject (members : Bindings) : Blind (newObject members) := fun _ _ => rfl

/-! Steps that leave scopes and objects alone. -/

/-- A run that takes no notice of the output and leaves all scopes and objects as they are. -/
structure Calm (run : Run α) : Prop where
  blind : Blind run
  frames : ∀ m, (after (run m)).heap.frames = m.heap.frames
  objects : ∀ m, (after (run m)).heap.objects = m.heap.objects
  globals : ∀ m, (after (run m)).globals = m.globals

theorem calm_pure (a : α) : Calm (pure a : Run α) :=
  ⟨blind_pure a, fun _ => rfl, fun _ => rfl, fun _ => rfl⟩

theorem calm_fail (cause : Fault.Cause) (token : Token) : Calm (fail cause token : Run α) :=
  ⟨blind_fail cause token, fun _ => rfl, fun _ => rfl, fun _ => rfl⟩

theorem calm_exhausted : Calm (exhausted : Run α) :=
  ⟨fun _ _ => rfl, fun _ => rfl, fun _ => rfl, fun _ => rfl⟩

theorem calm_bind {x : Run α} {next : α → Run β} (first : Calm x) (later : ∀ a, Calm (next a)) :
    Calm (x >>= next) := by
  have either {γ : Type} (view : Machine → γ) (start : ∀ m, view (after (x m)) = view m)
      (rest : ∀ a m, view (after (next a m)) = view m) (m : Machine) :
      view (after ((x >>= next) m)) = view m := by
    have begun := start m
    rw [bind_apply]
    cases ran : x m with
    | error e m' => rwa [ran] at begun
    | ok a m' =>
      rw [ran] at begun
      exact (rest a m').trans begun
  exact ⟨blind_bind first.blind fun a => (later a).blind,
    either (·.heap.frames) first.frames fun a => (later a).frames,
    either (·.heap.objects) first.objects fun a => (later a).objects,
    either (·.globals) first.globals fun a => (later a).globals⟩

theorem calm_heap : Calm heap := ⟨fun _ _ => rfl, fun _ => rfl, fun _ => rfl, fun _ => rfl⟩

theorem calm_text (v : Value) : Calm (text v) :=
  ⟨fun _ _ => rfl, fun _ => rfl, fun _ => rfl, fun _ => rfl⟩

theorem calm_newFunction (callable : Callable) : Calm (newFunction callable) :=
  ⟨fun _ _ => rfl, fun _ => rfl, fun _ => rfl, fun _ => rfl⟩

theorem calm_newList (items : Array Value) : Calm (newList items) :=
  ⟨fun _ _ => rfl, fun _ => rfl, fun _ => rfl, fun _ => rfl⟩

theorem calm_modifyItems (id : ListId) (change : Array Value → Array Value) :
    Calm (modifyItems id change) :=
  ⟨fun _ _ => rfl, fun _ => rfl, fun _ => rfl, fun _ => rfl⟩

theorem calm_readClock : Calm readClock :=
  ⟨fun _ _ => rfl, fun _ => rfl, fun _ => rfl, fun _ => rfl⟩

theorem calm_bindFunction (declaration : FunctionDecl) : Calm (bindFunction declaration) :=
  ⟨fun _ _ => rfl, fun _ => rfl, fun _ => rfl, fun _ => rfl⟩

/-- A step that is chosen by looking at the heap and the scope. -/
theorem calm_get {next : Machine → Run α} (same : ∀ m output, next { m with output } = next m)
    (later : ∀ m, Calm (next m)) : Calm (get >>= next) :=
  ⟨blind_get same fun m => (later m).blind, fun m => (later m).frames m,
    fun m => (later m).objects m, fun m => (later m).globals m⟩

theorem calm_lookup (name : Token) : Calm (lookup name) := by
  apply calm_get
  · exact fun _ _ => rfl
  · intro m
    split
    · exact calm_pure _
    · exact calm_fail _ _

theorem calm_dotAccess (v : Value) (dot member : Token) : Calm (dotAccess v dot member) := by
  unfold dotAccess
  split
  · split
    · exact calm_pure _
    · exact calm_fail _ _
  · split
    · exact calm_bind calm_heap fun _ => calm_pure _
    · split
      · exact calm_newFunction _
      · exact calm_fail _ _
  · apply calm_bind calm_heap
    intro h
    split
    · exact calm_pure _
    · exact calm_fail _ _
  · exact calm_fail _ _

theorem calm_itemAt (v : Value) (bracket : Token) (index : Value) (items : Array Value) :
    Calm (itemAt v bracket index items) := by
  unfold itemAt
  split
  · exact calm_bind (calm_text _) fun _ => calm_fail _ _
  · split
    · exact calm_pure _
    · exact calm_fail _ _

theorem calm_indexAccess (v : Value) (bracket : Token) (index : Value) :
    Calm (indexAccess v bracket index) := by
  unfold indexAccess
  split
  · exact calm_bind calm_heap fun _ => calm_itemAt _ _ _ _
  · exact calm_bind calm_heap fun _ => calm_itemAt _ _ _ _
  · exact calm_fail _ _

theorem calm_checked (op : Token) (result : Option Integer) : Calm (checked op result) := by
  cases result with
  | none => exact calm_fail _ _
  | some value => exact calm_pure _

theorem calm_arithmetic (op : Token) (left right : Value) : Calm (arithmetic op left right) := by
  unfold arithmetic
  split
  · exact calm_fail _ _
  · exact calm_fail _ _
  · split
    · exact calm_checked _ _
    · exact calm_checked _ _
    · split
      · exact calm_fail _ _
      · exact calm_checked _ _
    · split
      · exact calm_fail _ _
      · exact calm_checked _ _
    · exact calm_pure _
    · exact calm_pure _
    · exact calm_pure _
    · exact calm_pure _
    · exact calm_fail _ _

theorem calm_itemsOf (v : Value) : Calm (itemsOf v) := by
  unfold itemsOf
  split
  · exact calm_bind calm_heap fun _ => calm_pure _
  · exact calm_pure _

/-- A new list made of what two operands hold. -/
theorem calm_joined (left right : Value) (join : Array Value → Array Value → Array Value) :
    Calm (do newList (join (← itemsOf left) (← itemsOf right))) :=
  calm_bind (calm_itemsOf _) fun _ => calm_bind (calm_itemsOf _) fun _ => calm_newList _

theorem calm_plus (op : Token) (left right : Value) : Calm (plus op left right) := by
  have texts : Calm (do return Value.string ((← text left) ++ (← text right))) :=
    calm_bind (calm_text _) fun _ => calm_bind (calm_text _) fun _ => calm_pure _
  unfold plus
  split
  · exact calm_checked _ _
  · exact texts
  · exact texts
  · exact calm_joined _ _ _
  · exact calm_joined _ _ _
  · exact calm_fail _ _

theorem calm_either (left right : Value) : Calm (either left right) := by
  unfold either
  split
  · exact calm_joined _ _ fun items others => distinct (items ++ others)
  · exact calm_pure _

theorem calm_both (left right : Value) : Calm (both left right) := by
  unfold both
  split
  · exact calm_joined _ _ fun others items => items.filter fun item => !others.any (·.same item)
  · exact calm_pure _

theorem calm_binary (op : Token) (left right : Value) : Calm (binary op left right) := by
  unfold binary
  split
  · exact calm_pure _
  · exact calm_pure _
  · exact calm_plus _ _ _
  · exact calm_either _ _
  · exact calm_both _ _
  case h_14 => exact calm_fail _ _
  all_goals exact calm_arithmetic _ _ _

theorem calm_unary (op : Token) (operand : Value) : Calm (unary op operand) := by
  unfold unary
  split
  · exact calm_pure _
  · split
    · exact calm_checked _ _
    · exact calm_fail _ _
  · exact calm_fail _ _

theorem calm_insertItem (list : ListId) (index value : Value) (paren : Token) :
    Calm (insertItem list index value paren) := by
  unfold insertItem
  split
  · exact calm_bind (calm_text _) fun _ => calm_fail _ _
  · apply calm_bind calm_heap
    intro h
    dsimp only
    split
    · exact calm_modifyItems _ _
    · exact calm_fail _ _

/-- All built-in functions but one take no notice of the output. -/
theorem calm_callNative {native : Native} (silent : native ≠ .print) (args : List Value)
    (paren : Token) : Calm (callNative native args paren) := by
  have answer {run : Run Unit} (calm : Calm run) : Calm (do run; return Value.null) :=
    calm_bind calm fun _ => calm_pure _
  cases native with
  | clock => exact calm_bind calm_readClock fun _ => calm_pure _
  | print => exact absurd rfl silent
  | add list => exact answer (calm_modifyItems _ _)
  | addRange list =>
    unfold callNative
    dsimp only
    split
    · exact calm_bind calm_heap fun _ => answer (calm_modifyItems _ _)
    · exact calm_fail _ _
  | insert list => exact answer (calm_insertItem _ _ _ _)
  | remove list => exact answer (calm_modifyItems _ _)

theorem calm_bindParameters (params : List Token) (args : List Value) (bound : Bindings) :
    Calm (bindParameters params args bound) := by
  fun_induction bindParameters params args bound with
  | case1 => exact calm_fail _ _
  | case2 _ _ _ _ _ _ ih => exact ih
  | case3 => exact calm_pure _

theorem calm_addMember (members : Bindings) (name : Token) (value : Value) :
    Calm (addMember members name value) := by
  unfold addMember
  split
  · exact calm_fail _ _
  · exact calm_pure _

end SoftScript.Run
