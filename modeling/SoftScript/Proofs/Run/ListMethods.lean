import SoftScript.Proofs.Run.Access
import SoftScript.Proofs.Run.Restored

/-! The methods of lists. A method is a function that knows its list, and functions are never changed
nor taken away, so a method is the same one whenever it is called. It changes the one list that it
knows, and all that refer to the list see that, or it fails and changes nothing. -/
namespace SoftScript

namespace Native

def methodsOf (list : ListId) : List Native := [add list, addRange list, insert list, remove list]

theorem listMethod?_name {list : ListId} {native : Native} (isMethod : native ∈ methodsOf list) :
    listMethod? list native.name = some native ∧ native.name ≠ "size" := by
  simp only [methodsOf, List.mem_cons, List.not_mem_nil, or_false] at isMethod
  rcases isMethod with rfl | rfl | rfl | rfl <;> exact ⟨rfl, by simp [name]⟩

end Native

namespace Heap

/-- A value that is a built-in function. -/
def IsBuiltin (h : Heap) (v : Value) (native : Native) : Prop :=
  ∃ id, v.payload = .function id ∧ h.functions[id]? = some (.builtin native)

theorem items_of_getElem? {h : Heap} {id : ListId} {items : Array Value}
    (found : h.lists[id]? = some items) : h.items id = items := by
  rw [Heap.items, found, Option.getD_some]

end Heap

namespace Machine

/-- Functions remain what they are, and lists remain. -/
structure Retains (m m' : Machine) : Prop where
  functions : ∀ (id : FunctionId) callable, m.heap.functions[id]? = some callable →
    m'.heap.functions[id]? = some callable
  lists : m.heap.lists.size ≤ m'.heap.lists.size

namespace Retains

variable {m m' m'' : Machine}

theorem refl (m : Machine) : m.Retains m := ⟨fun _ _ found => found, Nat.le_refl _⟩

theorem trans (first : m.Retains m') (second : m'.Retains m'') : m.Retains m'' :=
  ⟨fun id callable found => second.functions id callable (first.functions id callable found),
    Nat.le_trans first.lists second.lists⟩

theorem of_functions (same : m'.heap.functions = m.heap.functions)
    (lists : m.heap.lists.size ≤ m'.heap.lists.size) : m.Retains m' :=
  ⟨fun _ _ found => same ▸ found, lists⟩

theorem newFunction (m : Machine) (callable : Callable) :
    m.Retains { m with heap := (m.heap.newFunction callable).2 } := by
  refine ⟨?_, Nat.le_refl _⟩
  intro id callable' found
  obtain ⟨there, _⟩ := Array.getElem?_eq_some_iff.mp found
  simp only [Heap.newFunction, Array.getElem?_push, Nat.ne_of_lt there, ↓reduceIte, found]

theorem isBuiltin (retains : m.Retains m') {v : Value} {native : Native}
    (isBuiltin : m.heap.IsBuiltin v native) : m'.heap.IsBuiltin v native := by
  obtain ⟨id, isFunction, found⟩ := isBuiltin
  exact ⟨id, isFunction, retains.functions id _ found⟩

end Retains

/-- The machine after a function has been made for a method. -/
def taking (m : Machine) (native : Native) : Machine :=
  { m with heap := (m.heap.newFunction (.builtin native)).2 }

theorem isBuiltin_taking (m : Machine) (native : Native) :
    (m.taking native).heap.IsBuiltin (.of (m.heap.newFunction (.builtin native)).1) native :=
  ⟨m.heap.functions.size, rfl, by simp [taking, Heap.newFunction]⟩

end Machine

namespace Run

variable {m m' m'' : Machine} {list other : ListId} {items : List Value} {fn v w index : Value}
  {native : Native} {i : Integer}

/-- Every step adds functions and lists at most. -/
theorem retains_pace : Pace (fun _ => true) (fun _ _ => true) (fun _ m m' => m.Retains m')
    (fun _ => True) Machine.Retains where
  refl _ m := .refl m
  trans := .trans
  weaken h := h
  body _ _ h := h
  newBuiltin m native := .newFunction m (.builtin native)
  newFunction m declaration _ := .newFunction m (.user declaration m.scope)
  newList m items := .of_functions rfl (by simp [Heap.newList])
  newObject _ _ := .of_functions rfl (Nat.le_refl _)
  modifyItems m id change := .of_functions rfl (by simp [Heap.modifyItems])
  assignMember _ _ _ _ := .of_functions rfl (Nat.le_refl _)
  rebind _ _ _ _ _ := .of_functions rfl (Nat.le_refl _)
  bind _ _ _ _ := .of_functions rfl (Nat.le_refl _)
  readClock _ := .of_functions rfl (Nat.le_refl _)
  write _ _ _ := .of_functions rfl (Nat.le_refl _)
  block inner := ⟨inner.functions, inner.lists⟩
  call _ inner := ⟨inner.functions, inner.lists⟩
  now m := .refl m
  later := .trans
  step _ h := ⟨trivial, h⟩
  leave _ _ _ := .of_functions rfl (Nat.le_refl _)
  enter _ := ⟨trivial, .of_functions rfl (Nat.le_refl _)⟩
  begin _ _ _ _ := ⟨trivial, .of_functions rfl (Nat.le_refl _)⟩

theorem retains_mapM (n : Nat) (es : List Expr) (m : Machine) :
    m.Retains (after (es.mapM (evaluate n) m)) :=
  (retains_pace.toLaw.obeys_mapM (retains_pace.toLaw.obeys_all n).1
    (upholds_nothing_all.2.2.2 es false) (declares_nothing _)).2

theorem retains_moments (n : Nat) (p : List Stmt) (m : Machine) :
    (moments n p m).Pairwise Machine.Retains :=
  (retains_pace.program_moments_inTime ⟨trivial, declares_nothing _⟩
    (upholds_nothing_all.2.1 p false) n).2.1

/-- Whatever runs on a machine leaves it with the functions and the lists it had. -/
structure Lasting (m : Machine) : Prop where
  evaluate : ∀ n e, m.Retains (after (evaluate n e m))
  execute : ∀ n s, m.Retains (after (execute n s m))
  call : ∀ n callee args paren, m.Retains (after (call (Run.execute n) callee args paren m))
  /-- Of any two moments of a run the later has what the earlier had. -/
  moments : ∀ n p, (moments n p m).Pairwise Machine.Retains

theorem lasting (m : Machine) : Lasting m where
  evaluate n e := ((retains_pace.toLaw.obeys_all n).1 e false m (upholds_nothing_all.1 e _)
    (declares_nothing _)).2
  execute n s := ((retains_pace.toLaw.obeys_all n).2 s false m (upholds_nothing_all.2.2.1 s _)
    (declares_nothing _)).2
  call n callee args paren := (retains_pace.toLaw.obeys_call (retains_pace.toLaw.obeys_all n).2
    callee args paren (declares_nothing _)).2
  moments n p := retains_moments n p m

theorem retains_session {s s' : Session} (step : s.Step s') : s.machine.Retains s'.machine :=
  (retains_pace.toLaw.session_step (fun _ _ => upholds_nothing_all.2.1 _ _) (declares_nothing _)
    step).2

/-! Taking a method from a list, and calling it. -/

theorem dotAccess_size (isList : w.payload = .list list) (dot : Token) {member : Token}
    (isSize : member.lexeme = "size") (m : Machine) :
    dotAccess w dot member m = .ok (.int (.ofSize (m.heap.items list).size)) m := by
  rw [dotAccess, isList]
  dsimp only
  rw [if_pos isSize]
  rfl

theorem dotAccess_method (isList : w.payload = .list list) (isMethod : native ∈ Native.methodsOf list)
    (dot : Token) {member : Token} (named : member.lexeme = native.name) (m : Machine) :
    dotAccess w dot member m =
      .ok (.of (m.heap.newFunction (.builtin native)).1) (m.taking native) := by
  obtain ⟨found, notSize⟩ := Native.listMethod?_name isMethod
  rw [dotAccess, isList]
  dsimp only
  rw [named, if_neg notSize, found]
  rfl

/-- In the text of a program the arguments come between the taking and the call. -/
theorem evaluate_method {n : Nat} {e : Expr} (evaluated : evaluate n e m = .ok w m')
    (isList : w.payload = .list list) (isMethod : native ∈ Native.methodsOf list) (dot : Token)
    {member : Token} (named : member.lexeme = native.name) (paren : Token) {args : List Expr}
    {values : List Value} (given : args.mapM (evaluate (n + 1)) (m'.taking native) = .ok values m'') :
    ∃ fn, m''.heap.IsBuiltin fn native ∧ evaluate (n + 2) (.call (.access e dot member) paren args) m =
      call (execute (n + 1)) fn values paren m'' := by
  refine ⟨.of (m'.heap.newFunction (.builtin native)).1, ?_, ?_⟩
  · have retained := retains_mapM (n + 1) args (m'.taking native)
    rw [given] at retained
    exact retained.isBuiltin (m'.isBuiltin_taking native)
  · have taken : evaluate (n + 1) (.access e dot member) m =
        .ok (.of (m'.heap.newFunction (.builtin native)).1) (m'.taking native) := by
      rw [evaluate, bind_apply, evaluated]
      exact dotAccess_method isList isMethod dot named m'
    rw [evaluate, bind_apply, taken]
    dsimp only
    rw [bind_apply, given]

theorem call_builtin (isBuiltin : m.heap.IsBuiltin fn native) (execute : Stmt → Run Flow)
    (args : List Value) (paren : Token) : call execute fn args paren m =
      if args.length = native.arity then callNative native args paren m
      else .error (.fault ⟨.arityMismatch native.arity args.length, paren⟩) m := by
  obtain ⟨id, isFunction, found⟩ := isBuiltin
  exact call_apply isFunction args paren found

/-! What a method does to its list. -/

/-- A machine in which one list has other items. -/
structure Relisted (m : Machine) (list : ListId) (items : List Value) (m' : Machine) : Prop where
  machine : m' = { m with heap := m'.heap }
  frames : m'.heap.frames = m.heap.frames
  functions : m'.heap.functions = m.heap.functions
  objects : m'.heap.objects = m.heap.objects
  size : m'.heap.lists.size = m.heap.lists.size
  others : ∀ other : ListId, other ≠ list → m'.heap.lists[other]? = m.heap.lists[other]?
  content : m'.heap.lists[list]? = some items.toArray
  /-- All that refer to the list see the items. -/
  counted : ∀ w dot (member : Token), w.payload = .list list → member.lexeme = "size" →
    dotAccess w dot member m' = .ok (.int (.ofSize items.length)) m'
  indexed : ∀ w bracket index (i : Integer) item, w.payload = .list list →
    index.payload = .int i → 0 ≤ i.toInt → items[i.toInt.toNat]? = some item →
    indexAccess w bracket index m' = .ok item m'

theorem relisted_modifyItems {xs : List Value} (found : m.heap.lists[list]? = some xs.toArray)
    (change : Array Value → Array Value) (changed : change xs.toArray = items.toArray) :
    Relisted m list items { m with heap := m.heap.modifyItems list change } := by
  have now : (m.heap.modifyItems list change).lists[list]? = some items.toArray := by
    simp only [Heap.modifyItems, Array.getElem?_modify, ↓reduceIte, found, Option.map_some, changed]
  have seen := Heap.items_of_getElem? now
  refine ⟨rfl, rfl, rfl, rfl, by simp [Heap.modifyItems], ?_, now, ?_, ?_⟩
  · intro other apart
    simp only [Heap.modifyItems, Array.getElem?_modify, Ne.symm apart, ↓reduceIte]
  · intro w dot member isList isSize
    rw [dotAccess_size isList dot isSize, seen, List.size_toArray]
  · intro w bracket index i item isList isInt natural found
    rw [indexAccess_list isList, seen, itemAt_eq_ok_iff isInt]
    exact ⟨⟨natural, by rw [List.getElem?_toArray, found]⟩, rfl⟩

/-- Leaving its items as they are changes nothing. -/
theorem modifyItems_self {h : Heap} {items : Array Value} {change : Array Value → Array Value}
    (found : h.lists[list]? = some items) (same : change items = items) :
    h.modifyItems list change = h := by
  have lists : h.lists.modify list change = h.lists := by
    apply Array.ext_getElem?
    intro other
    rw [Array.getElem?_modify]
    split
    · subst list
      rw [found, Option.map_some, same]
    · rfl
  rw [Heap.modifyItems, lists]

theorem insertIdx_eq_append {place : Nat} {items : List Value} (inside : place ≤ items.length)
    (v : Value) : items.insertIdx place v = items.take place ++ v :: items.drop place := by
  induction place generalizing items with
  | zero => rfl
  | succ place ih =>
    cases items with
    | nil => exact absurd inside (by simp)
    | cons item rest =>
      rw [List.insertIdx_succ_cons, ih (Nat.le_of_succ_le_succ inside)]
      rfl

theorem eraseP_first {before after : List Value} {item v : Value}
    (others : ∀ b ∈ before, b.same v = false) (equal : item.same v = true) :
    (before ++ item :: after).eraseP (·.same v) = before ++ after := by
  rw [List.eraseP_append_right _ fun b member => by rw [others b member]; decide, List.eraseP_cons,
    equal, cond_true]

theorem heap_bind_apply {α : Type} (next : Heap → Run α) (m : Machine) :
    (heap >>= next) m = next m.heap m :=
  rfl

theorem toIndex?_filter (i : Integer) (size : Nat) : i.toIndex?.filter (· ≤ size) =
    if 0 ≤ i.toInt ∧ i.toInt ≤ size then some i.toInt.toNat else none := by
  unfold Integer.toIndex?
  by_cases natural : 0 ≤ i.toInt
  · simp only [natural, ↓reduceIte, Option.filter_some, true_and, decide_eq_true_eq, Int.toNat_le]
  · simp only [natural, ↓reduceIte, Option.filter_none, false_and]

theorem insertItem_int (isInt : index.payload = .int i) (list : ListId) (v : Value) (paren : Token)
    (m : Machine) : insertItem list index v paren m =
      if 0 ≤ i.toInt ∧ i.toInt ≤ (m.heap.items list).size then
        .ok () { m with heap := m.heap.modifyItems list (·.insertIdxIfInBounds i.toInt.toNat v) }
      else .error (.fault ⟨.indexOutOfBounds "list" i (m.heap.items list).size, paren⟩) m := by
  rw [insertItem, isInt]
  dsimp only [Payload.asInt?]
  rw [heap_bind_apply, toIndex?_filter]
  by_cases inside : 0 ≤ i.toInt ∧ i.toInt ≤ (m.heap.items list).size
  · rw [if_pos inside, if_pos inside]
    rfl
  · rw [if_neg inside, if_neg inside]
    rfl

theorem payload_of_kind_list (isList : v.payload.kind = .list) : ∃ id, v.payload = .list id := by
  cases payload : v.payload <;> simp_all [Payload.kind]

theorem payload_of_kind_int (isInt : v.payload.kind = .int) : ∃ i, v.payload = .int i := by
  cases payload : v.payload <;> simp_all [Payload.kind]

theorem asList?_eq_none (notList : v.payload.kind ≠ .list) : v.payload.asList? = none := by
  cases payload : v.payload <;> simp_all [Payload.kind, Payload.asList?]

theorem asInt?_eq_none (notInt : v.payload.kind ≠ .int) : v.payload.asInt? = none := by
  cases payload : v.payload <;> simp_all [Payload.kind, Payload.asInt?]

theorem callNative_addRange (isList : v.payload = .list other) (list : ListId) (paren : Token)
    (m : Machine) : callNative (.addRange list) [v] paren m =
      .ok .null { m with heap := m.heap.modifyItems list (· ++ m.heap.items other) } := by
  rw [callNative]
  dsimp only [List.getElem?_cons_zero, Option.getD_some]
  rw [isList]
  rfl

theorem callNative_addRange_refused (notList : v.payload.kind ≠ .list) (list : ListId)
    (paren : Token) (m : Machine) : callNative (.addRange list) [v] paren m =
      .error (.fault ⟨.invalidArgument "add_range" .list v.payload.kind, paren⟩) m := by
  rw [callNative]
  dsimp only [List.getElem?_cons_zero, Option.getD_some]
  rw [asList?_eq_none notList]
  rfl

theorem callNative_insert (isInt : index.payload = .int i) (list : ListId) (v : Value)
    (paren : Token) (m : Machine) : callNative (.insert list) [index, v] paren m =
      if 0 ≤ i.toInt ∧ i.toInt ≤ (m.heap.items list).size then .ok .null
        { m with heap := m.heap.modifyItems list (·.insertIdxIfInBounds i.toInt.toNat v) }
      else .error (.fault ⟨.indexOutOfBounds "list" i (m.heap.items list).size, paren⟩) m := by
  change (insertItem list index v paren >>= fun _ => pure .null : Run Value) m = _
  rw [bind_apply, insertItem_int isInt]
  by_cases inside : 0 ≤ i.toInt ∧ i.toInt ≤ (m.heap.items list).size
  · rw [if_pos inside, if_pos inside]
    rfl
  · rw [if_neg inside, if_neg inside]

theorem callNative_insert_refused (notInt : index.payload.kind ≠ .int) (list : ListId) (v : Value)
    (paren : Token) (m : Machine) : callNative (.insert list) [index, v] paren m =
      .error (.fault ⟨.indexNotInt "list" (m.heap.text index.payload), paren⟩) m := by
  change (insertItem list index v paren >>= fun _ => pure .null : Run Value) m = _
  rw [bind_apply, insertItem, asInt?_eq_none notInt]
  rfl

/-- A method that fails has changed nothing. -/
theorem callNative_failed (isMethod : native ∈ Native.methodsOf list) {args : List Value}
    (counted : args.length = native.arity) {paren : Token} {e : Halt}
    (failed : callNative native args paren m = .error e m') : m' = m := by
  simp only [Native.methodsOf, List.mem_cons, List.not_mem_nil, or_false] at isMethod
  rcases isMethod with rfl | rfl | rfl | rfl
  · cases failed
  · obtain ⟨v, rfl⟩ := List.length_eq_one_iff.mp counted
    by_cases isList : v.payload.kind = .list
    · obtain ⟨other, isList⟩ := payload_of_kind_list isList
      rw [callNative_addRange isList] at failed
      cases failed
    · rw [callNative_addRange_refused isList] at failed
      cases failed
      rfl
  · obtain ⟨index, v, rfl⟩ := List.length_eq_two.mp counted
    by_cases isInt : index.payload.kind = .int
    · obtain ⟨i, isInt⟩ := payload_of_kind_int isInt
      rw [callNative_insert isInt] at failed
      split at failed <;> cases failed
      rfl
    · rw [callNative_insert_refused isInt] at failed
      cases failed
      rfl
  · cases failed

/-- What the methods of a list do where it has given items. -/
structure Methods (m : Machine) (list : ListId) (xs : List Value) : Prop where
  /-- A method is taken through any value that refers to the list, and it remains that method. -/
  taken : ∀ (w : Value) dot (member : Token) native, w.payload = .list list →
    native ∈ Native.methodsOf list → member.lexeme = native.name →
    ∃ fn, dotAccess w dot member m = .ok fn (m.taking native) ∧
      ∀ m', (m.taking native).Retains m' → m'.heap.IsBuiltin fn native
  add : ∀ execute fn v paren, m.heap.IsBuiltin fn (.add list) →
    ∃ m', call execute fn [v] paren m = .ok .null m' ∧ Relisted m list (xs ++ [v]) m'
  /-- The other list may be the same one. -/
  addRange : ∀ execute fn (ys : Value) other paren, m.heap.IsBuiltin fn (.addRange list) →
    ys.payload = .list other → ∃ m', call execute fn [ys] paren m = .ok .null m' ∧
      Relisted m list (xs ++ (m.heap.items other).toList) m'
  addRange_refused : ∀ execute fn (v : Value) paren, m.heap.IsBuiltin fn (.addRange list) →
    v.payload.kind ≠ .list → call execute fn [v] paren m =
      .error (.fault ⟨.invalidArgument "add_range" .list v.payload.kind, paren⟩) m
  insert : ∀ execute fn (index v : Value) i paren, m.heap.IsBuiltin fn (.insert list) →
    index.payload = .int i → 0 ≤ i.toInt → i.toInt ≤ xs.length →
    ∃ m', call execute fn [index, v] paren m = .ok .null m' ∧
      Relisted m list (xs.take i.toInt.toNat ++ v :: xs.drop i.toInt.toNat) m'
  insert_iff : ∀ execute fn (index v : Value) paren, m.heap.IsBuiltin fn (.insert list) →
    ((∃ r m', call execute fn [index, v] paren m = .ok r m') ↔
      ∃ i, index.payload = .int i ∧ 0 ≤ i.toInt ∧ i.toInt ≤ xs.length)
  insert_outside : ∀ execute fn (index v : Value) i paren, m.heap.IsBuiltin fn (.insert list) →
    index.payload = .int i → ¬ (0 ≤ i.toInt ∧ i.toInt ≤ xs.length) →
    call execute fn [index, v] paren m =
      .error (.fault ⟨.indexOutOfBounds "list" i xs.length, paren⟩) m
  insert_refused : ∀ execute fn (index v : Value) paren, m.heap.IsBuiltin fn (.insert list) →
    index.payload.kind ≠ .int → call execute fn [index, v] paren m =
      .error (.fault ⟨.indexNotInt "list" (m.heap.text index.payload), paren⟩) m
  remove : ∀ execute fn (v item : Value) before after paren, m.heap.IsBuiltin fn (.remove list) →
    xs = before ++ item :: after → (∀ b ∈ before, b.same v = false) → item.same v = true →
    ∃ m', call execute fn [v] paren m = .ok .null m' ∧ Relisted m list (before ++ after) m'
  remove_none : ∀ execute fn (v : Value) paren, m.heap.IsBuiltin fn (.remove list) →
    (∀ b ∈ xs, b.same v = false) → call execute fn [v] paren m = .ok .null m
  miscounted : ∀ execute fn args paren native, native ∈ Native.methodsOf list →
    m.heap.IsBuiltin fn native → args.length ≠ native.arity → call execute fn args paren m =
      .error (.fault ⟨.arityMismatch native.arity args.length, paren⟩) m
  /-- However a call fails, it has changed nothing. -/
  failed : ∀ execute fn args paren native e m', native ∈ Native.methodsOf list →
    m.heap.IsBuiltin fn native → call execute fn args paren m = .error e m' → m' = m

section
variable {xs : List Value} {execute : Stmt → Run Flow} {paren : Token}
  (found : m.heap.lists[list]? = some xs.toArray)

theorem call_counted (isBuiltin : m.heap.IsBuiltin fn native) {args : List Value}
    (counted : args.length = native.arity) :
    call execute fn args paren m = callNative native args paren m := by
  rw [call_builtin isBuiltin, if_pos counted]

include found

theorem call_insert (isBuiltin : m.heap.IsBuiltin fn (.insert list)) (isInt : index.payload = .int i)
    (natural : 0 ≤ i.toInt) (inside : i.toInt ≤ xs.length) :
    ∃ m', call execute fn [index, v] paren m = .ok .null m' ∧
      Relisted m list (xs.take i.toInt.toNat ++ v :: xs.drop i.toInt.toNat) m' := by
  have place : i.toInt.toNat ≤ xs.length := Int.toNat_le.mpr inside
  refine ⟨_, ?_, relisted_modifyItems found (·.insertIdxIfInBounds i.toInt.toNat v) ?_⟩
  · rw [call_counted isBuiltin rfl, callNative_insert isInt, Heap.items_of_getElem? found]
    exact if_pos ⟨natural, inside⟩
  · rw [List.insertIdxIfInBounds_toArray, insertIdx_eq_append place]

theorem call_insert_outside (isBuiltin : m.heap.IsBuiltin fn (.insert list))
    (isInt : index.payload = .int i) (outside : ¬ (0 ≤ i.toInt ∧ i.toInt ≤ xs.length)) :
    call execute fn [index, v] paren m =
      .error (.fault ⟨.indexOutOfBounds "list" i xs.length, paren⟩) m := by
  rw [call_counted isBuiltin rfl, callNative_insert isInt, Heap.items_of_getElem? found]
  exact if_neg outside

theorem call_insert_iff (isBuiltin : m.heap.IsBuiltin fn (.insert list)) :
    (∃ r m', call execute fn [index, v] paren m = .ok r m') ↔
      ∃ i, index.payload = .int i ∧ 0 ≤ i.toInt ∧ i.toInt ≤ xs.length := by
  constructor
  · rintro ⟨r, m', ran⟩
    by_cases isInt : index.payload.kind = .int
    · obtain ⟨i, isInt⟩ := payload_of_kind_int isInt
      refine ⟨i, isInt, ?_⟩
      by_contra outside
      rw [call_insert_outside found isBuiltin isInt outside] at ran
      cases ran
    · rw [call_counted isBuiltin rfl, callNative_insert_refused isInt] at ran
      cases ran
  · rintro ⟨i, isInt, natural, inside⟩
    obtain ⟨m', ran, _⟩ := call_insert found isBuiltin isInt natural inside
    exact ⟨.null, m', ran⟩

theorem methods : Methods m list xs where
  taken w dot member native isList isMethod named :=
    ⟨_, dotAccess_method isList isMethod dot named m,
      fun m' later => later.isBuiltin (m.isBuiltin_taking native)⟩
  add execute fn v paren isBuiltin :=
    ⟨_, call_counted isBuiltin rfl, relisted_modifyItems found (·.push v) (List.push_toArray ..)⟩
  addRange execute fn ys other paren isBuiltin isList :=
    ⟨_, (call_counted isBuiltin rfl).trans (callNative_addRange isList list paren m),
      relisted_modifyItems found (· ++ m.heap.items other) (by simp)⟩
  addRange_refused execute fn v paren isBuiltin notList :=
    (call_counted isBuiltin rfl).trans (callNative_addRange_refused notList list paren m)
  insert execute fn index v i paren := call_insert found
  insert_iff execute fn index v paren := call_insert_iff found
  insert_outside execute fn index v i paren := call_insert_outside found
  insert_refused execute fn index v paren isBuiltin notInt :=
    (call_counted isBuiltin rfl).trans (callNative_insert_refused notInt list v paren m)
  remove execute fn v item before after paren isBuiltin shape others equal := by
    refine ⟨_, call_counted isBuiltin rfl, relisted_modifyItems found (·.eraseP (·.same v)) ?_⟩
    rw [List.eraseP_toArray, shape, eraseP_first others equal]
  remove_none execute fn v paren isBuiltin none := by
    have same : xs.toArray.eraseP (·.same v) = xs.toArray :=
      Array.eraseP_of_forall_mem_not fun b member => by
        rw [none b (List.mem_toArray.mp member)]
        decide
    have left : call execute fn [v] paren m =
        .ok .null { m with heap := m.heap.modifyItems list (·.eraseP (·.same v)) } :=
      call_counted isBuiltin rfl
    rw [left, modifyItems_self found same]
  miscounted execute fn args paren native isMethod isBuiltin miscounted := by
    rw [call_builtin isBuiltin, if_neg miscounted]
  failed execute fn args paren native e m' isMethod isBuiltin failed := by
    rw [call_builtin isBuiltin] at failed
    split at failed
    · exact callNative_failed isMethod ‹_› failed
    · cases failed
      rfl

end

/-- Functions and lists remain, through every run, between any two moments of one and from one run of a
session to the next, so a method taken at any time is still the same when it is called. In the text of
a program it is taken before the arguments are evaluated. On a list with given items, `add` puts a value
behind them, `add_range` all items that a list has before the call, `insert` puts a value at an integer
from zero up to their number, and at nothing else, and `remove` takes the first one away that equals a
value, if there is one. Each of them yields null and changes this one list, and all that refer to it see
that; a call that fails changes nothing. -/
theorem list_methods :
    (∀ m, Lasting m) ∧
    (∀ s s' : Session, s.Step s' → s.machine.Retains s'.machine) ∧
    (∀ n m m' m'' e w list native dot member paren args values,
      evaluate n e m = .ok w m' → w.payload = .list list → native ∈ Native.methodsOf list →
      member.lexeme = native.name →
      args.mapM (evaluate (n + 1)) (m'.taking native) = .ok values m'' →
      ∃ fn, m''.heap.IsBuiltin fn native ∧
        evaluate (n + 2) (.call (.access e dot member) paren args) m =
          call (execute (n + 1)) fn values paren m'') ∧
    ∀ (m : Machine) (list : ListId) (xs : List Value),
      m.heap.lists[list]? = some xs.toArray → Methods m list xs := by
  refine ⟨lasting, fun s s' => retains_session, ?_, fun m list xs => methods⟩
  intro n m m' m'' e w list native dot member paren args values evaluated isList isMethod named given
  exact evaluate_method evaluated isList isMethod dot named paren given

/-- A list that holds itself, and two methods of it. -/
def selfHolding : Machine where
  heap := ⟨#[], #[.builtin (.addRange 0), .builtin (.insert 0)], #[#[.of (.list 0), .int 1]], #[]⟩
  globals := 0
  scope := 0
  depth := 0
  output := .unlimited
  clock := fun _ => 0
  readings := 0

/-- It takes its own items, as they are before the call, but nothing in front of them all. -/
theorem list_methods_selfHolding :
    (∃ m', call (execute 0) (.of (.function 0)) [.of (.list 0)] default selfHolding = .ok .null m' ∧
      m'.heap.lists[0]? = some #[.of (.list 0), .int 1, .of (.list 0), .int 1]) ∧
    call (execute 0) (.of (.function 1)) [.int (-1), .null] default selfHolding =
      .error (.fault ⟨.indexOutOfBounds "list" (-1) 2, default⟩) selfHolding := by
  have methods := list_methods.2.2.2 selfHolding 0 [.of (.list 0), .int 1] rfl
  constructor
  · obtain ⟨m', ran, relisted⟩ := methods.addRange (execute 0) (.of (.function 0)) (.of (.list 0)) 0
      default ⟨0, rfl, rfl⟩ rfl
    exact ⟨m', ran, relisted.content⟩
  · exact methods.insert_outside (execute 0) (.of (.function 1)) (.int (-1)) .null (-1) default
      ⟨1, rfl, rfl⟩ rfl (by decide)

end Run

end SoftScript
