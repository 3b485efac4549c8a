import SoftScript.Proofs.Heap.Renaming
import SoftScript.Proofs.Run.Blind
import SoftScript.Proofs.Run.ListOperators
import SoftScript.Proofs.Run.Local

/-! Runs of machines that differ in the places of their cells only. Where the first run adds cells
and ends with a value or a fault, the second one adds cells and ends with the same value at its
place, or with the same fault. All steps that only look at the heap or add a cell to it are such
runs, and so is one of them after the other. -/
namespace SoftScript

/-- A machine to whose heap cells are added. -/
structure Machine.Grows (m k : Machine) : Prop where
  rest : k = { m with heap := k.heap }
  heap : m.heap.Grows k.heap

/-- Machines that look names up in the same scope of heaps that differ in places only. -/
structure Machine.Renames (f : Renaming) (m m' : Machine) : Prop where
  heap : m.heap.Renames f m'.heap
  scope : m'.scope = m.scope

theorem Machine.Grows.refl (m : Machine) : m.Grows m := ⟨rfl, .refl _⟩

theorem Machine.Grows.trans {m k l : Machine} (first : m.Grows k) (second : k.Grows l) :
    m.Grows l where
  rest := by rw [second.rest, first.rest]
  heap := first.heap.trans second.heap

/-- Adding cells moves the places of those to come and nothing else. -/
theorem Machine.Grows.renames {m k : Machine} (grows : m.Grows k) (formed : m.WellFormed) :
    m.Renames (m.heap.past k.heap) k where
  heap := grows.heap.renames formed.intact
  scope := by rw [grows.rest]

namespace Run

variable {α β : Type} {f : Renaming} {g : α → α} {g' : β → β} {m m' : Machine}

/-- Two runs both end with a value, related by a function, or both with the same fault, having
added cells only. -/
inductive Mirrors (f : Renaming) (g : α → α) (m m' : Machine) :
    EStateM.Result Halt Machine α → EStateM.Result Halt Machine α → Prop
  | ok {a : α} {k k' : Machine} : m.Grows k → m'.Grows k' → k.Renames f k' →
    Mirrors f g m m' (.ok a k) (.ok (g a) k')
  | fault {fault : Fault} {k k' : Machine} : m.Grows k → m'.Grows k' →
    Mirrors f g m m' (.error (.fault fault) k) (.error (.fault fault) k')

/-- From a well-formed machine and one that differs from it in places only, the runs come to the
same. -/
def Echoes (f : Renaming) (g : α → α) (x x' : Run α) (m m' : Machine) : Prop :=
  m.WellFormed → m.Renames f m' → Mirrors f g m m' (x m) (x' m')

/-- The values of the runs are the same at other places. -/
def EchoesValue (f : Renaming) (x x' : Run Value) (m m' : Machine) : Prop :=
  Echoes f (·.renamed f) x x' m m'

theorem echoes_of {x x' : Run α} (h : m.WellFormed → m.Renames f m' → Echoes f g x x' m m') :
    Echoes f g x x' m m' :=
  fun formed renames => h formed renames formed renames

theorem echoes_pure (a : α) : Echoes f g (pure a) (pure (g a)) m m' :=
  fun _ renames => .ok (.refl m) (.refl m') renames

theorem echoes_fail (cause : Fault.Cause) (token : Token) :
    Echoes f g (fail cause token) (fail cause token) m m' :=
  fun _ _ => .fault (.refl m) (.refl m')

theorem Mirrors.after_grows {k k' : Machine} {r r' : EStateM.Result Halt Machine α}
    (grows : m.Grows k) (grows' : m'.Grows k') (mirrors : Mirrors f g k k' r r') :
    Mirrors f g m m' r r' := by
  cases mirrors with
  | ok later later' renames => exact .ok (grows.trans later) (grows'.trans later') renames
  | fault later later' => exact .fault (grows.trans later) (grows'.trans later')

theorem Mirrors.grows {r r' : EStateM.Result Halt Machine α} (mirrors : Mirrors f g m m' r r') :
    m.Grows (after r) ∧ m'.Grows (after r') := by
  cases mirrors with
  | ok grows grows' => exact ⟨grows, grows'⟩
  | fault grows grows' => exact ⟨grows, grows'⟩

theorem Mirrors.isOver {r r' : EStateM.Result Halt Machine α} (mirrors : Mirrors f g m m' r r') :
    isOver r = true ∧ isOver r' = true := by
  cases mirrors <;> exact ⟨rfl, rfl⟩

/-- The first run stays within the heap, so what it hands over can be relied on afterwards. -/
theorem Echoes.bind {x x' : Run α} {next next' : α → Run β} {P : α → Heap → Prop}
    (first : Echoes f g x x' m m') (within : Within Cell.Anywhere x m P)
    (later : ∀ a k k', m.Onward Cell.Anywhere k → P a k.heap →
      Echoes f g' (next a) (next' (g a)) k k') :
    Echoes f g' (x >>= next) (x' >>= next') m m' := by
  intro formed renames
  have mirrors := first formed renames
  have ran := within formed.intact.confined_anywhere
  rw [bind_apply, bind_apply]
  generalize x m = r, x' m' = r' at mirrors ran ⊢
  cases mirrors with
  | ok grows grows' renames' =>
    obtain ⟨onward, held⟩ := ran
    exact (later _ _ _ onward held (formed.onward onward) renames').after_grows grows grows'
  | fault grows grows' => exact .fault grows grows'

/-! Looking at the heap. -/

theorem echoes_heap {next next' : Heap → Run α}
    (later : Echoes f g (next m.heap) (next' m'.heap) m m') :
    Echoes f g (heap >>= next) (heap >>= next') m m' :=
  later

theorem echoes_text {v : Value} (held : v.Held Cell.Anywhere m.heap) {next next' : String → Run α}
    (later : ∀ s, Echoes f g (next s) (next' s) m m') :
    Echoes f g (text v >>= next) (text (v.renamed f) >>= next') m m' := by
  intro formed renames
  have same : m'.heap.text (v.payload.renamed f) = m.heap.text v.payload :=
    renames.heap.text formed.intact fun c refers => (held c refers).allocated
  have read : (text (v.renamed f) >>= next') m' = next' (m.heap.text v.payload) m' :=
    congrArg (fun s => next' s m') same
  rw [read]
  exact later _ formed renames

theorem echoes_lookup (name : Token) : EchoesValue f (lookup name) (lookup name) m m' := by
  intro formed renames
  rw [lookup_apply, lookup_apply, renames.scope, renames.heap.lookup?]
  cases m.heap.lookup? m.scope name.lexeme with
  | none => exact .fault (.refl m) (.refl m')
  | some v => exact .ok (.refl m) (.refl m') renames

/-! Adding a cell. -/

theorem Mirrors.new (renames : m.Renames f m') {new new' : Payload × Heap}
    (grows : m.heap.Grows new.2) (grows' : m'.heap.Grows new'.2)
    (alike : new.2.Renames f new'.2 ∧ new'.1 = new.1.renamed f) :
    Mirrors f (Value.renamed f) m m' (.ok (.of new.1) { m with heap := new.2 })
      (.ok (.of new'.1) { m' with heap := new'.2 }) := by
  obtain ⟨still, same⟩ := alike
  have value : Value.of new'.1 = (Value.of new.1).renamed f := congrArg Value.of same
  rw [value]
  exact .ok ⟨rfl, grows⟩ ⟨rfl, grows'⟩ ⟨still, renames.scope⟩

theorem echoes_newFunction (callable : Callable) :
    EchoesValue f (newFunction callable) (newFunction (callable.renamed f)) m m' :=
  fun _ renames => .new renames (m.heap.grows_newFunction _) (m'.heap.grows_newFunction _)
    (renames.heap.newFunction callable)

theorem echoes_newList (items : Array Value) :
    EchoesValue f (newList items) (newList (items.map (Value.renamed f))) m m' :=
  fun _ renames => .new renames (m.heap.grows_newList _) (m'.heap.grows_newList _)
    (renames.heap.newList items)

theorem echoes_newObject (members : Bindings) :
    EchoesValue f (newObject members) (newObject (members.renamed f)) m m' :=
  fun _ renames => .new renames (m.heap.grows_newObject _) (m'.heap.grows_newObject _)
    (renames.heap.newObject members)

/-! Members and positions. -/

theorem echoes_undefinedMember (v : Value) (member : Token) :
    EchoesValue f (undefinedMember v member) (undefinedMember (v.renamed f) member) m m' := by
  rw [undefinedMember, undefinedMember, Value.owner_renamed]
  exact echoes_fail _ _

theorem echoes_dotAccess (v : Value) (dot member : Token) :
    EchoesValue f (dotAccess v dot member) (dotAccess (v.renamed f) dot member) m m' := by
  apply echoes_of
  intro _ renames
  unfold dotAccess
  rw [Value.payload_renamed]
  cases v.payload with
  | string text =>
    simp only [Payload.renamed]
    split
    · exact echoes_pure _
    · exact echoes_undefinedMember v member
  | list id =>
    simp only [Payload.renamed, Native.listMethod?_renamed]
    split
    · apply echoes_heap
      rw [renames.heap.items, Array.size_map]
      exact echoes_pure _
    · cases Native.listMethod? id member.lexeme with
      | none => exact echoes_undefinedMember v member
      | some method => exact echoes_newFunction (.builtin method)
  | object id =>
    apply echoes_heap
    simp only [renames.heap.members, Bindings.get?_renamed]
    cases (m.heap.members id).get? member.lexeme with
    | none => exact echoes_undefinedMember v member
    | some value => exact echoes_pure value
  | int | bool | function | null => exact echoes_fail _ _

theorem echoes_itemAt (v : Value) (bracket : Token) {index : Value}
    (held : index.Held Cell.Anywhere m.heap) (items : Array Value) :
    EchoesValue f (itemAt v bracket index items)
      (itemAt (v.renamed f) bracket (index.renamed f) (items.map (Value.renamed f))) m m' := by
  unfold itemAt
  simp only [Value.payload_renamed, Payload.asInt?_renamed, Value.owner_renamed]
  cases index.payload.asInt? with
  | none =>
    apply echoes_text held
    intro _
    exact echoes_fail _ _
  | some position =>
    have found : (position.toIndex?.bind fun i => (items.map (Value.renamed f))[i]?) =
        (position.toIndex?.bind (items[·]?)).map (Value.renamed f) := by
      simp only [Array.getElem?_map, Option.map_bind]
      rfl
    simp only [found, Array.size_map]
    cases position.toIndex?.bind (items[·]?) with
    | none => exact echoes_fail _ _
    | some item => exact echoes_pure item

theorem echoes_indexAccess (v : Value) (bracket : Token) {index : Value}
    (held : index.Held Cell.Anywhere m.heap) :
    EchoesValue f (indexAccess v bracket index)
      (indexAccess (v.renamed f) bracket (index.renamed f)) m m' := by
  apply echoes_of
  intro _ renames
  unfold indexAccess
  simp only [Value.payload_renamed]
  cases v.payload with
  | list id =>
    apply echoes_heap
    rw [renames.heap.items]
    exact echoes_itemAt v bracket held _
  | object id =>
    have values : (((m.heap.members id).renamed f).map Prod.snd).toArray =
        ((m.heap.members id).map Prod.snd).toArray.map (Value.renamed f) := by
      simp [Bindings.renamed, Function.comp_def]
    apply echoes_heap
    rw [renames.heap.members, values]
    exact echoes_itemAt v bracket held _
  | int | bool | function | string | null => exact echoes_fail _ _

/-! Operators. -/

theorem echoes_checked (op : Token) (result : Option Integer) :
    EchoesValue f (checked op result) (checked op result) m m' := by
  cases result with
  | none => exact echoes_fail _ _
  | some value => exact echoes_pure (Value.int value)

theorem echoes_bool (value : Bool) :
    EchoesValue f (pure (.bool value)) (pure (.bool value)) m m' :=
  echoes_pure (Value.bool value)

theorem echoes_arithmetic (op : Token) (left right : Value) :
    EchoesValue f (arithmetic op left right) (arithmetic op (left.renamed f) (right.renamed f))
      m m' := by
  unfold arithmetic
  simp only [Value.payload_renamed, Payload.asInt?_renamed, Payload.kind_renamed]
  split
  · exact echoes_fail _ _
  · exact echoes_fail _ _
  · split
    · exact echoes_checked _ _
    · exact echoes_checked _ _
    · split
      · exact echoes_fail _ _
      · exact echoes_checked _ _
    · split
      · exact echoes_fail _ _
      · exact echoes_checked _ _
    · exact echoes_bool _
    · exact echoes_bool _
    · exact echoes_bool _
    · exact echoes_bool _
    · exact echoes_fail _ _

theorem asItems_renames (renames : m.heap.Renames f m'.heap) (v : Value) :
    m'.heap.asItems (v.renamed f) = (m.heap.asItems v).map (Value.renamed f) := by
  unfold Heap.asItems
  rw [Value.payload_renamed, Payload.asList?_renamed]
  cases v.payload.asList? with
  | none => rfl
  | some id =>
    dsimp only [Option.map_some]
    rw [renames.items, Array.toList_map]

theorem echoes_itemsOf {left right : Value} {next next' : Array Value → Array Value → Run Value}
    (later : ∀ xs ys, EchoesValue f (next xs ys)
      (next' (xs.map (Value.renamed f)) (ys.map (Value.renamed f))) m m') :
    EchoesValue f (do next (← itemsOf left) (← itemsOf right))
      (do next' (← itemsOf (left.renamed f)) (← itemsOf (right.renamed f))) m m' := by
  intro formed renames
  rw [itemsOf_both, itemsOf_both, asItems_renames renames.heap, asItems_renames renames.heap,
    ← List.map_toArray, ← List.map_toArray]
  exact later _ _ formed renames

/-- Addition told by the kinds of its operands. -/
theorem plus_eq (op : Token) (left right : Value) : plus op left right =
    match left.payload.asInt?, right.payload.asInt? with
    | some a, some b => checked op (a.add? b)
    | _, _ =>
      if left.payload.kind = .string ∨ right.payload.kind = .string then do
        return .string ((← text left) ++ (← text right))
      else if left.payload.kind = .list ∨ right.payload.kind = .list then do
        newList ((← itemsOf left) ++ (← itemsOf right))
      else fail .invalidPlusOperands op := by
  obtain ⟨p, name⟩ := left
  obtain ⟨q, name'⟩ := right
  cases p <;> cases q <;> rfl

theorem echoes_plus (op : Token) {left right : Value} (heldLeft : left.Held Cell.Anywhere m.heap)
    (heldRight : right.Held Cell.Anywhere m.heap) :
    EchoesValue f (plus op left right) (plus op (left.renamed f) (right.renamed f)) m m' := by
  rw [plus_eq, plus_eq]
  simp only [Value.payload_renamed, Payload.asInt?_renamed, Payload.kind_renamed]
  split
  · exact echoes_checked _ _
  · split
    · apply echoes_text heldLeft
      intro _
      apply echoes_text heldRight
      intro _
      exact echoes_pure (Value.string _)
    · split
      · apply echoes_itemsOf
        intro xs ys
        rw [← Array.map_append]
        exact echoes_newList _
      · exact echoes_fail _ _

/-- Which items are equal does not hang on places. -/
theorem any_same_renamed (f : Renaming) (xs : List Value) (x : Value) :
    (xs.map (Value.renamed f)).any (·.same (x.renamed f)) = xs.any (·.same x) := by
  rw [List.any_map]
  congr 1
  funext y
  exact Value.same_renamed f y x

theorem firsts_renamed (f : Renaming) (xs : List Value) :
    firsts (xs.map (Value.renamed f)) = (firsts xs).map (Value.renamed f) := by
  induction xs using List.reverseRecOn with
  | nil => rfl
  | append_singleton xs x ih =>
    rw [List.map_append, List.map_singleton, firsts_concat, firsts_concat, any_same_renamed, ih]
    split
    · rfl
    · rw [List.map_append, List.map_singleton]

theorem distinct_renamed (f : Renaming) (items : Array Value) :
    distinct (items.map (Value.renamed f)) = (distinct items).map (Value.renamed f) := by
  obtain ⟨xs⟩ := items
  rw [List.map_toArray, distinct_toArray, distinct_toArray, firsts_renamed, List.map_toArray]

theorem listFirst?_renamed (f : Renaming) (left right : Value) :
    listFirst? (left.renamed f) (right.renamed f) =
      (listFirst? left right).map fun (list, other) => (list.renamed f, other.renamed f) := by
  unfold listFirst?
  simp only [Value.payload_renamed, Payload.asList?_renamed]
  cases left.payload.asList? <;> cases right.payload.asList? <;> rfl

theorem echoes_either (left right : Value) :
    EchoesValue f (either left right) (either (left.renamed f) (right.renamed f)) m m' := by
  unfold either
  rw [listFirst?_renamed]
  cases listFirst? left right with
  | none =>
    simp only [Option.map_none, Value.payload_renamed, Payload.isTruthy_renamed]
    exact echoes_bool _
  | some operands =>
    apply echoes_itemsOf
    intro xs ys
    rw [← Array.map_append, distinct_renamed]
    exact echoes_newList _

theorem echoes_both (left right : Value) :
    EchoesValue f (both left right) (both (left.renamed f) (right.renamed f)) m m' := by
  unfold both
  rw [listFirst?_renamed]
  cases listFirst? left right with
  | none =>
    simp only [Option.map_none, Value.payload_renamed, Payload.isTruthy_renamed]
    exact echoes_bool _
  | some operands =>
    apply echoes_itemsOf
    intro ⟨ys⟩ xs
    rw [List.map_toArray, Array.filter_map]
    simp only [Function.comp_def, List.any_toArray, any_same_renamed]
    exact echoes_newList _

theorem echoes_binary (op : Token) {left right : Value} (heldLeft : left.Held Cell.Anywhere m.heap)
    (heldRight : right.Held Cell.Anywhere m.heap) :
    EchoesValue f (binary op left right) (binary op (left.renamed f) (right.renamed f)) m m' := by
  unfold binary
  rw [Value.same_renamed]
  split
  · exact echoes_bool _
  · exact echoes_bool _
  · exact echoes_plus op heldLeft heldRight
  · exact echoes_either left right
  · exact echoes_both left right
  all_goals first | exact echoes_arithmetic op left right | exact echoes_fail _ _

theorem echoes_unary (op : Token) (operand : Value) :
    EchoesValue f (unary op operand) (unary op (operand.renamed f)) m m' := by
  unfold unary
  simp only [Value.payload_renamed, Payload.isTruthy_renamed, Payload.asInt?_renamed,
    Payload.kind_renamed]
  split
  · exact echoes_bool _
  · split
    · exact echoes_checked _ _
    · exact echoes_fail _ _
  · exact echoes_fail _ _

/-! Declarations. -/

theorem echoes_bindFunction (declaration : FunctionDecl) :
    EchoesValue f (bindFunction declaration) (bindFunction declaration) m m' := by
  intro formed renames
  have here : ∀ c, Callable.cell? (.user declaration m.scope) = some c →
      m.heap.Holds Cell.Anywhere c := by
    rintro c ⟨⟩
    exact ⟨trivial, formed.scope⟩
  have bound : EchoesValue f
      (newFunction (.user declaration m.scope) >>= fun v => pure (v.named declaration.name))
      (newFunction (.user declaration m.scope) >>= fun v => pure (v.named declaration.name))
      m m' :=
    (echoes_newFunction _).bind (yields_newFunction here) fun v _ _ _ _ =>
      echoes_pure (v.named declaration.name)
  have begun (l : Machine) : bindFunction declaration l =
      (newFunction (.user declaration l.scope) >>= fun v => pure (v.named declaration.name)) l := rfl
  rw [begun, begun, renames.scope]
  exact bound formed renames

theorem echoes_addMember (members : Bindings) (name : Token) (v : Value) :
    Echoes f (Bindings.renamed f) (addMember members name v)
      (addMember (members.renamed f) name (v.renamed f)) m m' := by
  unfold addMember
  rw [Bindings.contains_renamed]
  split
  · exact echoes_fail _ _
  · rw [← Bindings.insert_renamed]
    exact echoes_pure _

end Run

end SoftScript
