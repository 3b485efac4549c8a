import SoftScript.Proofs.Likeness.State
import SoftScript.Proofs.Run.Within

/-! Steps of evaluation on machines that are alike. They end alike: both with results that are
alike, or both with the same fault, reported at tokens that may stand at the same place. -/
namespace SoftScript.Run

variable {α α' β β' : Type}

/-- Results that are alike. Running out of the bound is no result. -/
inductive Ends (L : Likeness) (V : α → α' → Prop) :
    EStateM.Result Halt Machine α → EStateM.Result Halt Machine α' → Prop
  | ok : V a a' → m.Alike L m' → Ends L V (.ok a m) (.ok a' m')
  | fault : L.place token token' → m.Alike L m' →
    Ends L V (.error (.fault ⟨cause, token⟩) m) (.error (.fault ⟨cause, token'⟩) m')

variable {L : Likeness} {V : α → α' → Prop} {W : β → β' → Prop} {m m' : Machine}

/-- The bound was large enough. -/
def isOver : EStateM.Result Halt Machine α → Bool
  | .error .exhausted _ => false
  | _ => true

theorem isOver_bind {x : Run α} {next : α → Run β} (halts : isOver ((x >>= next) m) = true) :
    isOver (x m) = true := by
  rw [bind_apply] at halts
  cases ran : x m with
  | ok a m₁ => rfl
  | error e m₁ =>
    cases e with
    | fault => rfl
    | exhausted => simp [ran, isOver] at halts

/-- From machines that are alike, if the first run comes to an end, the second ends alike. -/
def Agree (L : Likeness) (V : α → α' → Prop) (x : Run α) (x' : Run α') (m m' : Machine) : Prop :=
  m.Alike L m' → isOver (x m) = true → Ends L V (x m) (x' m')

theorem agree_pure (result : V a a') : Agree L V (pure a) (pure a') m m' :=
  fun alike _ => .ok result alike

theorem agree_fail (cause : Fault.Cause) (place : L.place t t') :
    Agree L V (fail cause t) (fail cause t') m m' :=
  fun alike _ => .fault place alike

theorem agree_exhausted {x' : Run α'} : Agree L V exhausted x' m m' := by
  intro _ halts
  cases halts

theorem agree_bind {x : Run α} {x' : Run α'} {next : α → Run β} {next' : α' → Run β'}
    (first : Agree L V x x' m m')
    (second : ∀ a a' m m', V a a' → Agree L W (next a) (next' a') m m') :
    Agree L W (x >>= next) (x' >>= next') m m' := by
  intro alike halts
  have ended := first alike (isOver_bind halts)
  rw [bind_apply] at halts ⊢
  rw [bind_apply]
  generalize x m = r at halts ended
  generalize x' m' = r' at ended
  cases ended with
  | ok result alike => exact second _ _ _ _ result alike halts
  | fault place alike => exact .fault place alike

theorem agree_get {next : Machine → Run α} {next' : Machine → Run α'}
    (later : Agree L V (next m) (next' m') m m') :
    Agree L V (get >>= next) (get >>= next') m m' :=
  later

theorem agree_heap {next : Heap → Run α} {next' : Heap → Run α'}
    (later : m.heap.Alike L m'.heap → Agree L V (next m.heap) (next' m'.heap) m m') :
    Agree L V (heap >>= next) (heap >>= next') m m' :=
  fun alike => later alike.heap alike

theorem agree_text {v v' : Value} {next : String → Run α} {next' : String → Run α'}
    (value : v.Alike L v') (later : ∀ text, Agree L V (next text) (next' text) m m') :
    Agree L V (text v >>= next) (text v' >>= next') m m' := by
  intro alike halts
  have ended := later (m.heap.text v.payload) alike halts
  have same : m'.heap.text v'.payload = m.heap.text v.payload := by
    rw [alike.heap.text, value.payload]
  change Ends L V (next (m.heap.text v.payload) m) (next' (m'.heap.text v'.payload) m')
  rwa [same]

/-- Machines that are alike differ in their heaps only. -/
theorem agree_of_heaps {x : Run α} {x' : Run α'}
    (h : ∀ heap', m.heap.Alike L heap' → Agree L V x x' m { m with heap := heap' }) :
    Agree L V x x' m m' := by
  intro alike halts
  have same : m' = { m with heap := m'.heap } := by
    obtain ⟨_, _, _, _, _, _, _⟩ := m
    obtain ⟨_, rfl, rfl, rfl, rfl, rfl, rfl⟩ := alike
    rfl
  rw [same] at alike ⊢
  exact h m'.heap alike.heap alike halts

/-- A step to another heap. -/
theorem ends_heap {h h' : Heap} (alike : m.Alike L m') (heap : h.Alike L h') (result : V a a') :
    Ends L V (.ok a { m with heap := h }) (.ok a' { m' with heap := h' }) :=
  .ok result { alike with heap }

/-! Cells. -/

theorem agree_newFunction {c c' : Callable} (callable : c.Alike L c') :
    Agree L (Value.Alike L) (newFunction c) (newFunction c') m m' := by
  intro alike _
  refine ends_heap alike (alike.heap.newFunction callable) ⟨?_, .none⟩
  exact congrArg Payload.function alike.heap.functions_size

theorem agree_newList {items items' : Array Value}
    (alike : Values.Alike L items.toList items'.toList) :
    Agree L (Value.Alike L) (newList items) (newList items') m m' := by
  intro machine _
  refine ends_heap machine (machine.heap.newList alike) ⟨?_, .none⟩
  exact congrArg Payload.list machine.heap.lists_size

theorem agree_newObject {members members' : Bindings} (alike : Bindings.Alike L members members') :
    Agree L (Value.Alike L) (newObject members) (newObject members') m m' := by
  intro machine _
  refine ends_heap machine (machine.heap.newObject alike) ⟨?_, .none⟩
  exact congrArg Payload.object machine.heap.objects_size

theorem agree_newFrame {frame frame' : Frame} (alike : frame.Alike L frame') :
    Agree L Eq (newFrame frame) (newFrame frame') m m' :=
  fun machine _ => ends_heap machine (machine.heap.newFrame alike) machine.heap.frames_size

theorem agree_modifyItems {f g : Array Value → Array Value} (id : ListId)
    (change : ∀ items items', Values.Alike L items.toList items'.toList →
      Values.Alike L (f items).toList (g items').toList) :
    Agree L Eq (modifyItems id f) (modifyItems id g) m m' :=
  fun alike _ => ends_heap alike (alike.heap.modifyItems id change) rfl

theorem agree_modifyMembers {f g : Bindings → Bindings} (id : ObjectId)
    (change : ∀ b b', Bindings.Alike L b b' → Bindings.Alike L (f b) (g b')) :
    Agree L Eq (modifyMembers id f) (modifyMembers id g) m m' :=
  fun alike _ => ends_heap alike (alike.heap.modifyMembers id change) rfl

/-! Names. -/

theorem agree_lookup (name : L.name t t') : Agree L (Value.Alike L) (lookup t) (lookup t') m m' := by
  apply agree_of_heaps
  intro heap' alike
  apply agree_get
  dsimp only
  rw [← name.2]
  rcases related_cases (alike.lookup? m.scope t.lexeme) with
    ⟨left, right⟩ | ⟨v, v', left, right, value⟩
  · rw [left, right]
    exact agree_fail _ name.1
  · rw [left, right]
    exact agree_pure value

theorem agree_define {v v' : Value} (name : L.name t t') (value : v.Alike L v') :
    Agree L Eq (define t v) (define t' v') m m' := by
  apply agree_of_heaps
  intro heap' alike
  apply agree_get
  dsimp only
  rw [← name.2, (alike.bindings m.scope).contains]
  split
  · exact agree_fail _ name.1
  · exact fun machine _ => .ok rfl { machine with heap := alike.bind m.scope t.lexeme value }

theorem agree_assign {v v' : Value} (name : L.name t t') (value : v.Alike L v') :
    Agree L Eq (assign t v) (assign t' v') m m' := by
  apply agree_of_heaps
  intro heap' alike
  apply agree_get
  dsimp only
  rw [← name.2, alike.holder?, value.payload]
  split
  · exact fun machine _ => .ok rfl { machine with heap := alike.rebind _ _ _ }
  · exact agree_fail _ name.1

theorem agree_readClock : Agree L Eq readClock readClock m m' := by
  apply agree_of_heaps
  intro heap' _ machine _
  exact .ok rfl { machine with readings := rfl }

theorem agree_write (text : String) (place : L.place t t') :
    Agree L Eq (write text t) (write text t') m m' := by
  apply agree_of_heaps
  intro heap' _
  apply agree_get
  dsimp only
  rcases m.output.write text with _ | ⟨_ | error, output⟩
  · exact agree_exhausted
  · exact fun machine _ => .ok rfl { machine with output := rfl }
  · exact fun machine _ => .fault place { machine with output := rfl }

/-! Members and positions. -/

section Values

variable {v v' w w' : Value}

theorem agree_undefinedMember (value : v.Alike L v') (member : L.name t t') :
    Agree L (Value.Alike L) (undefinedMember v t) (undefinedMember v' t') m m' := by
  rw [undefinedMember, undefinedMember, value.owner, member.2]
  exact agree_fail _ member.1

theorem agree_dotAccess (value : v.Alike L v') (place : L.place dot dot')
    (member : L.name t t') :
    Agree L (Value.Alike L) (dotAccess v dot t) (dotAccess v' dot' t') m m' := by
  have undefined : Agree L (Value.Alike L) (undefinedMember v t) (undefinedMember v' t') m m' :=
    agree_undefinedMember value member
  unfold dotAccess
  rw [← value.payload, ← member.2]
  split
  · split
    · exact agree_pure (.of _)
    · exact undefined
  · rename_i id _
    split
    · apply agree_heap
      intro heap
      have size := (heap.items id).length_eq
      simp only [Array.length_toList] at size
      rw [size]
      exact agree_pure (.of _)
    · split
      · exact agree_newFunction .builtin
      · exact undefined
  · rename_i id _
    apply agree_heap
    intro heap
    rcases related_cases ((heap.members id).get? t.lexeme) with
      ⟨left, right⟩ | ⟨_, _, left, right, found⟩
    · rw [left, right]
      exact undefined
    · rw [left, right]
      exact agree_pure found
  · exact agree_fail _ place

theorem agree_itemAt {items items' : Array Value} (value : v.Alike L v')
    (place : L.place bracket bracket') (index : w.Alike L w')
    (alike : Values.Alike L items.toList items'.toList) :
    Agree L (Value.Alike L) (itemAt v bracket w items) (itemAt v' bracket' w' items') m m' := by
  unfold itemAt
  rw [← index.payload, ← value.owner]
  split
  · exact agree_text index fun text => agree_fail _ place
  · rename_i position _
    have size := alike.length_eq
    simp only [Array.length_toList] at size
    rw [size]
    have found : Option.Rel (Value.Alike L) (position.toIndex?.bind (items[·]?))
        (position.toIndex?.bind (items'[·]?)) := by
      cases position.toIndex? with
      | none => exact .none
      | some i => simpa using related_getElem? alike i
    rcases related_cases found with ⟨left, right⟩ | ⟨_, _, left, right, item⟩
    · rw [left, right]
      exact agree_fail _ place
    · rw [left, right]
      exact agree_pure item

theorem agree_indexAccess (value : v.Alike L v') (place : L.place bracket bracket')
    (index : w.Alike L w') :
    Agree L (Value.Alike L) (indexAccess v bracket w) (indexAccess v' bracket' w') m m' := by
  unfold indexAccess
  rw [← value.payload]
  split
  · exact agree_heap fun heap => agree_itemAt value place index (heap.items _)
  · exact agree_heap fun heap => agree_itemAt value place index (heap.members _).values
  · exact agree_fail _ place

theorem agree_assignMember (value : v.Alike L v') (place : L.place dot dot')
    (member : L.name t t') (new : w.Alike L w') :
    Agree L Eq (assignMember v dot t w) (assignMember v' dot' t' w') m m' := by
  unfold assignMember
  rw [← value.payload, ← member.2]
  split
  · apply agree_heap
    intro heap
    rw [(heap.members _).contains]
    split
    · exact agree_modifyMembers _ fun _ _ alike => alike.modify _ fun _ _ _ => new
    · exact agree_bind (agree_undefinedMember value member) fun _ _ _ _ _ => agree_pure rfl
  · exact agree_fail _ place

/-! Operators. -/

theorem agree_checked (place : L.place op op') (result : Option Integer) :
    Agree L (Value.Alike L) (checked op result) (checked op' result) m m' := by
  cases result with
  | none => exact agree_fail _ place
  | some value => exact agree_pure (.of _)

/-- An operator that is in use is not reported as one that is not. -/
theorem agree_unsupported {known : List Token.Kind} (operator : L.operator known op op')
    (unknown : known.contains op.kind = false) :
    Agree L V (fail (.unsupportedOperator op.lexeme) op) (fail (.unsupportedOperator op'.lexeme) op')
      m m' := by
  rcases operator.2.2 with used | same
  · rw [unknown] at used
    contradiction
  · rw [same]
    exact agree_fail _ operator.1

/-- The operators that take two integers. -/
def arithmeticOperators : List Token.Kind :=
  [.minus, .star, .slash, .percent, .greater, .greaterEqual, .lesser, .lesserEqual]

theorem agree_arithmetic (place : L.place op op') (kind : op.kind = op'.kind)
    (used : arithmeticOperators.contains op.kind = true) (left : v.Alike L v')
    (right : w.Alike L w') :
    Agree L (Value.Alike L) (arithmetic op v w) (arithmetic op' v' w') m m' := by
  unfold arithmetic
  rw [← left.payload, ← right.payload, ← kind]
  split
  · exact agree_fail _ place
  · exact agree_fail _ place
  · split
    · exact agree_checked place _
    · exact agree_checked place _
    · split
      · exact agree_fail _ place
      · exact agree_checked place _
    · split
      · exact agree_fail _ place
      · exact agree_checked place _
    · exact agree_pure (.of _)
    · exact agree_pure (.of _)
    · exact agree_pure (.of _)
    · exact agree_pure (.of _)
    · simp_all [arithmeticOperators]

theorem agree_itemsOf (value : v.Alike L v') :
    Agree L (fun items items' => Values.Alike L items.toList items'.toList) (itemsOf v) (itemsOf v')
      m m' := by
  unfold itemsOf
  rw [← value.payload]
  split
  · exact agree_heap fun heap => agree_pure (heap.items _)
  · exact agree_pure (.cons value .nil)

theorem agree_plus (place : L.place op op') (left : v.Alike L v') (right : w.Alike L w') :
    Agree L (Value.Alike L) (plus op v w) (plus op' v' w') m m' := by
  have joined : Agree L (Value.Alike L) (do newList ((← itemsOf v) ++ (← itemsOf w)))
      (do newList ((← itemsOf v') ++ (← itemsOf w'))) m m' := by
    apply agree_bind (agree_itemsOf left)
    intro items items' _ _ alike
    apply agree_bind (agree_itemsOf right)
    intro more more' _ _ alike'
    exact agree_newList (by simpa using List.rel_append alike alike')
  have texts : Agree L (Value.Alike L) (do return .string ((← text v) ++ (← text w)))
      (do return .string ((← text v') ++ (← text w'))) m m' :=
    agree_text left fun _ => agree_text right fun _ => agree_pure (.of _)
  unfold plus
  rw [← left.payload, ← right.payload]
  split
  · exact agree_checked place _
  · exact texts
  · exact texts
  · exact joined
  · exact joined
  · exact agree_fail _ place

/-- Items that are alike hold a value or not alike. -/
theorem any_same {items items' : Array Value} (alike : Values.Alike L items.toList items'.toList)
    (value : v.Alike L v') : items.any (·.same v) = items'.any (·.same v') := by
  rw [← Array.any_toList, ← Array.any_toList]
  exact related_any alike fun _ _ item => item.same value

theorem alike_distinct {items items' : Array Value}
    (alike : Values.Alike L items.toList items'.toList) :
    Values.Alike L (distinct items).toList (distinct items').toList := by
  obtain ⟨items⟩ := items
  obtain ⟨items'⟩ := items'
  replace alike : Values.Alike L items items' := alike
  let keep (kept : Array Value) (item : Value) : Array Value :=
    if kept.any (·.same item) then kept else kept.push item
  have step (kept kept' : Array Value) (before : Values.Alike L kept.toList kept'.toList) :
      Values.Alike L (items.foldl keep kept).toList (items'.foldl keep kept').toList := by
    induction alike generalizing kept kept' with
    | nil => exact before
    | cons item _ ih =>
      apply ih
      simp only [keep, any_same before item]
      split
      · exact before
      · simpa using List.rel_append before (.cons item .nil)
  unfold distinct
  rw [← Array.foldl_toList, ← Array.foldl_toList]
  exact step #[] #[] .nil

theorem related_listFirst? (left : v.Alike L v') (right : w.Alike L w') :
    Option.Rel (fun p p' => Value.Alike L p.1 p'.1 ∧ Value.Alike L p.2 p'.2) (listFirst? v w)
      (listFirst? v' w') := by
  unfold listFirst?
  rw [← left.payload, ← right.payload]
  split
  · exact .some ⟨left, right⟩
  · exact .some ⟨right, left⟩
  · exact .none

theorem agree_either (left : v.Alike L v') (right : w.Alike L w') :
    Agree L (Value.Alike L) (either v w) (either v' w') m m' := by
  unfold either
  rcases related_cases (related_listFirst? left right) with
    ⟨none, none'⟩ | ⟨⟨list, other⟩, ⟨list', other'⟩, some, some', first, second⟩
  · rw [none, none', ← left.payload, ← right.payload]
    exact agree_pure (.of _)
  · rw [some, some']
    apply agree_bind (agree_itemsOf first)
    intro items items' _ _ alike
    apply agree_bind (agree_itemsOf second)
    intro more more' _ _ alike'
    exact agree_newList (alike_distinct (by simpa using List.rel_append alike alike'))

theorem agree_both (left : v.Alike L v') (right : w.Alike L w') :
    Agree L (Value.Alike L) (both v w) (both v' w') m m' := by
  unfold both
  rcases related_cases (related_listFirst? left right) with
    ⟨none, none'⟩ | ⟨⟨list, other⟩, ⟨list', other'⟩, some, some', first, second⟩
  · rw [none, none', ← left.payload, ← right.payload]
    exact agree_pure (.of _)
  · rw [some, some']
    apply agree_bind (agree_itemsOf second)
    intro excluded excluded' _ _ without
    apply agree_bind (agree_itemsOf first)
    intro items items' _ _ alike
    apply agree_newList
    rw [Array.toList_filter, Array.toList_filter]
    apply List.rel_filter ?_ alike
    intro item item' same
    simp only [any_same without same]

theorem agree_binary (operator : L.operator Token.binaryOperators op op') (left : v.Alike L v')
    (right : w.Alike L w') :
    Agree L (Value.Alike L) (binary op v w) (binary op' v' w') m m' := by
  have number (used : arithmeticOperators.contains op.kind = true) :
      Agree L (Value.Alike L) (arithmetic op v w) (arithmetic op' v' w') m m' :=
    agree_arithmetic operator.1 operator.2.1 used left right
  unfold binary
  rw [← operator.2.1]
  split
  · rw [left.same right]
    exact agree_pure (.of _)
  · rw [left.same right]
    exact agree_pure (.of _)
  · exact agree_plus operator.1 left right
  · exact agree_either left right
  · exact agree_both left right
  all_goals first
    | exact number (by simp_all [arithmeticOperators])
    | exact agree_unsupported operator (by simp_all [Token.binaryOperators, Parse.Level.all, Parse.Level.operators])

theorem agree_unary (operator : L.operator Token.unaryOperators op op') (operand : v.Alike L v') :
    Agree L (Value.Alike L) (unary op v) (unary op' v') m m' := by
  unfold unary
  rw [← operator.2.1, ← operand.payload]
  split
  · exact agree_pure (.of _)
  · split
    · exact agree_checked operator.1 _
    · exact agree_fail _ operator.1
  · exact agree_unsupported operator (by simp_all [Token.unaryOperators])

/-! Built-in functions. -/

theorem agree_insertItem (list : ListId) (index : v.Alike L v') (value : w.Alike L w')
    (place : L.place paren paren') :
    Agree L Eq (insertItem list v w paren) (insertItem list v' w' paren') m m' := by
  unfold insertItem
  rw [← index.payload]
  split
  · exact agree_text index fun _ => agree_fail _ place
  · apply agree_heap
    intro heap
    have size := (heap.items list).length_eq
    simp only [Array.length_toList] at size
    dsimp only
    rw [size]
    split
    · apply agree_modifyItems
      intro items items' alike
      have length := alike.length_eq
      simp only [Array.length_toList] at length
      simp only [Array.insertIdxIfInBounds, length]
      split
      · simpa using related_insertIdx alike value _
      · exact alike
    · exact agree_fail _ place

end Values

/-- The argument at a place, null if there is none. -/
theorem alike_argument {args args' : List Value} (alike : Values.Alike L args args') (i : Nat) :
    Value.Alike L (args[i]?.getD .null) (args'[i]?.getD .null) := by
  rcases related_cases (related_getElem? alike i) with ⟨left, right⟩ | ⟨_, _, left, right, value⟩
  · rw [left, right]
    exact .of _
  · rw [left, right]
    exact value

theorem agree_callNative (native : Native) {args args' : List Value}
    (alike : Values.Alike L args args') (place : L.place paren paren') :
    Agree L (Value.Alike L) (callNative native args paren) (callNative native args' paren') m m' := by
  have first := alike_argument alike 0
  have null {m m' : Machine} : Agree L (Value.Alike L) (pure .null) (pure .null) m m' :=
    agree_pure (.of _)
  cases native with
  | clock =>
    apply agree_bind agree_readClock
    rintro time _ _ _ rfl
    exact agree_pure (.of _)
  | print => exact agree_text first fun _ => agree_bind (agree_write _ place) fun _ _ _ _ _ => null
  | add list =>
    apply agree_bind (agree_modifyItems list ?_) fun _ _ _ _ _ => null
    intro items items' same
    simpa using List.rel_append same (.cons first .nil)
  | addRange list =>
    unfold callNative
    dsimp only
    rw [← first.payload]
    split
    · apply agree_heap
      intro heap
      apply agree_bind (agree_modifyItems list ?_) fun _ _ _ _ _ => null
      intro items items' same
      simpa using List.rel_append same (heap.items _)
    · exact agree_fail _ place
  | insert list =>
    exact agree_bind (agree_insertItem list first (alike_argument alike 1) place)
      fun _ _ _ _ _ => null
  | remove list =>
    apply agree_bind (agree_modifyItems list ?_) fun _ _ _ _ _ => null
    rintro ⟨items⟩ ⟨items'⟩ same
    simp only [List.eraseP_toArray]
    exact related_eraseP same fun _ _ value => value.same first

end SoftScript.Run
