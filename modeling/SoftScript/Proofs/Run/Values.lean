import SoftScript.Proofs.Run.Within

/-! Operations on values stay within any region that holds the values: what is read from a list or
an object of the region refers into it, and so does what is made of such parts. -/
namespace SoftScript.Run

variable {S : Cell → Prop} {m : Machine}

theorem holds_list {v : Value} {id : ListId} (held : v.Held S m.heap)
    (isList : v.payload = .list id) : m.heap.Holds S (.list id) :=
  held (.list id) (by simp [Value.cell?, isList])

theorem holds_object {v : Value} {id : ObjectId} (held : v.Held S m.heap)
    (isObject : v.payload = .object id) : m.heap.Holds S (.object id) :=
  held (.object id) (by simp [Value.cell?, isObject])

theorem yields_undefinedMember (v : Value) (member : Token) : Yields S (undefinedMember v member) m :=
  within_fail _ _

/-- A list method refers to its list. -/
theorem cell?_listMethod? {id : ListId} {method : Native}
    (found : Native.listMethod? id name = some method) :
    (Callable.builtin method).cell? = some (.list id) := by
  have listed := List.mem_of_find?_eq_some found
  simp only [List.mem_cons, List.not_mem_nil, or_false] at listed
  rcases listed with rfl | rfl | rfl | rfl <;> rfl

theorem yields_dotAccess {v : Value} (held : v.Held S m.heap) (dot member : Token) :
    Yields S (dotAccess v dot member) m := by
  unfold dotAccess
  split
  · split
    · exact within_pure (Value.held_int _)
    · exact yields_undefinedMember v member
  · rename_i id isList
    split
    · exact within_heap (within_pure (Value.held_int _))
    · split
      · rename_i method found
        apply yields_newFunction
        intro c refers
        rw [cell?_listMethod? found] at refers
        cases refers
        exact holds_list held isList
      · exact yields_undefinedMember v member
  · rename_i id isObject
    apply within_of_confined
    intro confined
    apply within_heap
    split
    · rename_i value found
      exact within_pure ((confined.members (holds_object held isObject).inside).get? found)
    · exact yields_undefinedMember v member
  · exact within_fail _ _

theorem yields_itemAt {items : Array Value} (held : ∀ item ∈ items, item.Held S m.heap)
    (v : Value) (bracket : Token) (index : Value) : Yields S (itemAt v bracket index items) m := by
  unfold itemAt
  split
  · exact within_text _ fun _ => within_fail _ _
  · split
    · rename_i position _ item found
      obtain ⟨i, _, there⟩ := Option.bind_eq_some_iff.mp found
      exact within_pure (held item (Array.mem_of_getElem? there))
    · exact within_fail _ _

theorem yields_indexAccess {v : Value} (held : v.Held S m.heap) (bracket : Token) (index : Value) :
    Yields S (indexAccess v bracket index) m := by
  apply within_of_confined
  intro confined
  unfold indexAccess
  split
  · rename_i id isList
    apply within_heap
    exact yields_itemAt (confined.items (holds_list held isList).inside) v bracket index
  · rename_i id isObject
    apply within_heap
    apply yields_itemAt
    intro item member
    have members := confined.members (holds_object held isObject).inside
    simp only [List.mem_toArray, List.mem_map] at member
    obtain ⟨entry, there, rfl⟩ := member
    exact members entry there
  · exact within_fail _ _

theorem stays_assignMember {v value : Value} (held : v.Held S m.heap) (heldValue : value.Held S m.heap)
    (dot member : Token) : Stays S (assignMember v dot member value) m := by
  apply within_of_confined
  intro confined
  unfold assignMember
  split
  · rename_i id isObject
    have here := holds_object held isObject
    apply within_heap
    split
    · exact stays_modifyMembers here ((confined.members here.inside).modify (fun _ => heldValue) _)
    · apply Within.bind (yields_undefinedMember v member)
      intro _ _ _ _
      exact within_pure trivial
  · exact within_fail _ _

/-! Operators. -/

theorem yields_checked (op : Token) (result : Option Integer) : Yields S (checked op result) m := by
  cases result with
  | none => exact within_fail _ _
  | some value => exact within_pure (Value.held_int _)

theorem yields_arithmetic (op : Token) (left right : Value) :
    Yields S (arithmetic op left right) m := by
  unfold arithmetic
  split
  · exact within_fail _ _
  · exact within_fail _ _
  · split
    · exact yields_checked _ _
    · exact yields_checked _ _
    · split
      · exact within_fail _ _
      · exact yields_checked _ _
    · split
      · exact within_fail _ _
      · exact yields_checked _ _
    · exact within_pure (Value.held_bool _)
    · exact within_pure (Value.held_bool _)
    · exact within_pure (Value.held_bool _)
    · exact within_pure (Value.held_bool _)
    · exact within_fail _ _

theorem payload_of_asList? {v : Value} {id : ListId} (isList : v.payload.asList? = some id) :
    v.payload = .list id := by
  cases payload : v.payload <;> simp_all [Payload.asList?]

theorem within_itemsOf {v : Value} (held : v.Held S m.heap) :
    Within S (itemsOf v) m fun items h => ∀ item ∈ items, item.Held S h := by
  apply within_of_confined
  intro confined
  unfold itemsOf
  split
  · rename_i id isList
    have here := holds_list held (payload_of_asList? isList)
    exact within_heap (within_pure (confined.items here.inside))
  · exact within_pure (by simpa using held)

/-- The items of two values together. -/
theorem within_itemsOf_both {left right : Value} {f : Array Value → Array Value → Run Value}
    (hl : left.Held S m.heap) (hr : right.Held S m.heap)
    (later : ∀ a b m', (∀ item ∈ a, item.Held S m'.heap) → (∀ item ∈ b, item.Held S m'.heap) →
      Yields S (f a b) m') :
    Yields S (do f (← itemsOf left) (← itemsOf right)) m := by
  apply (within_itemsOf hl).bind
  intro a m₁ onward heldA
  apply (within_itemsOf (hr.mono onward.heap)).bind
  intro b m₂ onward' heldB
  exact later a b m₂ (fun item member => (heldA item member).mono onward'.heap) heldB

theorem yields_plus {left right : Value} (hl : left.Held S m.heap) (hr : right.Held S m.heap)
    (op : Token) : Yields S (plus op left right) m := by
  have joined : Yields S (do newList ((← itemsOf left) ++ (← itemsOf right))) m := by
    apply within_itemsOf_both hl hr
    intro a b m' heldA heldB
    apply yields_newList
    intro item member
    rcases Array.mem_append.mp member with first | second
    · exact heldA item first
    · exact heldB item second
  unfold plus
  split
  · exact yields_checked _ _
  · exact within_text _ fun _ => within_text _ fun _ => within_pure (Value.held_string _)
  · exact within_text _ fun _ => within_text _ fun _ => within_pure (Value.held_string _)
  · exact joined
  · exact joined
  · exact within_fail _ _

theorem mem_of_mem_distinct {items : Array Value} {item : Value} (member : item ∈ distinct items) :
    item ∈ items := by
  unfold distinct at member
  rw [← Array.foldl_toList] at member
  -- what is kept so far comes from the part of the items already seen
  have seen (rest : List Value) (kept : Array Value) :
      item ∈ rest.foldl (fun kept item =>
        if kept.any (·.same item) then kept else kept.push item) kept → item ∈ kept ∨ item ∈ rest := by
    induction rest generalizing kept with
    | nil =>
      intro member
      exact .inl member
    | cons first rest ih =>
      intro member
      rw [List.foldl_cons] at member
      rcases ih _ member with early | late
      · split at early
        · exact .inl early
        · rcases Array.mem_push.mp early with early | rfl
          · exact .inl early
          · exact .inr List.mem_cons_self
      · exact .inr (List.mem_cons_of_mem _ late)
  rcases seen items.toList #[] member with early | late
  · simp at early
  · simpa using late

theorem held_listFirst? {left right list other : Value} {h : Heap} (hl : left.Held S h)
    (hr : right.Held S h) (found : listFirst? left right = some (list, other)) :
    list.Held S h ∧ other.Held S h := by
  unfold listFirst? at found
  split at found <;> cases found
  · exact ⟨hl, hr⟩
  · exact ⟨hr, hl⟩

theorem yields_either {left right : Value} (hl : left.Held S m.heap) (hr : right.Held S m.heap) :
    Yields S (either left right) m := by
  unfold either
  split
  · rename_i list other found
    obtain ⟨heldList, heldOther⟩ := held_listFirst? hl hr found
    apply within_itemsOf_both heldList heldOther
    intro a b m' heldA heldB
    apply yields_newList
    intro item member
    rcases Array.mem_append.mp (mem_of_mem_distinct member) with first | second
    · exact heldA item first
    · exact heldB item second
  · exact within_pure (Value.held_bool _)

theorem yields_both {left right : Value} (hl : left.Held S m.heap) (hr : right.Held S m.heap) :
    Yields S (both left right) m := by
  unfold both
  split
  · rename_i list other found
    obtain ⟨heldList, heldOther⟩ := held_listFirst? hl hr found
    apply within_itemsOf_both heldOther heldList
    intro excluded a m' _ heldA
    apply yields_newList
    intro item member
    exact heldA item (Array.mem_filter.mp member).1
  · exact within_pure (Value.held_bool _)

theorem yields_binary {left right : Value} (hl : left.Held S m.heap) (hr : right.Held S m.heap)
    (op : Token) : Yields S (binary op left right) m := by
  unfold binary
  split
  · exact within_pure (Value.held_bool _)
  · exact within_pure (Value.held_bool _)
  · exact yields_plus hl hr op
  · exact yields_either hl hr
  · exact yields_both hl hr
  all_goals first | exact yields_arithmetic op left right | exact within_fail _ _

theorem yields_unary (op : Token) (operand : Value) : Yields S (unary op operand) m := by
  unfold unary
  split
  · exact within_pure (Value.held_bool _)
  · split
    · exact yields_checked _ _
    · exact within_fail _ _
  · exact within_fail _ _

/-! Built-in functions. A list method writes the list it was taken from. -/

theorem stays_insertItem {id : ListId} {value : Value} (here : m.heap.Holds S (.list id))
    (held : value.Held S m.heap) (index : Value) (paren : Token) :
    Stays S (insertItem id index value paren) m := by
  apply within_of_confined
  intro confined
  unfold insertItem
  split
  · exact within_text _ fun _ => within_fail _ _
  · apply within_heap
    dsimp only
    split
    · rename_i place _
      apply stays_modifyItems here
      intro item member
      unfold Array.insertIdxIfInBounds at member
      split at member
      · rcases Array.mem_insertIdx.mp member with rfl | old
        · exact held
        · exact confined.items here.inside item old
      · exact confined.items here.inside item member
    · exact within_fail _ _

theorem yields_callNative {native : Native} {args : List Value}
    (held : ∀ c, (Callable.builtin native).cell? = some c → m.heap.Holds S c)
    (heldArgs : ∀ v ∈ args, v.Held S m.heap) (paren : Token) :
    Yields S (callNative native args paren) m := by
  have argument (place : Nat) : (args[place]?.getD Value.null).Held S m.heap := by
    cases found : args[place]? with
    | none => simp
    | some v => simpa using heldArgs v (List.mem_of_getElem? found)
  have null {run : Run Unit} (stays : Stays S run m) : Yields S (do run; return .null) m := by
    apply Within.bind stays
    intro _ _ _ _
    exact within_pure Value.held_null
  apply within_of_confined
  intro confined
  cases native with
  | clock =>
    apply Within.bind stays_readClock
    intro _ _ _ _
    exact within_pure (Value.held_int _)
  | print => exact within_text _ fun _ => null (stays_write _ _)
  | add list =>
    have here := held (.list list) rfl
    apply null
    apply stays_modifyItems here
    intro item member
    rcases Array.mem_push.mp member with old | rfl
    · exact confined.items here.inside item old
    · exact argument 0
  | addRange list =>
    have here := held (.list list) rfl
    unfold callNative
    dsimp only
    split
    · rename_i other isList
      have there := holds_list (argument 0) (payload_of_asList? isList)
      apply within_heap
      apply null
      apply stays_modifyItems here
      intro item member
      rcases Array.mem_append.mp member with old | new
      · exact confined.items here.inside item old
      · exact confined.items there.inside item new
    · exact within_fail _ _
  | insert list => exact null (stays_insertItem (held (.list list) rfl) (argument 1) _ _)
  | remove list =>
    have here := held (.list list) rfl
    apply null
    apply stays_modifyItems here
    intro item member
    exact confined.items here.inside item (Array.mem_of_mem_eraseP member)

end SoftScript.Run
