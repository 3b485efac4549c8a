import SoftScript.Eval.Machine
import SoftScript.Proofs.Likeness.Tree

/-! Machines that are alike. Their heaps have the same cells in the same places, with the same
payloads in them; the functions declared in them and the names of their values are alike. Such
heaps cannot be told apart by looking up a name, reading a cell or writing out a value. -/
namespace SoftScript

/-! Lists with related members. -/

section Related

variable {α β : Type} {R : α → β → Prop} {l : List α} {l' : List β}

theorem related_getElem? (h : List.Forall₂ R l l') (i : Nat) : Option.Rel R l[i]? l'[i]? := by
  induction h generalizing i with
  | nil => exact .none
  | cons first _ ih =>
    cases i with
    | zero => exact .some first
    | succ i => exact ih i

theorem related_modify {f : α → α} {g : β → β} (h : List.Forall₂ R l l')
    (change : ∀ a b, R a b → R (f a) (g b)) (i : Nat) :
    List.Forall₂ R (l.modify i f) (l'.modify i g) := by
  induction h generalizing i with
  | nil => cases i <;> exact .nil
  | cons first rest ih =>
    cases i with
    | zero => exact .cons (change _ _ first) rest
    | succ i => exact .cons first (ih i)

theorem related_insertIdx {a : α} {b : β} (h : List.Forall₂ R l l') (new : R a b) (i : Nat) :
    List.Forall₂ R (l.insertIdx i a) (l'.insertIdx i b) := by
  induction h generalizing i with
  | nil =>
    cases i with
    | zero => exact .cons new .nil
    | succ i => exact .nil
  | cons first rest ih =>
    cases i with
    | zero => exact .cons new (.cons first rest)
    | succ i => exact .cons first (ih i)

theorem related_any {p : α → Bool} {q : β → Bool} (h : List.Forall₂ R l l')
    (same : ∀ a b, R a b → p a = q b) : l.any p = l'.any q := by
  induction h with
  | nil => rfl
  | cons first _ ih => simp [same _ _ first, ih]

theorem related_eraseP {p : α → Bool} {q : β → Bool} (h : List.Forall₂ R l l')
    (same : ∀ a b, R a b → p a = q b) : List.Forall₂ R (l.eraseP p) (l'.eraseP q) := by
  induction h with
  | nil => exact .nil
  | @cons a b _ _ first rest ih =>
    rw [List.eraseP_cons, List.eraseP_cons, same a b first]
    cases q b with
    | true => exact rest
    | false => exact .cons first ih

theorem related_map {γ : Type} {f : α → γ} {g : β → γ} (h : List.Forall₂ R l l')
    (same : ∀ a b, R a b → f a = g b) : l.map f = l'.map g := by
  induction h with
  | nil => rfl
  | cons first _ ih => simp [same _ _ first, ih]

theorem related_of_map {γ : Type} {f : α → γ} {g : β → γ} (same : l.map f = l'.map g)
    (told : ∀ a ∈ l, ∀ b ∈ l', f a = g b → R a b) : List.Forall₂ R l l' := by
  induction l generalizing l' with
  | nil =>
    rw [List.map_nil, eq_comm, List.map_eq_nil_iff] at same
    rw [same]
    exact .nil
  | cons a rest ih =>
    obtain ⟨b, rest', rfl, first, later⟩ := List.map_eq_cons_iff.mp same.symm
    simp only [List.mem_cons, forall_eq_or_imp] at told
    exact .cons (told.1.1 first.symm) (ih later.symm fun a member => (told.2 a member).2)

/-- Where the members that are related to a member are told by a function, a list is related to one
list only. -/
theorem eq_map_of_related {f : α → β} (h : List.Forall₂ R l l') (only : ∀ a b, R a b → b = f a) :
    l' = l.map f := by
  have same := related_map (f := f) (g := id) h fun a b related => (only a b related).symm
  rw [same, List.map_id]

theorem eq_of_related {R : α → α → Prop} {l l' : List α} (h : List.Forall₂ R l l')
    (only : ∀ a b, R a b → b = a) : l' = l := by
  simpa using eq_map_of_related h only

theorem related_cases {o : Option α} {o' : Option β} (h : Option.Rel R o o') :
    (o = none ∧ o' = none) ∨ ∃ a b, o = some a ∧ o' = some b ∧ R a b := by
  cases h with
  | none => exact .inl ⟨rfl, rfl⟩
  | some related => exact .inr ⟨_, _, rfl, rfl, related⟩

end Related

variable {L : Likeness}

/-- Equal payloads whose names are alike. -/
structure Value.Alike (L : Likeness) (v v' : Value) : Prop where
  payload : v.payload = v'.payload
  name : Option.Rel L.name v.name v'.name

abbrev Values.Alike (L : Likeness) (vs vs' : List Value) : Prop :=
  List.Forall₂ (Value.Alike L) vs vs'

/-- The same names, bound to values that are alike. -/
abbrev Bindings.Alike (L : Likeness) (b b' : Bindings) : Prop :=
  List.Forall₂ (fun slot slot' => slot.1 = slot'.1 ∧ Value.Alike L slot.2 slot'.2) b b'

structure Frame.Alike (L : Likeness) (frame frame' : Frame) : Prop where
  bindings : Bindings.Alike L frame.bindings frame'.bindings
  enclosing : frame.enclosing = frame'.enclosing

structure FunctionDecl.Alike (L : Likeness) (f f' : FunctionDecl) : Prop where
  name : L.name f.name f'.name
  params : List.Forall₂ L.name f.params f'.params
  body : Stmt.AllAlike L f.body f'.body

inductive Callable.Alike (L : Likeness) : Callable → Callable → Prop
  | user {closure : FrameId} : declaration.Alike L declaration' →
    Callable.Alike L (.user declaration closure) (.user declaration' closure)
  | builtin : Callable.Alike L (.builtin native) (.builtin native)

structure Heap.Alike (L : Likeness) (h h' : Heap) : Prop where
  frames : List.Forall₂ (Frame.Alike L) h.frames.toList h'.frames.toList
  functions : List.Forall₂ (Callable.Alike L) h.functions.toList h'.functions.toList
  lists : List.Forall₂ (fun items items' => Values.Alike L items.toList items'.toList)
    h.lists.toList h'.lists.toList
  objects : List.Forall₂ (Bindings.Alike L) h.objects.toList h'.objects.toList

structure Machine.Alike (L : Likeness) (m m' : Machine) : Prop where
  heap : m.heap.Alike L m'.heap
  globals : m.globals = m'.globals
  scope : m.scope = m'.scope
  depth : m.depth = m'.depth
  output : m.output = m'.output
  clock : m.clock = m'.clock
  readings : m.readings = m'.readings

namespace Value.Alike

variable {v v' w w' : Value}

theorem of (payload : Payload) : Value.Alike L (.of payload) (.of payload) := ⟨rfl, .none⟩

theorem named (h : v.Alike L v') (name : L.name t t') : (v.named t).Alike L (v'.named t') :=
  ⟨h.payload, .some name⟩

theorem same (h : v.Alike L v') (h' : w.Alike L w') : v.same w = v'.same w' := by
  rw [Value.same, Value.same, h.payload, h'.payload]

theorem owner (h : v.Alike L v') : v.owner = v'.owner := by
  obtain ⟨payload, name⟩ := v
  obtain ⟨payload', name'⟩ := v'
  obtain ⟨rfl, name⟩ := h
  cases name with
  | none => rfl
  | some name => simp [Value.owner, name.2]

theorem swap (h : v.Alike L v') : v'.Alike L.swap v := by
  obtain ⟨payload, name⟩ := v
  obtain ⟨payload', name'⟩ := v'
  obtain ⟨rfl, name⟩ := h
  cases name with
  | none => exact ⟨rfl, .none⟩
  | some name => exact ⟨rfl, .some (Likeness.name_swap name)⟩

theorem refl (places : ∀ t, L.place t t) (v : Value) : v.Alike L v := by
  obtain ⟨payload, _ | name⟩ := v
  · exact ⟨rfl, .none⟩
  · exact ⟨rfl, .some ⟨places name, rfl⟩⟩

end Value.Alike

namespace Bindings.Alike

variable {b b' : Bindings} {v v' : Value}

theorem get? (h : Bindings.Alike L b b') (name : String) :
    Option.Rel (Value.Alike L) (b.get? name) (b'.get? name) := by
  induction h with
  | nil => exact .none
  | cons first _ ih =>
    obtain ⟨key, value⟩ := first
    rw [Bindings.get?, Bindings.get?, key]
    split
    · exact .some value
    · exact ih

theorem contains (h : Bindings.Alike L b b') (name : String) :
    b.contains name = b'.contains name := by
  rw [Bindings.contains, Bindings.contains]
  rcases related_cases (h.get? name) with ⟨left, right⟩ | ⟨v, v', left, right, _⟩
  · rw [left, right]
  · rw [left, right]
    rfl

theorem insert (h : Bindings.Alike L b b') (name : String) (value : v.Alike L v') :
    Bindings.Alike L (b.insert name v) (b'.insert name v') := by
  induction h with
  | nil => exact .cons ⟨rfl, value⟩ .nil
  | cons first rest ih =>
    rw [Bindings.insert, Bindings.insert, first.1]
    split
    · exact .cons ⟨rfl, value⟩ (.cons ⟨rfl, first.2⟩ rest)
    · split
      · exact .cons ⟨rfl, value⟩ rest
      · exact .cons ⟨rfl, first.2⟩ ih

theorem modify {f g : Value → Value} (h : Bindings.Alike L b b') (name : String)
    (change : ∀ v v', v.Alike L v' → (f v).Alike L (g v')) :
    Bindings.Alike L (b.modify name f) (b'.modify name g) := by
  induction h with
  | nil => exact .nil
  | cons first rest ih =>
    rw [Bindings.modify, Bindings.modify, first.1]
    split
    · exact .cons ⟨rfl, change _ _ first.2⟩ rest
    · exact .cons ⟨rfl, first.2⟩ ih

theorem values (h : Bindings.Alike L b b') :
    Values.Alike L (b.map Prod.snd) (b'.map Prod.snd) :=
  List.forall₂_map_left_iff.mpr (List.forall₂_map_right_iff.mpr (h.imp fun _ _ => And.right))

end Bindings.Alike

namespace Callable.Alike

variable {c c' : Callable}

theorem arity (h : c.Alike L c') : c.arity = c'.arity := by
  cases h with
  | user declaration => exact declaration.params.length_eq
  | builtin => rfl

theorem text (h : c.Alike L c') : c.text = c'.text := by
  cases h with
  | user declaration => rw [Callable.text, Callable.text, declaration.name.2]
  | builtin => rfl

end Callable.Alike

namespace Heap.Alike

variable {h h' : Heap} {v v' : Value}

theorem frame? (alike : h.Alike L h') (id : FrameId) :
    Option.Rel (Frame.Alike L) h.frames[id]? h'.frames[id]? := by
  simpa using related_getElem? alike.frames id

theorem function? (alike : h.Alike L h') (id : FunctionId) :
    Option.Rel (Callable.Alike L) h.functions[id]? h'.functions[id]? := by
  simpa using related_getElem? alike.functions id

theorem bindings (alike : h.Alike L h') (id : FrameId) :
    Bindings.Alike L (h.bindings id) (h'.bindings id) := by
  unfold Heap.bindings
  rcases related_cases (alike.frame? id) with ⟨left, right⟩ | ⟨frame, frame', left, right, related⟩
  · rw [left, right]
    exact .nil
  · rw [left, right]
    exact related.bindings

theorem items (alike : h.Alike L h') (id : ListId) :
    Values.Alike L (h.items id).toList (h'.items id).toList := by
  have found := related_getElem? alike.lists id
  simp only [Array.getElem?_toList] at found
  unfold Heap.items
  rcases related_cases found with ⟨left, right⟩ | ⟨items, items', left, right, related⟩
  · rw [left, right]
    exact .nil
  · rw [left, right]
    exact related

theorem members (alike : h.Alike L h') (id : ObjectId) :
    Bindings.Alike L (h.members id) (h'.members id) := by
  have found := related_getElem? alike.objects id
  simp only [Array.getElem?_toList] at found
  unfold Heap.members
  rcases related_cases found with ⟨left, right⟩ | ⟨members, members', left, right, related⟩
  · rw [left, right]
    exact .nil
  · rw [left, right]
    exact related

theorem frames_size (alike : h.Alike L h') : h.frames.size = h'.frames.size := by
  simpa using alike.frames.length_eq

theorem functions_size (alike : h.Alike L h') : h.functions.size = h'.functions.size := by
  simpa using alike.functions.length_eq

theorem lists_size (alike : h.Alike L h') : h.lists.size = h'.lists.size := by
  simpa using alike.lists.length_eq

theorem objects_size (alike : h.Alike L h') : h.objects.size = h'.objects.size := by
  simpa using alike.objects.length_eq

/-! Looking up names and writing out values. -/

theorem holderWithin (alike : h.Alike L h') (name : String) (n : Nat) (id : FrameId) :
    h.holderWithin name n id = h'.holderWithin name n id := by
  induction n generalizing id with
  | zero => rfl
  | succ n ih =>
    rw [Heap.holderWithin, Heap.holderWithin]
    rcases related_cases (alike.frame? id) with
      ⟨left, right⟩ | ⟨frame, frame', left, right, related⟩
    · rw [left, right]
    · simp only [left, right, related.bindings.contains name, related.enclosing]
      split
      · rfl
      · split
        · exact ih _
        · rfl

theorem holder? (alike : h.Alike L h') (id : FrameId) (name : String) :
    h.holder? id name = h'.holder? id name := by
  rw [Heap.holder?, Heap.holder?, alike.frames_size, alike.holderWithin]

theorem lookup? (alike : h.Alike L h') (id : FrameId) (name : String) :
    Option.Rel (Value.Alike L) (h.lookup? id name) (h'.lookup? id name) := by
  rw [Heap.lookup?, Heap.lookup?, alike.holder?]
  cases h'.holder? id name with
  | none => exact .none
  | some holder => exact (alike.bindings holder).get? name

theorem functionText (alike : h.Alike L h') (id : FunctionId) :
    h.functionText id = h'.functionText id := by
  unfold Heap.functionText
  rcases related_cases (alike.function? id) with ⟨left, right⟩ | ⟨c, c', left, right, related⟩
  · rw [left, right]
  · rw [left, right]
    exact related.text

theorem textWithin (alike : h.Alike L h') (n : Nat) (writing : List Container)
    (payload : Payload) : h.textWithin n writing payload = h'.textWithin n writing payload := by
  induction n generalizing writing payload with
  | zero => cases payload <;> simp [Heap.textWithin, alike.functionText]
  | succ n ih =>
    cases payload with
    | int | bool | string | null => rfl
    | function id => exact alike.functionText id
    | list id =>
      simp only [Heap.textWithin]
      rw [related_map (alike.items id) fun v v' same => by rw [same.payload, ih]]
    | object id =>
      simp only [Heap.textWithin]
      rw [related_map (alike.members id) fun slot slot' same => by
        rw [same.1, same.2.payload, ih]]

theorem text (alike : h.Alike L h') (payload : Payload) : h.text payload = h'.text payload := by
  rw [Heap.text, Heap.text, alike.lists_size, alike.objects_size, alike.textWithin]

/-! Adding and changing cells. -/

theorem newFrame {frame frame' : Frame} (alike : h.Alike L h') (new : frame.Alike L frame') :
    (h.newFrame frame).2.Alike L (h'.newFrame frame').2 where
  frames := by
    simpa [Heap.newFrame] using List.rel_append alike.frames (.cons new .nil)
  functions := alike.functions
  lists := alike.lists
  objects := alike.objects

theorem newFunction {c c' : Callable} (alike : h.Alike L h') (new : c.Alike L c') :
    (h.newFunction c).2.Alike L (h'.newFunction c').2 where
  frames := alike.frames
  functions := by
    simpa [Heap.newFunction] using List.rel_append alike.functions (.cons new .nil)
  lists := alike.lists
  objects := alike.objects

theorem newList {items items' : Array Value} (alike : h.Alike L h')
    (new : Values.Alike L items.toList items'.toList) :
    (h.newList items).2.Alike L (h'.newList items').2 where
  frames := alike.frames
  functions := alike.functions
  lists := by
    simpa [Heap.newList] using List.rel_append alike.lists (.cons new .nil)
  objects := alike.objects

theorem newObject {members members' : Bindings} (alike : h.Alike L h')
    (new : Bindings.Alike L members members') :
    (h.newObject members).2.Alike L (h'.newObject members').2 where
  frames := alike.frames
  functions := alike.functions
  lists := alike.lists
  objects := by
    simpa [Heap.newObject] using List.rel_append alike.objects (.cons new .nil)

theorem modifyBindings {f g : Bindings → Bindings} (alike : h.Alike L h') (id : FrameId)
    (change : ∀ b b', Bindings.Alike L b b' → Bindings.Alike L (f b) (g b')) :
    (h.modifyBindings id f).Alike L (h'.modifyBindings id g) where
  frames := by
    simp only [Heap.modifyBindings, Array.toList_modify]
    apply related_modify alike.frames
    intro frame frame' related
    exact ⟨change _ _ related.bindings, related.enclosing⟩
  functions := alike.functions
  lists := alike.lists
  objects := alike.objects

theorem modifyItems {f g : Array Value → Array Value} (alike : h.Alike L h') (id : ListId)
    (change : ∀ items items', Values.Alike L items.toList items'.toList →
      Values.Alike L (f items).toList (g items').toList) :
    (h.modifyItems id f).Alike L (h'.modifyItems id g) where
  frames := alike.frames
  functions := alike.functions
  lists := by
    simp only [Heap.modifyItems, Array.toList_modify]
    exact related_modify alike.lists change id
  objects := alike.objects

theorem modifyMembers {f g : Bindings → Bindings} (alike : h.Alike L h') (id : ObjectId)
    (change : ∀ b b', Bindings.Alike L b b' → Bindings.Alike L (f b) (g b')) :
    (h.modifyMembers id f).Alike L (h'.modifyMembers id g) where
  frames := alike.frames
  functions := alike.functions
  lists := alike.lists
  objects := by
    simp only [Heap.modifyMembers, Array.toList_modify]
    exact related_modify alike.objects change id

theorem bind (alike : h.Alike L h') (id : FrameId) (name : String) (value : v.Alike L v') :
    (h.bind id name v).Alike L (h'.bind id name v') :=
  alike.modifyBindings id fun _ _ bindings => bindings.insert name value

theorem rebind (alike : h.Alike L h') (id : FrameId) (name : String) (payload : Payload) :
    (h.rebind id name payload).Alike L (h'.rebind id name payload) :=
  alike.modifyBindings id fun _ _ bindings =>
    bindings.modify name fun _ _ slot => ⟨rfl, slot.name⟩

end Heap.Alike

/-! From the other side, and to itself. -/

theorem Values.Alike.swap (h : Values.Alike L vs vs') : Values.Alike L.swap vs' vs :=
  h.flip.imp fun _ _ => Value.Alike.swap

theorem Bindings.Alike.swap (h : Bindings.Alike L b b') : Bindings.Alike L.swap b' b :=
  h.flip.imp fun _ _ slot => ⟨slot.1.symm, slot.2.swap⟩

theorem FunctionDecl.Alike.swap {f f' : FunctionDecl} (h : f.Alike L f') : f'.Alike L.swap f :=
  ⟨Likeness.name_swap h.name, h.params.flip.imp fun _ _ => Likeness.name_swap, h.body.swap⟩

theorem Callable.Alike.swap {c c' : Callable} (h : c.Alike L c') : c'.Alike L.swap c := by
  cases h with
  | user declaration => exact .user declaration.swap
  | builtin => exact .builtin

theorem Heap.Alike.swap {h h' : Heap} (alike : h.Alike L h') : h'.Alike L.swap h where
  frames := alike.frames.flip.imp fun _ _ frame => ⟨frame.bindings.swap, frame.enclosing.symm⟩
  functions := alike.functions.flip.imp fun _ _ => Callable.Alike.swap
  lists := alike.lists.flip.imp fun _ _ => Values.Alike.swap
  objects := alike.objects.flip.imp fun _ _ => Bindings.Alike.swap

theorem Machine.Alike.swap {m m' : Machine} (h : m.Alike L m') : m'.Alike L.swap m where
  heap := h.heap.swap
  globals := h.globals.symm
  scope := h.scope.symm
  depth := h.depth.symm
  output := h.output.symm
  clock := h.clock.symm
  readings := h.readings.symm

theorem Values.alike_refl (places : ∀ t, L.place t t) (vs : List Value) : Values.Alike L vs vs :=
  List.forall₂_same.mpr fun v _ => .refl places v

theorem Bindings.alike_refl (places : ∀ t, L.place t t) (b : Bindings) : Bindings.Alike L b b :=
  List.forall₂_same.mpr fun slot _ => ⟨rfl, .refl places slot.2⟩

/-- A machine is alike to itself with other functions that are alike. -/
theorem Machine.alike_functions (places : ∀ t, L.place t t) {m : Machine}
    {functions : Array Callable}
    (alike : List.Forall₂ (Callable.Alike L) m.heap.functions.toList functions.toList) :
    m.Alike L { m with heap.functions := functions } where
  heap :=
    { frames := List.forall₂_same.mpr fun frame _ => ⟨Bindings.alike_refl places frame.bindings, rfl⟩
      functions := alike
      lists := List.forall₂_same.mpr fun items _ => Values.alike_refl places items.toList
      objects := List.forall₂_same.mpr fun members _ => Bindings.alike_refl places members }
  globals := rfl
  scope := rfl
  depth := rfl
  output := rfl
  clock := rfl
  readings := rfl

theorem Machine.alike_refl (self : L.Reflexive) (m : Machine) : m.Alike L m := by
  apply Machine.alike_functions self.place
  apply List.forall₂_same.mpr
  intro c _
  cases c with
  | user declaration _ =>
    exact .user ⟨self.name _, self.names _, Stmt.allAlike_refl self declaration.body⟩
  | builtin => exact .builtin

end SoftScript
