import Mathlib.Data.List.Basic
import Mathlib.Logic.Embedding.Basic
import SoftScript.Proofs.Heap.Region
import SoftScript.Proofs.Heap.Written

/-! Heaps that differ in the places of their cells only. A renaming gives functions, lists and
objects other places, no two of them the same one; scopes stay where they are. What a program can
tell of a value, its text included, is the same in both heaps, and new cells keep them so. A heap
with cells added renames the one without them: the places after the old cells are moved past the
added ones. -/
namespace SoftScript

/-- The region of all cells. -/
abbrev Cell.Anywhere (_ : Cell) : Prop := True

structure Renaming where
  function : FunctionId ↪ FunctionId
  list : ListId ↪ ListId
  object : ObjectId ↪ ObjectId

section

variable (f : Renaming)

def Payload.renamed : Payload → Payload
  | .function id => .function (f.function id)
  | .list id => .list (f.list id)
  | .object id => .object (f.object id)
  | .int value => .int value
  | .bool value => .bool value
  | .string value => .string value
  | .null => .null

/-- A value keeps the name it was bound to. -/
def Value.renamed (v : Value) : Value := { v with payload := v.payload.renamed f }

def Bindings.renamed (b : Bindings) : Bindings := b.map fun (name, v) => (name, v.renamed f)

def Native.renamed : Native → Native
  | .clock => .clock
  | .print => .print
  | .add list => .add (f.list list)
  | .addRange list => .addRange (f.list list)
  | .insert list => .insert (f.list list)
  | .remove list => .remove (f.list list)

def Callable.renamed : Callable → Callable
  | .user declaration closure => .user declaration closure
  | .builtin native => .builtin (native.renamed f)

def Frame.renamed (frame : Frame) : Frame := { frame with bindings := frame.bindings.renamed f }

def Container.renamed : Container → Container
  | .list id => .list (f.list id)
  | .object id => .object (f.object id)

end

/-- A sequence that has, at other places, what another one has, renamed, and as many places free
after its end. -/
structure Relocated {α : Type} (place : Nat ↪ Nat) (rename : α → α) (xs ys : Array α) :
    Prop where
  there : ∀ i, ys[place i]? = xs[i]?.map rename
  free : ∀ k, place (xs.size + k) = ys.size + k
  size_le : xs.size ≤ ys.size

/-- Heaps that differ in the places of their cells only. -/
structure Heap.Renames (f : Renaming) (h h' : Heap) : Prop where
  frames : h'.frames = h.frames.map (·.renamed f)
  functions : Relocated f.function (·.renamed f) h.functions h'.functions
  lists : Relocated f.list (·.map (·.renamed f)) h.lists h'.lists
  objects : Relocated f.object (·.renamed f) h.objects h'.objects

variable {f : Renaming}

/-! What can be told of a value without the heap. -/

section

variable (f) (p q : Payload) (v w : Value)

theorem Payload.renamed_list (id : ListId) : (list id).renamed f = .list (f.list id) := rfl

theorem Payload.renamed_object (id : ObjectId) : (object id).renamed f = .object (f.object id) := rfl

theorem Payload.renamed_inj : p.renamed f = q.renamed f ↔ p = q := by
  cases p <;> cases q <;> simp [renamed]

@[simp] theorem Payload.kind_renamed : (p.renamed f).kind = p.kind := by cases p <;> rfl

@[simp] theorem Payload.isTruthy_renamed : (p.renamed f).isTruthy = p.isTruthy := by cases p <;> rfl

@[simp] theorem Payload.asInt?_renamed : (p.renamed f).asInt? = p.asInt? := by cases p <;> rfl

@[simp] theorem Payload.asList?_renamed : (p.renamed f).asList? = p.asList?.map f.list := by
  cases p <;> rfl

@[simp] theorem Value.payload_renamed : (v.renamed f).payload = v.payload.renamed f := rfl

@[simp] theorem Value.same_renamed : (v.renamed f).same (w.renamed f) = v.same w := by
  simp [same, Payload.renamed_inj]

@[simp] theorem Value.owner_renamed : (v.renamed f).owner = v.owner := by
  simp only [owner, payload_renamed, Payload.kind_renamed]
  rfl

theorem Container.renamed_list (id : ListId) : (list id).renamed f = .list (f.list id) := rfl

theorem Container.renamed_object (id : ObjectId) : (object id).renamed f = .object (f.object id) :=
  rfl

theorem Container.renamed_injective : Function.Injective (Container.renamed f) := by
  intro c d same
  cases c <;> cases d <;> simp_all [renamed]

@[simp] theorem Callable.text_renamed (callable : Callable) :
    (callable.renamed f).text = callable.text := by
  cases callable <;> rfl

theorem Native.listMethod?_renamed (id : ListId) (name : String) :
    listMethod? (f.list id) name = (listMethod? id name).map (Native.renamed f) := by
  have called : (fun native : Native => decide ((native.renamed f).name = name)) =
      fun native => decide (native.name = name) := by
    funext native
    cases native <;> rfl
  have methods : [add (f.list id), addRange (f.list id), insert (f.list id), remove (f.list id)] =
      [add id, addRange id, insert id, remove id].map (Native.renamed f) := rfl
  rw [listMethod?, methods, List.find?_map, Function.comp_def, called, listMethod?]

end

namespace Bindings

theorem get?_renamed (b : Bindings) (name : String) :
    (b.renamed f).get? name = (b.get? name).map (·.renamed f) := by
  induction b with
  | nil => rfl
  | cons first rest ih =>
    simp only [renamed, List.map_cons, get?] at ih ⊢
    split
    · rfl
    · exact ih

theorem contains_renamed (b : Bindings) (name : String) :
    (b.renamed f).contains name = b.contains name := by
  simp [contains, get?_renamed]

theorem insert_renamed (b : Bindings) (name : String) (v : Value) :
    (b.insert name v).renamed f = (b.renamed f).insert name (v.renamed f) := by
  induction b with
  | nil => rfl
  | cons first rest ih =>
    simp only [renamed, List.map_cons, insert] at ih ⊢
    split
    · rfl
    · split
      · rfl
      · rw [List.map_cons, ih]

end Bindings

/-- A sequence that is added to at its end is so where it is renamed. -/
theorem Relocated.push {α : Type} {place : Nat ↪ Nat} {rename : α → α} {xs ys : Array α}
    (relocated : Relocated place rename xs ys) (x : α) :
    Relocated place rename (xs.push x) (ys.push (rename x)) where
  there i := by
    have last : place xs.size = ys.size := relocated.free 0
    by_cases isLast : i = xs.size
    · rw [isLast, last]
      simp
    · have apart : place i ≠ ys.size := by
        rw [← last]
        exact fun same => isLast (place.injective same)
      rw [Heap.getElem?_push_ne apart, Heap.getElem?_push_ne isLast, relocated.there]
  free k := by
    rw [Array.size_push, Array.size_push, Nat.add_assoc, relocated.free, Nat.add_assoc]
  size_le := by
    rw [Array.size_push, Array.size_push]
    exact Nat.succ_le_succ relocated.size_le

/-- Once all containers fit into the bound, it makes no difference to the text. -/
theorem Heap.Intact.textWithin_eq_text {h : Heap} (intact : h.Intact) {v : Value}
    (known : ∀ c, v.cell? = some c → h.Allocated c) {n : Nat}
    (enough : h.lists.size + h.objects.size ≤ n) : h.textWithin n [] v.payload = h.text v.payload := by
  have there (c : Container) (same : v.container? = some c) : h.Allocated c.cell :=
    known c.cell (Value.cell?_of_container? same)
  obtain ⟨strokes, written, shown⟩ := exists_writesOut intact n (unopened_nil ▸ enough) there
  obtain ⟨others, written', shown'⟩ :=
    exists_writesOut intact _ (Nat.le_of_eq unopened_nil) there
  rw [← shown, Heap.text, ← shown', (written'.unique written).1]

namespace Heap.Renames

variable {h h' : Heap}

/-! What the heap tells of a value. -/

theorem items (renames : h.Renames f h') (id : ListId) :
    h'.items (f.list id) = (h.items id).map (·.renamed f) := by
  rw [Heap.items, renames.lists.there, Heap.items]
  cases h.lists[id]? <;> simp

theorem members (renames : h.Renames f h') (id : ObjectId) :
    h'.members (f.object id) = (h.members id).renamed f := by
  rw [Heap.members, renames.objects.there, Heap.members]
  cases h.objects[id]? <;> rfl

theorem bindings (renames : h.Renames f h') (id : FrameId) :
    h'.bindings id = (h.bindings id).renamed f := by
  rw [Heap.bindings, renames.frames, Array.getElem?_map, Heap.bindings]
  cases h.frames[id]? <;> rfl

theorem functionText (renames : h.Renames f h') (id : FunctionId) :
    h'.functionText (f.function id) = h.functionText id := by
  rw [Heap.functionText, renames.functions.there, Heap.functionText]
  cases h.functions[id]? <;> simp

theorem holderWithin (renames : h.Renames f h') (name : String) (n : Nat) (id : FrameId) :
    h'.holderWithin name n id = h.holderWithin name n id := by
  induction n generalizing id with
  | zero => rfl
  | succ n ih =>
    simp only [Heap.holderWithin, renames.frames, Array.getElem?_map]
    cases h.frames[id]? with
    | none => rfl
    | some frame =>
      simp only [Option.map_some, Frame.renamed, Bindings.contains_renamed]
      cases frame.enclosing with
      | none => rfl
      | some outer => simp only [ih]

theorem lookup? (renames : h.Renames f h') (id : FrameId) (name : String) :
    h'.lookup? id name = (h.lookup? id name).map (·.renamed f) := by
  have holder : h'.holder? id name = h.holder? id name := by
    rw [Heap.holder?, renames.holderWithin, renames.frames, Array.size_map, Heap.holder?]
  rw [Heap.lookup?, holder, Heap.lookup?, Option.map_bind]
  congr 1
  funext place
  rw [Function.comp_apply, renames.bindings, Bindings.get?_renamed]

theorem contains_renamed (record : List Container) (c : Container) :
    (record.map (Container.renamed f)).contains (c.renamed f) = record.contains c := by
  rw [Bool.eq_iff_iff, List.contains_iff_mem, List.contains_iff_mem,
    List.mem_map_of_injective (Container.renamed_injective f)]

/-- By induction on the bound, which is the same in both heaps. -/
theorem textWithin (renames : h.Renames f h') (n : Nat) (record : List Container) (p : Payload) :
    h'.textWithin n (record.map (Container.renamed f)) (p.renamed f) = h.textWithin n record p := by
  induction n generalizing record p with
  | zero =>
    cases p with
    | function id => exact renames.functionText id
    | _ => rfl
  | succ n ih =>
    cases p with
    | function id => exact renames.functionText id
    | list id =>
      have each := ih (.list id :: record)
      rw [List.map_cons] at each
      rw [Payload.renamed_list, Heap.textWithin, Heap.textWithin, ← Container.renamed_list,
        contains_renamed, renames.items]
      simp only [Array.toList_map, List.map_map, Function.comp_def, Value.payload_renamed, each]
    | object id =>
      have each := ih (.object id :: record)
      rw [List.map_cons] at each
      rw [Payload.renamed_object, Heap.textWithin, Heap.textWithin, ← Container.renamed_object,
        contains_renamed, renames.members]
      simp only [Bindings.renamed, List.map_map, Function.comp_def, Value.payload_renamed, each]
    | int | bool | string | null => rfl

/-- The heap that is renamed may have fewer containers, so this takes that each is written the same
under any bound that is large enough. -/
theorem text (renames : h.Renames f h') (intact : h.Intact) {v : Value}
    (known : ∀ c, v.cell? = some c → h.Allocated c) :
    h'.text (v.payload.renamed f) = h.text v.payload := by
  have enough : h.lists.size + h.objects.size ≤ h'.lists.size + h'.objects.size :=
    Nat.add_le_add renames.lists.size_le renames.objects.size_le
  have same := renames.textWithin (h'.lists.size + h'.objects.size) [] v.payload
  rw [List.map_nil] at same
  rw [Heap.text, same, intact.textWithin_eq_text known enough]

/-! New cells. -/

theorem newFunction (renames : h.Renames f h') (callable : Callable) :
    (h.newFunction callable).2.Renames f (h'.newFunction (callable.renamed f)).2 ∧
      (h'.newFunction (callable.renamed f)).1 = (h.newFunction callable).1.renamed f := by
  refine ⟨{ renames with functions := renames.functions.push callable }, ?_⟩
  exact congrArg Payload.function (renames.functions.free 0).symm

theorem newList (renames : h.Renames f h') (items : Array Value) :
    (h.newList items).2.Renames f (h'.newList (items.map (·.renamed f))).2 ∧
      (h'.newList (items.map (·.renamed f))).1 = (h.newList items).1.renamed f := by
  refine ⟨{ renames with lists := renames.lists.push items }, ?_⟩
  exact congrArg Payload.list (renames.lists.free 0).symm

theorem newObject (renames : h.Renames f h') (members : Bindings) :
    (h.newObject members).2.Renames f (h'.newObject (members.renamed f)).2 ∧
      (h'.newObject (members.renamed f)).1 = (h.newObject members).1.renamed f := by
  refine ⟨{ renames with objects := renames.objects.push members }, ?_⟩
  exact congrArg Payload.object (renames.objects.free 0).symm

end Heap.Renames

/-! A heap to which cells are added. -/

structure Heap.Grows (h k : Heap) : Prop where
  frames : k.frames = h.frames
  functions : h.functions.toList <+: k.functions.toList
  lists : h.lists.toList <+: k.lists.toList
  objects : h.objects.toList <+: k.objects.toList

/-- Leaves the places before an end and moves those from it on. -/
def movedFrom (last distance : Nat) : Nat ↪ Nat where
  toFun i := if i < last then i else i + distance
  inj' i j same := by
    dsimp only at same
    split at same <;> split at same <;> omega

theorem movedFrom_of_lt {i last : Nat} (before : i < last) (distance : Nat) :
    movedFrom last distance i = i :=
  if_pos before

theorem movedFrom_of_le {i last : Nat} (after : last ≤ i) (distance : Nat) :
    movedFrom last distance i = i + distance :=
  if_neg (Nat.not_lt_of_le after)

/-- What a sequence had before something was added at its end stands where it stood. -/
theorem relocated_of_isPrefix {α : Type} {rename : α → α} {xs ys : Array α}
    (added : xs.toList <+: ys.toList) (fixed : ∀ x ∈ xs, rename x = x) :
    Relocated (movedFrom xs.size (ys.size - xs.size)) rename xs ys where
  there i := by
    obtain ⟨more, joined⟩ := added
    obtain rfl : ys = xs ++ more.toArray := Array.ext' (by simp [joined])
    by_cases before : i < xs.size
    · rw [movedFrom_of_lt before, Array.getElem?_append_left before, Array.getElem?_eq_getElem before,
        Option.map_some, fixed _ (Array.getElem_mem before)]
    · have beyond : (xs ++ more.toArray).size ≤ movedFrom xs.size
          ((xs ++ more.toArray).size - xs.size) i := by
        rw [movedFrom_of_le (Nat.le_of_not_lt before)]
        omega
      rw [Array.getElem?_eq_none beyond, Array.getElem?_eq_none (Nat.le_of_not_lt before),
        Option.map_none]
  free k := by
    have size_le : xs.size ≤ ys.size := added.length_le
    rw [movedFrom_of_le (Nat.le_add_right ..)]
    omega
  size_le := added.length_le

namespace Heap

variable {h k l : Heap}

theorem Grows.refl (h : Heap) : h.Grows h :=
  ⟨rfl, List.prefix_rfl, List.prefix_rfl, List.prefix_rfl⟩

theorem Grows.trans (first : h.Grows k) (second : k.Grows l) : h.Grows l where
  frames := second.frames.trans first.frames
  functions := first.functions.trans second.functions
  lists := first.lists.trans second.lists
  objects := first.objects.trans second.objects

theorem grows_newFunction (h : Heap) (callable : Callable) : h.Grows (h.newFunction callable).2 :=
  { Grows.refl h with functions := by simp [newFunction] }

theorem grows_newList (h : Heap) (items : Array Value) : h.Grows (h.newList items).2 :=
  { Grows.refl h with lists := by simp [newList] }

theorem grows_newObject (h : Heap) (members : Bindings) : h.Grows (h.newObject members).2 :=
  { Grows.refl h with objects := by simp [newObject] }

/-- Moves the places of new cells past what has been added. -/
def past (h k : Heap) : Renaming where
  function := movedFrom h.functions.size (k.functions.size - h.functions.size)
  list := movedFrom h.lists.size (k.lists.size - h.lists.size)
  object := movedFrom h.objects.size (k.objects.size - h.objects.size)

/-- All cells are a region of an intact heap. -/
theorem Intact.confined_anywhere (intact : h.Intact) : h.Confined Cell.Anywhere where
  closed := fun c content _ there d refers => ⟨trivial, intact c d ⟨content, there, refers⟩⟩
  fresh := fun _ _ => trivial

/-! Old cells keep their places, and so do references to them. -/

theorem past_function {id : FunctionId} (known : h.Allocated (.function id)) (k : Heap) :
    (h.past k).function id = id :=
  movedFrom_of_lt (by simpa [Allocated, cell?] using known) _

theorem past_list {id : ListId} (known : h.Allocated (.list id)) (k : Heap) :
    (h.past k).list id = id :=
  movedFrom_of_lt (by simpa [Allocated, cell?] using known) _

theorem past_object {id : ObjectId} (known : h.Allocated (.object id)) (k : Heap) :
    (h.past k).object id = id :=
  movedFrom_of_lt (by simpa [Allocated, cell?] using known) _

theorem value_past {S : Cell → Prop} {v : Value} (held : v.Held S h) (k : Heap) :
    v.renamed (h.past k) = v := by
  obtain ⟨payload, name⟩ := v
  suffices payload.renamed (h.past k) = payload by rw [Value.renamed, this]
  cases payload with
  | function id => exact congrArg Payload.function (past_function (held _ rfl).allocated k)
  | list id => exact congrArg Payload.list (past_list (held _ rfl).allocated k)
  | object id => exact congrArg Payload.object (past_object (held _ rfl).allocated k)
  | int | bool | string | null => rfl

theorem bindings_past {S : Cell → Prop} {b : Bindings} (held : b.Held S h) (k : Heap) :
    b.renamed (h.past k) = b := by
  refine (List.map_congr_left fun entry member => ?_).trans (List.map_id b)
  exact Prod.ext rfl (value_past (held entry member) k)

theorem callable_past {S : Cell → Prop} {callable : Callable}
    (held : ∀ c, callable.cell? = some c → h.Holds S c) (k : Heap) :
    callable.renamed (h.past k) = callable := by
  have listed {list : ListId} (refers : callable.cell? = some (.list list)) :
      (h.past k).list list = list :=
    past_list (held _ refers).allocated k
  cases callable with
  | user => rfl
  | builtin native =>
    cases native with
    | clock | print => rfl
    | add | addRange | insert | remove =>
      simp only [Callable.renamed, Native.renamed, listed rfl]

/-- No old cell refers to an added one, so none changes. -/
theorem Grows.renames (grows : h.Grows k) (intact : h.Intact) : h.Renames (h.past k) k where
  frames := by
    have confined := intact.confined_anywhere
    rw [grows.frames]
    refine Array.ext_getElem? fun id => ?_
    rw [Array.getElem?_map]
    cases found : h.frames[id]? with
    | none => rfl
    | some frame =>
      rw [Option.map_some, Frame.renamed, bindings_past (confined.frame trivial found).2]
  functions := relocated_of_isPrefix grows.functions fun callable member => by
    obtain ⟨id, found⟩ := Array.getElem?_of_mem member
    exact callable_past (intact.confined_anywhere.callable trivial found) k
  lists := relocated_of_isPrefix grows.lists fun items member => by
    obtain ⟨id, found⟩ := Array.getElem?_of_mem member
    have held : ∀ item ∈ h.items id, item.Held Cell.Anywhere h :=
      intact.confined_anywhere.items trivial
    rw [Heap.items, found] at held
    exact (Array.map_congr_left fun item member => value_past (held item member) k).trans
      (Array.map_id items)
  objects := relocated_of_isPrefix grows.objects fun members member => by
    obtain ⟨id, found⟩ := Array.getElem?_of_mem member
    have held : (h.members id).Held Cell.Anywhere h := intact.confined_anywhere.members trivial
    rw [Heap.members, found] at held
    exact bindings_past held k

end Heap

end SoftScript
