import Mathlib.Logic.Relation
import SoftScript.Value.Heap

/-! What cells of a heap refer to and what can be reached from them. A change of the heap is told
by the one cell it writes; everything else stays in place. -/
namespace SoftScript

/-- A place of the heap. -/
inductive Cell where
  | frame (id : FrameId)
  | function (id : FunctionId)
  | list (id : ListId)
  | object (id : ObjectId)
  deriving DecidableEq, Repr

/-- What stands in a cell. -/
inductive Content where
  | frame (frame : Frame)
  | function (callable : Callable)
  | list (items : Array Value)
  | object (members : Bindings)

/-- The cell that a value is a reference to. -/
def Value.cell? (v : Value) : Option Cell :=
  match v.payload with
  | .function id => some (.function id)
  | .list id => some (.list id)
  | .object id => some (.object id)
  | .int _ | .bool _ | .string _ | .null => none

/-- The scope around a declared function, or the list of a list method. -/
def Callable.cell? : Callable → Option Cell
  | .user _ closure => some (.frame closure)
  | .builtin (.add list) | .builtin (.addRange list) => some (.list list)
  | .builtin (.insert list) | .builtin (.remove list) => some (.list list)
  | .builtin .clock | .builtin .print => none

def Bindings.cells (b : Bindings) : List Cell := b.filterMap (·.2.cell?)

/-- The cells that a content refers to. -/
def Content.cells : Content → List Cell
  | .frame scope => (scope.enclosing.map Cell.frame).toList ++ scope.bindings.cells
  | .function callable => callable.cell?.toList
  | .list items => items.toList.filterMap Value.cell?
  | .object members => members.cells

namespace Heap

variable {h h' : Heap}

def cell? (h : Heap) : Cell → Option Content
  | .frame id => h.frames[id]?.map .frame
  | .function id => h.functions[id]?.map .function
  | .list id => h.lists[id]?.map .list
  | .object id => h.objects[id]?.map .object

def Allocated (h : Heap) (c : Cell) : Prop := (h.cell? c).isSome = true

def Refers (h : Heap) (c d : Cell) : Prop := ∃ content, h.cell? c = some content ∧ d ∈ content.cells

/-- A chain of references, possibly empty. -/
def Reaches (h : Heap) : Cell → Cell → Prop := Relation.ReflTransGen h.Refers

/-- No reference leads out of the heap. -/
def Intact (h : Heap) : Prop := ∀ c d, h.Refers c d → h.Allocated d

/-- A heap that differs in one cell at most, and what stands there. -/
structure Writes (h h' : Heap) (c : Cell) (content : Content) : Prop where
  there : h'.cell? c = some content
  elsewhere : ∀ d, d ≠ c → h'.cell? d = h.cell? d

theorem allocated_iff {c : Cell} : h.Allocated c ↔ ∃ content, h.cell? c = some content := by
  rw [Allocated, Option.isSome_iff_exists]

theorem Refers.allocated {c d : Cell} (refers : h.Refers c d) : h.Allocated c := by
  obtain ⟨content, found, _⟩ := refers
  exact allocated_iff.mpr ⟨content, found⟩

theorem Intact.reaches {c d : Cell} (intact : h.Intact) (known : h.Allocated c)
    (reaches : h.Reaches c d) : h.Allocated d := by
  induction reaches with
  | refl => exact known
  | tail _ refers _ => exact intact _ _ refers

/-- The scope around a declared function is there. -/
theorem Intact.closure {id : FunctionId} {closure : FrameId} (intact : h.Intact)
    (found : h.functions[id]? = some (.user declaration closure)) : h.Allocated (.frame closure) := by
  refine intact (.function id) _ ⟨.function (.user declaration closure), ?_, List.mem_singleton_self _⟩
  simp [cell?, found]

theorem Writes.allocated {c d : Cell} (w : h.Writes h' c content) (known : h.Allocated d) :
    h'.Allocated d := by
  by_cases same : d = c
  · rw [same]
    exact allocated_iff.mpr ⟨content, w.there⟩
  · rw [Allocated, w.elsewhere d same]
    exact known

theorem getElem?_push_ne {α : Type} {xs : Array α} {x : α} {i : Nat} (other : i ≠ xs.size) :
    (xs.push x)[i]? = xs[i]? := by
  rw [Array.getElem?_push]
  simp [other]

theorem writes_newFrame (h : Heap) (frame : Frame) :
    h.Writes (h.newFrame frame).2 (.frame h.frames.size) (.frame frame) where
  there := by simp [newFrame, cell?]
  elsewhere := by
    intro d other
    cases d with
    | frame id => simp [newFrame, cell?, getElem?_push_ne (show id ≠ _ by simpa using other)]
    | function | list | object => rfl

theorem writes_newFunction (h : Heap) (callable : Callable) :
    h.Writes (h.newFunction callable).2 (.function h.functions.size) (.function callable) where
  there := by simp [newFunction, cell?]
  elsewhere := by
    intro d other
    cases d with
    | function id => simp [newFunction, cell?, getElem?_push_ne (show id ≠ _ by simpa using other)]
    | frame | list | object => rfl

theorem writes_newList (h : Heap) (items : Array Value) :
    h.Writes (h.newList items).2 (.list h.lists.size) (.list items) where
  there := by simp [newList, cell?]
  elsewhere := by
    intro d other
    cases d with
    | list id => simp [newList, cell?, getElem?_push_ne (show id ≠ _ by simpa using other)]
    | frame | function | object => rfl

theorem writes_newObject (h : Heap) (members : Bindings) :
    h.Writes (h.newObject members).2 (.object h.objects.size) (.object members) where
  there := by simp [newObject, cell?]
  elsewhere := by
    intro d other
    cases d with
    | object id => simp [newObject, cell?, getElem?_push_ne (show id ≠ _ by simpa using other)]
    | frame | function | list => rfl

theorem writes_modifyBindings {id : FrameId} {frame : Frame} (found : h.frames[id]? = some frame)
    (f : Bindings → Bindings) : h.Writes (h.modifyBindings id f) (.frame id)
      (.frame { frame with bindings := f frame.bindings }) where
  there := by simp [modifyBindings, cell?, Array.getElem?_modify, found]
  elsewhere := by
    intro d other
    cases d with
    | frame i =>
      have apart : ¬ id = i := by simpa [eq_comm] using other
      simp [modifyBindings, cell?, Array.getElem?_modify, apart]
    | function | list | object => rfl

theorem writes_modifyItems {id : ListId} {items : Array Value} (found : h.lists[id]? = some items)
    (f : Array Value → Array Value) :
    h.Writes (h.modifyItems id f) (.list id) (.list (f items)) where
  there := by simp [modifyItems, cell?, Array.getElem?_modify, found]
  elsewhere := by
    intro d other
    cases d with
    | list i =>
      have apart : ¬ id = i := by simpa [eq_comm] using other
      simp [modifyItems, cell?, Array.getElem?_modify, apart]
    | frame | function | object => rfl

theorem writes_modifyMembers {id : ObjectId} {members : Bindings}
    (found : h.objects[id]? = some members) (f : Bindings → Bindings) :
    h.Writes (h.modifyMembers id f) (.object id) (.object (f members)) where
  there := by simp [modifyMembers, cell?, Array.getElem?_modify, found]
  elsewhere := by
    intro d other
    cases d with
    | object i =>
      have apart : ¬ id = i := by simpa [eq_comm] using other
      simp [modifyMembers, cell?, Array.getElem?_modify, apart]
    | frame | function | list => rfl

/-! Whether a heap is intact can be computed. -/

/-- All cells that are there. -/
def cells (h : Heap) : List Cell :=
  (List.range h.frames.size).map .frame ++ (List.range h.functions.size).map .function ++
    (List.range h.lists.size).map .list ++ (List.range h.objects.size).map .object

theorem mem_cells {c : Cell} : c ∈ h.cells ↔ h.Allocated c := by
  cases c <;> simp [cells, Allocated, cell?]

theorem intact_iff : h.Intact ↔
    ∀ c ∈ h.cells, ∀ content ∈ h.cell? c, ∀ d ∈ content.cells, h.Allocated d := by
  constructor
  · intro intact c _ content there d member
    exact intact c d ⟨content, there, member⟩
  · rintro checked c d ⟨content, there, member⟩
    exact checked c (mem_cells.mpr (allocated_iff.mpr ⟨content, there⟩)) content there d member

/-- Cells that refer to each other only reach nothing else. -/
theorem not_reaches_of_closed {c d : Cell} {l : List Cell}
    (closed : ∀ c ∈ l, ∀ content ∈ h.cell? c, ∀ d ∈ content.cells, d ∈ l) (here : c ∈ l)
    (apart : d ∉ l) : ¬ h.Reaches c d := by
  have inside {d : Cell} (reaches : h.Reaches c d) : d ∈ l := by
    induction reaches with
    | refl => exact here
    | tail _ refers ih =>
      obtain ⟨content, there, member⟩ := refers
      exact closed _ ih content there _ member
  exact fun reaches => apart (inside reaches)

instance (c : Cell) : Decidable (h.Allocated c) := inferInstanceAs (Decidable (_ = true))

instance : Decidable h.Intact := decidable_of_iff _ intact_iff.symm

end Heap

end SoftScript
