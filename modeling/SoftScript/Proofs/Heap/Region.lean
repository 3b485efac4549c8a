import SoftScript.Proofs.Heap.Reach

/-! Regions of a heap. A region is a set of cells that no reference leads out of and that every new
cell falls into. Whoever starts with references into a region only ever finds such references, and
writes nowhere else. -/
namespace SoftScript

namespace Heap

/-- A cell of the region that is there. -/
structure Holds (S : Cell → Prop) (h : Heap) (c : Cell) : Prop where
  inside : S c
  allocated : h.Allocated c

end Heap

/-- A value that refers to nothing outside the region. -/
def Value.Held (S : Cell → Prop) (h : Heap) (v : Value) : Prop := ∀ c, v.cell? = some c → h.Holds S c

def Content.Held (S : Cell → Prop) (h : Heap) (content : Content) : Prop :=
  ∀ d ∈ content.cells, h.Holds S d

def Bindings.Held (S : Cell → Prop) (h : Heap) (b : Bindings) : Prop :=
  ∀ entry ∈ b, entry.2.Held S h

namespace Heap

/-- The region is closed under the references of the heap, and all that is not there is in it. -/
structure Confined (S : Cell → Prop) (h : Heap) : Prop where
  closed : ∀ c content, S c → h.cell? c = some content → content.Held S h
  fresh : ∀ c, ¬ h.Allocated c → S c

/-- What becomes of a heap when only the region is written. -/
structure Evolves (S : Cell → Prop) (h h' : Heap) : Prop where
  confined : h'.Confined S
  grows : ∀ c, h.Allocated c → h'.Allocated c
  unchanged : ∀ c, ¬ S c → h'.cell? c = h.cell? c

variable {S : Cell → Prop} {h h' h'' : Heap}

theorem Evolves.refl (confined : h.Confined S) : h.Evolves S h :=
  ⟨confined, fun _ known => known, fun _ _ => rfl⟩

theorem Evolves.trans (first : h.Evolves S h') (second : h'.Evolves S h'') : h.Evolves S h'' where
  confined := second.confined
  grows := fun c known => second.grows c (first.grows c known)
  unchanged := fun c outside => (second.unchanged c outside).trans (first.unchanged c outside)

theorem Holds.mono {c : Cell} (held : h.Holds S c) (evolves : h.Evolves S h') : h'.Holds S c :=
  ⟨held.inside, evolves.grows c held.allocated⟩

end Heap

section

variable {S : Cell → Prop} {h h' : Heap}

theorem Value.Held.mono {v : Value} (held : v.Held S h) (evolves : h.Evolves S h') :
    v.Held S h' := by
  intro c refers
  exact (held c refers).mono evolves

theorem Bindings.Held.mono {b : Bindings} (held : b.Held S h) (evolves : h.Evolves S h') :
    b.Held S h' := by
  intro entry member
  exact (held entry member).mono evolves

/-- A value that is no reference. -/
theorem Value.held_of_cell? {v : Value} (atomic : v.cell? = none) : v.Held S h := by
  intro c refers
  rw [atomic] at refers
  contradiction

@[simp] theorem Value.held_null : Value.null.Held S h := Value.held_of_cell? rfl

@[simp] theorem Value.held_int (value : Integer) : (Value.int value).Held S h :=
  Value.held_of_cell? rfl

@[simp] theorem Value.held_bool (value : Bool) : (Value.bool value).Held S h :=
  Value.held_of_cell? rfl

@[simp] theorem Value.held_string (value : String) : (Value.string value).Held S h :=
  Value.held_of_cell? rfl

/-- A value is the reference it is under any name. -/
theorem Value.Held.of_payload {v w : Value} (held : v.Held S h) (same : w.payload = v.payload) :
    w.Held S h := by
  intro c refers
  apply held
  rwa [Value.cell?, ← same]

theorem Value.Held.named {v : Value} (held : v.Held S h) (name : Token) : (v.named name).Held S h :=
  held.of_payload rfl

theorem Bindings.held_iff {b : Bindings} : b.Held S h ↔ ∀ d ∈ b.cells, h.Holds S d := by
  constructor
  · intro held d member
    obtain ⟨entry, there, refers⟩ := List.mem_filterMap.mp member
    exact held entry there d refers
  · intro held entry there d refers
    exact held d (List.mem_filterMap.mpr ⟨entry, there, refers⟩)

theorem Content.held_list {items : Array Value} :
    (Content.list items).Held S h ↔ ∀ item ∈ items, item.Held S h := by
  constructor
  · intro held item member d refers
    exact held d (List.mem_filterMap.mpr ⟨item, by simpa using member, refers⟩)
  · intro held d member
    obtain ⟨item, there, refers⟩ := List.mem_filterMap.mp member
    exact held item (by simpa using there) d refers

theorem Content.held_object {members : Bindings} :
    (Content.object members).Held S h ↔ members.Held S h :=
  Bindings.held_iff.symm

theorem Content.held_function {callable : Callable} :
    (Content.function callable).Held S h ↔ ∀ c, callable.cell? = some c → h.Holds S c := by
  simp [Content.Held, Content.cells]

theorem Content.held_frame {frame : Frame} : (Content.frame frame).Held S h ↔
    (∀ outer, frame.enclosing = some outer → h.Holds S (.frame outer)) ∧
      frame.bindings.Held S h := by
  rw [Bindings.held_iff]
  constructor
  · intro held
    refine ⟨?_, fun d member => held d (List.mem_append_right _ member)⟩
    intro outer around
    exact held _ (List.mem_append_left _ (by simp [around]))
  · rintro ⟨around, held⟩ d member
    rcases List.mem_append.mp member with enclosing | bound
    · simp only [Option.mem_toList, Option.map_eq_some_iff] at enclosing
      obtain ⟨outer, enclosing, rfl⟩ := enclosing
      exact around outer enclosing
    · exact held d bound

/-! Bindings keep to a region when what is put into them does. -/

theorem Bindings.held_nil : Bindings.Held S h [] := by simp [Bindings.Held]

theorem Bindings.Held.get? {b : Bindings} (held : b.Held S h) {name : String} {v : Value}
    (found : b.get? name = some v) : v.Held S h := by
  induction b with
  | nil => simp [Bindings.get?] at found
  | cons entry rest ih =>
    obtain ⟨key, value⟩ := entry
    rw [Bindings.get?] at found
    split at found
    · cases found
      exact held (key, v) List.mem_cons_self
    · exact ih (fun entry member => held entry (List.mem_cons_of_mem _ member)) found

theorem Bindings.mem_insert {b : Bindings} {name : String} {v : Value} {entry : String × Value}
    (member : entry ∈ b.insert name v) : entry = (name, v) ∨ entry ∈ b := by
  induction b with
  | nil => simpa [Bindings.insert] using member
  | cons first rest ih =>
    obtain ⟨key, old⟩ := first
    rw [Bindings.insert] at member
    split at member
    · simpa using member
    · split at member
      · rcases List.mem_cons.mp member with same | later
        · exact .inl same
        · exact .inr (List.mem_cons_of_mem _ later)
      · rcases List.mem_cons.mp member with rfl | later
        · exact .inr List.mem_cons_self
        · rcases ih later with same | old
          · exact .inl same
          · exact .inr (List.mem_cons_of_mem _ old)

theorem Bindings.Held.insert {b : Bindings} (held : b.Held S h) {v : Value} (value : v.Held S h)
    (name : String) : (b.insert name v).Held S h := by
  intro entry member
  rcases Bindings.mem_insert member with rfl | old
  · exact value
  · exact held entry old

theorem Bindings.Held.modify {b : Bindings} (held : b.Held S h) {f : Value → Value}
    (changed : ∀ v, (f v).Held S h) (name : String) : (b.modify name f).Held S h := by
  induction b with
  | nil => simpa [Bindings.modify] using held
  | cons first rest ih =>
    obtain ⟨key, old⟩ := first
    have later : Bindings.Held S h rest := fun entry member => held entry (List.mem_cons_of_mem _ member)
    rw [Bindings.modify]
    split
    · intro entry member
      rcases List.mem_cons.mp member with rfl | member
      · exact changed old
      · exact later entry member
    · intro entry member
      rcases List.mem_cons.mp member with rfl | member
      · exact held (key, old) List.mem_cons_self
      · exact ih later entry member

end

namespace Heap

variable {S : Cell → Prop} {h h' : Heap}

/-- Writing a cell of the region what keeps to the region. -/
theorem Writes.evolves {c : Cell} (w : h.Writes h' c content) (confined : h.Confined S) (inside : S c)
    (held : content.Held S h) : h.Evolves S h' := by
  have kept {content : Content} (held : content.Held S h) : content.Held S h' := by
    intro d refers
    exact ⟨(held d refers).inside, w.allocated (held d refers).allocated⟩
  refine ⟨⟨?_, ?_⟩, fun d known => w.allocated known, ?_⟩
  · intro d found inside' there
    by_cases same : d = c
    · rw [same, w.there] at there
      cases there
      exact kept held
    · rw [w.elsewhere d same] at there
      exact kept (confined.closed d found inside' there)
  · intro d missing
    exact confined.fresh d fun known => missing (w.allocated known)
  · intro d outside
    apply w.elsewhere
    rintro rfl
    exact outside inside

/-- A new cell is in the region, since there was nothing in its place. -/
theorem Writes.evolves_new {c : Cell} (w : h.Writes h' c content) (confined : h.Confined S)
    (new : h.cell? c = none) (held : content.Held S h) : h.Evolves S h' ∧ h'.Holds S c := by
  have inside : S c := confined.fresh c (by simp [Allocated, new])
  exact ⟨w.evolves confined inside held, inside, allocated_iff.mpr ⟨content, w.there⟩⟩

theorem Confined.frame {id : FrameId} {frame : Frame} (confined : h.Confined S) (inside : S (.frame id))
    (found : h.frames[id]? = some frame) :
    (∀ outer, frame.enclosing = some outer → h.Holds S (.frame outer)) ∧
      frame.bindings.Held S h :=
  Content.held_frame.mp (confined.closed _ (.frame frame) inside (by simp [cell?, found]))

theorem Confined.callable {id : FunctionId} {callable : Callable} (confined : h.Confined S)
    (inside : S (.function id)) (found : h.functions[id]? = some callable) :
    ∀ c, callable.cell? = some c → h.Holds S c :=
  Content.held_function.mp (confined.closed _ (.function callable) inside (by simp [cell?, found]))

theorem Confined.items {id : ListId} (confined : h.Confined S) (inside : S (.list id)) :
    ∀ item ∈ h.items id, item.Held S h := by
  cases found : h.lists[id]? with
  | none => simp [Heap.items, found]
  | some items =>
    have held := Content.held_list.mp
      (confined.closed (.list id) (.list items) inside (by simp [cell?, found]))
    simpa [Heap.items, found] using held

theorem Confined.members {id : ObjectId} (confined : h.Confined S) (inside : S (.object id)) :
    (h.members id).Held S h := by
  cases found : h.objects[id]? with
  | none => simp [Heap.members, found, Bindings.Held]
  | some members =>
    have held := Content.held_object.mp
      (confined.closed (.object id) (.object members) inside (by simp [cell?, found]))
    simpa [Heap.members, found] using held

/-- The chain of scopes around a scope of the region stays in it. -/
theorem holds_holderWithin {id holder : FrameId} (confined : h.Confined S)
    (here : h.Holds S (.frame id)) (found : h.holderWithin name n id = some holder) :
    h.Holds S (.frame holder) := by
  induction n generalizing id with
  | zero => simp [holderWithin] at found
  | succ n ih =>
    rw [holderWithin] at found
    split at found
    · contradiction
    · rename_i frame there
      split at found
      · cases found
        exact here
      · split at found
        · rename_i outer enclosing
          exact ih ((confined.frame here.inside there).1 outer enclosing) found
        · contradiction

theorem held_lookup? {id : FrameId} {v : Value} (confined : h.Confined S)
    (here : h.Holds S (.frame id)) (found : h.lookup? id name = some v) : v.Held S h := by
  obtain ⟨holder, holds, bound⟩ := Option.bind_eq_some_iff.mp found
  have inside := (holds_holderWithin confined here holds).inside
  unfold bindings at bound
  split at bound
  · rename_i frame there
    exact (confined.frame inside there).2.get? bound
  · simp [Bindings.get?] at bound

/-! The ways to change a heap. -/

theorem evolves_modifyBindings {id : FrameId} {f : Bindings → Bindings} (confined : h.Confined S)
    (here : h.Holds S (.frame id)) (held : ∀ b : Bindings, b.Held S h → (f b).Held S h) :
    h.Evolves S (h.modifyBindings id f) := by
  obtain ⟨content, there⟩ := allocated_iff.mp here.allocated
  obtain ⟨frame, found, _⟩ := Option.map_eq_some_iff.mp there
  obtain ⟨around, bindings⟩ := confined.frame here.inside found
  exact (writes_modifyBindings found f).evolves confined here.inside
    (Content.held_frame.mpr ⟨around, held _ bindings⟩)

theorem evolves_bind {id : FrameId} {v : Value} (confined : h.Confined S)
    (here : h.Holds S (.frame id)) (held : v.Held S h) (name : String) :
    h.Evolves S (h.bind id name v) :=
  evolves_modifyBindings confined here fun _ bound => bound.insert held name

theorem evolves_rebind {id : FrameId} {v : Value} (confined : h.Confined S)
    (here : h.Holds S (.frame id)) (held : v.Held S h) (name : String) :
    h.Evolves S (h.rebind id name v.payload) := by
  have slots (slot : Value) : Value.Held S h { slot with payload := v.payload } :=
    held.of_payload rfl
  exact evolves_modifyBindings confined here fun _ bound => bound.modify slots name

theorem evolves_modifyItems {id : ListId} {f : Array Value → Array Value} (confined : h.Confined S)
    (here : h.Holds S (.list id))
    (held : ∀ item ∈ f (h.items id), item.Held S h) : h.Evolves S (h.modifyItems id f) := by
  obtain ⟨content, there⟩ := allocated_iff.mp here.allocated
  obtain ⟨items, found, _⟩ := Option.map_eq_some_iff.mp there
  have same : h.items id = items := by simp [Heap.items, found]
  rw [same] at held
  exact (writes_modifyItems found f).evolves confined here.inside (Content.held_list.mpr held)

theorem evolves_modifyMembers {id : ObjectId} {f : Bindings → Bindings} (confined : h.Confined S)
    (here : h.Holds S (.object id)) (held : (f (h.members id)).Held S h) :
    h.Evolves S (h.modifyMembers id f) := by
  obtain ⟨content, there⟩ := allocated_iff.mp here.allocated
  obtain ⟨members, found, _⟩ := Option.map_eq_some_iff.mp there
  have same : h.members id = members := by simp [Heap.members, found]
  rw [same] at held
  exact (writes_modifyMembers found f).evolves confined here.inside (Content.held_object.mpr held)

/-! The region of some roots: all that they reach, and room for new cells. -/

def Outreach (h : Heap) (roots : Cell → Prop) (c : Cell) : Prop :=
  (∃ root, roots root ∧ h.Reaches root c) ∨ ¬ h.Allocated c

theorem Intact.confined (intact : h.Intact) (roots : Cell → Prop) : h.Confined (h.Outreach roots) where
  closed := by
    intro c content inside there d refers
    have refers : h.Refers c d := ⟨content, there, refers⟩
    rcases inside with ⟨root, isRoot, reaches⟩ | missing
    · exact ⟨.inl ⟨root, isRoot, reaches.tail refers⟩, intact c d refers⟩
    · exact absurd refers.allocated missing
  fresh := fun _ missing => .inr missing

theorem Intact.holds_root {roots : Cell → Prop} {c : Cell} (isRoot : roots c)
    (known : h.Allocated c) : h.Holds (h.Outreach roots) c :=
  ⟨.inl ⟨c, isRoot, .refl⟩, known⟩

/-- All that a cell of a region reaches is in the region. -/
theorem Confined.reaches {c d : Cell} (confined : h.Confined S) (here : h.Holds S c)
    (reaches : h.Reaches c d) : h.Holds S d := by
  induction reaches with
  | refl => exact here
  | tail _ refers ih =>
    obtain ⟨content, there, refers⟩ := refers
    exact confined.closed _ content ih.inside there _ refers

/-- Nothing dangles after a change of a region, since nothing does in the region. -/
theorem Evolves.intact (evolves : h.Evolves S h') (intact : h.Intact) : h'.Intact := by
  rintro c d ⟨content, there, refers⟩
  by_cases inside : S c
  · exact (evolves.confined.closed c content inside there d refers).allocated
  · rw [evolves.unchanged c inside] at there
    exact evolves.grows d (intact c d ⟨content, there, refers⟩)

/-- A cell that the roots do not reach stays as it is, and out of their reach. -/
theorem Evolves.apart {roots : Cell → Prop} {c : Cell} (evolves : h.Evolves (h.Outreach roots) h')
    (known : h.Allocated c) (apart : ∀ root, roots root → ¬ h.Reaches root c) :
    h'.cell? c = h.cell? c ∧
      ∀ root, roots root → h.Allocated root → ¬ h'.Reaches root c := by
  have outside : ¬ h.Outreach roots c := by
    rintro (⟨root, isRoot, reaches⟩ | missing)
    · exact apart root isRoot reaches
    · exact missing known
  refine ⟨evolves.unchanged c outside, ?_⟩
  intro root isRoot there reaches
  have holds := (Intact.holds_root isRoot there).mono evolves
  exact outside (evolves.confined.reaches holds reaches).inside

end Heap

end SoftScript
