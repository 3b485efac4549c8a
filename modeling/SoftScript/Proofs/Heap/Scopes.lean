import SoftScript.Proofs.Heap.Region

/-! Scopes of a heap and the names bound in them. A scope keeps the scope around it and every name
it has ever bound, so a name that can be looked up from it always can be. -/
namespace SoftScript

namespace Bindings

theorem get?_insert (b : Bindings) (name : String) (v : Value) (x : String) :
    (b.insert name v).get? x = if name = x then some v else b.get? x := by
  fun_induction insert b name v <;> grind [get?]

theorem get?_modify (b : Bindings) (name : String) (change : Value → Value) (x : String) :
    (b.modify name change).get? x = if name = x then (b.get? x).map change else b.get? x := by
  fun_induction modify b name change <;> grind [get?]

theorem contains_insert (b : Bindings) (name : String) (v : Value) (x : String) :
    (b.insert name v).contains x = (b.contains x || decide (name = x)) := by
  rw [contains, get?_insert]
  by_cases same : name = x
  · simp [same]
  · simp [same, contains]

theorem contains_modify (b : Bindings) (name : String) (change : Value → Value) (x : String) :
    (b.modify name change).contains x = b.contains x := by
  rw [contains, get?_modify]
  by_cases same : name = x
  · simp [same, contains]
  · simp [same, contains]

end Bindings

namespace Heap

variable {h h' h'' : Heap}

/-- Every scope is still there, inside the same scope as before, and binds what it bound. -/
def Keeps (h h' : Heap) : Prop :=
  ∀ (id : FrameId) frame, h.frames[id]? = some frame → ∃ frame', h'.frames[id]? = some frame' ∧
    frame'.enclosing = frame.enclosing ∧
    ∀ name, frame.bindings.contains name = true → frame'.bindings.contains name = true

/-- No scope that was there binds any name more or less. -/
def SameNames (h h' : Heap) : Prop :=
  ∀ id < h.frames.size, ∀ name, (h'.bindings id).contains name = (h.bindings id).contains name

/-- One scope binds a name more, which it did not bind before. -/
structure OneMore (scope : FrameId) (added : String) (h h' : Heap) : Prop where
  unbound : (h.bindings scope).contains added = false
  names : ∀ id < h.frames.size, ∀ name, (h'.bindings id).contains name =
    ((h.bindings id).contains name || (decide (id = scope) && decide (added = name)))

/-- From a scope outwards the scopes come to an end, and it is the given one. -/
inductive EndsIn (h : Heap) (root : FrameId) : FrameId → Prop
  | root {frame : Frame} : h.frames[root]? = some frame → frame.enclosing = none → EndsIn h root root
  | inside {id outer : FrameId} {frame : Frame} : h.frames[id]? = some frame →
    frame.enclosing = some outer → EndsIn h root outer → EndsIn h root id

theorem Keeps.refl (h : Heap) : h.Keeps h :=
  fun _ frame found => ⟨frame, found, rfl, fun _ bound => bound⟩

theorem Keeps.trans (first : h.Keeps h') (second : h'.Keeps h'') : h.Keeps h'' := by
  intro id frame found
  obtain ⟨frame', found', same, bound⟩ := first id frame found
  obtain ⟨frame'', found'', same', bound'⟩ := second id frame' found'
  exact ⟨frame'', found'', same'.trans same, fun name there => bound' name (bound name there)⟩

theorem Keeps.of_frames (same : h'.frames = h.frames) : h.Keeps h' := by
  intro id frame found
  exact ⟨frame, same ▸ found, rfl, fun _ bound => bound⟩

theorem Keeps.size_le (keeps : h.Keeps h') : h.frames.size ≤ h'.frames.size := by
  apply Nat.le_of_not_lt
  intro shrunk
  obtain ⟨_, found, _⟩ := keeps h'.frames.size _ (Array.getElem?_eq_getElem shrunk)
  simp at found

theorem keeps_newFrame (h : Heap) (frame : Frame) : h.Keeps (h.newFrame frame).2 := by
  intro id old found
  refine ⟨old, ?_, rfl, fun _ bound => bound⟩
  have there := (Array.getElem?_eq_some_iff.mp found).1
  simpa [newFrame, Array.getElem?_push, Nat.ne_of_lt there] using found

theorem keeps_modifyBindings (h : Heap) (id : FrameId) (change : Bindings → Bindings)
    (more : ∀ b name, Bindings.contains b name = true → (change b).contains name = true) :
    h.Keeps (h.modifyBindings id change) := by
  intro i frame found
  by_cases same : id = i
  · refine ⟨{ frame with bindings := change frame.bindings }, ?_, rfl, more frame.bindings⟩
    simp [modifyBindings, Array.getElem?_modify, same, found]
  · refine ⟨frame, ?_, rfl, fun _ bound => bound⟩
    simp [modifyBindings, Array.getElem?_modify, same, found]

theorem bindings_modifyBindings {id : FrameId} (there : id < h.frames.size)
    (change : Bindings → Bindings) (i : FrameId) : (h.modifyBindings id change).bindings i =
      if id = i then change (h.bindings i) else h.bindings i := by
  by_cases same : id = i
  · subst same
    simp [bindings, modifyBindings, Array.getElem?_modify, Array.getElem?_eq_getElem there]
  · simp [bindings, modifyBindings, Array.getElem?_modify, same]

theorem keeps_rebind (h : Heap) (id : FrameId) (name : String) (payload : Payload) :
    h.Keeps (h.rebind id name payload) := by
  apply keeps_modifyBindings
  intro b x bound
  rwa [Bindings.contains_modify]

theorem keeps_bind (h : Heap) (id : FrameId) (name : String) (v : Value) :
    h.Keeps (h.bind id name v) := by
  apply keeps_modifyBindings
  intro b x bound
  rw [Bindings.contains_insert, bound, Bool.true_or]

theorem sameNames_rebind (h : Heap) (id : FrameId) (name : String) (payload : Payload) :
    h.SameNames (h.rebind id name payload) := by
  intro i there x
  simp only [bindings, rebind, modifyBindings, Array.getElem?_modify]
  by_cases same : id = i
  · simp [same, Array.getElem?_eq_getElem there, Bindings.contains_modify]
  · simp [same]

theorem oneMore_bind {id : FrameId} (there : id < h.frames.size) {name : String}
    (unbound : (h.bindings id).contains name = false) (v : Value) :
    OneMore id name h (h.bind id name v) where
  unbound := unbound
  names := by
    intro i _ x
    rw [bind, bindings_modifyBindings there]
    by_cases same : id = i
    · simp [same, Bindings.contains_insert]
    · have other : ¬ i = id := fun eq => same eq.symm
      simp [same, other]

theorem Keeps.contains (keeps : h.Keeps h') {id : FrameId} {name : String}
    (bound : (h.bindings id).contains name = true) : (h'.bindings id).contains name = true := by
  unfold bindings at bound ⊢
  cases found : h.frames[id]? with
  | none =>
    rw [found] at bound
    cases bound
  | some frame =>
    obtain ⟨frame', found', _, more⟩ := keeps id frame found
    rw [found] at bound
    rw [found']
    exact more name bound

theorem allocated_of_contains {id : FrameId} {name : String}
    (bound : (h.bindings id).contains name = true) : id < h.frames.size := by
  apply Nat.lt_of_not_le
  intro beyond
  rw [bindings, Array.getElem?_eq_none beyond] at bound
  cases bound

/-- What stands in a scope after a change did so before it, or was put there. -/
theorem mem_modifyBindings {id i : FrameId} {change : Bindings → Bindings} {slot : String × Value}
    (member : slot ∈ (h.modifyBindings id change).bindings i) :
    slot ∈ h.bindings i ∨ (i = id ∧ slot ∈ change (h.bindings id)) := by
  by_cases there : id < h.frames.size
  · rw [bindings_modifyBindings there] at member
    by_cases same : id = i
    · subst same
      rw [if_pos rfl] at member
      exact .inr ⟨rfl, member⟩
    · rw [if_neg same] at member
      exact .inl member
  · left
    have same : (h.modifyBindings id change).frames[i]? = h.frames[i]? := by
      rw [modifyBindings, Array.getElem?_modify]
      split
      · rename_i here
        rw [← here, Array.getElem?_eq_none (Nat.le_of_not_lt there), Option.map_none]
      · rfl
    rwa [bindings, same] at member

/-! Looking names up. -/

/-- Looking further out finds no other scope. -/
theorem holderWithin_mono {name : String} {n k : Nat} (le : n ≤ k) {id holder : FrameId}
    (found : h.holderWithin name n id = some holder) : h.holderWithin name k id = some holder := by
  induction n generalizing k id with
  | zero => simp [holderWithin] at found
  | succ n ih =>
    obtain ⟨k, rfl⟩ : ∃ j, k = j + 1 := ⟨k - 1, by omega⟩
    unfold holderWithin at found ⊢
    cases there : h.frames[id]? with
    | none => simp [there] at found
    | some frame =>
      simp only [there] at found ⊢
      by_cases bound : frame.bindings.contains name = true
      · rwa [if_pos bound] at found ⊢
      · rw [if_neg bound] at found ⊢
        cases outer : frame.enclosing with
        | none => simp [outer] at found
        | some outer =>
          simp only [outer] at found
          exact ih (by omega) found

/-- Where a name was found, it or a nearer one is found. -/
theorem Keeps.holderWithin (keeps : h.Keeps h') {name : String} {n : Nat} {id : FrameId}
    (found : (h.holderWithin name n id).isSome = true) :
    (h'.holderWithin name n id).isSome = true := by
  induction n generalizing id with
  | zero => simp [Heap.holderWithin] at found
  | succ n ih =>
    unfold Heap.holderWithin at found ⊢
    cases there : h.frames[id]? with
    | none => simp [there] at found
    | some frame =>
      obtain ⟨frame', there', same, bound⟩ := keeps id frame there
      simp only [there, there', same] at found ⊢
      split
      · rfl
      · rename_i unbound'
        have unbound : ¬ frame.bindings.contains name = true := fun b => unbound' (bound name b)
        rw [if_neg unbound] at found
        cases outer : frame.enclosing with
        | none => simp [outer] at found
        | some outer =>
          simp only [outer] at found
          exact ih found

theorem contains_of_holderWithin {name : String} {n : Nat} {id holder : FrameId}
    (found : h.holderWithin name n id = some holder) :
    (h.bindings holder).contains name = true := by
  induction n generalizing id with
  | zero => simp [holderWithin] at found
  | succ n ih =>
    unfold holderWithin at found
    split at found
    · contradiction
    · rename_i frame there
      split at found
      · rename_i bound
        cases found
        simpa [bindings, there] using bound
      · split at found
        · exact ih found
        · contradiction

theorem isSome_lookup? {id : FrameId} {name : String} :
    (h.lookup? id name).isSome = (h.holder? id name).isSome := by
  unfold lookup?
  cases found : h.holder? id name with
  | none => rfl
  | some holder => exact contains_of_holderWithin found

/-- A name that can be looked up from a scope can be looked up from it ever after. -/
theorem Keeps.lookup? (keeps : h.Keeps h') {id : FrameId} {name : String}
    (found : (h.lookup? id name).isSome = true) : (h'.lookup? id name).isSome = true := by
  rw [isSome_lookup?] at found ⊢
  obtain ⟨holder, found'⟩ := Option.isSome_iff_exists.mp (keeps.holderWithin found)
  exact Option.isSome_iff_exists.mpr ⟨holder, holderWithin_mono keeps.size_le found'⟩

end Heap

end SoftScript
