import SoftScript.Proofs.Heap.Nearest
import SoftScript.Value.Text

/-! Taking an empty scope out of a heap. What lay in it comes to lie in the scope around it, and
the scopes made later move up by one place. Names are found as before, values are written as
before, and the scopes, functions, lists and objects made or changed later are the same. -/
namespace SoftScript

/-- Where a scope is found when one scope has been taken out, the scope around it in its place. -/
def skip (gone outer id : Nat) : Nat :=
  if id = gone then outer else if gone < id then id - 1 else id

variable {gone outer id : Nat}

theorem skip_of_lt (before : id < gone) : skip gone outer id = id := by
  rw [skip, if_neg (by omega), if_neg (by omega)]

theorem skip_gone : skip gone outer gone = outer := if_pos rfl

theorem skip_of_gt (later : gone < id) : skip gone outer id = id - 1 := by
  rw [skip, if_neg (by omega), if_pos later]

def Frame.skipping (gone outer : Nat) (frame : Frame) : Frame :=
  { frame with enclosing := frame.enclosing.map (skip gone outer) }

def Callable.skipping (gone outer : Nat) : Callable → Callable
  | .user declaration closure => .user declaration (skip gone outer closure)
  | .builtin native => .builtin native

theorem Callable.arity_skipping (c : Callable) : (c.skipping gone outer).arity = c.arity := by
  cases c <;> rfl

theorem Callable.text_skipping (c : Callable) : (c.skipping gone outer).text = c.text := by
  cases c <;> rfl

namespace Heap

variable {h : Heap} {name : String} {holder : Nat}

/-- A heap without one of its scopes. -/
def without (gone outer : Nat) (h : Heap) : Heap :=
  { h with
    frames := ((h.frames.toList.eraseIdx gone).map (Frame.skipping gone outer)).toArray
    functions := h.functions.map (Callable.skipping gone outer) }

/-- A scope with nothing in it, inside an older one. No scope older than it lies in it or in a
later one. -/
structure Hollow (gone outer : Nat) (h : Heap) : Prop where
  here : h.frames[gone]? = some ⟨[], some outer⟩
  inside : outer < gone
  older : ∀ id < gone, ∀ frame ∈ h.frames[id]?, ∀ around ∈ frame.enclosing, around < gone

theorem Hollow.there (hollow : h.Hollow gone outer) : gone < h.frames.size :=
  (Array.getElem?_eq_some_iff.mp hollow.here).1

theorem Hollow.of_frames {h' : Heap} (hollow : h.Hollow gone outer)
    (same : h'.frames = h.frames) : h'.Hollow gone outer := by
  obtain ⟨here, inside, older⟩ := hollow
  exact ⟨same ▸ here, inside, same ▸ older⟩

theorem getElem?_without (i : Nat) : (h.without gone outer).frames[i]? =
    (h.frames[if i < gone then i else i + 1]?).map (Frame.skipping gone outer) := by
  simp only [without, List.getElem?_toArray, List.getElem?_map, List.getElem?_eraseIdx]
  split <;> simp

/-- Every other scope is still there. -/
theorem getElem?_without_skip (other : id ≠ gone) :
    (h.without gone outer).frames[skip gone outer id]? =
      (h.frames[id]?).map (Frame.skipping gone outer) := by
  rw [getElem?_without]
  rcases Nat.lt_or_gt_of_ne other with before | later
  · rw [skip_of_lt before, if_pos before]
  · rw [skip_of_gt later, if_neg (by omega), Nat.sub_add_cancel (by omega)]

/-- Scopes older than the one taken out are as they were. -/
theorem Hollow.getElem?_without (hollow : h.Hollow gone outer) (before : id < gone) :
    (h.without gone outer).frames[id]? = h.frames[id]? := by
  have same : (h.without gone outer).frames[skip gone outer id]? = _ :=
    getElem?_without_skip (Nat.ne_of_lt before)
  rw [skip_of_lt before] at same
  rw [same]
  cases found : h.frames[id]? with
  | none => rfl
  | some frame =>
    obtain ⟨bindings, enclosing⟩ := frame
    cases enclosing with
    | none => rfl
    | some around =>
      have older := hollow.older id before _ found around rfl
      simp [Frame.skipping, skip_of_lt older]

theorem Hollow.size_without (hollow : h.Hollow gone outer) :
    (h.without gone outer).frames.size + 1 = h.frames.size := by
  have there := hollow.there
  simp [without, List.length_eraseIdx, there]
  omega

theorem bindings_without (other : id ≠ gone) :
    (h.without gone outer).bindings (skip gone outer id) = h.bindings id := by
  rw [bindings, bindings, getElem?_without_skip other]
  cases h.frames[id]? <;> rfl

theorem Hollow.bindings_gone (hollow : h.Hollow gone outer) : h.bindings gone = [] := by
  rw [bindings, hollow.here]

/-! Looking names up. -/

theorem Hollow.nearest_without (hollow : h.Hollow gone outer) (near : h.Nearest name id holder) :
    (h.without gone outer).Nearest name (skip gone outer id) (skip gone outer holder) := by
  induction near with
  | @here id frame there bound =>
    have other : id ≠ gone := by
      rintro rfl
      rw [hollow.here] at there
      cases there
      cases bound
    have there' : (h.without gone outer).frames[skip gone outer id]? =
        some (frame.skipping gone outer) := by rw [getElem?_without_skip other, there, Option.map_some]
    exact .here there' bound
  | @outside id around holder frame there unbound enclosing _ ih =>
    by_cases same : id = gone
    · rw [same, hollow.here] at there
      cases there
      cases enclosing
      rw [skip_of_lt hollow.inside] at ih
      rw [same, skip_gone]
      exact ih
    · have there' : (h.without gone outer).frames[skip gone outer id]? =
          some (frame.skipping gone outer) := by
        rw [getElem?_without_skip same, there, Option.map_some]
      exact .outside there' unbound (by simp [Frame.skipping, enclosing]) ih

/-- From every scope but the one taken out. -/
theorem Hollow.nearest_of_without (hollow : h.Hollow gone outer) {i j : FrameId}
    (near : (h.without gone outer).Nearest name i j) :
    ∀ id ≠ gone, skip gone outer id = i → ∃ holder, h.Nearest name id holder ∧
      skip gone outer holder = j := by
  have back {id : FrameId} {frame' : Frame} (other : id ≠ gone)
      (there : (h.without gone outer).frames[skip gone outer id]? = some frame') :
      ∃ frame, h.frames[id]? = some frame ∧ frame' = frame.skipping gone outer := by
    rw [getElem?_without_skip other] at there
    obtain ⟨frame, found, rfl⟩ := Option.map_eq_some_iff.mp there
    exact ⟨frame, found, rfl⟩
  induction near with
  | here there bound =>
    rintro id other rfl
    obtain ⟨frame, found, rfl⟩ := back other there
    exact ⟨id, .here found bound, rfl⟩
  | outside there unbound enclosing _ ih =>
    rintro id other rfl
    obtain ⟨frame, found, rfl⟩ := back other there
    obtain ⟨around, enclosing', rfl⟩ := Option.map_eq_some_iff.mp enclosing
    by_cases same : around = gone
    · -- The scope around is the one taken out, so the search goes on around that.
      obtain ⟨holder, near, rfl⟩ := ih outer (Nat.ne_of_lt hollow.inside)
        (by rw [same, skip_gone, skip_of_lt hollow.inside])
      have through : h.Nearest name gone holder := .outside hollow.here rfl rfl near
      exact ⟨holder, .outside found unbound enclosing' (same ▸ through), rfl⟩
    · obtain ⟨holder, near, rfl⟩ := ih around same rfl
      exact ⟨holder, .outside found unbound enclosing' near, rfl⟩

theorem Hollow.holder?_without (hollow : h.Hollow gone outer) (id : FrameId) (name : String) :
    (h.without gone outer).holder? (skip gone outer id) name =
      (h.holder? id name).map (skip gone outer) := by
  have found (j : FrameId) : (h.without gone outer).holder? (skip gone outer id) name = some j ↔
      ∃ holder, h.holder? id name = some holder ∧ skip gone outer holder = j := by
    simp only [holder?_eq_some_iff]
    constructor
    · intro near
      by_cases same : id = gone
      · rw [same, skip_gone] at near
        obtain ⟨holder, near', rfl⟩ := hollow.nearest_of_without near outer
          (Nat.ne_of_lt hollow.inside) (skip_of_lt hollow.inside)
        exact ⟨holder, same ▸ .outside hollow.here rfl rfl near', rfl⟩
      · exact hollow.nearest_of_without near id same rfl
    · rintro ⟨holder, near, rfl⟩
      exact hollow.nearest_without near
  apply Option.ext
  intro j
  rw [found, Option.map_eq_some_iff]

/-- What binds a name is not empty. -/
theorem Hollow.holder?_ne (hollow : h.Hollow gone outer)
    (found : h.holder? id name = some holder) : holder ≠ gone := by
  rintro rfl
  have bound := contains_of_holderWithin found
  rw [hollow.bindings_gone] at bound
  cases bound

theorem Hollow.lookup?_without (hollow : h.Hollow gone outer) (id : FrameId) (name : String) :
    (h.without gone outer).lookup? (skip gone outer id) name = h.lookup? id name := by
  rw [lookup?, lookup?, hollow.holder?_without]
  cases found : h.holder? id name with
  | none => rfl
  | some holder =>
    exact congrArg (·.get? name) (bindings_without (hollow.holder?_ne found))

/-! Lists, objects and functions are as before. -/

theorem items_without (id : ListId) : (h.without gone outer).items id = h.items id := rfl

theorem members_without (id : ObjectId) : (h.without gone outer).members id = h.members id := rfl

theorem function?_without (id : FunctionId) : (h.without gone outer).functions[id]? =
    h.functions[id]?.map (Callable.skipping gone outer) := by
  simp [without]

theorem functionText_without (id : FunctionId) :
    (h.without gone outer).functionText id = h.functionText id := by
  simp only [functionText, function?_without]
  cases h.functions[id]? with
  | none => rfl
  | some c => exact c.text_skipping

theorem textWithin_without (n : Nat) (writing : List Container) (payload : Payload) :
    (h.without gone outer).textWithin n writing payload = h.textWithin n writing payload := by
  induction n generalizing writing payload with
  | zero => cases payload <;> simp [textWithin, functionText_without]
  | succ n ih =>
    cases payload <;>
      simp [textWithin, functionText_without, ih, items_without, members_without]

theorem text_without (payload : Payload) :
    (h.without gone outer).text payload = h.text payload :=
  textWithin_without _ _ _

/-! What is made and changed later. -/

theorem Hollow.newFrame (hollow : h.Hollow gone outer) (frame : Frame) :
    (h.newFrame frame).2.Hollow gone outer := by
  have there := hollow.there
  refine ⟨?_, hollow.inside, ?_⟩
  · rw [Heap.newFrame, getElem?_push_ne (Nat.ne_of_lt there), hollow.here]
  · intro id before
    rw [Heap.newFrame, getElem?_push_ne (by omega)]
    exact hollow.older id before

theorem Hollow.newFrame_without (hollow : h.Hollow gone outer) (frame : Frame) :
    (h.newFrame frame).2.without gone outer =
      ((h.without gone outer).newFrame (frame.skipping gone outer)).2 := by
  have there : gone < h.frames.toList.length := by simpa using hollow.there
  simp [Heap.newFrame, without, List.eraseIdx_append_of_lt_length there]

theorem newFunction_without (h : Heap) (c : Callable) :
    (h.newFunction c).2.without gone outer =
      ((h.without gone outer).newFunction (c.skipping gone outer)).2 := by
  simp [Heap.newFunction, without]

theorem Hollow.modifyBindings (hollow : h.Hollow gone outer) (other : id ≠ gone)
    (change : Bindings → Bindings) : (h.modifyBindings id change).Hollow gone outer := by
  refine ⟨?_, hollow.inside, ?_⟩
  · rw [Heap.modifyBindings, Array.getElem?_modify, if_neg other, hollow.here]
  · intro i before frame found around enclosing
    rw [Heap.modifyBindings, Array.getElem?_modify] at found
    split at found
    · obtain ⟨frame', found', rfl⟩ := Option.map_eq_some_iff.mp found
      exact hollow.older i before _ found' around enclosing
    · exact hollow.older i before frame found around enclosing

theorem modifyBindings_without (other : id ≠ gone) (change : Bindings → Bindings) :
    (h.modifyBindings id change).without gone outer =
      (h.without gone outer).modifyBindings (skip gone outer id) change := by
  have frames (i : Nat) : ((h.modifyBindings id change).without gone outer).frames[i]? =
      ((h.without gone outer).modifyBindings (skip gone outer id) change).frames[i]? := by
    have place : (id = if i < gone then i else i + 1) ↔ skip gone outer id = i := by
      rw [skip, if_neg other]
      split <;> split <;> omega
    rw [getElem?_without]
    simp only [Heap.modifyBindings, Array.getElem?_modify, place]
    split
    · rw [getElem?_without]
      cases h.frames[if i < gone then i else i + 1]? <;> rfl
    · rw [getElem?_without]
  have same := Array.ext_getElem? frames
  simpa only [Heap.modifyBindings, without, Heap.mk.injEq, and_true] using same

end Heap

end SoftScript
