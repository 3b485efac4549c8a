import SoftScript.Proofs.Run.Skipping

/-! Machines of which the second is the first without some empty scopes. Runs on them end in the
same way. So a block around statements that declare nothing makes no difference. -/
namespace SoftScript

/-- The second machine is the first one without some empty scopes, none of them one of the given
number of oldest scopes. -/
def Machine.Slims (oldest : Nat) : Machine → Machine → Prop :=
  Relation.ReflTransGen fun m m' => ∃ gone outer, oldest ≤ gone ∧ m.heap.Hollow gone outer ∧
    m' = m.without gone outer

/-- What two such machines have in common. -/
structure Machine.Matches (oldest : Nat) (m m' : Machine) : Prop where
  output : m'.output = m.output
  globals : m'.globals = m.globals
  depth : m'.depth = m.depth
  clock : m'.clock = m.clock
  readings : m'.readings = m.readings
  scope : m.scope < oldest → m'.scope = m.scope
  frames : ∀ id < oldest, m'.heap.frames[id]? = m.heap.frames[id]?
  lists : m'.heap.lists = m.heap.lists
  objects : m'.heap.objects = m.heap.objects
  text : ∀ payload, m'.heap.text payload = m.heap.text payload

namespace Machine.Slims

variable {oldest : Nat} {m m' : Machine}

theorem mono {few : Nat} (slims : m.Slims oldest m') (le : few ≤ oldest) : m.Slims few m' := by
  induction slims with
  | refl => exact .refl
  | tail _ step ih =>
    obtain ⟨gone, outer, later, hollow, same⟩ := step
    exact ih.tail ⟨gone, outer, Nat.le_trans le later, hollow, same⟩

theorem one {gone outer : Nat} (later : oldest ≤ gone) (hollow : m.heap.Hollow gone outer) :
    m.Slims oldest (m.without gone outer) :=
  .single ⟨gone, outer, later, hollow, rfl⟩

theorem isMatch (slims : m.Slims oldest m') : m.Matches oldest m' := by
  induction slims with
  | refl => exact ⟨rfl, rfl, rfl, rfl, rfl, fun _ => rfl, fun _ _ => rfl, rfl, rfl, fun _ => rfl⟩
  | tail _ step ih =>
    obtain ⟨gone, outer, later, hollow, rfl⟩ := step
    obtain ⟨output, globals, depth, clock, readings, scope, frames, lists, objects, text⟩ := ih
    refine ⟨output, globals, depth, clock, readings, ?_, ?_, lists, objects, ?_⟩
    · intro old
      rw [Machine.without, scope old, skip_of_lt (Nat.lt_of_lt_of_le old later)]
    · intro id old
      rw [← frames id old]
      exact hollow.getElem?_without (Nat.lt_of_lt_of_le old later)
    · intro payload
      rw [← text payload]
      exact Heap.text_without payload

/-- Back in an old scope. -/
theorem leave (slims : m.Slims oldest m') {scope : Nat} (old : scope < oldest) :
    Machine.Slims oldest { m with scope } { m' with scope } := by
  induction slims with
  | refl => exact .refl
  | tail _ step ih =>
    obtain ⟨gone, outer, later, hollow, rfl⟩ := step
    refine ih.tail ⟨gone, outer, later, hollow, ?_⟩
    simp only [Machine.without, skip_of_lt (Nat.lt_of_lt_of_le old later)]

end Machine.Slims

namespace Run

variable {α β : Type} {oldest : Nat} {m m' : Machine}

/-- Two runs that ended in the same way, on machines of which the second has fewer scopes. -/
inductive EndsSlim (oldest : Nat) : EStateM.Result Halt Machine α →
    EStateM.Result Halt Machine α → Prop
  | ok {m m' : Machine} : m.Slims oldest m' → EndsSlim oldest (.ok a m) (.ok a m')
  | error {m m' : Machine} : m.Slims oldest m' → EndsSlim oldest (.error e m) (.error e m')

namespace EndsSlim

variable {r r' r'' : EStateM.Result Halt Machine α}

theorem refl : ∀ r : EStateM.Result Halt Machine α, EndsSlim oldest r r
  | .ok _ _ => .ok .refl
  | .error _ _ => .error .refl

theorem trans (first : EndsSlim oldest r r') (second : EndsSlim oldest r' r'') :
    EndsSlim oldest r r'' := by
  cases first with
  | ok slims => cases second with | ok slims' => exact .ok (.trans slims slims')
  | error slims => cases second with | error slims' => exact .error (.trans slims slims')

theorem mono {few : Nat} (ends : EndsSlim oldest r r') (le : few ≤ oldest) :
    EndsSlim few r r' := by
  cases ends with
  | ok slims => exact .ok (slims.mono le)
  | error slims => exact .error (slims.mono le)

theorem slims (ends : EndsSlim oldest r r') : (after r).Slims oldest (after r') := by
  cases ends with
  | ok slims => exact slims
  | error slims => exact slims

theorem isOver_eq (ends : EndsSlim oldest r r') : isOver r = isOver r' := by
  cases ends with
  | ok => rfl
  | @error e => cases e <;> rfl

theorem leave (ends : EndsSlim oldest r r') {scope : Nat} (old : scope < oldest) :
    EndsSlim oldest (leaving ({ · with scope }) r) (leaving ({ · with scope }) r') := by
  cases ends with
  | ok slims => exact .ok (slims.leave old)
  | error slims => exact .error (slims.leave old)

theorem one {gone outer : Nat} (later : oldest ≤ gone) (hollow : (after r).heap.Hollow gone outer) :
    EndsSlim oldest r (leaving (·.without gone outer) r) := by
  cases r with
  | ok => exact .ok (.one later hollow)
  | error => exact .error (.one later hollow)

end EndsSlim

/-- In an old scope a run does the same on both machines. -/
theorem endsSlim_of_skips {x : Run α} (slims : m.Slims oldest m') (old : m.scope < oldest)
    (skips : ∀ gone outer, oldest ≤ gone → Skips gone outer m.scope x x) :
    EndsSlim oldest (x m) (x m') := by
  induction slims with
  | refl => exact .refl _
  | @tail b _ chain step ih =>
    obtain ⟨gone, outer, later, hollow, rfl⟩ := step
    have here : b.scope = m.scope := (Machine.Slims.isMatch chain).scope old
    obtain ⟨same, hollow', _⟩ := skips gone outer later b here hollow
    rw [same]
    exact ih.trans (.one later hollow')

theorem execute_slim (slims : m.Slims oldest m') (old : m.scope < oldest) (n : Nat) (s : Stmt) :
    EndsSlim oldest (execute n s m) (execute n s m') :=
  endsSlim_of_skips slims old fun gone outer later =>
    (skips_all gone outer n).2 s true m.scope fun here =>
      absurd (here ▸ old) (Nat.not_lt.mpr later)

/-! Blocks. -/

end Run

namespace Heap

variable {h : Heap}

theorem allocated_frame_iff {id : FrameId} : h.Allocated (.frame id) ↔ id < h.frames.size := by
  simp [Allocated, cell?]

/-- In an intact heap nothing lies in a scope that is yet to be made. -/
theorem Intact.enclosing_lt (intact : h.Intact) {id around : FrameId} {frame : Frame}
    (found : h.frames[id]? = some frame) (enclosing : frame.enclosing = some around) :
    around < h.frames.size := by
  refine allocated_frame_iff.mp (intact (.frame id) _ ⟨.frame frame, by simp [cell?, found], ?_⟩)
  simp [Content.cells, enclosing]

theorem Intact.hollow_new (intact : h.Intact) {outer : FrameId} (there : outer < h.frames.size) :
    (h.newFrame ⟨[], some outer⟩).2.Hollow h.frames.size outer where
  here := by simp [newFrame]
  inside := there
  older := by
    intro id before frame found around enclosing
    rw [newFrame, getElem?_push_ne (Nat.ne_of_lt before)] at found
    exact intact.enclosing_lt found enclosing

/-- A scope that was made and is taken out again leaves the heap as it was. -/
theorem Intact.without_new (intact : h.Intact) (frame : Frame) (outer : FrameId) :
    (h.newFrame frame).2.without h.frames.size outer = h := by
  have frames : h.frames.toList.map (Frame.skipping h.frames.size outer) = h.frames.toList := by
    refine (List.map_congr_left fun frame member => ?_).trans (List.map_id _)
    obtain ⟨id, found⟩ := List.mem_iff_getElem?.mp member
    rw [Array.getElem?_toList] at found
    obtain ⟨bindings, enclosing⟩ := frame
    cases enclosing with
    | none => rfl
    | some around => simp [Frame.skipping, skip_of_lt (intact.enclosing_lt found rfl)]
  have functions : h.functions.map (Callable.skipping h.frames.size outer) = h.functions := by
    apply Array.ext_getElem?
    intro id
    rw [Array.getElem?_map]
    cases found : h.functions[id]? with
    | none => rfl
    | some c =>
      cases c with
      | builtin => rfl
      | user declaration closure =>
        have there := allocated_frame_iff.mp (intact.closure found)
        simp [Callable.skipping, skip_of_lt there]
  simp [without, newFrame, List.eraseIdx_append_of_length_le, frames, functions]

end Heap

namespace Run

variable {m : Machine}

/-- A block makes no difference if nothing is declared in it. -/
theorem block_slim (formed : m.WellFormed) {p : List Stmt} {inside : Bool}
    (spare : ∀ s ∈ p, s.isDeclaration = false ∧
      s.upholds (fun _ => true) (fun _ => Stmt.sparesScope) inside = true) (n : Nat) :
    EndsSlim m.heap.frames.size (execute (n + 1) (.block p) m) (statements (execute n) p m) := by
  have there := Heap.allocated_frame_iff.mp formed.scope
  have hollow : (m.entering ⟨[], some m.scope⟩).heap.Hollow m.heap.frames.size m.scope :=
    formed.intact.hollow_new there
  have before : (m.entering ⟨[], some m.scope⟩).without m.heap.frames.size m.scope = m := by
    simp only [Machine.without, Machine.entering, skip_gone, formed.intact.without_new]
  obtain ⟨same, hollow', here⟩ := skips_statements (skips_all m.heap.frames.size m.scope n).2 inside
    (fun s member _ => spare s member) (m.entering ⟨[], some m.scope⟩) rfl hollow
  rw [before] at same
  have block : execute (n + 1) (.block p) m = leaving ({ · with scope := m.scope })
      (statements (execute n) p (m.entering ⟨[], some m.scope⟩)) := rfl
  -- Where the block comes back to the scope around it, the other run has never left that scope.
  have back (l : Machine) (here : l.scope = m.heap.frames.size)
      (hollow : l.heap.Hollow m.heap.frames.size m.scope) :
      Machine.Slims m.heap.frames.size { l with scope := m.scope }
        (l.without m.heap.frames.size m.scope) := by
    have same : l.without m.heap.frames.size m.scope =
        { l with scope := m.scope }.without m.heap.frames.size m.scope := by
      simp only [Machine.without, here, skip_gone, skip_of_lt there]
    rw [same]
    exact .one (Nat.le_refl _) hollow
  rw [block, same]
  cases ran : statements (execute n) p (m.entering ⟨[], some m.scope⟩) with
  | ok flow l =>
    rw [ran] at hollow' here
    exact .ok (back l here hollow')
  | error e l =>
    rw [ran] at hollow' here
    exact .error (back l here hollow')

end Run

end SoftScript
