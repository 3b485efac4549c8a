import SoftScript.Eval.Basic
import SoftScript.Proofs.Heap.Region

/-! Runs within a region of the heap. However such a run ends, it has written in the region only, it
is back in the scope it began in, and all it hands over refers into the region. Each way to put runs
together keeps this, so it need only be seen of the steps that touch the heap. -/
namespace SoftScript

/-- What a run within a region makes of a machine. -/
structure Machine.Onward (S : Cell → Prop) (m m' : Machine) : Prop where
  heap : m.heap.Evolves S m'.heap
  scope : m'.scope = m.scope

theorem Machine.Onward.trans {S : Cell → Prop} {m m' m'' : Machine} (first : m.Onward S m')
    (second : m'.Onward S m'') : m.Onward S m'' :=
  ⟨first.heap.trans second.heap, second.scope.trans first.scope⟩

/-- The current scope is still there. -/
theorem Machine.Onward.here {S : Cell → Prop} {m m' : Machine} (onward : m.Onward S m')
    (here : m.heap.Holds S (.frame m.scope)) : m'.heap.Holds S (.frame m'.scope) := by
  rw [onward.scope]
  exact here.mono onward.heap

namespace Run

variable {α β : Type} {S : Cell → Prop} {m : Machine} {P : α → Heap → Prop} {Q : β → Heap → Prop}

/-- From a heap that is confined, a run stays within the region, and its result meets a condition
on the heap it leaves. -/
def Within (S : Cell → Prop) (run : Run α) (m : Machine) (P : α → Heap → Prop) : Prop :=
  m.heap.Confined S →
    match run m with
    | .ok a m' => m.Onward S m' ∧ P a m'.heap
    | .error _ m' => m.Onward S m'

/-- The result refers into the region only. -/
def Yields (S : Cell → Prop) (run : Run Value) (m : Machine) : Prop :=
  Within S run m fun v h => v.Held S h

/-- There is no result to speak of. -/
def Stays (S : Cell → Prop) (run : Run α) (m : Machine) : Prop :=
  Within S run m fun _ _ => True

theorem within_pure {a : α} (held : P a m.heap) : Within S (pure a) m P :=
  fun confined => ⟨⟨.refl confined, rfl⟩, held⟩

theorem within_throw (halt : Halt) : Within S (throw halt : Run α) m P :=
  fun confined => ⟨.refl confined, rfl⟩

theorem within_fail (cause : Fault.Cause) (token : Token) : Within S (fail cause token : Run α) m P :=
  within_throw _

theorem within_exhausted : Within S (exhausted : Run α) m P := within_throw _

theorem bind_apply (x : Run α) (f : α → Run β) (m : Machine) : (x >>= f) m =
    match x m with
    | .ok a m' => f a m'
    | .error e m' => .error e m' := by
  simp only [bind, EStateM.bind]
  cases x m <;> rfl

theorem Within.bind {x : Run α} {f : α → Run β} (first : Within S x m P)
    (later : ∀ a m', m.Onward S m' → P a m'.heap → Within S (f a) m' Q) :
    Within S (x >>= f) m Q := by
  intro confined
  have ran := first confined
  rw [bind_apply]
  cases ended : x m with
  | error e m' =>
    rw [ended] at ran
    exact ran
  | ok a m' =>
    rw [ended] at ran
    obtain ⟨onward, held⟩ := ran
    have ran' := later a m' onward held onward.heap.confined
    cases ended' : f a m' with
    | error e m'' =>
      simp only [ended'] at ran' ⊢
      exact onward.trans ran'
    | ok b m'' =>
      simp only [ended'] at ran' ⊢
      exact ⟨onward.trans ran'.1, ran'.2⟩

/-! Looking at the machine. -/

theorem within_get {f : Machine → Run β} (later : Within S (f m) m Q) : Within S (get >>= f) m Q :=
  later

theorem within_heap {f : Heap → Run β} (later : Within S (f m.heap) m Q) :
    Within S (heap >>= f) m Q :=
  later

theorem within_text {f : String → Run β} (v : Value) (later : ∀ text, Within S (f text) m Q) :
    Within S (text v >>= f) m Q :=
  later _

/-- What is said of a run may use that the heap it starts from is confined. -/
theorem within_of_confined {run : Run α} (h : m.heap.Confined S → Within S run m P) :
    Within S run m P :=
  fun confined => h confined confined

/-! The steps that touch the heap. -/

theorem within_newFrame {frame : Frame} (held : (Content.frame frame).Held S m.heap) :
    Within S (newFrame frame) m fun id h => h.Holds S (.frame id) := by
  intro confined
  have new : m.heap.cell? (.frame m.heap.frames.size) = none := by simp [Heap.cell?]
  obtain ⟨evolves, holds⟩ := (m.heap.writes_newFrame frame).evolves_new confined new held
  exact ⟨⟨evolves, rfl⟩, holds⟩

theorem yields_newFunction {callable : Callable}
    (held : ∀ c, callable.cell? = some c → m.heap.Holds S c) : Yields S (newFunction callable) m := by
  intro confined
  have new : m.heap.cell? (.function m.heap.functions.size) = none := by simp [Heap.cell?]
  obtain ⟨evolves, holds⟩ := (m.heap.writes_newFunction callable).evolves_new confined new
    (Content.held_function.mpr held)
  refine ⟨⟨evolves, rfl⟩, ?_⟩
  rintro c ⟨⟩
  exact holds

theorem yields_newList {items : Array Value} (held : ∀ item ∈ items, item.Held S m.heap) :
    Yields S (newList items) m := by
  intro confined
  have new : m.heap.cell? (.list m.heap.lists.size) = none := by simp [Heap.cell?]
  obtain ⟨evolves, holds⟩ := (m.heap.writes_newList items).evolves_new confined new
    (Content.held_list.mpr held)
  refine ⟨⟨evolves, rfl⟩, ?_⟩
  rintro c ⟨⟩
  exact holds

theorem yields_newObject {members : Bindings} (held : members.Held S m.heap) :
    Yields S (newObject members) m := by
  intro confined
  have new : m.heap.cell? (.object m.heap.objects.size) = none := by simp [Heap.cell?]
  obtain ⟨evolves, holds⟩ := (m.heap.writes_newObject members).evolves_new confined new
    (Content.held_object.mpr held)
  refine ⟨⟨evolves, rfl⟩, ?_⟩
  rintro c ⟨⟩
  exact holds

theorem stays_modifyItems {id : ListId} {f : Array Value → Array Value}
    (here : m.heap.Holds S (.list id)) (held : ∀ item ∈ f (m.heap.items id), item.Held S m.heap) :
    Stays S (modifyItems id f) m :=
  fun confined => ⟨⟨Heap.evolves_modifyItems confined here held, rfl⟩, trivial⟩

theorem stays_modifyMembers {id : ObjectId} {f : Bindings → Bindings}
    (here : m.heap.Holds S (.object id)) (held : (f (m.heap.members id)).Held S m.heap) :
    Stays S (modifyMembers id f) m :=
  fun confined => ⟨⟨Heap.evolves_modifyMembers confined here held, rfl⟩, trivial⟩

theorem yields_lookup (here : m.heap.Holds S (.frame m.scope)) (name : Token) :
    Yields S (lookup name) m := by
  apply within_of_confined
  intro confined
  apply within_get
  split
  · rename_i v found
    exact within_pure (Heap.held_lookup? confined here found)
  · exact within_fail _ _

/-- Putting back a machine whose heap has evolved. -/
theorem stays_set {m' : Machine} (onward : m.heap.Confined S → m.Onward S m') :
    Stays S (set m') m :=
  fun confined => ⟨onward confined, trivial⟩

theorem stays_define {v : Value} (here : m.heap.Holds S (.frame m.scope))
    (held : v.Held S m.heap) (name : Token) : Stays S (define name v) m := by
  apply within_get
  split
  · exact within_fail _ _
  · apply stays_set
    intro confined
    exact ⟨Heap.evolves_bind confined here held _, rfl⟩

theorem stays_assign {v : Value} (here : m.heap.Holds S (.frame m.scope))
    (held : v.Held S m.heap) (name : Token) : Stays S (assign name v) m := by
  apply within_get
  split
  · rename_i holder found
    apply stays_set
    intro confined
    have holds := Heap.holds_holderWithin confined here found
    exact ⟨Heap.evolves_rebind confined holds held _, rfl⟩
  · exact within_fail _ _

theorem stays_readClock : Within S readClock m fun _ _ => True :=
  fun confined => ⟨⟨.refl confined, rfl⟩, trivial⟩

theorem stays_write (text : String) (token : Token) : Stays S (write text token) m := by
  apply within_get
  rcases m.output.write text with _ | ⟨error, output⟩
  · exact within_exhausted
  · have put : Stays S (set { m with output }) m :=
      stays_set fun confined => ⟨.refl confined, rfl⟩
    apply Within.bind put
    intro _ m' _ _
    split
    · exact within_fail _ _
    · exact within_pure trivial

theorem Within.inScope {run : Run α} {frame : FrameId} (h : Within S run { m with scope := frame } P) :
    Within S (inScope frame run) m P := by
  intro confined
  have ran := h confined
  unfold Run.inScope
  cases ended : run { m with scope := frame } with
  | error e m' =>
    simp only [ended] at ran ⊢
    exact ⟨ran.heap, rfl⟩
  | ok a m' =>
    simp only [ended] at ran ⊢
    exact ⟨⟨ran.1.heap, rfl⟩, ran.2⟩

theorem Within.deeper {run : Run α} (h : Within S run { m with depth := m.depth + 1 } P) :
    Within S (deeper run) m P := by
  intro confined
  have ran := h confined
  unfold Run.deeper
  cases ended : run { m with depth := m.depth + 1 } with
  | error e m' =>
    simp only [ended] at ran ⊢
    exact ⟨ran.heap, ran.scope⟩
  | ok a m' =>
    simp only [ended] at ran ⊢
    exact ⟨⟨ran.1.heap, ran.1.scope⟩, ran.2⟩

end Run

end SoftScript
