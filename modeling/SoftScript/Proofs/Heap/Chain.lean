import Mathlib.Data.Fintype.EquivFin
import Mathlib.Order.WellFounded
import SoftScript.Proofs.Heap.Nearest

/-! The chain of scopes from one scope outwards. Where no scope lies inside itself each scope has
exactly one chain, a name is found in the first scope of the chain that binds it, and a change of the
bindings of one scope is seen from those scopes whose chain comes to it first. -/
namespace SoftScript.Heap

variable {h h' : Heap} {id outer : FrameId} {name : String}

/-- The scope right around a scope, `some none` for one with none around it. -/
def around? (h : Heap) (id : FrameId) : Option (Option FrameId) := h.frames[id]?.map Frame.enclosing

/-- One scope lies right inside another. -/
def LiesIn (h : Heap) (inner outer : FrameId) : Prop := h.around? inner = some (some outer)

/-- Scopes lie inside scopes that there are, and none lies inside itself. -/
structure Nested (h : Heap) : Prop where
  there : ∀ {inner outer}, h.LiesIn inner outer → outer < h.frames.size
  acyclic : ∀ id, ¬ Relation.TransGen h.LiesIn id id

/-- The scopes from one outwards, up to one that lies in no other. -/
inductive Chain (h : Heap) : FrameId → List FrameId → Prop
  | outermost {id : FrameId} : h.around? id = some none → Chain h id [id]
  | inside {id outer : FrameId} {scopes : List FrameId} : h.LiesIn id outer → Chain h outer scopes →
    Chain h id (id :: scopes)

theorem LiesIn.there (inside : h.LiesIn id outer) : id < h.frames.size := by
  obtain ⟨frame, found, _⟩ := Option.map_eq_some_iff.mp inside
  exact (Array.getElem?_eq_some_iff.mp found).1

/-- Scopes that lie inside older ones only are nested. -/
theorem nested_of_older (older : ∀ {inner outer}, h.LiesIn inner outer → outer < inner) :
    h.Nested where
  there inside := Nat.lt_trans (older inside) inside.there
  acyclic id cycle := by
    have down : ∀ {a b}, Relation.TransGen h.LiesIn a b → b < a := by
      intro a b path
      induction path with
      | single inside => exact older inside
      | tail _ inside ih => exact Nat.lt_trans (older inside) ih
    exact Nat.lt_irrefl id (down cycle)

/-- Going outwards comes to an end. -/
theorem Nested.exists_chain (nested : h.Nested) (there : id < h.frames.size) :
    ∃ scopes, h.Chain id scopes := by
  let farther (a b : Fin h.frames.size) : Prop := Relation.TransGen h.LiesIn b a
  have trans : IsTrans _ farther := ⟨fun _ _ _ first second => second.trans first⟩
  have irrefl : Std.Irrefl farther := ⟨fun a => nested.acyclic a⟩
  have wellFounded : WellFounded farther := Finite.wellFounded_of_trans_of_irrefl farther
  suffices ∀ i : Fin h.frames.size, ∃ scopes, h.Chain i scopes from this ⟨id, there⟩
  intro i
  induction i using wellFounded.induction with
  | _ i ih =>
    cases link : h.around? i with
    | none => simp [around?] at link
    | some outer =>
      cases outer with
      | none => exact ⟨[i], .outermost link⟩
      | some outer =>
        obtain ⟨scopes, chain⟩ := ih ⟨outer, nested.there link⟩ (.single link)
        exact ⟨i :: scopes, .inside link chain⟩

theorem Chain.unique {scopes scopes' : List FrameId} (chain : h.Chain id scopes)
    (chain' : h.Chain id scopes') : scopes' = scopes := by
  induction chain generalizing scopes' with
  | outermost alone =>
    cases chain' with
    | outermost => rfl
    | inside link => cases alone.symm.trans link
  | inside link _ ih =>
    cases chain' with
    | outermost alone => cases alone.symm.trans link
    | inside link' later =>
      cases link.symm.trans link'
      rw [ih later]

theorem Chain.there {scopes : List FrameId} (chain : h.Chain id scopes) :
    ∀ g ∈ scopes, g < h.frames.size := by
  induction chain with
  | outermost alone =>
    obtain ⟨frame, found, _⟩ := Option.map_eq_some_iff.mp alone
    simpa using (Array.getElem?_eq_some_iff.mp found).1
  | inside link _ ih => exact List.forall_mem_cons.mpr ⟨link.there, ih⟩

/-- Only the links between scopes make the chains. -/
theorem Chain.of_around {scopes : List FrameId} (chain : h.Chain id scopes)
    (same : ∀ i, h'.around? i = h.around? i) : h'.Chain id scopes := by
  induction chain with
  | outermost alone => exact .outermost ((same _).trans alone)
  | inside link _ ih => exact .inside ((same _).trans link) ih

theorem around?_modifyBindings (h : Heap) (id : FrameId) (change : Bindings → Bindings)
    (i : FrameId) : (h.modifyBindings id change).around? i = h.around? i := by
  by_cases same : id = i
  · subst same
    simp [around?, modifyBindings, Array.getElem?_modify, Function.comp_def]
  · simp [around?, modifyBindings, Array.getElem?_modify, same]

theorem chain_modifyBindings (id : FrameId) (change : Bindings → Bindings) {i : FrameId}
    {scopes : List FrameId} : (h.modifyBindings id change).Chain i scopes ↔ h.Chain i scopes :=
  ⟨fun chain => chain.of_around fun i => (h.around?_modifyBindings id change i).symm,
    fun chain => chain.of_around (h.around?_modifyBindings id change)⟩

theorem chain_rebind (holder : FrameId) (name : String) (payload : Payload) {i : FrameId}
    {scopes : List FrameId} : (h.rebind holder name payload).Chain i scopes ↔ h.Chain i scopes :=
  chain_modifyBindings _ _

theorem chain_bind (id : FrameId) (name : String) (v : Value) {i : FrameId} {scopes : List FrameId} :
    (h.bind id name v).Chain i scopes ↔ h.Chain i scopes :=
  chain_modifyBindings _ _

/-! Looking names up along a chain. -/

/-- A scope binds a name. -/
def binds (h : Heap) (name : String) (id : FrameId) : Bool := (h.bindings id).contains name

theorem binds_of_found {frame : Frame} (found : h.frames[id]? = some frame) :
    h.binds name id = frame.bindings.contains name := by
  simp [binds, bindings, found]

theorem Chain.nearest_iff {scopes : List FrameId} {holder : FrameId} (chain : h.Chain id scopes) :
    h.Nearest name id holder ↔ scopes.find? (h.binds name) = some holder := by
  induction chain with
  | @outermost id alone =>
    obtain ⟨frame, found, none_⟩ := Option.map_eq_some_iff.mp alone
    constructor
    · rintro (⟨found', bound⟩ | ⟨found', _, some_, _⟩)
      · simp [binds_of_found found', bound]
      · cases found.symm.trans found'
        simp [none_] at some_
    · intro first
      obtain ⟨bound, here⟩ : h.binds name id = true ∧ id = holder := by
        simpa [List.find?_cons_eq_some] using first
      subst here
      exact .here found (by rwa [binds_of_found found] at bound)
  | @inside id outer scopes link _ ih =>
    obtain ⟨frame, found, some_⟩ := Option.map_eq_some_iff.mp link
    constructor
    · rintro (⟨found', bound⟩ | ⟨found', unbound, some', later⟩)
      · simp [binds_of_found found', bound]
      · cases found.symm.trans found'
        cases some_.symm.trans some'
        rw [List.find?_cons_of_neg (by simp [binds_of_found found, unbound])]
        exact ih.mp later
    · intro first
      cases bound : h.binds name id with
      | true =>
        rw [List.find?_cons_of_pos bound] at first
        cases first
        exact .here found (by rwa [binds_of_found found] at bound)
      | false =>
        rw [List.find?_cons_of_neg (by simp [bound])] at first
        exact .outside found (by rwa [binds_of_found found] at bound) some_ (ih.mpr first)

/-- The search for a name finds the first scope of the chain that binds it. -/
theorem Chain.holder? {scopes : List FrameId} (chain : h.Chain id scopes) (name : String) :
    h.holder? id name = scopes.find? (h.binds name) := by
  ext holder
  rw [holder?_eq_some_iff, chain.nearest_iff]

theorem Chain.lookup? {scopes : List FrameId} (chain : h.Chain id scopes) (name : String) :
    h.lookup? id name =
      (scopes.find? (h.binds name)).bind fun holder => (h.bindings holder).get? name := by
  rw [Heap.lookup?, chain.holder?]

theorem get?_of_binds (bound : h.binds name id = true) :
    ∃ v, (h.bindings id).get? name = some v :=
  Option.isSome_iff_exists.mp bound

/-! What assigning and defining change. -/

variable {holder : FrameId} {payload : Payload} {v : Value}

theorem get?_rebind (there : holder < h.frames.size) (i : FrameId) (x : String) :
    ((h.rebind holder name payload).bindings i).get? x = if i = holder ∧ x = name then
      ((h.bindings i).get? x).map fun slot => { slot with payload }
    else (h.bindings i).get? x := by
  rw [rebind, bindings_modifyBindings there]
  by_cases here : holder = i
  · subst here
    simp only [↓reduceIte, true_and, Bindings.get?_modify, @eq_comm _ x]
  · simp [here, Ne.symm here]

theorem binds_rebind (there : holder < h.frames.size) :
    (h.rebind holder name payload).binds = h.binds := by
  funext x i
  rw [binds, Bindings.contains, get?_rebind there]
  split
  · rw [Option.isSome_map]
    rfl
  · rfl

/-- Assigning a name is seen from where the scope that was changed is the nearest to bind the name. -/
theorem lookup?_rebind {scopes : List FrameId} {i : FrameId} (there : holder < h.frames.size)
    (chain : h.Chain i scopes) (x : String) :
    (h.rebind holder name payload).lookup? i x =
      if x = name ∧ scopes.find? (h.binds name) = some holder then
        (h.lookup? i x).map fun slot => { slot with payload }
      else h.lookup? i x := by
  have chain' : (h.rebind holder name payload).Chain i scopes := (chain_rebind ..).mpr chain
  rw [chain'.lookup?, chain.lookup?, binds_rebind there]
  cases found : scopes.find? (h.binds x) with
  | none => simp
  | some nearest =>
    rw [Option.bind_some, Option.bind_some, get?_rebind there]
    by_cases same : x = name
    · subst same
      simp [found]
    · simp [same]

theorem get?_bind (there : id < h.frames.size) (i : FrameId) (x : String) :
    ((h.bind id name v).bindings i).get? x =
      if i = id ∧ x = name then some v else (h.bindings i).get? x := by
  rw [bind, bindings_modifyBindings there]
  by_cases here : id = i
  · subst here
    simp only [↓reduceIte, true_and, Bindings.get?_insert, @eq_comm _ x]
  · simp [here, Ne.symm here]

theorem binds_bind (there : id < h.frames.size) (i : FrameId) (x : String) :
    (h.bind id name v).binds x i = (decide (i = id ∧ x = name) || h.binds x i) := by
  rw [binds, Bindings.contains, get?_bind there]
  by_cases here : i = id ∧ x = name <;> simp [here, binds, Bindings.contains]

/-- A chain comes to a scope before it comes to another one that binds a name. -/
def Meets (h : Heap) (name : String) (id : FrameId) (scopes : List FrameId) : Prop :=
  ∃ before after, scopes = before ++ id :: after ∧ ∀ g ∈ before, h.binds name g = false

theorem find?_bind_meets {scopes : List FrameId} (there : id < h.frames.size)
    (meets : h.Meets name id scopes) :
    scopes.find? ((h.bind id name v).binds name) = some id := by
  obtain ⟨before, after, rfl, unbound⟩ := meets
  induction before with
  | nil => simp [binds_bind there]
  | cons g before ih =>
    by_cases here : g = id
    · simp [here, binds_bind there]
    · have passed := unbound g List.mem_cons_self
      rw [List.cons_append, List.find?_cons_of_neg (by simp [binds_bind there, here, passed])]
      exact ih fun g member => unbound g (List.mem_cons_of_mem _ member)

theorem find?_bind_other {scopes : List FrameId} {x : String} (there : id < h.frames.size)
    (other : ¬ (x = name ∧ h.Meets name id scopes)) :
    scopes.find? ((h.bind id name v).binds x) = scopes.find? (h.binds x) := by
  induction scopes with
  | nil => rfl
  | cons g scopes ih =>
    cases bound : h.binds x g with
    | true => rw [List.find?_cons_of_pos (by simp [binds_bind there, bound]),
        List.find?_cons_of_pos bound]
    | false =>
      have fresh : ¬ (g = id ∧ x = name) := by
        rintro ⟨rfl, rfl⟩
        exact other ⟨rfl, [], scopes, rfl, by simp⟩
      rw [List.find?_cons_of_neg (by simp [binds_bind there, bound, fresh]),
        List.find?_cons_of_neg (by simp [bound])]
      apply ih
      rintro ⟨rfl, before, after, rfl, unbound⟩
      exact other ⟨rfl, g :: before, after, rfl, List.forall_mem_cons.mpr ⟨bound, unbound⟩⟩

/-- A new binding is seen from where its scope is met before any other one that binds the name. -/
theorem lookup?_bind_meets {scopes : List FrameId} {i : FrameId} (there : id < h.frames.size)
    (chain : h.Chain i scopes) (meets : h.Meets name id scopes) :
    (h.bind id name v).lookup? i name = some v := by
  have chain' : (h.bind id name v).Chain i scopes := (chain_bind ..).mpr chain
  rw [chain'.lookup?, find?_bind_meets there meets, Option.bind_some, get?_bind there,
    if_pos ⟨rfl, rfl⟩]

theorem lookup?_bind_other {scopes : List FrameId} {i : FrameId} {x : String}
    (there : id < h.frames.size) (chain : h.Chain i scopes)
    (other : ¬ (x = name ∧ h.Meets name id scopes)) :
    (h.bind id name v).lookup? i x = h.lookup? i x := by
  have chain' : (h.bind id name v).Chain i scopes := (chain_bind ..).mpr chain
  rw [chain'.lookup?, chain.lookup?, find?_bind_other there other]
  cases found : scopes.find? (h.binds x) with
  | none => rfl
  | some nearest =>
    -- The scope found is not the one that now binds the name.
    have apart : ¬ (nearest = id ∧ x = name) := by
      rintro ⟨rfl, rfl⟩
      obtain ⟨_, before, after, rfl, unbound⟩ := List.find?_eq_some_iff_append.mp found
      exact other ⟨rfl, before, after, rfl, by simpa using unbound⟩
    rw [Option.bind_some, Option.bind_some, get?_bind there, if_neg apart]

end SoftScript.Heap
