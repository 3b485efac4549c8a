import SoftScript.Proofs.Heap.Chain
import SoftScript.Proofs.Run.Declared

/-! Names by the scopes they stand in. A name is looked up and assigned in the nearest scope of the
chain that binds it, and defined in the scope itself. Chains share scopes, so each of these is told by
what every scope sees of it. -/
namespace SoftScript

/-- The machine in another scope. -/
def Machine.within (m : Machine) (f : FrameId) : Machine := { m with scope := f }

namespace Run

/-- What a name yields from a scope. -/
def yields (m : Machine) (f : FrameId) (n : Token) : Except Halt Value :=
  match lookup n (m.within f) with
  | .ok v _ => .ok v
  | .error e _ => .error e

variable {m m' : Machine} {f holder : FrameId} {scopes : List FrameId} {n : Token} {v : Value}

theorem yields_eq (m : Machine) (f : FrameId) (n : Token) : yields m f n =
    match m.heap.lookup? f n.lexeme with
    | some v => .ok v
    | none => .error (.fault ⟨.undefinedVariable n.lexeme, n⟩) := by
  unfold yields
  rw [lookup_apply]
  cases found : (m.within f).heap.lookup? (m.within f).scope n.lexeme with
  | none =>
    have found : m.heap.lookup? f n.lexeme = none := found
    rw [found]
  | some v =>
    have found : m.heap.lookup? f n.lexeme = some v := found
    rw [found]

/-- How a name is looked up from a scope with a chain. -/
structure Gets (m : Machine) (f : FrameId) (scopes : List FrameId) (n : Token) : Prop where
  nearest : ∀ holder, scopes.find? (m.heap.binds n.lexeme) = some holder →
    ∃ v, (m.heap.bindings holder).get? n.lexeme = some v ∧
      lookup n (m.within f) = .ok v (m.within f)
  missing : lookup n (m.within f) =
      .error (.fault ⟨.undefinedVariable n.lexeme, n⟩) (m.within f) ↔
    ∀ g ∈ scopes, m.heap.binds n.lexeme g = false

/-- A machine in which one binding has another payload. -/
structure Rebound (m : Machine) (f holder : FrameId) (n : Token) (payload : Payload)
    (m' : Machine) : Prop where
  machine : m' = { m.within f with heap := m'.heap }
  functions : m'.heap.functions = m.heap.functions
  lists : m'.heap.lists = m.heap.lists
  objects : m'.heap.objects = m.heap.objects
  chains : ∀ g l, m'.heap.Chain g l ↔ m.heap.Chain g l
  /-- The binding keeps its name. -/
  slot : ∃ old, (m.heap.bindings holder).get? n.lexeme = some old ∧
    (m'.heap.bindings holder).get? n.lexeme = some { old with payload }
  others : ∀ g x, ¬ (g = holder ∧ x = n.lexeme) →
    (m'.heap.bindings g).get? x = (m.heap.bindings g).get? x
  /-- It is seen from all scopes from which this binding is the nearest of the name. -/
  seen : ∀ g l (t : Token), m.heap.Chain g l → t.lexeme = n.lexeme →
    l.find? (m.heap.binds n.lexeme) = some holder →
    ∃ old, yields m g t = .ok old ∧ yields m' g t = .ok { old with payload }
  unseen : ∀ g l (t : Token), m.heap.Chain g l →
    ¬ (t.lexeme = n.lexeme ∧ l.find? (m.heap.binds n.lexeme) = some holder) →
    yields m' g t = yields m g t

/-- How a name is assigned from a scope with a chain. -/
structure Assigns (m : Machine) (f : FrameId) (scopes : List FrameId) (n : Token) (v : Value) :
    Prop where
  nearest : ∀ holder, scopes.find? (m.heap.binds n.lexeme) = some holder →
    ∃ m', assign n v (m.within f) = .ok () m' ∧ Rebound m f holder n v.payload m'
  missing : assign n v (m.within f) =
      .error (.fault ⟨.undefinedAssignment n.lexeme, n⟩) (m.within f) ↔
    ∀ g ∈ scopes, m.heap.binds n.lexeme g = false

/-- A machine in which a scope has one more binding. -/
structure Bound (m : Machine) (f : FrameId) (n : Token) (v : Value) (m' : Machine) : Prop where
  machine : m' = { m.within f with heap := m'.heap }
  functions : m'.heap.functions = m.heap.functions
  lists : m'.heap.lists = m.heap.lists
  objects : m'.heap.objects = m.heap.objects
  chains : ∀ g l, m'.heap.Chain g l ↔ m.heap.Chain g l
  slot : (m'.heap.bindings f).get? n.lexeme = some v
  others : ∀ g x, ¬ (g = f ∧ x = n.lexeme) →
    (m'.heap.bindings g).get? x = (m.heap.bindings g).get? x
  /-- It is seen from all scopes that meet it before any other binding of the name. -/
  seen : ∀ g l (t : Token), m.heap.Chain g l → t.lexeme = n.lexeme →
    m.heap.Meets n.lexeme f l → yields m' g t = .ok v
  unseen : ∀ g l (t : Token), m.heap.Chain g l →
    ¬ (t.lexeme = n.lexeme ∧ m.heap.Meets n.lexeme f l) → yields m' g t = yields m g t

/-- How a name is defined in a scope. -/
structure Defines (m : Machine) (f : FrameId) (n : Token) (v : Value) : Prop where
  fresh : m.heap.binds n.lexeme f = false →
    ∃ m', define n v (m.within f) = .ok () m' ∧ Bound m f n v m'
  twice : define n v (m.within f) =
      .error (.fault ⟨.duplicateDefinition n.lexeme, n⟩) (m.within f) ↔
    m.heap.binds n.lexeme f = true

theorem find?_eq_none_iff : scopes.find? (m.heap.binds n.lexeme) = none ↔
    ∀ g ∈ scopes, m.heap.binds n.lexeme g = false := by
  simp [List.find?_eq_none]

theorem gets (chain : m.heap.Chain f scopes) (n : Token) : Gets m f scopes n := by
  have looked : lookup n (m.within f) = match m.heap.lookup? f n.lexeme with
      | some v => .ok v (m.within f)
      | none => .error (.fault ⟨.undefinedVariable n.lexeme, n⟩) (m.within f) := lookup_apply n _
  have nearest (holder : FrameId) (found : scopes.find? (m.heap.binds n.lexeme) = some holder) :
      ∃ v, (m.heap.bindings holder).get? n.lexeme = some v ∧
        lookup n (m.within f) = .ok v (m.within f) := by
    obtain ⟨v, bound⟩ := Heap.get?_of_binds (List.find?_some found)
    refine ⟨v, bound, ?_⟩
    rw [looked, chain.lookup?, found, Option.bind_some, bound]
  refine ⟨nearest, ?_⟩
  rw [← find?_eq_none_iff]
  cases found : scopes.find? (m.heap.binds n.lexeme) with
  | none =>
    rw [looked, chain.lookup?, found]
    simp
  | some holder =>
    obtain ⟨v, _, ran⟩ := nearest holder found
    rw [ran]
    simp

theorem rebound_rebind (nearest : scopes.find? (m.heap.binds n.lexeme) = some holder)
    (chain : m.heap.Chain f scopes) (payload : Payload) :
    Rebound m f holder n payload
      { m.within f with heap := m.heap.rebind holder n.lexeme payload } := by
  have there : holder < m.heap.frames.size := chain.there _ (List.mem_of_find?_eq_some nearest)
  obtain ⟨old, bound⟩ := Heap.get?_of_binds (List.find?_some nearest)
  refine ⟨rfl, rfl, rfl, rfl, fun _ _ => Heap.chain_rebind .., ⟨old, bound, ?_⟩, ?_, ?_, ?_⟩
  · simp only [Heap.get?_rebind there, and_self, ↓reduceIte, bound, Option.map_some]
  · intro g x apart
    simp only [Heap.get?_rebind there, if_neg apart]
  · intro g l t chain' same found
    have looked : m.heap.lookup? g t.lexeme = some old := by
      rw [chain'.lookup?, same, found, Option.bind_some, bound]
    refine ⟨old, by rw [yields_eq, looked], ?_⟩
    simp only [yields_eq, Heap.lookup?_rebind there chain', same, found, and_self, ↓reduceIte]
    rw [← same, looked]
    rfl
  · intro g l t chain' unseen
    simp only [yields_eq, Heap.lookup?_rebind there chain', if_neg unseen]

theorem assign_within (m : Machine) (f : FrameId) (n : Token) (v : Value) :
    assign n v (m.within f) = match m.heap.holder? f n.lexeme with
      | some holder => .ok () { m.within f with heap := m.heap.rebind holder n.lexeme v.payload }
      | none => .error (.fault ⟨.undefinedAssignment n.lexeme, n⟩) (m.within f) :=
  assign_apply n v _

theorem assigns (chain : m.heap.Chain f scopes) (n : Token) (v : Value) :
    Assigns m f scopes n v := by
  have assigned := assign_within m f n v
  rw [chain.holder?] at assigned
  constructor
  · intro holder found
    rw [found] at assigned
    exact ⟨_, assigned, rebound_rebind found chain v.payload⟩
  · rw [← find?_eq_none_iff, assigned]
    cases scopes.find? (m.heap.binds n.lexeme) <;> simp

theorem bound_bind (there : f < m.heap.frames.size) (n : Token) (v : Value) :
    Bound m f n v { m.within f with heap := m.heap.bind f n.lexeme v } := by
  refine ⟨rfl, rfl, rfl, rfl, fun _ _ => Heap.chain_bind .., ?_, ?_, ?_, ?_⟩
  · simp only [Heap.get?_bind there, and_self, ↓reduceIte]
  · intro g x apart
    simp only [Heap.get?_bind there, if_neg apart]
  · intro g l t chain same meets
    simp only [yields_eq, same, Heap.lookup?_bind_meets there chain meets]
  · intro g l t chain unseen
    simp only [yields_eq, Heap.lookup?_bind_other there chain unseen]

theorem defines (there : f < m.heap.frames.size) (n : Token) (v : Value) : Defines m f n v := by
  have defined : define n v (m.within f) = if m.heap.binds n.lexeme f then
      .error (.fault ⟨.duplicateDefinition n.lexeme, n⟩) (m.within f)
    else .ok () { m.within f with heap := m.heap.bind f n.lexeme v } := define_apply n v _
  constructor
  · intro unbound
    rw [unbound] at defined
    exact ⟨_, defined, bound_bind there n v⟩
  · rw [defined]
    cases m.heap.binds n.lexeme f <;> simp

/-- Where no scope lies inside itself, a scope has one chain outwards. From there a name yields what the
nearest scope that binds it holds, and is undefined if and only if none does. Assigning it gives another
payload to this binding and changes no other, so what any name yields from any scope changes only where
this very binding is the nearest of the name; if there is none it fails and changes nothing. Defining it
fails, and changes nothing, if and only if the scope itself binds it; else it is then seen from all
scopes that meet it before any other binding of the name, and nothing else changes from any scope. -/
theorem names_lexical (nested : m.heap.Nested) (there : f < m.heap.frames.size) :
    ∃ scopes, (∀ l, m.heap.Chain f l ↔ l = scopes) ∧
      ∀ (n : Token) (v : Value), Gets m f scopes n ∧ Assigns m f scopes n v ∧ Defines m f n v := by
  obtain ⟨scopes, chain⟩ := nested.exists_chain there
  exact ⟨scopes, fun l => ⟨chain.unique, fun same => same ▸ chain⟩,
    fun n v => ⟨gets chain n, assigns chain n v, defines there n v⟩⟩

/-- Two scopes inside one that lies in the global scope. One of them binds the global name again. -/
def branching : Machine where
  heap := ⟨#[⟨[("a", .int 1)], none⟩, ⟨[], some 0⟩, ⟨[("a", .int 2)], some 1⟩, ⟨[], some 1⟩], #[], #[],
    #[]⟩
  globals := 0
  scope := 0
  depth := 0
  output := .unlimited
  clock := fun _ => 0
  readings := 0

theorem nested_branching : branching.heap.Nested := by
  apply Heap.nested_of_older
  intro inner outer inside
  have there : inner < 4 := inside.there
  have older : ∀ i < 4, ∀ outer ∈ (branching.heap.around? i).join, outer < i := by decide
  apply older inner there
  rw [inside]
  rfl

def nameA : Token := .read .identifier "a" 1 ⟨0, 1⟩

/-- The scope that binds the name again does not see the assignment, the one around it does. -/
theorem names_lexical_branching : ∃ m', assign nameA (.int 5) (branching.within 3) = .ok () m' ∧
    yields m' 1 nameA = .ok (.int 5) ∧ yields m' 2 nameA = .ok (.int 2) := by
  have chain3 : branching.heap.Chain 3 [3, 1, 0] := .inside rfl (.inside rfl (.outermost rfl))
  have chain2 : branching.heap.Chain 2 [2, 1, 0] := .inside rfl (.inside rfl (.outermost rfl))
  have chain1 : branching.heap.Chain 1 [1, 0] := .inside rfl (.outermost rfl)
  obtain ⟨scopes, chains, laws⟩ := names_lexical nested_branching (f := 3) (by decide)
  obtain rfl := (chains _).mp chain3
  obtain ⟨m', ran, rebound⟩ := (laws nameA (.int 5)).2.1.nearest 0 (by decide)
  refine ⟨m', ran, ?_, ?_⟩
  · obtain ⟨old, before, after⟩ := rebound.seen 1 _ nameA chain1 rfl (by decide)
    have isOld : yields branching 1 nameA = .ok (.int 1) := by rfl
    cases before.symm.trans isOld
    exact after
  · exact rebound.unseen 2 _ nameA chain2 (by decide)

end Run

end SoftScript
