import SoftScript.Proofs.Run.Sound
import SoftScript.Proofs.Session.Shaped

/-! What values are known by. A variable keeps its name whatever is assigned to it. A member has its
name from the beginning, but an assignment replaces all of it, the name included: from then on the
member goes by the name of what it was assigned last. -/
namespace SoftScript

namespace Event

/-- The value that an event assigns to a member. -/
def assigned? (id : ObjectId) (name : String) : Event → Option Value
  | .assign id' member value => if id' = id ∧ member.lexeme = name then some value else none
  | _ => none

/-- The value that a member was assigned last. -/
def lastAssigned? (told : List Event) (id : ObjectId) (name : String) : Option Value :=
  (told.filterMap (assigned? id name)).getLast?

theorem lastAssigned?_concat (told : List Event) (event : Event) (id : ObjectId) (name : String) :
    lastAssigned? (told ++ [event]) id name =
      (event.assigned? id name).or (lastAssigned? told id name) := by
  rw [lastAssigned?, List.filterMap_append, List.getLast?_append]
  cases known : event.assigned? id name <;> simp [known, lastAssigned?]

end Event

open Event

namespace Machine

/-- The slots of the built-in functions. -/
def IsBuiltin (m : Machine) (id : FrameId) (name : String) : Prop :=
  id = m.globals ∧ name ∈ Native.globals.map Native.name

instance (m : Machine) (id : FrameId) (name : String) : Decidable (m.IsBuiltin id name) :=
  inferInstanceAs (Decidable (_ ∧ _))

/-- A slot of a scope has its own name, and that of a built-in function has none. -/
def NamesSlot (m : Machine) (id : FrameId) (slot : String × Value) : Prop :=
  if m.IsBuiltin id slot.1 then slot.2.name = none else slot.2.KnownBy slot.1

end Machine

/-- A member has its own name until it is assigned; then it is what it was assigned last. -/
def Event.Explains (told : List Event) (id : ObjectId) (name : String) (v : Value) : Prop :=
  match lastAssigned? told id name with
  | none => v.KnownBy name
  | some w => v = w

namespace Run

variable {told : List Event} {m m' : Machine}

/-- What the slots of scopes and the members of objects are known by, after all that has happened. -/
structure Named (told : List Event) (m : Machine) : Prop where
  natives : ∀ name ∈ Native.globals.map Native.name,
    (m.heap.bindings m.globals).contains name = true
  slots : ∀ id, ∀ slot ∈ m.heap.bindings id, m.NamesSlot id slot
  made : ∀ id name v, lastAssigned? told id name = some v → id < m.heap.objects.size
  members : ∀ id name v, (m.heap.members id).get? name = some v → Explains told id name v

/-- Scopes that keep what they bind, and in which every slot is as it should be. -/
theorem Named.scopes (named : Named told m) (globals : m'.globals = m.globals)
    (keeps : m.heap.Keeps m'.heap) (objects : m'.heap.objects = m.heap.objects)
    (slots : ∀ id, ∀ slot ∈ m'.heap.bindings id,
      slot ∈ m.heap.bindings id ∨ m.NamesSlot id slot) : Named told m' := by
  have members (id : ObjectId) : m'.heap.members id = m.heap.members id := by
    rw [Heap.members, Heap.members, objects]
  refine ⟨?_, ?_, objects ▸ named.made, ?_⟩
  · intro name builtin
    rw [globals]
    exact keeps.contains (named.natives name builtin)
  · intro id slot member
    simp only [Machine.NamesSlot, Machine.IsBuiltin, globals]
    rcases slots id slot member with before | now
    · exact named.slots id slot before
    · exact now
  · intro id name v found
    exact named.members id name v (members id ▸ found)

theorem Named.calm (named : Named told m) (frames : m'.heap.frames = m.heap.frames)
    (objects : m'.heap.objects = m.heap.objects) (globals : m'.globals = m.globals) :
    Named told m' := by
  refine named.scopes globals (Heap.Keeps.of_frames frames) objects ?_
  intro id slot member
  rw [Heap.bindings, frames] at member
  exact .inl member

/-- What happens apart from objects does not matter to their members. -/
theorem Named.tell {event : Event} (named : Named told m)
    (silent : ∀ id name, event.assigned? id name = none) : Named (told ++ [event]) m := by
  have same (id : ObjectId) (name : String) :
      lastAssigned? (told ++ [event]) id name = lastAssigned? told id name := by
    rw [lastAssigned?_concat, silent, Option.none_or]
  refine ⟨named.natives, named.slots, ?_, ?_⟩
  · intro id name v last
    exact named.made id name v (same id name ▸ last)
  · intro id name v found
    rw [Explains, same]
    exact named.members id name v found

theorem Named.make {declarations : List Stmt} {members : Bindings} (named : Named told m)
    (made : members.MadeOf declarations) : Named (told ++ [.make declarations members])
      { m with heap := (m.heap.newObject members).2 } := by
  have silent : ∀ id name, Event.assigned? id name (.make declarations members) = none :=
    fun _ _ => rfl
  have named := named.tell silent
  generalize told ++ [.make declarations members] = told at named
  refine ⟨named.natives, named.slots, ?_, ?_⟩
  · intro id name v last
    have there := named.made id name v last
    change id < (m.heap.objects.push members).size
    rw [Array.size_push]
    exact Nat.lt_succ_of_lt there
  · intro id name v found
    have found : ((m.heap.objects.push members)[id]?.getD []).get? name = some v := found
    rw [Array.getElem?_push] at found
    split at found
    · rename_i isNew
      -- Nothing has been assigned to an object that was not there.
      cases last : lastAssigned? told id name with
      | none =>
        rw [Explains, last]
        exact made.own (name, v) (Bindings.mem_of_get? found)
      | some w => exact absurd isNew (Nat.ne_of_lt (named.made id name w last))
    · exact named.members id name v found

theorem Named.assign (named : Named told m) (id : ObjectId) (member : Token) (value : Value)
    (there : (m.heap.members id).contains member.lexeme = true) :
    Named (told ++ [.assign id member value])
      { m with heap := m.heap.modifyMembers id (·.modify member.lexeme fun _ => value) } := by
  have last (id' : ObjectId) (name : String) :
      lastAssigned? (told ++ [.assign id member value]) id' name =
        if id = id' ∧ member.lexeme = name then some value else lastAssigned? told id' name := by
    rw [lastAssigned?_concat, assigned?]
    split <;> rfl
  refine ⟨named.natives, named.slots, ?_, ?_⟩
  · intro id' name v found
    change id' < (m.heap.objects.modify id _).size
    rw [Array.size_modify]
    rw [last] at found
    split at found
    · rename_i same
      rw [← same.1]
      by_contra beyond
      rw [Heap.members, Array.getElem?_eq_none (Nat.le_of_not_lt beyond)] at there
      cases there
    · exact named.made id' name v found
  · intro id' name v found
    rw [Heap.members_modifyMembers] at found
    rw [Explains, last]
    by_cases here : id = id'
    · subst here
      rw [if_pos rfl, Bindings.get?_modify] at found
      by_cases same : member.lexeme = name
      · rw [if_pos same] at found
        rw [if_pos ⟨rfl, same⟩]
        obtain ⟨_, _, rfl⟩ := Option.map_eq_some_iff.mp found
        rfl
      · rw [if_neg same] at found
        rw [if_neg fun both => same both.2]
        exact named.members id name v found
    · rw [if_neg here] at found
      rw [if_neg fun both => here both.1]
      exact named.members id' name v found

theorem Named.rebind (named : Named told m) (holder : FrameId) (name : String) (payload : Payload) :
    Named told { m with heap := m.heap.rebind holder name payload } := by
  refine named.scopes rfl (m.heap.keeps_rebind holder name payload) rfl ?_
  intro id slot member
  rcases Heap.mem_modifyBindings member with before | ⟨rfl, changed⟩
  · exact .inl before
  · obtain ⟨old, there, same⟩ := Bindings.mem_modify changed
    have kept : slot.2.name = old.name := by
      rcases same with same | same <;> rw [same]
    have before := named.slots id _ there
    unfold Machine.NamesSlot Value.KnownBy at before ⊢
    rw [kept]
    exact .inr before

theorem Named.bind {name : Token} {value : Value} (named : Named told m)
    (known : value.name = some name)
    (unbound : (m.heap.bindings m.scope).contains name.lexeme = false) :
    Named told { m with heap := m.heap.bind m.scope name.lexeme value } := by
  refine named.scopes rfl (m.heap.keeps_bind m.scope name.lexeme value) rfl ?_
  intro id slot member
  rcases Heap.mem_modifyBindings member with before | ⟨rfl, changed⟩
  · exact .inl before
  · rcases Bindings.mem_insert changed with rfl | old
    · -- The names of the built-in functions are bound already.
      have fresh : ¬ m.IsBuiltin m.scope name.lexeme := by
        rintro ⟨isGlobal, builtin⟩
        have bound := named.natives _ builtin
        rw [← isGlobal, unbound] at bound
        cases bound
      right
      rw [Machine.NamesSlot, if_neg fresh]
      exact ⟨name, known, rfl⟩
    · exact .inl old

theorem Named.newFrame {bound : Bindings} (named : Named told m) (enclosing : FrameId)
    (own : bound.OwnNamed) :
    Named told { m with heap := (m.heap.newFrame ⟨bound, some enclosing⟩).2 } := by
  refine named.scopes rfl (m.heap.keeps_newFrame _) rfl ?_
  intro id slot member
  rw [Heap.newFrame, Heap.bindings, Array.getElem?_push] at member
  split at member
  · rename_i frame found
    split at found
    · rename_i isNew
      cases found
      have there := Heap.allocated_of_contains (named.natives "clock" (by decide))
      have fresh : ¬ m.IsBuiltin id slot.1 := fun builtin =>
        Nat.lt_irrefl _ (isNew ▸ builtin.1 ▸ there)
      right
      rw [Machine.NamesSlot, if_neg fresh]
      exact own slot member
    · left
      rwa [Heap.bindings, found]
  · cases member

theorem named_chronicle : Chronicle Named where
  calm named frames objects globals := named.calm frames objects globals
  print _ _ named := named.tell fun _ _ => rfl
  make made named := named.make made
  assign value there named := named.assign _ _ value there
  rebind holder name payload named := named.rebind holder name payload
  bind known unbound named := named.bind known unbound
  newFrame enclosing own named := named.newFrame enclosing own

theorem named_start (output : Output) (clock : Nat → Integer) :
    Named [] (Machine.start output clock) := by
  have heap := Machine.heap_start output clock
  refine ⟨?_, ?_, ?_, ?_⟩
  · have isFirst : (Machine.start output clock).globals = 0 := rfl
    rw [heap, isFirst]
    decide
  · intro id slot member
    rw [heap] at member
    rcases id with _ | id
    · have builtin : (Machine.start output clock).IsBuiltin 0 slot.1 ∧ slot.2.name = none := by
        rcases List.mem_cons.mp member with rfl | later
        · exact ⟨⟨rfl, by decide⟩, rfl⟩
        · rw [List.mem_singleton.mp later]
          exact ⟨⟨rfl, by decide⟩, rfl⟩
      rw [Machine.NamesSlot, if_pos builtin.1]
      exact builtin.2
    · cases member
  · intro id name v last
    cases last
  · intro id name v found
    rw [heap] at found
    cases found

/-- What is read is called by the name of the place it is read from: always, if this is a variable; if
it is a member, as long as what it was assigned last is called so. -/
structure Reads (told : List Event) (m : Machine) : Prop where
  fromScope : ∀ (name : Token) v m', Token.isName name.lexeme = true → lookup name m = .ok v m' →
    ∃ holder, m.heap.holder? m.scope name.lexeme = some holder ∧
      v.owner = if m.IsBuiltin holder name.lexeme then v.payload.kind.name else name.lexeme
  fromObject : ∀ (o : Value) id dot (member : Token) v m', o.payload = .object id →
    Token.isName member.lexeme = true → dotAccess o dot member m = .ok v m' →
    (v.owner = member.lexeme ↔
      ∀ w ∈ lastAssigned? told id member.lexeme, w.owner = member.lexeme)

theorem explains_iff {id : ObjectId} {name : String} {v : Value}
    (explained : Explains told id name v) : (∀ w ∈ lastAssigned? told id name, v = w) ∧
      (v.KnownBy name ↔ ∀ w ∈ lastAssigned? told id name, w.KnownBy name) := by
  unfold Explains at explained
  cases last : lastAssigned? told id name with
  | none =>
    rw [last] at explained
    simpa using explained
  | some w =>
    rw [last] at explained
    simp [explained]

theorem ne_empty_of_isName {name : String} (isName : Token.isName name = true) : name ≠ "" := by
  rintro rfl
  simp [Token.isName] at isName

theorem Named.reads (named : Named told m) : Reads told m where
  fromScope name v m' isName ran := by
    rw [lookup_apply] at ran
    cases found : m.heap.lookup? m.scope name.lexeme with
    | none =>
      rw [found] at ran
      cases ran
    | some w =>
      rw [found] at ran
      cases ran
      obtain ⟨holder, held, bound⟩ := Option.bind_eq_some_iff.mp found
      refine ⟨holder, held, ?_⟩
      have slot := named.slots holder _ (Bindings.mem_of_get? bound)
      unfold Machine.NamesSlot at slot
      split at slot
      · rename_i builtin
        rw [if_pos builtin, Value.owner, slot]
      · rename_i declared
        rw [if_neg declared]
        exact slot.owner (ne_empty_of_isName isName)
  fromObject o id dot member v m' isObject isName ran := by
    rw [dotAccess_object isObject] at ran
    cases found : (m.heap.members id).get? member.lexeme with
    | none =>
      rw [found] at ran
      cases ran
    | some w =>
      rw [found] at ran
      cases ran
      have explained := named.members id _ _ found
      unfold Explains at explained
      cases last : lastAssigned? told id member.lexeme with
      | none =>
        rw [last] at explained
        simpa using explained.owner (ne_empty_of_isName isName)
      | some w =>
        rw [last] at explained
        subst explained
        simp

/-- The names that slots have, and those by which their values are known. -/
def labels (b : Bindings) : List (String × Option Token) := b.map fun slot => (slot.1, slot.2.name)

theorem labels_modify (b : Bindings) (name : String) (payload : Payload) :
    labels (b.modify name fun slot => { slot with payload }) = labels b := by
  induction b with
  | nil => rfl
  | cons slot rest ih =>
    rw [Bindings.modify]
    split
    · rfl
    · exact congrArg (_ :: ·) ih

/-- Assigning a variable renames nothing and leaves objects alone. -/
theorem labels_assign (name : Token) (value : Value) (m : Machine) (id : FrameId) :
    labels ((after (Run.assign name value m)).heap.bindings id) = labels (m.heap.bindings id) := by
  rw [assign_apply]
  cases found : m.heap.holder? m.scope name.lexeme with
  | none => rfl
  | some holder =>
    have there := Heap.allocated_of_contains (Heap.contains_of_holderWithin found)
    change labels ((m.heap.rebind holder name.lexeme value.payload).bindings id) = _
    rw [Heap.rebind, Heap.bindings_modifyBindings there]
    split
    · exact labels_modify _ _ _
    · rfl

theorem objects_assign (name : Token) (value : Value) (m : Machine) :
    (after (Run.assign name value m)).heap.objects = m.heap.objects := by
  rw [assign_apply]
  cases m.heap.holder? m.scope name.lexeme <;> rfl

end Run

/-- The names by which a task reads. -/
def Task.readsNames : Task → Bool
  | .value (.variable name) => Token.isName name.lexeme
  | .value (.access _ _ member) => Token.isName member.lexeme
  | _ => true

theorem Task.readsNames_of_formed {t : Task} (formed : Run.Fit Expr.isFormed Stmt.isFormed t) :
    t.readsNames = true := by
  cases t with
  | flow s => rfl
  | value e =>
    obtain ⟨inside, upheld⟩ := formed
    cases e <;> simp_all [readsNames, Expr.upholds, Expr.isFormed]

namespace Session

open Run

/-- Slots have names, which are kept by variables and lost by members. At all times of a session the
value in each slot of a scope is known by the name of the slot, but for those of the built-in
functions, which are known by none; and assigning a variable changes no name. A member is known by its
own name if and only if it has not been assigned or what it was assigned last is known by this name: it
is that value with the name it came with. So the owner that an access error mentions names the slot
that was read if this is a variable, and if it is a member under the same condition. -/
theorem slots_named {s : Session} (reached : s.Reached) {source : String}
    (valid : (Parse.ofSource source).isValid = true) (n : Nat) :
    let p := (Parse.ofSource source).statements
    (∀ begun ∈ course n p s.machine, begun.2.task.readsNames = true) ∧
    (∀ v dot member bracket index value, Mentions v (dotAccess v dot member) ∧
      Mentions v (indexAccess v bracket index) ∧ Mentions v (assignMember v dot member value)) ∧
    (∃ past told, s.Recorded past told) ∧
    ∀ past told, s.Recorded past told →
      ∀ time ∈ past ++ (times n p s.machine).map (.since told),
        (∀ id, ∀ slot ∈ time.machine.heap.bindings id,
          if time.machine.IsBuiltin id slot.1 then slot.2.name = none
          else slot.2.KnownBy slot.1) ∧
        (∀ name value, (after (Run.assign name value time.machine)).heap.objects =
            time.machine.heap.objects ∧
          ∀ id, labels ((after (Run.assign name value time.machine)).heap.bindings id) =
            labels (time.machine.heap.bindings id)) ∧
        (∀ id, ∀ slot ∈ time.machine.heap.members id,
          (∀ w ∈ lastAssigned? time.told id slot.1, slot.2 = w) ∧
          (slot.2.KnownBy slot.1 ↔
            ∀ w ∈ lastAssigned? time.told id slot.1, w.KnownBy slot.1)) ∧
        Reads time.told time.machine := by
  intro p
  refine ⟨?_, ?_, reached.recorded, ?_⟩
  · have formed := wellFormed_ofSource valid
    have pace := declares_pace Expr.isFormed Stmt.isFormed
    have ready : Ready Expr.isFormed Stmt.isFormed (fun _ => True) s.machine :=
      ⟨trivial, pace.declares_reached (fun _ => wellFormed_ofSource) reached⟩
    intro begun member
    exact Task.readsNames_of_formed (pace.program_course_ready ready formed n begun member).2
  · intro v dot member bracket index value
    exact ⟨mentions_dotAccess v dot member, mentions_indexAccess v bracket index,
      mentions_assignMember v dot member value⟩
  · intro past told recorded time now
    have named := (recorded.times named_chronicle named_start n p time now).1
    have shaped := (recorded.times shaped_chronicle shaped_start n p time now).1
    refine ⟨named.slots, ?_, ?_, named.reads⟩
    · intro name value
      exact ⟨objects_assign name value _, labels_assign name value _⟩
    · intro id slot member
      exact explains_iff (named.members id _ _ ((shaped.ascending id).get?_of_mem member))

/-- A list that another variable holds too is assigned to one of two members, and then indexed beyond
its length. -/
def renamedSample : String :=
  "var o = {var x = [1]; var y = 2;}; var z = [2]; o.x = z; o.x[5];"

/-- The error mentions the other variable. The member it is about has lost its name, and the one beside
it has kept its own. -/
theorem slots_named_renamed :
    let s := start .unlimited fun _ => 0
    let p := (Parse.ofSource renamedSample).statements
    let last := after (interpret 20 p s.machine)
    s.Recorded [⟨[], s.machine⟩] [] ∧ (Parse.ofSource renamedSample).isValid = true ∧
    (halt? (interpret 20 p s.machine)).map (fun halt =>
      halt matches .fault ⟨.indexOutOfBounds "z" 5 1, _⟩) = some true ∧
    (last.heap.members 0).names = ["x", "y"] ∧
    (∀ slot ∈ last.heap.members 0, slot.2.KnownBy slot.1 ↔ slot.1 = "y") ∧
    ∀ slot ∈ last.heap.bindings last.globals, slot.1 = "z" → slot.2.KnownBy "z" := by
  intro s p last
  obtain ⟨valid, halted, names, assigned, untouched⟩ :
      (Parse.ofSource renamedSample).isValid = true ∧
      (halt? (interpret 20 p s.machine)).map (fun halt =>
        halt matches .fault ⟨.indexOutOfBounds "z" 5 1, _⟩) = some true ∧
      (last.heap.members 0).names = ["x", "y"] ∧
      (lastAssigned? (events 20 p s.machine) 0 "x").map (fun w => w.name.map Token.lexeme) =
        some (some "z") ∧
      (lastAssigned? (events 20 p s.machine) 0 "y").isNone = true := by
    decide +kernel
  have recorded : s.Recorded [⟨[], s.machine⟩] [] := .start ..
  have final : (⟨events 20 p s.machine, last⟩ : Time) ∈
      [⟨[], s.machine⟩] ++ (times 20 p s.machine).map (.since []) :=
    List.mem_append_right _ (List.mem_map.mpr
      ⟨_, List.mem_append_right _ (List.mem_singleton_self _), Time.since_nil _⟩)
  obtain ⟨_, _, _, all⟩ := slots_named (.start ..) valid 20
  obtain ⟨slots, _, members, _⟩ := all _ _ recorded _ final
  refine ⟨recorded, valid, halted, names, ?_, ?_⟩
  · intro slot member
    rw [(members 0 slot member).2]
    have named : slot.1 ∈ ["x", "y"] := names ▸ List.mem_map_of_mem member
    rcases List.mem_cons.mp named with isX | isY
    · obtain ⟨w, isLast, known⟩ := Option.map_eq_some_iff.mp assigned
      have other : ¬ w.KnownBy "x" := by
        rintro ⟨t, isName, spelled⟩
        simp [isName, spelled] at known
      simp [isX, isLast, other]
    · rw [List.mem_singleton.mp isY]
      simp [Option.isNone_iff_eq_none.mp untouched]
  · intro slot member isZ
    have declared : ¬ last.IsBuiltin last.globals slot.1 := by
      rintro ⟨_, builtin⟩
      rw [isZ] at builtin
      exact absurd builtin (by decide)
    have own := slots _ slot member
    rwa [if_neg declared, isZ] at own

end Session

end SoftScript
