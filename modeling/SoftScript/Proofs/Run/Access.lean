import SoftScript.Proofs.Heap.Members
import SoftScript.Proofs.Run.Blind

/-! Members by name and by rank. An object whose members are in order yields the same by the rank of a
name as by the name itself, through every value that refers to it, and assigning a member changes this
one member and nothing else. -/
namespace SoftScript

/-- How the message of an access error calls what was accessed. -/
def Fault.Cause.owner? : Fault.Cause → Option String
  | undefinedMember _ owner | indexNotInt owner _ | indexOutOfBounds owner _ _ => some owner
  | _ => none

namespace Heap

theorem members_modifyMembers (h : Heap) (id : ObjectId) (name : String) (change : Value → Value)
    (other : ObjectId) : (h.modifyMembers id (·.modify name change)).members other =
      if id = other then (h.members id).modify name change else h.members other := by
  by_cases same : id = other
  · subst same
    cases found : h.objects[id]? <;>
      simp [modifyMembers, members, Array.getElem?_modify, found, Bindings.modify]
  · simp [modifyMembers, members, Array.getElem?_modify, same]

end Heap

namespace Run

variable {m m' : Machine} {o index : Value} {id : ObjectId} {i : Integer} {α : Type}

/-- The member of an object by its name. -/
theorem dotAccess_object (isObject : o.payload = .object id) (dot member : Token) (m : Machine) :
    dotAccess o dot member m =
      match (m.heap.members id).get? member.lexeme with
      | some v => .ok v m
      | none => .error (.fault ⟨.undefinedMember member.lexeme o.owner, member⟩) m := by
  rw [dotAccess, isObject]
  change (match (m.heap.members id).get? member.lexeme with
    | some v => pure v | none => undefinedMember o member : Run Value) m = _
  cases (m.heap.members id).get? member.lexeme <;> rfl

theorem indexAccess_object (isObject : o.payload = .object id) (bracket : Token) (index : Value)
    (m : Machine) : indexAccess o bracket index m =
      itemAt o bracket index ((m.heap.members id).map Prod.snd).toArray m := by
  rw [indexAccess, isObject]
  rfl

theorem indexAccess_list {l : Value} {id : ListId} (isList : l.payload = .list id) (bracket : Token)
    (index : Value) (m : Machine) :
    indexAccess l bracket index m = itemAt l bracket index (m.heap.items id) m := by
  rw [indexAccess, isList]
  rfl

theorem toIndex?_bind_eq_some {f : Nat → Option α} {a : α} :
    i.toIndex?.bind f = some a ↔ 0 ≤ i.toInt ∧ f i.toInt.toNat = some a := by
  unfold Integer.toIndex?
  by_cases natural : 0 ≤ i.toInt
  · rw [if_pos natural, Option.bind_some]
    exact ⟨fun found => ⟨natural, found⟩, And.right⟩
  · rw [if_neg natural]
    exact ⟨(nomatch ·), fun found => absurd found.1 natural⟩

/-- An integer finds an item if it is a position of one. -/
theorem itemAt_eq_ok_iff (isInt : index.payload = .int i) (v : Value) (bracket : Token)
    (items : Array Value) (m : Machine) {item : Value} :
    itemAt v bracket index items m = .ok item m' ↔
      (0 ≤ i.toInt ∧ items[i.toInt.toNat]? = some item) ∧ m' = m := by
  have looked : itemAt v bracket index items m =
      match i.toIndex?.bind (items[·]?) with
      | some item => .ok item m
      | none => .error (.fault ⟨.indexOutOfBounds v.owner i items.size, bracket⟩) m := by
    rw [itemAt, isInt]
    change (match i.toIndex?.bind (items[·]?) with
      | some item => pure item | none => fail _ _ : Run Value) m = _
    cases i.toIndex?.bind (items[·]?) <;> rfl
  rw [looked, ← toIndex?_bind_eq_some]
  cases i.toIndex?.bind (items[·]?) with
  | none => simp
  | some found => simp [eq_comm]

theorem itemAt_succeeds_iff (isInt : index.payload = .int i) (v : Value) (bracket : Token)
    (items : Array Value) (m : Machine) :
    (∃ item m', itemAt v bracket index items m = .ok item m') ↔
      0 ≤ i.toInt ∧ i.toInt < items.size := by
  constructor
  · rintro ⟨item, m', found⟩
    obtain ⟨⟨natural, found⟩, _⟩ := (itemAt_eq_ok_iff isInt v bracket items m).mp found
    obtain ⟨inside, _⟩ := Array.getElem?_eq_some_iff.mp found
    exact ⟨natural, by omega⟩
  · rintro ⟨natural, inside⟩
    have inside : i.toInt.toNat < items.size := by omega
    exact ⟨_, m, (itemAt_eq_ok_iff isInt v bracket items m).mpr
      ⟨⟨natural, Array.getElem?_eq_getElem inside⟩, rfl⟩⟩

/-- By the rank of a name an object yields what it yields by the name. -/
theorem indexAccess_eq_dotAccess (isObject : o.payload = .object id)
    (ascending : (m.heap.members id).Ascending) (isInt : index.payload = .int i)
    (natural : 0 ≤ i.toInt) {member : Token}
    (rank : (m.heap.members id).names[i.toInt.toNat]? = some member.lexeme) (bracket dot : Token) :
    ∃ v, (m.heap.members id).get? member.lexeme = some v ∧
      indexAccess o bracket index m = .ok v m ∧ dotAccess o dot member m = .ok v m := by
  rw [Bindings.names, List.getElem?_map, Option.map_eq_some_iff] at rank
  obtain ⟨entry, found, name⟩ := rank
  have named : (m.heap.members id).get? member.lexeme = some entry.2 := name ▸ ascending.get? found
  refine ⟨entry.2, named, ?_, ?_⟩
  · rw [indexAccess_object isObject, itemAt_eq_ok_iff isInt]
    exact ⟨⟨natural, by rw [List.getElem?_toArray, List.getElem?_map, found, Option.map_some]⟩, rfl⟩
  · rw [dotAccess_object isObject, named]

/-- A machine in which one member of one object has been given a value. -/
structure Assigned (m : Machine) (id : ObjectId) (name : String) (value : Value) (m' : Machine) :
    Prop where
  machine : m' = { m with heap := m'.heap }
  frames : m'.heap.frames = m.heap.frames
  functions : m'.heap.functions = m.heap.functions
  lists : m'.heap.lists = m.heap.lists
  size : m'.heap.objects.size = m.heap.objects.size
  objects : ∀ other, other ≠ id → m'.heap.members other = m.heap.members other
  names : (m'.heap.members id).names = (m.heap.members id).names
  members : ∀ other, other ≠ name →
    (m'.heap.members id).get? other = (m.heap.members id).get? other
  /-- All that refer to the object see the value. -/
  byName : ∀ o dot (member : Token), o.payload = .object id → member.lexeme = name →
    dotAccess o dot member m' = .ok value m'
  byRank : ∀ o bracket index i, o.payload = .object id → index.payload = .int i →
    0 ≤ i.toInt → (m.heap.members id).names[i.toInt.toNat]? = some name →
    indexAccess o bracket index m' = .ok value m'

theorem assignMember_present (isObject : o.payload = .object id)
    (ascending : (m.heap.members id).Ascending) {member : Token}
    (present : member.lexeme ∈ (m.heap.members id).names) (dot : Token) (value : Value) :
    ∃ m', assignMember o dot member value m = .ok () m' ∧ Assigned m id member.lexeme value m' := by
  have there : (m.heap.members id).contains member.lexeme = true :=
    Bindings.contains_iff_mem_names.mpr present
  obtain ⟨m', left⟩ : ∃ m', m' =
      { m with heap := m.heap.modifyMembers id (·.modify member.lexeme fun _ => value) } := ⟨_, rfl⟩
  have changed (other : ObjectId) : m'.heap.members other = if id = other then
      (m.heap.members id).modify member.lexeme fun _ => value else m.heap.members other := by
    rw [left]
    exact m.heap.members_modifyMembers id member.lexeme _ other
  have here := changed id
  rw [if_pos rfl] at here
  have names : (m'.heap.members id).names = (m.heap.members id).names := by
    rw [here, Bindings.names_modify]
  have found : (m'.heap.members id).get? member.lexeme = some value := by
    obtain ⟨old, bound⟩ := Option.isSome_iff_exists.mp there
    rw [here, Bindings.get?_modify, if_pos rfl, bound, Option.map_some]
  refine ⟨m', ?_, by rw [left], by rw [left]; rfl, by rw [left]; rfl, by rw [left]; rfl, ?_, ?_,
    names, ?_, ?_, ?_⟩
  · rw [assignMember_apply, isObject, left]
    exact if_pos there
  · rw [left]
    simp [Heap.modifyMembers]
  · intro other apart
    rw [changed, if_neg (Ne.symm apart)]
  · intro other apart
    rw [here, Bindings.get?_modify, if_neg (Ne.symm apart)]
  · intro o' dot' member' refers same
    rw [dotAccess_object refers, same, found]
  · intro o' bracket index i refers isInt natural rank
    rw [← names] at rank
    have ascending' : (m'.heap.members id).Ascending := by
      rw [Bindings.Ascending, names]
      exact ascending
    obtain ⟨v, named, byRank, _⟩ :=
      indexAccess_eq_dotAccess refers ascending' isInt natural rank bracket dot
    rw [byRank, Option.some.inj (named.symm.trans found)]

theorem assignMember_absent (isObject : o.payload = .object id) {member : Token}
    (absent : member.lexeme ∉ (m.heap.members id).names) (dot : Token) (value : Value) :
    assignMember o dot member value m =
      .error (.fault ⟨.undefinedMember member.lexeme o.owner, member⟩) m := by
  rw [assignMember_apply, isObject]
  exact if_neg fun there => absent (Bindings.contains_iff_mem_names.mp there)

/-- How members and items are found and changed on a machine. -/
structure Accesses (m : Machine) : Prop where
  /-- A member that is there can be assigned. -/
  present : ∀ (o : Value) id dot (member : Token) value, o.payload = .object id →
    member.lexeme ∈ (m.heap.members id).names →
    ∃ m', assignMember o dot member value m = .ok () m' ∧ Assigned m id member.lexeme value m'
  /-- One that is missing cannot, and nothing changes. -/
  absent : ∀ (o : Value) id dot (member : Token) value, o.payload = .object id →
    member.lexeme ∉ (m.heap.members id).names → assignMember o dot member value m =
      .error (.fault ⟨.undefinedMember member.lexeme o.owner, member⟩) m
  /-- An object has a member at an integer if that is the rank of a name. -/
  ranks : ∀ (o : Value) id bracket (index : Value) i, o.payload = .object id →
    index.payload = .int i → ((∃ v m', indexAccess o bracket index m = .ok v m') ↔
      0 ≤ i.toInt ∧ i.toInt < (m.heap.members id).names.length)
  /-- By the rank of a name it yields what it yields by the name. -/
  ranked : ∀ (o : Value) id bracket (index : Value) i dot (member : Token),
    o.payload = .object id → index.payload = .int i → 0 ≤ i.toInt →
    (m.heap.members id).names[i.toInt.toNat]? = some member.lexeme →
    ∃ v, indexAccess o bracket index m = .ok v m ∧ dotAccess o dot member m = .ok v m
  /-- A list has an item at an integer if that is a position in it. -/
  positions : ∀ (l : Value) id bracket (index : Value) i, l.payload = .list id →
    index.payload = .int i → ((∃ v m', indexAccess l bracket index m = .ok v m') ↔
      0 ≤ i.toInt ∧ i.toInt < (m.heap.items id).size)
  items : ∀ (l : Value) id bracket (index : Value) i v, l.payload = .list id →
    index.payload = .int i → 0 ≤ i.toInt → (m.heap.items id)[i.toInt.toNat]? = some v →
    indexAccess l bracket index m = .ok v m

/-- It takes no more than members in order. -/
theorem accesses (ascending : ∀ id, (m.heap.members id).Ascending) : Accesses m where
  present _ id dot _ value isObject present :=
    assignMember_present isObject (ascending id) present dot value
  absent _ _ dot _ value isObject absent := assignMember_absent isObject absent dot value
  ranks o id bracket index i isObject isInt := by
    simp only [indexAccess_object isObject, itemAt_succeeds_iff isInt, List.size_toArray,
      List.length_map, Bindings.names]
  ranked o id bracket index i dot member isObject isInt natural rank := by
    obtain ⟨v, _, both⟩ :=
      indexAccess_eq_dotAccess isObject (ascending id) isInt natural rank bracket dot
    exact ⟨v, both⟩
  positions l id bracket index i isList isInt := by
    simp only [indexAccess_list isList, itemAt_succeeds_iff isInt]
  items l id bracket index i v isList isInt natural found := by
    rw [indexAccess_list isList, itemAt_eq_ok_iff isInt]
    exact ⟨⟨natural, found⟩, rfl⟩

/-! Access errors. -/

/-- Where messages call something by an owner, it is the owner of this value. -/
def Mentions (v : Value) (run : Run α) : Prop :=
  ∀ m fault m', run m = .error (.fault fault) m' → ∀ owner ∈ fault.cause.owner?, owner = v.owner

theorem mentions_of_ok {run : Run α} (v : Value) (ok : ∀ m, ∃ a m', run m = .ok a m') :
    Mentions v run := by
  intro m fault m' failed
  obtain ⟨a, m'', ended⟩ := ok m
  rw [ended] at failed
  contradiction

theorem mentions_pure (v : Value) (a : α) : Mentions v (pure a : Run α) :=
  mentions_of_ok v fun _ => ⟨_, _, rfl⟩

theorem mentions_fail {v : Value} {cause : Fault.Cause} (own : ∀ owner ∈ cause.owner?, owner = v.owner)
    (token : Token) : Mentions v (fail cause token : Run α) := by
  rintro m fault m' ⟨⟩
  exact own

theorem mentions_bind {β : Type} {v : Value} {x : Run α} {next : α → Run β} (first : Mentions v x)
    (second : ∀ a, Mentions v (next a)) : Mentions v (x >>= next) := by
  intro m fault m' ended
  rw [bind_apply] at ended
  split at ended
  · exact second _ _ _ _ ended
  · rename_i failed
    cases ended
    exact first m fault m' failed

theorem mentions_heap (v : Value) : Mentions v heap := mentions_of_ok v fun _ => ⟨_, _, rfl⟩

theorem mentions_undefinedMember (v : Value) (member : Token) :
    Mentions v (undefinedMember v member) :=
  mentions_fail (by simp [Fault.Cause.owner?]) member

theorem mentions_dotAccess (v : Value) (dot member : Token) : Mentions v (dotAccess v dot member) := by
  unfold dotAccess
  split
  · split
    · exact mentions_pure v _
    · exact mentions_undefinedMember v member
  · split
    · exact mentions_bind (mentions_heap v) fun _ => mentions_pure v _
    · split
      · exact mentions_of_ok v fun _ => ⟨_, _, rfl⟩
      · exact mentions_undefinedMember v member
  · apply mentions_bind (mentions_heap v)
    intro h
    split
    · exact mentions_pure v _
    · exact mentions_undefinedMember v member
  · exact mentions_fail (by simp [Fault.Cause.owner?]) dot

theorem mentions_itemAt (v : Value) (bracket : Token) (index : Value) (items : Array Value) :
    Mentions v (itemAt v bracket index items) := by
  unfold itemAt
  split
  · apply mentions_bind (mentions_of_ok v fun _ => ⟨_, _, rfl⟩)
    intro shown
    exact mentions_fail (by simp [Fault.Cause.owner?]) bracket
  · split
    · exact mentions_pure v _
    · exact mentions_fail (by simp [Fault.Cause.owner?]) bracket

theorem mentions_indexAccess (v : Value) (bracket : Token) (index : Value) :
    Mentions v (indexAccess v bracket index) := by
  unfold indexAccess
  split
  · exact mentions_bind (mentions_heap v) fun _ => mentions_itemAt v bracket index _
  · exact mentions_bind (mentions_heap v) fun _ => mentions_itemAt v bracket index _
  · exact mentions_fail (by simp [Fault.Cause.owner?]) bracket

theorem mentions_assignMember (v : Value) (dot member : Token) (value : Value) :
    Mentions v (assignMember v dot member value) := by
  unfold assignMember
  split
  · apply mentions_bind (mentions_heap v)
    intro h
    split
    · exact mentions_of_ok v fun _ => ⟨_, _, rfl⟩
    · exact mentions_bind (mentions_undefinedMember v member) fun _ => mentions_pure v _
  · exact mentions_fail (by simp [Fault.Cause.owner?]) dot

end Run

end SoftScript
