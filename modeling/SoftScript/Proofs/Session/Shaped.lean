import SoftScript.Proofs.Run.Access
import SoftScript.Proofs.Run.Chronicle

/-! The shape of objects. An object has the members that its literal declares, from the moment it is
made on; only what they hold can change. -/
namespace SoftScript

/-- The literals that objects were made by, in the order of time. -/
def Event.literals (told : List Event) : List (List Stmt) :=
  told.filterMap fun
    | .make declarations _ => some declarations
    | _ => none

@[simp] theorem Event.literals_append (told later : List Event) :
    literals (told ++ later) = literals told ++ literals later :=
  List.filterMap_append

@[simp] theorem Event.literals_make (declarations : List Stmt) (members : Bindings)
    (later : List Event) :
    literals (.make declarations members :: later) = declarations :: literals later :=
  rfl

namespace Run

variable {m : Machine}

/-- Objects come in the order of the literals they were made by, and have their shapes. -/
structure Shaped (told : List Event) (m : Machine) : Prop where
  count : m.heap.objects.size = (Event.literals told).length
  shape : ∀ (id : ObjectId) members, m.heap.objects[id]? = some members →
    ∃ declarations, (Event.literals told)[id]? = some declarations ∧ members.Shape declarations

theorem Shaped.make {past : List Event} {declarations : List Stmt} {members : Bindings}
    (shaped : Shaped past m) (made : members.MadeOf declarations) :
    Shaped (past ++ [.make declarations members])
      { m with heap := (m.heap.newObject members).2 } := by
  obtain ⟨count, shape⟩ := shaped
  have more : Event.literals (past ++ [.make declarations members]) =
      Event.literals past ++ [declarations] := Event.literals_append ..
  refine ⟨?_, ?_⟩
  · rw [more, List.length_append, ← count]
    exact Array.size_push ..
  · intro id members' found
    have found : (m.heap.objects.push members)[id]? = some members' := found
    rw [more]
    rw [Array.getElem?_push] at found
    split at found
    · rename_i isNew
      cases found
      exact ⟨declarations, by rw [isNew, count]; exact List.getElem?_concat_length .., made.toShape⟩
    · obtain ⟨declarations', known, same⟩ := shape id members' found
      obtain ⟨inside, _⟩ := List.getElem?_eq_some_iff.mp known
      exact ⟨declarations', by rwa [List.getElem?_append_left inside], same⟩

theorem Shaped.assign {past : List Event} (shaped : Shaped past m) (id : ObjectId) (member : Token)
    (value : Value) : Shaped (past ++ [.assign id member value])
      { m with heap := m.heap.modifyMembers id (·.modify member.lexeme fun _ => value) } := by
  obtain ⟨count, shape⟩ := shaped
  have same : Event.literals (past ++ [.assign id member value]) = Event.literals past := by
    rw [Event.literals_append]
    exact List.append_nil _
  refine ⟨?_, ?_⟩
  · rw [same, ← count]
    exact Array.size_modify ..
  · intro other members found
    have found : (m.heap.objects.modify id _)[other]? = some members := found
    rw [Array.getElem?_modify] at found
    rw [same]
    split at found
    · obtain ⟨old, known, rfl⟩ := Option.map_eq_some_iff.mp found
      obtain ⟨declarations, literal, names, ascending⟩ := shape other old known
      refine ⟨declarations, literal, ?_, ?_⟩
      · rwa [Bindings.names_modify]
      · rwa [Bindings.Ascending, Bindings.names_modify]
    · exact shape other members found

theorem shaped_chronicle : Chronicle Shaped where
  calm shaped _ objects _ := ⟨objects ▸ shaped.count, objects ▸ shaped.shape⟩
  print paren line shaped := by
    have same : Event.literals ([.print paren line] : List Event) = [] := rfl
    exact ⟨by simpa [same] using shaped.count, by simpa [same] using shaped.shape⟩
  make made shaped := shaped.make made
  assign value _ shaped := shaped.assign _ _ value
  rebind _ _ _ shaped := ⟨shaped.count, shaped.shape⟩
  bind _ _ shaped := ⟨shaped.count, shaped.shape⟩
  newFrame _ _ shaped := ⟨shaped.count, shaped.shape⟩

theorem shaped_start (output : Output) (clock : Nat → Integer) :
    Shaped [] (Machine.start output clock) := by
  have heap := Machine.heap_start output clock
  refine ⟨by rw [heap]; rfl, ?_⟩
  intro id members found
  rw [heap] at found
  cases found

theorem Shaped.ascending {told : List Event} (shaped : Shaped told m) (id : ObjectId) :
    (m.heap.members id).Ascending := by
  unfold Heap.members
  cases found : m.heap.objects[id]? with
  | none => exact List.Pairwise.nil
  | some members =>
    obtain ⟨_, _, same⟩ := shaped.shape id members found
    exact same.ascending

/-- The object that a literal makes is a new one, and the literal is told of at its place. -/
theorem literal_told {past told early : List Event} {k : Nat} {brace : Token}
    {declarations : List Stmt} {v : Value} {m' : Machine}
    (isTold : Told Shaped past told (k, ⟨.value (.object brace declarations), m⟩) early)
    (ran : evaluate k (.object brace declarations) m = .ok v m') :
    ∃ id, v = .of (.object id) ∧ m.heap.objects.size ≤ id ∧
      (Event.literals (past ++ told))[id]? = some declarations := by
  cases k with
  | zero => cases ran
  | succ k =>
    obtain ⟨members, m₁, built, made⟩ := bind_eq_ok ran
    cases made
    obtain ⟨⟨rest, within⟩, before, after⟩ := isTold
    have events : Stage.events (k + 1) ⟨.value (.object brace declarations), m⟩ =
        (Stage.parts k ⟨.value (.object brace declarations), m⟩).flatMap (Stage.events k) ++
          [.make declarations members] := by
      rw [Stage.events, Stage.ownEvents, built, thereafter]
    rw [events] at within after
    generalize (Stage.parts k _).flatMap (Stage.events k) = inner at within after
    -- There are as many objects as literals before this one.
    have count : m₁.heap.objects.size = (Event.literals (past ++ early ++ inner)).length := by
      have all : (Run.after (evaluate (k + 1) (.object brace declarations) m)).heap.objects.size =
          _ := after.count
      have ends : Event.literals ([] : List Event) = [] := rfl
      rw [ran, Run.after, ← List.append_assoc, ← List.append_assoc, Event.literals_append,
        Event.literals_make, ends, Array.size_push, List.length_append] at all
      exact Nat.succ.inj all
    refine ⟨_, rfl, ?_, ?_⟩
    · rw [before.count, count, Event.literals_append (past ++ early), List.length_append]
      exact Nat.le_add_right ..
    · have whole : Event.literals (past ++ told) =
          Event.literals (past ++ early ++ inner) ++ declarations :: Event.literals rest := by
        simp [← within]
      rw [whole, count, List.getElem?_append_right (Nat.le_refl _), Nat.sub_self,
        List.getElem?_cons_zero]

end Run

namespace Session

open Run

/-- Objects keep their shape. At all times of a session each object has exactly the names that its
literal declares, each once and in the ascending order of their bytes; the literal is told of at the
place of the object, and when it is evaluated the object it yields is the one at this place. Members
and items are found and changed as they should be: a member that is there can be assigned and is then
seen through all that refer to the object, by its name and by the rank of its name, while nothing
else changes; one that is missing cannot be assigned; and by an integer an object yields a member, and
a list an item, if and only if there is one at this position. -/
theorem objects_keep_shape :
    (∀ s : Session, s.Reached → ∃ past told, s.Recorded past told) ∧
    ∀ (s : Session) past told, s.Recorded past told → ∀ source,
      (Parse.ofSource source).isValid = true → ∀ n,
      let p := (Parse.ofSource source).statements
      let times := past ++ (times n p s.machine).map (.since told)
      let literals := Event.literals (told ++ events n p s.machine)
      (∀ begun ∈ course n p s.machine, ∀ brace declarations v m',
        begun.2.task = .value (.object brace declarations) →
        evaluate begun.1 (.object brace declarations) begun.2.machine = .ok v m' →
        ∃ id, v = .of (.object id) ∧ begun.2.machine.heap.objects.size ≤ id ∧
          literals[id]? = some declarations) ∧
      (∀ time ∈ times, ∀ id < time.machine.heap.objects.size, ∃ declarations,
        literals[id]? = some declarations ∧ (time.machine.heap.members id).names.Perm
          ((declarations.filterMap Stmt.declared?).map Token.lexeme) ∧
        ((time.machine.heap.members id).names.map Text.bytes).Pairwise (· < ·)) ∧
      (∀ time ∈ times, ∀ time' ∈ times, ∀ id, id < time.machine.heap.objects.size →
        id < time'.machine.heap.objects.size →
        (time'.machine.heap.members id).names = (time.machine.heap.members id).names) ∧
      ∀ time ∈ times, Accesses time.machine := by
  refine ⟨fun _ => Reached.recorded, ?_⟩
  intro s past told recorded source _ n p times literals
  have all := recorded.times shaped_chronicle shaped_start n p
  have shape (time : Time) (now : time ∈ times) (id : ObjectId)
      (there : id < time.machine.heap.objects.size) :
      ∃ declarations, literals[id]? = some declarations ∧
        (time.machine.heap.members id).Shape declarations := by
    obtain ⟨shaped, rest, isEarly⟩ := all time now
    have found : time.machine.heap.objects[id]? = some (time.machine.heap.members id) := by
      simp [Heap.members, there]
    obtain ⟨declarations, known, same⟩ := shaped.shape id _ found
    obtain ⟨inside, _⟩ := List.getElem?_eq_some_iff.mp known
    refine ⟨declarations, ?_, same⟩
    change (Event.literals (told ++ events n p s.machine))[id]? = _
    rw [← isEarly, Event.literals_append, List.getElem?_append_left inside, known]
  refine ⟨?_, ?_, ?_, ?_⟩
  · rintro ⟨k, task, m⟩ member brace declarations v m' rfl ran
    have held := (recorded.chronicle shaped_chronicle shaped_start).1
    obtain ⟨early, isTold⟩ := (shaped_chronicle.program held n p).2.1 _ member
    exact literal_told isTold ran
  · intro time now id there
    obtain ⟨declarations, known, same⟩ := shape time now id there
    exact ⟨declarations, known, same.names, same.ascending.bytes⟩
  · intro time now time' now' id there there'
    obtain ⟨declarations, known, same⟩ := shape time now id there
    obtain ⟨declarations', known', same'⟩ := shape time' now' id there'
    have one : declarations' = declarations := Option.some.inj (known'.symm.trans known)
    exact same'.ascending.names_eq same.ascending
      (same'.names.trans (one ▸ same.names.symm))
  · intro time now
    exact accesses (all time now).1.ascending

/-- An object that two variables refer to, and an assignment through one of them. -/
def sharedSample : String := "var o = {var b = [1]; fun a() {}}; var p = o; p.b = 2; print(o[1]);"

/-- The member declared first comes second, and the other variable sees what it has been given. -/
theorem objects_keep_shape_shared :
    let s := start .unlimited fun _ => 0
    let p := (Parse.ofSource sharedSample).statements
    s.Recorded [⟨[], s.machine⟩] [] ∧ (Parse.ofSource sharedSample).isValid = true ∧
    (after (interpret 20 p s.machine)).output.written = "2\n".toUTF8 ∧
    (∀ time ∈ times 20 p s.machine, 0 < time.machine.heap.objects.size →
      (time.machine.heap.members 0).names = ["a", "b"]) ∧
    Accesses (after (interpret 20 p s.machine)) := by
  intro s p
  obtain ⟨valid, printed, made, names⟩ : (Parse.ofSource sharedSample).isValid = true ∧
      (after (interpret 20 p s.machine)).output.written = "2\n".toUTF8 ∧
      0 < (after (interpret 20 p s.machine)).heap.objects.size ∧
      ((after (interpret 20 p s.machine)).heap.members 0).names = ["a", "b"] := by
    decide +kernel
  have recorded : s.Recorded [⟨[], s.machine⟩] [] := .start ..
  obtain ⟨_, _, same, access⟩ := objects_keep_shape.2 s _ _ recorded sharedSample valid 20
  have all (time : Time) (now : time ∈ times 20 p s.machine) :
      time ∈ [⟨[], s.machine⟩] ++ (times 20 p s.machine).map (.since []) :=
    List.mem_append_right _ (List.mem_map.mpr ⟨time, now, time.since_nil⟩)
  have final : ⟨events 20 p s.machine, after (interpret 20 p s.machine)⟩ ∈ times 20 p s.machine :=
    List.mem_append_right _ (List.mem_singleton_self _)
  refine ⟨recorded, valid, printed, ?_, access _ (all _ final)⟩
  intro time now there
  exact (same _ (all _ final) time (all time now) 0 made there).trans names

end Session

end SoftScript
