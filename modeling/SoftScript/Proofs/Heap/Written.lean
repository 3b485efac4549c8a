import SoftScript.Proofs.Heap.Reach
import SoftScript.Value.Text

/-! How values are written. A writer takes the parts of a value in turn and keeps a record of the
containers it is in the middle of. It always comes to an end, since only so many containers can be
open at a time, and what it leaves is the text of the value. A container is marked exactly where it
is open already, so nothing is marked in a value without cycles, however much of it is shared. -/
namespace SoftScript

namespace Container

def cell : Container → Cell
  | list id => .list id
  | object id => .object id

def opening : Container → String
  | list _ => "["
  | object _ => "\x7b"

def closing : Container → String
  | list _ => "]"
  | object _ => "\x7d"

/-- What stands for a container inside itself. -/
def mark : Container → String
  | list _ => "[...]"
  | object _ => "\x7b...\x7d"

end Container

def Value.container? (v : Value) : Option Container :=
  match v.payload with
  | .list id => some (.list id)
  | .object id => some (.object id)
  | .int _ | .bool _ | .function _ | .string _ | .null => none

theorem Value.cell?_of_container? {v : Value} (same : v.container? = some c) :
    v.cell? = some c.cell := by
  rw [container?] at same
  split at same <;> cases same <;> simp_all [cell?, Container.cell]

/-- What is written at a time. A list of the string `...` looks like the mark of a list, but is
written in other strokes. -/
inductive Stroke where
  | piece (written : String)
  | opens (c : Container)
  | closes (c : Container)
  | marks (c : Container)
  deriving DecidableEq, Repr

namespace Stroke

def text : Stroke → String
  | piece written => written
  | opens c => c.opening
  | closes c => c.closing
  | marks c => c.mark

def texts (strokes : List Stroke) : String := String.join (strokes.map text)

@[simp] theorem texts_nil : texts [] = "" := rfl

@[simp] theorem texts_cons (stroke : Stroke) (rest : List Stroke) :
    texts (stroke :: rest) = stroke.text ++ texts rest := by
  simp [texts, String.join_cons]

@[simp] theorem texts_append (a b : List Stroke) : texts (a ++ b) = texts a ++ texts b := by
  simp [texts, String.join_append]

/-- The containers that are open after some strokes, the innermost first. -/
def openAfter : List Container → List Stroke → List Container
  | around, [] => around
  | around, .opens c :: rest => openAfter (c :: around) rest
  | around, .closes _ :: rest => openAfter around.tail rest
  | around, .piece _ :: rest | around, .marks _ :: rest => openAfter around rest

/-- In strokes after which some containers are open, what is opened is not open, what is closed is
the innermost open container, and what is marked is open. -/
def Nested : List Container → List Stroke → Prop
  | _, [] => True
  | around, .opens c :: rest => c ∉ around ∧ Nested (c :: around) rest
  | around, .closes c :: rest => around.head? = some c ∧ Nested around.tail rest
  | around, .marks c :: rest => c ∈ around ∧ Nested around rest
  | around, .piece _ :: rest => Nested around rest

theorem openAfter_append (around : List Container) (a b : List Stroke) :
    openAfter around (a ++ b) = openAfter (openAfter around a) b := by
  fun_induction openAfter around a <;> simp_all [openAfter]

theorem nested_append {around : List Container} {a b : List Stroke} (first : Nested around a)
    (second : Nested (openAfter around a) b) : Nested around (a ++ b) := by
  fun_induction Nested around a <;> simp_all [openAfter, Nested]

end Stroke

namespace Heap

/-- The text of a value that is no container. -/
def plainText (h : Heap) (v : Value) : String :=
  match v.payload with
  | .int value => value.text
  | .bool value => if value then "true" else "false"
  | .function id => h.functionText id
  | .string value => value
  | .null | .list _ | .object _ => "null"

/-- Commas in front of all entries but the first. -/
def separated : List (String × Value) → List (String × Value)
  | [] => []
  | first :: rest => first :: rest.map fun entry => (", " ++ entry.1, entry.2)

theorem mem_separated {l : List (String × Value)} {e : String × Value} (member : e ∈ separated l) :
    ∃ lead, (lead, e.2) ∈ l := by
  cases l with
  | nil => cases member
  | cons first rest =>
    rcases List.mem_cons.mp member with rfl | later
    · exact ⟨_, List.mem_cons_self⟩
    · obtain ⟨e', held, rfl⟩ := List.mem_map.mp later
      exact ⟨e'.1, List.mem_cons_of_mem _ held⟩

/-- What a container holds, and what is written in front of each. -/
def entries (h : Heap) : Container → List (String × Value)
  | .list id => separated ((h.items id).toList.map fun item => ("", item))
  | .object id => separated ((h.members id).map fun slot => (slot.1 ++ ": ", slot.2))

mutual
/-- Writing a value, with the record of the open containers before and after. -/
inductive WritesOut (h : Heap) : List Container → Value → List Stroke → List Container → Prop
  | plain : v.container? = none → WritesOut h record v [.piece (h.plainText v)] record
  | again : v.container? = some c → c ∈ record → WritesOut h record v [.marks c] record
  | whole : v.container? = some c → c ∉ record →
    WritesEach h (c :: record) (h.entries c) strokes record' →
    WritesOut h record v (.opens c :: strokes ++ [.closes c]) record'.tail

/-- Writing entries in turn. -/
inductive WritesEach (h : Heap) :
    List Container → List (String × Value) → List Stroke → List Container → Prop
  | nil : WritesEach h record [] [] record
  | cons : WritesOut h record v strokes between → WritesEach h between rest others record' →
    WritesEach h record ((lead, v) :: rest) (.piece lead :: strokes ++ others) record'
end

mutual
/-- Writing a value without any record: all that it holds is written in full. -/
inductive WritesPlainly (h : Heap) : Value → String → Prop
  | plain : v.container? = none → WritesPlainly h v (h.plainText v)
  | whole : v.container? = some c → WritesAllPlainly h (h.entries c) written →
    WritesPlainly h v (c.opening ++ written ++ c.closing)

inductive WritesAllPlainly (h : Heap) : List (String × Value) → String → Prop
  | nil : WritesAllPlainly h [] ""
  | cons : WritesPlainly h v written → WritesAllPlainly h rest more →
    WritesAllPlainly h ((lead, v) :: rest) (lead ++ written ++ more)
end

/-- A container stands in another one. -/
def Inside (h : Heap) (d c : Container) : Prop := ∃ e ∈ h.entries c, e.2.container? = some d

/-- No container that a value is or holds, however deep, is inside itself. -/
def Acyclic (h : Heap) (v : Value) : Prop :=
  ∀ c, v.container? = some c → ∀ d, Relation.ReflTransGen h.Inside d c →
    ¬ Relation.TransGen h.Inside d d

variable {h : Heap}

/-! The record. -/

mutual
/-- What is put on the record is taken off again. -/
theorem WritesOut.record_eq : h.WritesOut record v strokes record' → record' = record
  | .plain _ => rfl
  | .again _ _ => rfl
  | .whole _ _ inner => by rw [inner.record_eq, List.tail_cons]

theorem WritesEach.record_eq : h.WritesEach record l strokes record' → record' = record
  | .nil => rfl
  | .cons first rest => by rw [rest.record_eq, first.record_eq]
end

mutual
/-- The record has the containers that are open. -/
theorem WritesOut.openAfter : h.WritesOut record v strokes record' →
    Stroke.openAfter record strokes = record
  | .plain _ => rfl
  | .again _ _ => rfl
  | .whole _ _ inner => by
    rw [List.cons_append, Stroke.openAfter, Stroke.openAfter_append, inner.openAfter]
    rfl

theorem WritesEach.openAfter : h.WritesEach record l strokes record' →
    Stroke.openAfter record strokes = record
  | .nil => rfl
  | .cons first rest => by
    have rest := rest.openAfter
    rw [first.record_eq] at rest
    rw [List.cons_append, Stroke.openAfter, Stroke.openAfter_append, first.openAfter, rest]
end

mutual
theorem WritesOut.nested : h.WritesOut record v strokes record' → Stroke.Nested record strokes
  | .plain _ => trivial
  | .again _ here => ⟨here, trivial⟩
  | .whole _ new inner => by
    refine ⟨new, Stroke.nested_append inner.nested ?_⟩
    rw [inner.openAfter]
    exact ⟨rfl, trivial⟩

theorem WritesEach.nested : h.WritesEach record l strokes record' → Stroke.Nested record strokes
  | .nil => trivial
  | .cons first rest => by
    refine Stroke.nested_append (a := .piece _ :: _) first.nested ?_
    have rest := rest.nested
    rw [first.record_eq] at rest
    rw [Stroke.openAfter, first.openAfter]
    exact rest
end

mutual
/-- A value is written in one way. -/
theorem WritesOut.unique : h.WritesOut record v strokes record' →
    h.WritesOut record v others record'' → others = strokes ∧ record'' = record'
  | .plain no => fun other => by
    cases other <;> simp_all
  | .again same here => fun other => by
    cases other <;> simp_all
  | .whole same new inner => fun other => by
    cases other with
    | plain no => simp_all
    | again same' here => simp_all
    | whole same' _ inner' =>
      have one := Option.some.inj (same.symm.trans same')
      subst one
      obtain ⟨rfl, rfl⟩ := inner.unique inner'
      exact ⟨rfl, rfl⟩

theorem WritesEach.unique : h.WritesEach record l strokes record' →
    h.WritesEach record l others record'' → others = strokes ∧ record'' = record'
  | .nil => fun other => by
    cases other
    exact ⟨rfl, rfl⟩
  | .cons first rest => fun other => by
    cases other with
    | cons first' rest' =>
      have one := first.unique first'
      rw [one.2] at rest'
      obtain ⟨rfl, rfl⟩ := rest.unique rest'
      exact ⟨by rw [one.1], rfl⟩
end

/-! Writing comes to an end. -/

/-- What is written in front of some entries and their values, each by a function. -/
def entriesText (l : List (String × Value)) (inner : Value → String) : String :=
  String.join (l.map fun e => e.1 ++ inner e.2)

theorem entriesText_separated (l : List (String × Value)) (inner : Value → String) :
    entriesText (separated l) inner = ", ".intercalate (l.map fun e => e.1 ++ inner e.2) := by
  cases l with
  | nil => rfl
  | cons first rest =>
    rw [separated, entriesText, List.map_cons, List.map_cons, List.map_map, String.join_cons]
    induction rest generalizing first with
    | nil => simp
    | cons second rest ih =>
      have following := ih second
      rw [List.map_cons, List.map_cons, String.join_cons, String.intercalate_cons_cons, ← following]
      simp [String.append_assoc]

theorem textWithin_plain {v : Value} (none : v.container? = none) (n : Nat)
    (record : List Container) : h.textWithin n record v.payload = h.plainText v := by
  rw [Value.container?] at none
  rw [plainText]
  split at none <;> simp_all [textWithin]

theorem textWithin_again {v : Value} (same : v.container? = some c) (here : c ∈ record) (n : Nat) :
    h.textWithin n record v.payload = c.mark := by
  rw [Value.container?] at same
  split at same <;> cases n <;> simp_all [textWithin, Container.mark] <;> simp [← same]

theorem textWithin_whole {v : Value} (same : v.container? = some c) (new : c ∉ record) (n : Nat) :
    h.textWithin (n + 1) record v.payload = c.opening ++
      entriesText (h.entries c) (fun e => h.textWithin n (c :: record) e.payload) ++
      c.closing := by
  rw [Value.container?] at same
  split at same
  · next id list =>
    cases same
    rw [list, textWithin, if_neg (by simpa using new), entries, entriesText_separated, List.map_map]
    simp [Container.opening, Container.closing, Function.comp_def]
  · next id object =>
    cases same
    rw [object, textWithin, if_neg (by simpa using new), entries, entriesText_separated,
      List.map_map]
    simp [Container.opening, Container.closing, Function.comp_def]
  all_goals cases same

def containers (h : Heap) : List Container :=
  (List.range h.lists.size).map .list ++ (List.range h.objects.size).map .object

theorem mem_containers {c : Container} : c ∈ h.containers ↔ h.Allocated c.cell := by
  cases c <;> simp [containers, Container.cell, Allocated, cell?]

/-- How many containers can still be opened. -/
def unopened (h : Heap) (record : List Container) : Nat :=
  (h.containers.filter fun c => c ∉ record).length

theorem unopened_nil : h.unopened [] = h.lists.size + h.objects.size := by
  have all : h.containers.filter (fun c => c ∉ []) = h.containers :=
    List.filter_eq_self.mpr (by simp)
  rw [unopened, all]
  simp [containers]

theorem unopened_cons_lt (known : h.Allocated c.cell) (new : c ∉ record) :
    h.unopened (c :: record) < h.unopened record := by
  have fewer : h.containers.filter (· ∉ c :: record) =
      (h.containers.filter (· ∉ record)).filter (· ≠ c) := by
    rw [List.filter_filter]
    refine List.filter_congr fun d _ => ?_
    simp [not_or]
  rw [unopened, unopened, fewer, List.length_filter_lt_length_iff_exists]
  exact ⟨c, List.mem_filter.mpr ⟨mem_containers.mpr known, by simpa using new⟩, by simp⟩

/-- The containers in a container of an intact heap are there. -/
theorem Intact.entries (intact : h.Intact) {c : Container} {e : String × Value}
    (member : e ∈ h.entries c) (same : e.2.container? = some d) : h.Allocated d.cell := by
  have refers := Value.cell?_of_container? same
  cases c with
  | list id =>
    obtain ⟨lead, item⟩ := mem_separated member
    obtain ⟨v, held, one⟩ := List.mem_map.mp item
    obtain rfl : v = e.2 := congrArg (·.2) one
    have there : h.cell? (.list id) = some (.list (h.items id)) := by
      rw [items] at held ⊢
      cases found : h.lists[id]? <;> simp_all [cell?]
    exact intact (.list id) _ ⟨_, there, List.mem_filterMap.mpr ⟨_, held, refers⟩⟩
  | object id =>
    obtain ⟨lead, item⟩ := mem_separated member
    obtain ⟨slot, held, one⟩ := List.mem_map.mp item
    rw [← congrArg (·.2) one] at refers
    have there : h.cell? (.object id) = some (.object (h.members id)) := by
      rw [members] at held ⊢
      cases found : h.objects[id]? <;> simp_all [cell?]
    exact intact (.object id) _ ⟨_, there, List.mem_filterMap.mpr ⟨_, held, refers⟩⟩

/-- Entries are written in turn when each of their values can be written. -/
theorem exists_writesEach {record : List Container} {written : Value → String} :
    ∀ {l : List (String × Value)}, (∀ e ∈ l, ∃ strokes, h.WritesOut record e.2 strokes record ∧
      Stroke.texts strokes = written e.2) →
    ∃ strokes, h.WritesEach record l strokes record ∧
      Stroke.texts strokes = entriesText l written
  | [], _ => ⟨[], .nil, rfl⟩
  | (lead, v) :: rest, each => by
    obtain ⟨strokes, first, shown⟩ := each _ List.mem_cons_self
    obtain ⟨others, following, shown'⟩ :=
      exists_writesEach fun e member => each e (List.mem_cons_of_mem _ member)
    refine ⟨_, .cons first following, ?_⟩
    simp [shown, shown', entriesText, Stroke.text, String.append_assoc, String.join_cons]

/-- The writer has nothing to open at a value that is no container or is open already. -/
theorem exists_writesOut_of_open {record : List Container} {v : Value}
    (shut : ∀ c, v.container? = some c → c ∈ record) (n : Nat) :
    ∃ strokes, h.WritesOut record v strokes record ∧
      Stroke.texts strokes = h.textWithin n record v.payload := by
  cases same : v.container? with
  | none => exact ⟨_, .plain same, by simp [textWithin_plain same, Stroke.text]⟩
  | some c =>
    have here := shut c same
    exact ⟨_, .again same here, by simp [textWithin_again same here, Stroke.text]⟩

/-- With no more containers left to open than the number, the writer comes to an end and leaves
the text within that number. -/
theorem exists_writesOut (intact : h.Intact) (n : Nat) : ∀ {record : List Container} {v : Value},
    h.unopened record ≤ n → (∀ c, v.container? = some c → h.Allocated c.cell) →
    ∃ strokes, h.WritesOut record v strokes record ∧
      Stroke.texts strokes = h.textWithin n record v.payload := by
  induction n with
  | zero =>
    intro record v few known
    refine exists_writesOut_of_open (fun c same => ?_) 0
    refine Decidable.byContradiction fun new => ?_
    have fewer := unopened_cons_lt (known c same) new
    omega
  | succ n ih =>
    intro record v few known
    by_cases shut : ∀ c, v.container? = some c → c ∈ record
    · exact exists_writesOut_of_open shut (n + 1)
    · obtain ⟨c, same, new⟩ : ∃ c, v.container? = some c ∧ c ∉ record := by simpa using shut
      have fewer := unopened_cons_lt (known c same) new
      obtain ⟨strokes, inner, shown⟩ :
          ∃ strokes, h.WritesEach (c :: record) (h.entries c) strokes (c :: record) ∧
            Stroke.texts strokes =
              entriesText (h.entries c) fun v => h.textWithin n (c :: record) v.payload :=
        exists_writesEach fun e member => ih (by omega) fun d => intact.entries member
      refine ⟨_, .whole same new inner, ?_⟩
      simp [textWithin_whole same new, shown, Stroke.text, String.append_assoc]

/-! Marks and cycles. -/

mutual
/-- What is marked stands in itself, if all that is on the record holds the value. -/
theorem WritesOut.marked : h.WritesOut record v strokes record' → .marks m ∈ strokes →
    (∀ c ∈ record, ∀ d, v.container? = some d → Relation.TransGen h.Inside d c) →
    Relation.TransGen h.Inside m m ∧
      ∃ c, v.container? = some c ∧ Relation.ReflTransGen h.Inside m c
  | .plain _, marked, _ => by simp at marked
  | .again (c := c) same here, marked, held => by
    obtain rfl : m = c := by simpa using marked
    exact ⟨held m here m same, m, same, .refl⟩
  | .whole (c := c) same _ inner, marked, held => by
    have deeper : ∀ b ∈ c :: record, ∀ e ∈ h.entries c, ∀ d, e.2.container? = some d →
        Relation.TransGen h.Inside d b := by
      intro b here e member d same'
      have step : h.Inside d c := ⟨e, member, same'⟩
      rcases List.mem_cons.mp here with rfl | before
      · exact .single step
      · exact .trans (.single step) (held b before c same)
    obtain ⟨cycle, e, member, d, same', reach⟩ := inner.marked (by simpa using marked) deeper
    exact ⟨cycle, c, same, reach.tail ⟨e, member, same'⟩⟩

theorem WritesEach.marked : h.WritesEach record l strokes record' → .marks m ∈ strokes →
    (∀ c ∈ record, ∀ e ∈ l, ∀ d, e.2.container? = some d → Relation.TransGen h.Inside d c) →
    Relation.TransGen h.Inside m m ∧
      ∃ e ∈ l, ∃ c, e.2.container? = some c ∧ Relation.ReflTransGen h.Inside m c
  | .nil, marked, _ => by cases marked
  | .cons first rest, marked, held => by
    simp only [List.cons_append, List.mem_cons, reduceCtorEq, false_or, List.mem_append] at marked
    rcases marked with early | later
    · obtain ⟨cycle, reach⟩ := first.marked early fun c here => held c here _ List.mem_cons_self
      exact ⟨cycle, _, List.mem_cons_self, reach⟩
    · obtain ⟨cycle, e, member, reach⟩ := rest.marked later fun c here e member =>
        held c (first.record_eq ▸ here) e (List.mem_cons_of_mem _ member)
      exact ⟨cycle, e, List.mem_cons_of_mem _ member, reach⟩
end

mutual
/-- Where nothing is marked, no record is needed. -/
theorem WritesOut.plainly : h.WritesOut record v strokes record' → (∀ c, .marks c ∉ strokes) →
    h.WritesPlainly v (Stroke.texts strokes)
  | .plain no, _ => by
    have done := WritesPlainly.plain (h := h) no
    simpa [Stroke.text] using done
  | .again (c := c) _ _, unmarked => absurd (List.mem_singleton_self _) (unmarked c)
  | .whole same _ inner, unmarked => by
    have within := inner.plainly fun c here => unmarked c (by simp [here])
    have done := WritesPlainly.whole same within
    simpa [Stroke.text, String.append_assoc] using done

theorem WritesEach.plainly : h.WritesEach record l strokes record' → (∀ c, .marks c ∉ strokes) →
    h.WritesAllPlainly l (Stroke.texts strokes)
  | .nil, _ => .nil
  | .cons first rest, unmarked => by
    have one := first.plainly fun c here => unmarked c (by simp [here])
    have more := rest.plainly fun c here => unmarked c (by simp [here])
    rw [List.cons_append, Stroke.texts_cons, Stroke.texts_append, ← String.append_assoc]
    exact .cons one more
end

mutual
theorem WritesPlainly.unique : h.WritesPlainly v s → h.WritesPlainly v s' → s' = s
  | .plain no => fun other => by
    cases other <;> simp_all
  | .whole same inner => fun other => by
    cases other with
    | plain no => simp_all
    | whole same' inner' =>
      have one := Option.some.inj (same.symm.trans same')
      subst one
      rw [inner.unique inner']

theorem WritesAllPlainly.unique : h.WritesAllPlainly l s → h.WritesAllPlainly l s' → s' = s
  | .nil => fun other => by
    cases other
    rfl
  | .cons first rest => fun other => by
    cases other with
    | cons first' rest' => rw [first.unique first', rest.unique rest']
end

mutual
/-- What is written in full has no endless way down. -/
theorem WritesPlainly.acc : h.WritesPlainly v s → ∀ c, v.container? = some c → Acc h.Inside c
  | .plain no, c, same => by simp_all
  | .whole (c := b) same' inner, c, same => by
    have one := Option.some.inj (same'.symm.trans same)
    subst one
    exact ⟨b, fun d ⟨e, member, inside⟩ => inner.acc e member d inside⟩

theorem WritesAllPlainly.acc : h.WritesAllPlainly l s → ∀ e ∈ l, ∀ c, e.2.container? = some c →
    Acc h.Inside c
  | .nil, _, member, _, _ => by cases member
  | .cons first rest, e, member, c, same => by
    rcases List.mem_cons.mp member with rfl | later
    · exact first.acc c same
    · exact rest.acc e later c same
end

theorem not_transGen_of_acc {α : Type} {r : α → α → Prop} {a : α} (acc : Acc r a) :
    ¬ Relation.TransGen r a a := by
  induction acc with
  | intro a _ ih =>
    intro cycle
    obtain ⟨b, way, step⟩ := Relation.TransGen.tail'_iff.mp cycle
    exact ih b step (.head' step way)

theorem WritesPlainly.acyclic (written : h.WritesPlainly v s) : h.Acyclic v := by
  intro c same d reach
  have acc : Acc h.Inside d := by
    induction reach using Relation.ReflTransGen.head_induction_on with
    | refl => exact written.acc c same
    | head step _ ih => exact ih.inv step
  exact not_transGen_of_acc acc

/-- A value of an intact heap is always written to an end, in one way and to its text, the record
being empty again. Containers are marked where they are open already and opened elsewhere. Nothing
is marked just when no container is inside itself, and just then the value can be written without
a record, to the same text. -/
theorem values_written {v : Value} (intact : h.Intact)
    (known : ∀ c, v.container? = some c → h.Allocated c.cell) :
    (∃ strokes, h.WritesOut [] v strokes [] ∧
      (∀ others record, h.WritesOut [] v others record → others = strokes ∧ record = []) ∧
      Stroke.texts strokes = h.text v.payload ∧ Stroke.Nested [] strokes ∧
      (h.Acyclic v ↔ ∀ c, .marks c ∉ strokes)) ∧
    (h.Acyclic v → h.WritesPlainly v (h.text v.payload)) ∧
    ∀ s, h.WritesPlainly v s → h.Acyclic v ∧ s = h.text v.payload := by
  obtain ⟨strokes, written, shown⟩ := exists_writesOut intact _ (Nat.le_of_eq unopened_nil) known
  have unmarked (acyclic : h.Acyclic v) (c : Container) : .marks c ∉ strokes := by
    intro marked
    obtain ⟨cycle, d, same, reach⟩ := written.marked marked (by simp)
    exact acyclic d same c reach cycle
  have plain (acyclic : h.Acyclic v) : h.WritesPlainly v (h.text v.payload) := by
    rw [text, ← shown]
    exact written.plainly (unmarked acyclic)
  refine ⟨⟨strokes, written, fun others record other => written.unique other, shown,
    written.nested, unmarked, fun clear => (written.plainly clear).acyclic⟩, plain, ?_⟩
  intro s other
  exact ⟨other.acyclic, (plain other.acyclic).unique other⟩

/-- A list that holds itself and, twice, an object. -/
def knot : Heap where
  frames := #[]
  functions := #[]
  lists := #[#[.of (.list 0), .of (.object 0), .of (.object 0)]]
  objects := #[[("x", .int 1)]]

theorem values_written_knot :
    knot.Intact ∧
    (∃ strokes, knot.WritesOut [] (.of (.list 0)) strokes [] ∧ Stroke.Nested [] strokes ∧
      Stroke.texts strokes = "[[...], \x7bx: 1\x7d, \x7bx: 1\x7d]") ∧
    knot.Acyclic (.of (.object 0)) ∧ knot.text (.object 0) = "\x7bx: 1\x7d" := by
  have intact : knot.Intact := by decide
  have known (c : Container) (there : c ∈ [.list 0, .object 0]) : knot.Allocated c.cell := by
    revert c
    decide
  obtain ⟨⟨strokes, written, -, shown, nested, -⟩, -⟩ :=
    values_written (v := .of (.list 0)) intact fun c same => known c (by cases same; decide)
  have plain : knot.WritesPlainly (.of (.object 0)) ("\x7b" ++ ("x: " ++ "1" ++ "") ++ "\x7d") :=
    .whole (c := .object 0) rfl (.cons (.plain rfl) .nil)
  obtain ⟨-, -, others⟩ :=
    values_written (v := .of (.object 0)) intact fun c same => known c (by cases same; decide)
  refine ⟨intact, ⟨strokes, written, nested, ?_⟩, (others _ plain).1, by decide⟩
  rw [shown]
  decide

end Heap

end SoftScript
