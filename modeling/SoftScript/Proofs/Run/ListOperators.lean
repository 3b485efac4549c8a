import Mathlib.Data.List.Basic
import Mathlib.Data.List.Induction
import SoftScript.Proofs.Run.ListMethods

/-! The operators on lists. `or` is the union of two lists, `and` their difference and `+` one behind
the other, by the equality of programs. Each makes a new list and leaves the old ones alone. -/
namespace SoftScript

namespace Value

/-- Equality in programs. -/
structure Equality : Prop where
  equivalence : Equivalence fun a b : Value => a.same b = true
  /-- Names do not matter. -/
  names : ∀ (a b : Value) name name', same { a with name } { b with name := name' } = a.same b
  /-- Values of different types are never equal. -/
  kinds : ∀ a b : Value, a.same b = true → a.payload.kind = b.payload.kind
  int : ∀ i j, same (.of (.int i)) (.of (.int j)) = true ↔ i = j
  bool : ∀ p q, same (.of (.bool p)) (.of (.bool q)) = true ↔ p = q
  string : ∀ s t, same (.of (.string s)) (.of (.string t)) = true ↔ s = t
  null : same .null .null = true
  /-- Lists, objects and functions are equal when they are the same one. -/
  list : ∀ id id', same (.of (.list id)) (.of (.list id')) = true ↔ id = id'
  object : ∀ id id', same (.of (.object id)) (.of (.object id')) = true ↔ id = id'
  function : ∀ id id', same (.of (.function id)) (.of (.function id')) = true ↔ id = id'

theorem same_iff {a b : Value} : a.same b = true ↔ a.payload = b.payload := by
  rw [same, decide_eq_true_eq]

theorem equality : Equality where
  equivalence := by
    simp only [same_iff]
    exact ⟨fun _ => rfl, Eq.symm, Eq.trans⟩
  names _ _ _ _ := rfl
  kinds a b equal := congrArg Payload.kind (same_iff.mp equal)
  int i j := by simp [same_iff, of]
  bool p q := by simp [same_iff, of]
  string s t := by simp [same_iff, of]
  null := rfl
  list id id' := by simp [same_iff, of]
  object id id' := by simp [same_iff, of]
  function id id' := by simp [same_iff, of]

theorem same_of_same {a b : Value} (equal : a.same b = true) (c : Value) : a.same c = b.same c := by
  rw [same, same, same_iff.mp equal]

theorem same_comm (a b : Value) : a.same b = b.same a := by
  simp only [same, eq_comm]

end Value

/-! First occurrences. -/

/-- The items that equal none before them. -/
def firsts (xs : List Value) : List Value :=
  (List.range xs.length).filterMap fun i => xs[i]?.filter fun x => !(xs.take i).any (·.same x)

theorem firsts_concat (xs : List Value) (x : Value) :
    firsts (xs ++ [x]) = if xs.any (·.same x) then firsts xs else firsts xs ++ [x] := by
  have before (i : Nat) (inside : i ∈ List.range xs.length) :
      ((xs ++ [x])[i]?.filter fun y => !((xs ++ [x]).take i).any (·.same y)) =
        xs[i]?.filter fun y => !(xs.take i).any (·.same y) := by
    have inside := List.mem_range.mp inside
    rw [List.getElem?_append_left inside, List.take_append_of_le_length (Nat.le_of_lt inside)]
  have last : ((xs ++ [x])[xs.length]?.filter fun y =>
      !((xs ++ [x]).take xs.length).any (·.same y)) =
        if xs.any (·.same x) then none else some x := by
    rw [List.getElem?_concat_length, List.take_left, Option.filter_some]
    cases xs.any (·.same x) <;> rfl
  rw [firsts, List.length_append, List.length_singleton, List.range_succ, List.filterMap_append,
    List.filterMap_congr before, ← firsts, List.filterMap_cons, last, List.filterMap_nil]
  cases xs.any (·.same x) with
  | true => exact List.append_nil _
  | false => rfl

/-- Everything equals one of the first occurrences. -/
theorem any_firsts (xs : List Value) (x : Value) :
    (firsts xs).any (·.same x) = xs.any (·.same x) := by
  induction xs using List.reverseRecOn with
  | nil => rfl
  | append_singleton xs y ih =>
    rw [firsts_concat, List.any_append, List.any_cons, List.any_nil, Bool.or_false]
    split
    · rename_i met
      rw [ih]
      cases equal : y.same x with
      | false => rw [Bool.or_false]
      | true =>
        obtain ⟨z, member, first⟩ := List.any_eq_true.mp met
        rw [Bool.or_true, List.any_eq_true]
        exact ⟨z, member, (Value.same_of_same first x).trans equal⟩
    · rw [List.any_append, ih, List.any_cons, List.any_nil, Bool.or_false]

theorem firsts_sublist (xs : List Value) : (firsts xs).Sublist xs := by
  induction xs using List.reverseRecOn with
  | nil => exact .slnil
  | append_singleton xs x ih =>
    rw [firsts_concat]
    split
    · exact ih.trans (List.sublist_append_left xs [x])
    · exact ih.append_right [x]

/-- No two of them are equal. -/
theorem firsts_pairwise (xs : List Value) :
    (firsts xs).Pairwise fun a b => a.same b = false := by
  induction xs using List.reverseRecOn with
  | nil => exact .nil
  | append_singleton xs x ih =>
    rw [firsts_concat]
    split
    · exact ih
    · rename_i new
      rw [List.pairwise_append]
      refine ⟨ih, List.pairwise_singleton _ _, ?_⟩
      intro y member z last
      rw [List.mem_singleton.mp last]
      rw [← any_firsts, List.any_eq_true, not_exists] at new
      exact Bool.eq_false_iff.mpr fun equal => new y ⟨member, equal⟩

/-- Where no two are equal, all are first occurrences. -/
theorem firsts_of_pairwise {xs : List Value} (apart : xs.Pairwise fun a b => a.same b = false) :
    firsts xs = xs := by
  induction xs using List.reverseRecOn with
  | nil => rfl
  | append_singleton xs x ih =>
    obtain ⟨apart, _, last⟩ := List.pairwise_append.mp apart
    have new : xs.any (·.same x) = false := by
      rw [List.any_eq_false]
      intro y member
      rw [last y member x (List.mem_singleton_self x)]
      decide
    rw [firsts_concat, new, ih apart]
    rfl

/-- What is asked of values by equality can be asked before or after. -/
theorem firsts_filter {p : Value → Bool} (respects : ∀ a b : Value, a.same b = true → p a = p b)
    (xs : List Value) : firsts (xs.filter p) = (firsts xs).filter p := by
  induction xs using List.reverseRecOn with
  | nil => rfl
  | append_singleton xs x ih =>
    rw [firsts_concat, List.filter_append]
    cases kept : p x with
    | false =>
      rw [List.filter_cons_of_neg (by simp [kept]), List.filter_nil, List.append_nil, ih]
      split
      · rfl
      · rw [List.filter_append, List.filter_cons_of_neg (by simp [kept]), List.filter_nil,
          List.append_nil]
    | true =>
      have met : (xs.filter p).any (·.same x) = xs.any (·.same x) := by
        rw [List.any_filter, Bool.eq_iff_iff, List.any_eq_true, List.any_eq_true]
        constructor
        · rintro ⟨y, member, both⟩
          exact ⟨y, member, (Bool.and_eq_true .. ▸ both).2⟩
        · rintro ⟨y, member, equal⟩
          exact ⟨y, member, by rw [respects y x equal, kept, equal]; rfl⟩
      rw [List.filter_cons_of_pos kept, List.filter_nil, firsts_concat, met, ih]
      split
      · rfl
      · rw [List.filter_append, List.filter_cons_of_pos kept, List.filter_nil]

/-- Not equal to any of these. -/
def Value.equalsNone (ys : List Value) (x : Value) : Bool := !ys.any (·.same x)

theorem Value.equalsNone_congr (ys : List Value) (a b : Value) (equal : a.same b = true) :
    a.equalsNone ys = b.equalsNone ys := by
  simp only [equalsNone, same_comm _ a, same_comm _ b, same_of_same equal]

theorem filter_equalsNone_self (ys : List Value) : ys.filter (·.equalsNone ys) = [] := by
  rw [List.filter_eq_nil_iff]
  intro y member
  have there : ys.any (·.same y) = true := List.any_eq_true.mpr ⟨y, member, Value.same_iff.mpr rfl⟩
  rw [Value.equalsNone, there]
  decide

theorem filter_firsts (ys zs : List Value) :
    (firsts zs).filter (·.equalsNone ys) = firsts (zs.filter (·.equalsNone ys)) :=
  (firsts_filter (Value.equalsNone_congr ys) zs).symm

/-- The items of a list, or a value that is no list as the only item. -/
def Heap.asItems (h : Heap) (v : Value) : List Value :=
  match v.payload.asList? with
  | some id => (h.items id).toList
  | none => [v]

namespace Run

variable {m m' : Machine} {left right list other : Value} {xs : List Value}

/-- What is kept of a list by putting one item after the other where it equals none before. -/
structure Distinct (xs : List Value) : Prop where
  kept : distinct xs.toArray = (firsts xs).toArray
  sublist : (firsts xs).Sublist xs
  apart : (firsts xs).Pairwise fun a b => a.same b = false
  covered : ∀ x ∈ xs, ∃ y ∈ firsts xs, y.same x = true
  again : distinct (distinct xs.toArray) = distinct xs.toArray

theorem distinct_toArray (xs : List Value) : distinct xs.toArray = (firsts xs).toArray := by
  have folded (xs : List Value) : distinct xs.toArray = xs.foldl
      (fun kept item => if kept.any (·.same item) then kept else kept.push item) #[] := by
    rw [distinct, ← Array.foldl_toList]
  induction xs using List.reverseRecOn with
  | nil => rfl
  | append_singleton xs x ih =>
    rw [folded, List.foldl_append, ← folded, ih, List.foldl_cons, List.foldl_nil, List.any_toArray,
      any_firsts, firsts_concat]
    split
    · rfl
    · exact List.push_toArray ..

theorem distinct_laws (xs : List Value) : Distinct xs where
  kept := distinct_toArray xs
  sublist := firsts_sublist xs
  apart := firsts_pairwise xs
  covered x member := by
    have met : xs.any (·.same x) = true := List.any_eq_true.mpr ⟨x, member, Value.same_iff.mpr rfl⟩
    rw [← any_firsts] at met
    exact List.any_eq_true.mp met
  again := by
    rw [distinct_toArray, distinct_toArray, firsts_of_pairwise (firsts_pairwise xs)]

/-- A machine with a new list, and a value that refers to it. -/
structure Listed (m : Machine) (xs : List Value) (v : Value) (m' : Machine) : Prop where
  machine : m' = { m with heap := m'.heap }
  frames : m'.heap.frames = m.heap.frames
  functions : m'.heap.functions = m.heap.functions
  objects : m'.heap.objects = m.heap.objects
  old : ∀ id : ListId, id < m.heap.lists.size → m'.heap.lists[id]? = m.heap.lists[id]?
  size : m'.heap.lists.size = m.heap.lists.size + 1
  new : v = .of (.list m.heap.lists.size)
  content : m'.heap.lists[m.heap.lists.size]? = some xs.toArray

/-- A run makes a new list and does nothing else. -/
def Makes (m : Machine) (run : Run Value) (xs : List Value) : Prop :=
  ∃ v m', run m = .ok v m' ∧ Listed m xs v m'

theorem makes_newList {run : Run Value} (made : run m = newList xs.toArray m) : Makes m run xs := by
  refine ⟨_, _, made, rfl, rfl, rfl, rfl, ?_, Array.size_push .., rfl, Array.getElem?_push_size⟩
  intro id inside
  simp only [Array.getElem?_push, Nat.ne_of_lt inside, ↓reduceIte]

theorem itemsOf_apply (v : Value) (m : Machine) :
    itemsOf v m = .ok (m.heap.asItems v).toArray m := by
  unfold itemsOf Heap.asItems
  cases v.payload.asList? with
  | none => rfl
  | some id => rfl

/-- Looking at the items of two values. -/
theorem itemsOf_both (a b : Value) (f : Array Value → Array Value → Run Value) (m : Machine) :
    (do f (← itemsOf a) (← itemsOf b)) m =
      f (m.heap.asItems a).toArray (m.heap.asItems b).toArray m := by
  rw [bind_apply, itemsOf_apply]
  dsimp only
  rw [bind_apply, itemsOf_apply]

theorem listFirst?_left (isList : left.payload.kind = .list) (right : Value) :
    listFirst? left right = some (left, right) := by
  cases payload : left.payload <;> simp_all [listFirst?, Payload.asList?, Payload.kind]

theorem listFirst?_right (notList : left.payload.kind ≠ .list) (isList : right.payload.kind = .list) :
    listFirst? left right = some (right, left) := by
  cases payload : left.payload <;> cases payload' : right.payload <;>
    simp_all [listFirst?, Payload.asList?, Payload.kind]

theorem makes_either (chosen : listFirst? left right = some (list, other)) (m : Machine) :
    Makes m (either left right) (firsts (m.heap.asItems list ++ m.heap.asItems other)) := by
  apply makes_newList
  rw [either, chosen]
  dsimp only
  rw [itemsOf_both list other fun a b => newList (distinct (a ++ b)), List.append_toArray,
    distinct_toArray]

theorem makes_both (chosen : listFirst? left right = some (list, other)) (m : Machine) :
    Makes m (both left right)
      ((m.heap.asItems list).filter (·.equalsNone (m.heap.asItems other))) := by
  apply makes_newList
  rw [both, chosen]
  dsimp only
  rw [itemsOf_both other list fun b a => newList (a.filter fun item => !b.any (·.same item)),
    List.filter_toArray]
  simp only [List.any_toArray, Value.equalsNone]

theorem makes_plus (oneList : left.payload.kind = .list ∨ right.payload.kind = .list)
    (noLeft : left.payload.kind ≠ .string) (noRight : right.payload.kind ≠ .string) (op : Token)
    (m : Machine) : Makes m (plus op left right) (m.heap.asItems left ++ m.heap.asItems right) := by
  have joined : plus op left right = (do newList ((← itemsOf left) ++ (← itemsOf right))) := by
    unfold plus
    split
    case h_1 isLeft isRight =>
      rw [isLeft, isRight] at oneList
      simp [Payload.kind] at oneList
    case h_2 isLeft => exact absurd (by rw [isLeft]; rfl) noLeft
    case h_3 isRight _ => exact absurd (by rw [isRight]; rfl) noRight
    case h_4 => rfl
    case h_5 => rfl
    case h_6 notLeft _ notRight _ =>
      rcases oneList with isLeft | isRight
      · obtain ⟨id, isLeft⟩ := payload_of_kind_list isLeft
        exact absurd isLeft (notLeft id)
      · obtain ⟨id, isRight⟩ := payload_of_kind_list isRight
        exact absurd isRight (notRight id)
  apply makes_newList
  rw [joined, itemsOf_both left right fun a b => newList (a ++ b), List.append_toArray]

/-- A value keeps its items when lists are added. -/
theorem Listed.asItems {v w : Value} (listed : Listed m xs v m')
    (live : ∀ id, w.payload = .list id → id < m.heap.lists.size) :
    m'.heap.asItems w = m.heap.asItems w := by
  unfold Heap.asItems
  cases isList : w.payload.asList? with
  | none => rfl
  | some id => simp only [Heap.items, listed.old id (live id (payload_of_asList? isList))]

theorem Listed.asItems_new {v : Value} (listed : Listed m xs v m') : m'.heap.asItems v = xs := by
  rw [listed.new, Heap.asItems]
  simp only [Value.of, Payload.asList?, Heap.items, listed.content, Option.getD_some]

/-- The union of two operands without the one of them. -/
theorem makes_difference (oneList : left.payload.kind = .list ∨ right.payload.kind = .list)
    (live : ∀ id, right.payload = .list id → id < m.heap.lists.size) :
    ∃ v m', either left right m = .ok v m' ∧ Makes m' (both v right)
      (firsts ((m.heap.asItems left).filter (·.equalsNone (m.heap.asItems right)))) := by
  have without {zs : List Value} (made : Makes m (either left right) (firsts zs)) : ∃ v m',
      either left right m = .ok v m' ∧ Makes m' (both v right)
        (firsts (zs.filter (·.equalsNone (m.heap.asItems right)))) := by
    obtain ⟨v, m', ran, listed⟩ := made
    have isList : v.payload.kind = .list := by rw [listed.new]; rfl
    have difference := makes_both (listFirst?_left isList right) m'
    rw [listed.asItems live, listed.asItems_new, filter_firsts] at difference
    exact ⟨v, m', ran, difference⟩
  by_cases isList : left.payload.kind = .list
  · have union := without (makes_either (listFirst?_left isList right) m)
    rwa [List.filter_append, filter_equalsNone_self, List.append_nil] at union
  · have notLeft := listFirst?_right isList (oneList.resolve_left isList)
    have union := without (makes_either notLeft m)
    rwa [List.filter_append, filter_equalsNone_self, List.nil_append] at union

/-- What the operators make of two operands, of which at least one is a list. -/
structure Operators (m : Machine) (left right : Value) : Prop where
  /-- A union begins with the items of the list, of two lists with those of the left one. -/
  union_left : ∀ op : Token, op.kind = .orWord → left.payload.kind = .list →
    Makes m (binary op left right) (firsts (m.heap.asItems left ++ m.heap.asItems right))
  union_right : ∀ op : Token, op.kind = .orWord → left.payload.kind ≠ .list →
    Makes m (binary op left right) (firsts (m.heap.asItems right ++ m.heap.asItems left))
  /-- A difference has the items of the list, of two lists those of the left one. -/
  difference_left : ∀ op : Token, op.kind = .andWord → left.payload.kind = .list →
    Makes m (binary op left right)
      ((m.heap.asItems left).filter (·.equalsNone (m.heap.asItems right)))
  difference_right : ∀ op : Token, op.kind = .andWord → left.payload.kind ≠ .list →
    Makes m (binary op left right)
      ((m.heap.asItems right).filter (·.equalsNone (m.heap.asItems left)))
  joined : ∀ op : Token, op.kind = .plus → left.payload.kind ≠ .string →
    right.payload.kind ≠ .string →
    Makes m (binary op left right) (m.heap.asItems left ++ m.heap.asItems right)
  /-- Without the right operand a union has the first occurrences of what the left one has besides. -/
  union_difference : ∀ op op' : Token, op.kind = .orWord → op'.kind = .andWord →
    (∀ id, right.payload = .list id → id < m.heap.lists.size) →
    ∃ v m', binary op left right m = .ok v m' ∧ Makes m' (binary op' v right)
      (firsts ((m.heap.asItems left).filter (·.equalsNone (m.heap.asItems right))))

theorem binary_or {op : Token} (isOr : op.kind = .orWord) (left right : Value) :
    binary op left right = either left right := by
  rw [binary, isOr]

theorem binary_and {op : Token} (isAnd : op.kind = .andWord) (left right : Value) :
    binary op left right = both left right := by
  rw [binary, isAnd]

theorem binary_plus {op : Token} (isPlus : op.kind = .plus) (left right : Value) :
    binary op left right = plus op left right := by
  rw [binary, isPlus]

theorem operators (oneList : left.payload.kind = .list ∨ right.payload.kind = .list) (m : Machine) :
    Operators m left right where
  union_left op isOr isList := by
    rw [binary_or isOr]
    exact makes_either (listFirst?_left isList right) m
  union_right op isOr notList := by
    rw [binary_or isOr]
    exact makes_either (listFirst?_right notList (oneList.resolve_left notList)) m
  difference_left op isAnd isList := by
    rw [binary_and isAnd]
    exact makes_both (listFirst?_left isList right) m
  difference_right op isAnd notList := by
    rw [binary_and isAnd]
    exact makes_both (listFirst?_right notList (oneList.resolve_left notList)) m
  joined op isPlus noLeft noRight := by
    rw [binary_plus isPlus]
    exact makes_plus oneList noLeft noRight op m
  union_difference op op' isOr isAnd live := by
    simp only [binary_or isOr, binary_and isAnd]
    exact makes_difference oneList live

/-- Equality in programs is an equivalence: it goes by value for integers, booleans, strings and null and
by identity for lists, objects and functions, never holds across types and ignores names. Keeping one
item after the other where it equals none before keeps the first occurrences, no two of them equal, and
keeps them all when it is done again. With at least one list among its operands, and a value that is no
list standing for itself as the only item, `or` makes a new list of the first occurrences among the items
of both, `and` one of the items that equal none of the other operand's, and `+` without strings one of
all items, those of the left operand first; nothing else changes. -/
theorem list_operators :
    Value.Equality ∧ (∀ xs, Distinct xs) ∧
    ∀ (m : Machine) (left right : Value),
      left.payload.kind = .list ∨ right.payload.kind = .list → Operators m left right :=
  ⟨Value.equality, distinct_laws, fun m _ _ oneList => operators oneList m⟩

/-- A list that holds itself and two equal items. -/
def doubled : Machine where
  heap := ⟨#[], #[], #[#[.int 1, .of (.list 0), .int 1, .string "1"]], #[]⟩
  globals := 0
  scope := 0
  depth := 0
  output := .unlimited
  clock := fun _ => 0
  readings := 0

/-- One item less in the union with an integer, which stands on the left, and two in the difference. -/
theorem list_operators_doubled :
    (∃ v m', binary (.read .orWord "or" 1 ⟨0, 2⟩) (.int 1) (.of (.list 0)) doubled = .ok v m' ∧
      m'.heap.lists[1]? = some #[.int 1, .of (.list 0), .string "1"]) ∧
    ∃ v m', binary (.read .andWord "and" 1 ⟨0, 3⟩) (.int 1) (.of (.list 0)) doubled = .ok v m' ∧
      m'.heap.lists[1]? = some #[.of (.list 0), .string "1"] := by
  have operators := list_operators.2.2 doubled (.int 1) (.of (.list 0)) (.inr rfl)
  constructor
  · obtain ⟨v, m', ran, listed⟩ := operators.union_right (.read .orWord "or" 1 ⟨0, 2⟩) rfl (by decide)
    exact ⟨v, m', ran, listed.content⟩
  · obtain ⟨v, m', ran, listed⟩ :=
      operators.difference_right (.read .andWord "and" 1 ⟨0, 3⟩) rfl (by decide)
    exact ⟨v, m', ran, listed.content⟩

end Run

end SoftScript
