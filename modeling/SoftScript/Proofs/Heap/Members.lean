import Mathlib.Tactic.SplitIfs
import SoftScript.Proofs.Heap.Scopes

/-! Names in ascending order. Bindings are kept in the order of their names, which is that of the
bytes they are encoded in. So a name is bound once, and the rank of a name finds what the name
finds. -/
namespace SoftScript

namespace Text

/-- The bytes in which a text is encoded. -/
def bytes (text : String) : List UInt8 := text.toUTF8.data.toList

theorem bytes_eq_flatMap (text : String) :
    bytes text = text.toList.flatMap String.utf8EncodeChar := by
  rw [bytes, String.toUTF8_eq_toByteArray, ← String.utf8Encode_toList, List.utf8Encode,
    List.data_toByteArray]

/-- A character before another one has an encoding before it, whatever follows them. -/
theorem encoding_lt {c d : Char} (lt : c < d) (rest rest' : List UInt8) :
    String.utf8EncodeChar c ++ rest < String.utf8EncodeChar d ++ rest' := by
  have lt : c.val.toNat < d.val.toNat := lt
  have bound : d.val.toNat < 0x110000 := by
    rcases d.valid with low | high
    · exact Nat.lt_trans low (by decide)
    · exact high.2
  -- Encodings of one length are digits to the base 64, from the highest down.
  have digits (k : Nat) : c.val.toNat / k < d.val.toNat / k ∨ c.val.toNat / k = d.val.toNat / k :=
    Nat.lt_or_eq_of_le (Nat.div_le_div_right (Nat.le_of_lt lt))
  have third := digits 262144
  have second := digits 4096
  have first := digits 64
  clear digits
  simp only [String.utf8EncodeChar]
  generalize c.val.toNat = v at *
  generalize d.val.toNat = w at *
  split_ifs
  all_goals simp only [List.cons_append, List.nil_append, List.cons_lt_cons_iff,
    UInt8.lt_iff_toNat_lt, ← UInt8.toNat_inj, UInt8.toNat_ofNat']
  -- Encodings of different length differ in the first byte.
  all_goals
    first
    | (clear third second first; left; omega)
    | (rcases third with third | third <;> rcases second with second | second <;>
        rcases first with first | first <;> omega)

/-- Texts are ordered as their bytes are. -/
theorem bytes_lt {a b : String} (lt : a < b) : bytes a < bytes b := by
  rw [String.lt_iff] at lt
  rw [bytes_eq_flatMap, bytes_eq_flatMap]
  generalize a.toList = cs at lt
  generalize b.toList = ds at lt
  induction cs generalizing ds with
  | nil =>
    cases ds with
    | nil => exact absurd lt (List.lt_irrefl _)
    | cons d rest =>
      obtain ⟨byte, more, encoded⟩ :=
        List.exists_cons_of_ne_nil (String.utf8EncodeChar_ne_nil (c := d))
      simp [encoded]
  | cons c rest ih =>
    cases ds with
    | nil => cases lt
    | cons d rest' =>
      rw [List.flatMap_cons, List.flatMap_cons]
      rcases List.cons_lt_cons_iff.mp lt with before | ⟨rfl, later⟩
      · exact encoding_lt before _ _
      · exact List.append_left_lt (ih _ later)

end Text

/-- Messages know the value by this name. -/
def Value.KnownBy (v : Value) (name : String) : Prop := ∃ t, v.name = some t ∧ t.lexeme = name

theorem Value.KnownBy.owner {v : Value} {name : String} (known : v.KnownBy name)
    (written : name ≠ "") : v.owner = name := by
  obtain ⟨t, isName, rfl⟩ := known
  have visible : t.lexeme.isEmpty = false := by simpa using written
  rw [Value.owner, isName]
  simp [visible]

namespace Bindings

variable {b : Bindings} {name : String} {v : Value}

/-- The names that are bound, in their order. -/
def names (b : Bindings) : List String := b.map Prod.fst

@[simp] theorem names_nil : names [] = [] := rfl

@[simp] theorem names_cons (entry : String × Value) (rest : Bindings) :
    names (entry :: rest) = entry.1 :: names rest := rfl

def Ascending (b : Bindings) : Prop := b.names.Pairwise (· < ·)

theorem contains_iff_mem_names : b.contains name = true ↔ name ∈ b.names := by
  induction b with
  | nil => simp [contains, get?]
  | cons entry rest ih =>
    rw [contains] at ih ⊢
    rw [get?, names_cons, List.mem_cons]
    by_cases same : entry.1 = name
    · simp [same]
    · simp [same, ih, Ne.symm same]

theorem names_modify (b : Bindings) (name : String) (change : Value → Value) :
    (b.modify name change).names = b.names := by
  fun_induction modify b name change <;> simp_all

/-- A name that was not bound is put among the others. -/
theorem perm_names_insert (b : Bindings) (absent : b.contains name = false) (v : Value) :
    (b.insert name v).names.Perm (name :: b.names) := by
  fun_induction insert b name v with
  | case1 => exact List.Perm.refl _
  | case2 => exact List.Perm.refl _
  | case3 => simp [contains, get?] at absent
  | case4 key old rest name v _ different ih =>
    have later : contains rest name = false := by
      simpa [contains, get?, Ne.symm different] using absent
    exact ((ih later).cons key).trans (List.Perm.swap ..)

theorem Ascending.insert (ascending : b.Ascending) (name : String) (v : Value) :
    (b.insert name v).Ascending := by
  fun_induction Bindings.insert b name v with
  | case1 => exact List.pairwise_singleton _ _
  | case2 key old rest name v before =>
    refine List.pairwise_cons.mpr ⟨?_, ascending⟩
    intro other member
    rcases List.mem_cons.mp member with rfl | later
    · exact before
    · exact String.lt_trans before (List.rel_of_pairwise_cons ascending later)
  | case3 => exact ascending
  | case4 key old rest name v behind different ih =>
    obtain ⟨first, later⟩ := List.pairwise_cons.mp ascending
    refine List.pairwise_cons.mpr ⟨?_, ih later⟩
    intro x member
    obtain ⟨entry, inserted, rfl⟩ := List.mem_map.mp member
    rcases mem_insert inserted with rfl | old
    · exact Std.lt_of_le_of_ne (String.not_lt.mp behind) (Ne.symm different)
    · exact first _ (List.mem_map_of_mem old)

/-- What stands at a rank is what is found under the name that stands there. -/
theorem Ascending.get? (ascending : b.Ascending) {i : Nat} {entry : String × Value}
    (found : b[i]? = some entry) : b.get? entry.1 = some entry.2 := by
  induction b generalizing i with
  | nil => cases found
  | cons first rest ih =>
    obtain ⟨key, old⟩ := first
    cases i with
    | zero =>
      cases found
      simp [Bindings.get?]
    | succ i =>
      obtain ⟨before, rest'⟩ := List.pairwise_cons.mp ascending
      have later : rest[i]? = some entry := found
      have behind : key < entry.1 := before _ (List.mem_map_of_mem (List.mem_of_getElem? later))
      have other : key ≠ entry.1 := by
        intro same
        exact String.lt_irrefl _ (same ▸ behind)
      rw [Bindings.get?, if_neg other]
      exact ih rest' later

theorem Ascending.bytes (ascending : b.Ascending) :
    (b.names.map Text.bytes).Pairwise (· < ·) :=
  List.pairwise_map.mpr (ascending.imp Text.bytes_lt)

/-- In their order, names are determined by which they are. -/
theorem Ascending.names_eq {c : Bindings} (ascending : b.Ascending) (ascending' : c.Ascending)
    (perm : b.names.Perm c.names) : b.names = c.names :=
  perm.eq_of_pairwise (fun _ _ _ _ before after => absurd after (String.lt_asymm before)) ascending
    ascending'

theorem mem_of_get? (found : b.get? name = some v) : (name, v) ∈ b := by
  induction b with
  | nil => cases found
  | cons entry rest ih =>
    obtain ⟨key, old⟩ := entry
    rw [Bindings.get?] at found
    split at found
    · rename_i same
      cases found
      exact same ▸ List.mem_cons_self
    · exact List.mem_cons_of_mem _ (ih found)

theorem Ascending.get?_of_mem (ascending : b.Ascending) {entry : String × Value}
    (member : entry ∈ b) : b.get? entry.1 = some entry.2 := by
  obtain ⟨i, found⟩ := List.getElem?_of_mem member
  exact ascending.get? found

theorem mem_modify {change : Value → Value} {entry : String × Value}
    (member : entry ∈ b.modify name change) :
    ∃ old, (entry.1, old) ∈ b ∧ (entry.2 = old ∨ entry.2 = change old) := by
  fun_induction modify b name change with
  | case1 => cases member
  | case2 old rest key =>
    rcases List.mem_cons.mp member with rfl | later
    · exact ⟨old, List.mem_cons_self, .inr rfl⟩
    · exact ⟨entry.2, List.mem_cons_of_mem _ later, .inl rfl⟩
  | case3 key old rest _ _ _ ih =>
    rcases List.mem_cons.mp member with rfl | later
    · exact ⟨old, List.mem_cons_self, .inl rfl⟩
    · obtain ⟨old', there, same⟩ := ih later
      exact ⟨old', List.mem_cons_of_mem _ there, same⟩

/-- Every binding holds a value that is known by the name it is bound to. -/
def OwnNamed (b : Bindings) : Prop := ∀ entry ∈ b, entry.2.KnownBy entry.1

theorem ownNamed_nil : OwnNamed [] := by simp [OwnNamed]

theorem OwnNamed.insert (own : b.OwnNamed) {t : Token} (known : v.name = some t) :
    (b.insert t.lexeme v).OwnNamed := by
  intro entry member
  rcases mem_insert member with rfl | old
  · exact ⟨t, known, rfl⟩
  · exact own entry old

end Bindings

end SoftScript
