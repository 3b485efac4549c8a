import Mathlib.Data.List.Perm.Subperm
import SoftScript.Proofs.Heap.Scopes

/-! The nearest scope that binds a name, without a bound on how far it is. A search that finds a
scope passes each scope once, so it never has to look at more scopes than there are. -/
namespace SoftScript.Heap

variable {h : Heap} {name : String} {id holder : FrameId}

/-- From a scope outwards the first one that binds a name. -/
inductive Nearest (h : Heap) (name : String) : FrameId → FrameId → Prop
  | here {id : FrameId} {frame : Frame} : h.frames[id]? = some frame →
    frame.bindings.contains name = true → Nearest h name id id
  | outside {id outer holder : FrameId} {frame : Frame} : h.frames[id]? = some frame →
    frame.bindings.contains name = false → frame.enclosing = some outer →
    Nearest h name outer holder → Nearest h name id holder

theorem nearest_of_holderWithin {n : Nat} (found : h.holderWithin name n id = some holder) :
    h.Nearest name id holder := by
  induction n generalizing id with
  | zero => cases found
  | succ n ih =>
    rw [holderWithin] at found
    split at found
    · cases found
    · rename_i frame there
      split at found
      · rename_i bound
        cases found
        exact .here there bound
      · rename_i unbound
        split at found
        · rename_i outer enclosing
          exact .outside there (by simpa using unbound) enclosing (ih found)
        · cases found

theorem Nearest.holderWithin (near : h.Nearest name id holder) :
    ∃ n, h.holderWithin name n id = some holder := by
  induction near with
  | here there bound => exact ⟨1, by simp [Heap.holderWithin, there, bound]⟩
  | outside there unbound enclosing _ ih =>
    obtain ⟨n, found⟩ := ih
    exact ⟨n + 1, by simp [Heap.holderWithin, there, unbound, enclosing, found]⟩

/-- A search that takes as many steps as it is given passes as many scopes, none of them twice: from
each scope passed later it takes fewer steps. -/
theorem passed_of_holderWithin {n : Nat}
    (found : (h.holderWithin name (n + 1) id).isSome = true)
    (short : h.holderWithin name n id = none) :
    ∃ l : List FrameId, l.length = n + 1 ∧ l.Nodup ∧ ∀ i ∈ l, i < h.frames.size ∧
      (h.holderWithin name (n + 1) i).isSome = true := by
  induction n generalizing id with
  | zero =>
    refine ⟨[id], rfl, by simp, ?_⟩
    simp only [List.mem_singleton, forall_eq]
    refine ⟨?_, found⟩
    rw [Heap.holderWithin] at found
    split at found
    · cases found
    · rename_i there
      exact (Array.getElem?_eq_some_iff.mp there).1
  | succ n ih =>
    have outside := found
    rw [Heap.holderWithin] at outside
    rw [Heap.holderWithin] at short
    split at outside
    · cases outside
    · rename_i frame there
      simp only [there] at short
      split at short
      · cases short
      · rename_i unbound
        rw [if_neg unbound] at outside
        split at outside
        · rename_i outer enclosing
          simp only [enclosing] at short
          obtain ⟨l, length, distinct, passed⟩ := ih outside short
          have new : id ∉ l := by
            intro member
            have sooner := (passed id member).2
            rw [Heap.holderWithin] at sooner
            simp [there, unbound, enclosing, short] at sooner
          refine ⟨id :: l, by rw [List.length_cons, length], List.nodup_cons.mpr ⟨new, distinct⟩, ?_⟩
          intro i member
          rcases List.mem_cons.mp member with rfl | later
          · exact ⟨(Array.getElem?_eq_some_iff.mp there).1, found⟩
          · obtain ⟨holder, within⟩ := Option.isSome_iff_exists.mp (passed i later).2
            exact ⟨(passed i later).1, by rw [holderWithin_mono (Nat.le_succ _) within]; rfl⟩
        · cases outside

/-- What is found however far is found among as many scopes as there are. -/
theorem holder?_of_holderWithin {n : Nat} (found : h.holderWithin name n id = some holder) :
    h.holder? id name = some holder := by
  induction n with
  | zero => cases found
  | succ n ih =>
    cases sooner : h.holderWithin name n id with
    | some other =>
      have same := holderWithin_mono (Nat.le_succ n) sooner
      rw [found] at same
      exact ih (sooner.trans same.symm)
    | none =>
      obtain ⟨l, length, distinct, passed⟩ := passed_of_holderWithin (by rw [found]; rfl) sooner
      have among : l ⊆ List.range h.frames.size :=
        fun i member => List.mem_range.mpr (passed i member).1
      have few := (List.subperm_of_subset distinct among).length_le
      rw [length, List.length_range] at few
      exact holderWithin_mono few found

theorem holder?_eq_some_iff : h.holder? id name = some holder ↔ h.Nearest name id holder := by
  refine ⟨nearest_of_holderWithin, fun near => ?_⟩
  obtain ⟨n, found⟩ := near.holderWithin
  exact holder?_of_holderWithin found

end SoftScript.Heap
