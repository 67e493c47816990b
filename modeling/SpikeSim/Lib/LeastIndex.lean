/-
# Least elements as the result of a search

A search that goes through an ordered type from below and stops at the first hit
returns the least element with a property, or nothing.  `LeastOf` says so of an
optional result; the lemmas compare the results of two searches.
-/

import Mathlib

namespace SpikeSim

variable {α : Type*} [LinearOrder α] {p q : α → Prop} {o o' : Option α}

/-- The result is the least element with the property, or `none` if there is none. -/
def LeastOf (p : α → Prop) : Option α → Prop
  | none => ∀ i, ¬ p i
  | some i => IsLeast {j | p j} i

/-- The first hit in a list that is sorted and complete. -/
theorem leastOf_find? {l : List α} (test : α → Bool) (hsorted : l.Pairwise (· < ·))
    (hall : ∀ i, i ∈ l) : LeastOf (fun i => test i = true) (l.find? test) := by
  cases hfind : l.find? test with
  | none =>
      intro i
      exact List.find?_eq_none.mp hfind i (hall i)
  | some i =>
      obtain ⟨hi, before, after, rfl, hbefore⟩ := List.find?_eq_some_iff_append.mp hfind
      refine ⟨hi, fun j hj => ?_⟩
      rcases List.mem_append.mp (hall j) with hmem | hmem
      · have hnot := hbefore j hmem
        rw [show test j = true from hj] at hnot
        cases hnot
      · rcases List.mem_cons.mp hmem with rfl | hmem
        · exact le_rfl
        · exact (List.rel_of_pairwise_cons (List.pairwise_append.mp hsorted).2.1 hmem).le

/-- The least element of a property is also that of a stronger one, exactly when
it has the stronger property. -/
theorem LeastOf.stronger_iff (h : LeastOf p o) (hpq : ∀ i, q i → p i) :
    LeastOf q o ↔ ∀ i, p i → (∀ j < i, ¬ p j) → q i := by
  cases o with
  | none => exact ⟨fun _ i hi => absurd hi (h i), fun _ i hi => h i (hpq i hi)⟩
  | some k =>
      constructor
      · intro hq i hi hfirst
        rcases (h.2 hi).lt_or_eq with hlt | rfl
        · exact absurd h.1 (hfirst k hlt)
        · exact hq.1
      · intro hq
        refine ⟨hq k h.1 fun j hj hpj => ?_, fun j hj => h.2 (hpq j hj)⟩
        exact absurd (h.2 hpj) (not_le.mpr hj)

/-- Two searches agree exactly when every element that only one of them hits lies
above one that both hit. -/
theorem LeastOf.eq_iff (h : LeastOf p o) (h' : LeastOf q o') :
    o = o' ↔ ∀ i, ¬ (p i ↔ q i) → ∃ j < i, p j ∧ q j := by
  constructor
  · rintro rfl i hi
    cases o with
    | none => exact absurd (iff_of_false (h i) (h' i)) hi
    | some k =>
        have hle : k ≤ i := by
          by_cases hp : p i
          · exact h.2 hp
          · exact h'.2 (by_contra fun hq => hi (iff_of_false hp hq))
        refine ⟨k, lt_of_le_of_ne hle ?_, h.1, h'.1⟩
        rintro rfl
        exact hi (iff_of_true h.1 h'.1)
  · intro hall
    cases o with
    | none =>
        cases o' with
        | none => rfl
        | some k =>
            obtain ⟨j, -, hj, -⟩ := hall k fun hiff => h k (hiff.mpr h'.1)
            exact absurd hj (h j)
    | some k =>
        cases o' with
        | none =>
            obtain ⟨j, -, -, hj⟩ := hall k fun hiff => h' k (hiff.mp h.1)
            exact absurd hj (h' j)
        | some k' =>
            have hpk : p k' := by
              by_contra hp
              obtain ⟨j, hj, -, hq⟩ := hall k' fun hiff => hp (hiff.mpr h'.1)
              exact absurd (h'.2 hq) (not_le.mpr hj)
            have hqk : q k := by
              by_contra hq
              obtain ⟨j, hj, hp, -⟩ := hall k fun hiff => hq (hiff.mp h.1)
              exact absurd (h.2 hp) (not_le.mpr hj)
            rw [le_antisymm (h.2 hpk) (h'.2 hqk)]

end SpikeSim
