/-
# Chains that are found by a hash

Every element has a home, the chain at whose end it is put.  One chain is set apart for the
elements that have no hash of their own; a search looks into one chain and then into that
one.  If the elements that pass the test are in these two chains, the search finds the first
of those that have a hash, and if there is none, the first of all that pass.
-/

import Mathlib.Data.List.Find

namespace SpikeSim.HashChains

variable {α ι : Type} [DecidableEq ι] (home : α → ι)

/-- The element goes to the end of its chain. -/
def push (chains : ι → List α) (a : α) : ι → List α :=
  Function.update chains (home a) (chains (home a) ++ [a])

/-- The first that passes in the chain `i`, or else in the chain `rest`. -/
def search (test : α → Bool) (chains : ι → List α) (i rest : ι) : Option α :=
  ((chains i).find? test).or ((chains rest).find? test)

variable {home}

/-- A chain holds the elements of which it is the home, in the order in which they came. -/
theorem foldl_push (chains : ι → List α) (l : List α) (i : ι) :
    l.foldl (push home) chains i = chains i ++ l.filter fun a => home a = i := by
  induction l generalizing chains with
  | nil => simp
  | cons a l ih =>
      rw [List.foldl_cons, ih, push, List.filter_cons]
      by_cases ha : home a = i
      · subst ha
        simp
      · rw [Function.update_of_ne (Ne.symm ha)]
        simp [ha]

theorem find?_chain (l : List α) (test : α → Bool) (i : ι) :
    (l.filter fun a => home a = i).find? test = l.find? fun a => home a = i && test a := by
  induction l with
  | nil => rfl
  | cons a l ih =>
      rw [List.filter_cons]
      by_cases ha : home a = i
      · simp only [ha, decide_true, if_true, List.find?_cons, Bool.true_and]
        rw [ih]
      · simp only [ha, decide_false, Bool.false_eq_true, if_false, List.find?_cons,
          Bool.false_and]
        exact ih

/-- **What a search finds.** -/
theorem search_eq {l : List α} {test : α → Bool} {i rest : ι} (hne : i ≠ rest)
    (hhome : ∀ a ∈ l, test a = true → home a = i ∨ home a = rest) :
    search test (l.foldl (push home) fun _ => []) i rest =
      (l.find? fun a => decide (home a ≠ rest) && test a).or (l.find? test) := by
  have hfirst : (l.find? fun a => home a = i && test a) =
      l.find? fun a => decide (home a ≠ rest) && test a := by
    apply List.find?_congr
    intro a ha
    by_cases htest : test a = true
    · rcases hhome a ha htest with h | h
      · simp [h, hne]
      · simp [h, hne.symm]
    · simp [htest]
  rw [search, foldl_push, foldl_push, List.nil_append, List.nil_append, find?_chain, find?_chain,
    hfirst]
  cases hfound : l.find? fun a => decide (home a ≠ rest) && test a with
  | some a => rfl
  | none =>
      -- Then all that pass are in the chain `rest`.
      rw [Option.none_or, Option.none_or]
      apply List.find?_congr
      intro a ha
      have hnone := List.find?_eq_none.mp hfound a ha
      by_cases htest : test a = true
      · have hrest : home a = rest := by simpa [htest] using hnone
        simp [hrest]
      · simp [htest]

end SpikeSim.HashChains
