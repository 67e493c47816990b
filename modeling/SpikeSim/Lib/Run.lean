/-
# Runs of a transition system

A run is a sequence of states of which the first `len` steps are steps of the
system.  The rules here turn facts about one step into facts about runs: an
invariant holds in every state (`invariant`), and what holds now and did not hold at
the start was brought about by some step since when it has held (`since`).
-/

import Mathlib

namespace SpikeSim

variable {σ : Type} {step : σ → σ → Prop}

/-- The first `len` steps of `r` are steps of the system. -/
def IsRun (step : σ → σ → Prop) (r : ℕ → σ) (len : ℕ) : Prop :=
  ∀ k < len, step (r k) (r (k + 1))

namespace IsRun

variable {r : ℕ → σ} {len : ℕ}

/-- An invariant that the steps of the run preserve. -/
theorem invariant {I : σ → Prop} (hrun : IsRun step r len) (hinit : I (r 0))
    (hstep : ∀ k < len, step (r k) (r (k + 1)) → I (r k) → I (r (k + 1))) :
    ∀ k ≤ len, I (r k) := by
  intro k
  induction k with
  | zero => exact fun _ => hinit
  | succ k ih => exact fun hk => hstep k hk (hrun k hk) (ih (by omega))

/-- What holds in a state was brought about by an earlier step, and has held since; the steps
in between are those that leave it as it is. -/
theorem since {I A Q : σ → Prop} (hinit : ¬I (r 0))
    (hstep : ∀ k < len, I (r (k + 1)) → A (r k) ∨ I (r k) ∧ Q (r k)) {k : ℕ} (hk : k ≤ len)
    (hI : I (r k)) :
    ∃ j < k, A (r j) ∧ (∀ i, j < i → i ≤ k → I (r i)) ∧ ∀ i, j < i → i < k → Q (r i) := by
  induction k with
  | zero => exact absurd hI hinit
  | succ k ih =>
      rcases hstep k hk hI with hA | ⟨hprev, hQ⟩
      · refine ⟨k, by omega, hA, fun i hlo hhi => ?_, fun i hlo hhi => by omega⟩
        obtain rfl : i = k + 1 := by omega
        exact hI
      · obtain ⟨j, hj, hAj, hheld, hquiet⟩ := ih (by omega) hprev
        refine ⟨j, by omega, hAj, fun i hlo hhi => ?_, fun i hlo hhi => ?_⟩
        · rcases Nat.lt_or_ge k i with hlt | hge
          · obtain rfl : i = k + 1 := by omega
            exact hI
          · exact hheld i hlo hge
        · rcases Nat.lt_or_ge i k with hlt | hge
          · exact hquiet i hlo hlt
          · obtain rfl : i = k := by omega
            exact hQ

/-- A path of the system is a run. -/
theorem of_path {a b : σ} (h : Relation.ReflTransGen step a b) :
    ∃ r len, IsRun step r len ∧ r 0 = a ∧ r len = b := by
  induction h with
  | refl => exact ⟨fun _ => a, 0, fun k hk => by omega, rfl, rfl⟩
  | tail _ hlast ih =>
      obtain ⟨r, len, hrun, hstart, hend⟩ := ih
      rename_i mid last _
      refine ⟨fun k => if k ≤ len then r k else last, len + 1, fun k hk => ?_, ?_, ?_⟩
      · rcases Nat.lt_or_ge k len with hlt | hge
        · simpa [hlt.le, hlt] using hrun k hlt
        · obtain rfl : k = len := by omega
          simpa [hend] using hlast
      · simpa using hstart
      · simp

end IsRun

end SpikeSim
