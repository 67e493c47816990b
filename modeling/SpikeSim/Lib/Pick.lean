/-
# Picking from queues

`pick` is the loop that takes the first element of a queue that may go; whether it may can
depend on the elements before it.  `roundRobin` is the loop that visits positions in turn until
one has something or the first comes round again.  A loop over an injective successor visits
no more positions than there are.
-/

import Mathlib

namespace SpikeSim

variable {α β : Type}

/-! ## Queues -/

/-- The first element that may go after `before`, with what stands before and behind it. -/
def pickFrom (ok : List α → α → Bool) : List α → List α → Option (List α × α × List α)
  | _, [] => none
  | before, x :: rest =>
    if ok before x then some (before, x, rest) else pickFrom ok (before ++ [x]) rest

def pick (ok : List α → α → Bool) (queue : List α) : Option (List α × α × List α) :=
  pickFrom ok [] queue

theorem pickFrom_eq_some {ok : List α → α → Bool} {done queue before after : List α} {x : α}
    (h : pickFrom ok done queue = some (before, x, after)) :
    done ++ queue = before ++ x :: after ∧ ok before x = true ∧
      ∀ pre y post, before = pre ++ y :: post → done.length ≤ pre.length → ok pre y = false := by
  induction queue generalizing done with
  | nil => cases h
  | cons y queue ih =>
      rw [pickFrom] at h
      by_cases hy : ok done y = true
      · rw [if_pos hy] at h
        cases h
        refine ⟨rfl, hy, fun pre z post hpre hlen => ?_⟩
        have := congrArg List.length hpre
        simp only [List.length_append, List.length_cons] at this
        omega
      · rw [if_neg hy] at h
        obtain ⟨heq, hok, hfirst⟩ := ih h
        refine ⟨by rw [← heq, List.append_assoc, List.singleton_append], hok, ?_⟩
        intro pre z post hpre hlen
        rcases hlen.lt_or_eq with hlt | hlen
        · exact hfirst pre z post hpre (by simpa using hlt)
        · have hsame : done ++ y :: queue = pre ++ z :: (post ++ x :: after) := by
            rw [← List.singleton_append, ← List.append_assoc, heq, hpre, List.append_assoc,
              List.cons_append]
          obtain ⟨rfl, hrest⟩ := List.append_inj hsame hlen
          cases hrest
          simpa using hy

/-- The queue is cut at an element that may go, and none before it may. -/
theorem pick_eq_some {ok : List α → α → Bool} {queue before after : List α} {x : α}
    (h : pick ok queue = some (before, x, after)) :
    queue = before ++ x :: after ∧ ok before x = true ∧
      ∀ pre y post, before = pre ++ y :: post → ok pre y = false := by
  obtain ⟨heq, hok, hfirst⟩ := pickFrom_eq_some h
  exact ⟨heq, hok, fun pre y post hpre => hfirst pre y post hpre (Nat.zero_le _)⟩

theorem pickFrom_eq_none {ok : List α → α → Bool} {done queue : List α}
    (h : pickFrom ok done queue = none) {pre post : List α} {y : α}
    (hqueue : queue = pre ++ y :: post) : ok (done ++ pre) y = false := by
  induction queue generalizing done pre with
  | nil => cases pre <;> cases hqueue
  | cons x queue ih =>
      rw [pickFrom] at h
      by_cases hx : ok done x = true
      · rw [if_pos hx] at h
        cases h
      · rw [if_neg hx] at h
        cases pre with
        | nil =>
            cases hqueue
            rw [List.append_nil]
            simpa using hx
        | cons x' pre =>
            cases hqueue
            have hlater := ih h rfl
            rwa [List.append_assoc] at hlater

/-- Nothing is picked only if nothing may go. -/
theorem pick_eq_none {ok : List α → α → Bool} {queue pre post : List α} {y : α}
    (h : pick ok queue = none) (hqueue : queue = pre ++ y :: post) : ok pre y = false :=
  pickFrom_eq_none h hqueue

/-! ## Round robin -/

variable [DecidableEq α]

/-- The loop from `pos` on; it ends where something is found or before it comes back to `start`. -/
def roundRobinFrom (next : α → α) (found : α → Option β) (start : α) : ℕ → α → Option (α × β)
  | 0, _ => none
  | fuel + 1, pos =>
    match found pos with
    | some b => some (pos, b)
    | none => if next pos = start then none else roundRobinFrom next found start fuel (next pos)

def roundRobin (next : α → α) (found : α → Option β) (fuel : ℕ) (start : α) : Option (α × β) :=
  roundRobinFrom next found start fuel start

theorem roundRobinFrom_eq_some {next : α → α} {found : α → Option β} {start pos pos' : α}
    {fuel : ℕ} {b : β} (h : roundRobinFrom next found start fuel pos = some (pos', b)) :
    found pos' = some b := by
  induction fuel generalizing pos with
  | zero => cases h
  | succ fuel ih =>
      rw [roundRobinFrom] at h
      cases hfound : found pos with
      | some b' =>
          rw [hfound] at h
          cases h
          exact hfound
      | none =>
          rw [hfound] at h
          by_cases hnext : next pos = start
          · rw [if_pos hnext] at h
            cases h
          · rw [if_neg hnext] at h
            exact ih h

theorem roundRobin_eq_some {next : α → α} {found : α → Option β} {start pos : α} {fuel : ℕ}
    {b : β} (h : roundRobin next found fuel start = some (pos, b)) : found pos = some b :=
  roundRobinFrom_eq_some h

/-- If the positions come round within the fuel, then more fuel does not help. -/
theorem roundRobinFrom_fuel {next : α → α} (found : α → Option β) {start : α} {k fuel : ℕ}
    (pos : α) (hperiod : next^[k] pos = start) (hpos : 0 < k) (hk : k ≤ fuel) (extra : ℕ) :
    roundRobinFrom next found start (fuel + extra) pos =
      roundRobinFrom next found start fuel pos := by
  induction fuel generalizing pos k with
  | zero => omega
  | succ fuel ih =>
      rw [Nat.add_right_comm, roundRobinFrom, roundRobinFrom]
      cases found pos with
      | some b => rfl
      | none =>
          dsimp only
          split
          · rfl
          · rename_i hnext
            obtain ⟨k, rfl⟩ := Nat.exists_eq_add_of_lt hpos
            rw [zero_add, Function.iterate_succ_apply] at hperiod
            have hpos' : 0 < k := by
              rw [Nat.pos_iff_ne_zero]
              rintro rfl
              exact hnext hperiod
            exact ih (next pos) hperiod hpos' (by omega)

/-- **The loop ends by itself**: over an injective successor on a finite type, as much fuel as
there are positions is enough. -/
theorem roundRobin_fuel [Fintype α] {next : α → α} (hnext : Function.Injective next)
    (found : α → Option β) (start : α) (extra : ℕ) :
    roundRobin next found (Fintype.card α + extra) start =
      roundRobin next found (Fintype.card α) start := by
  have hperiodic := hnext.mem_periodicPts start
  exact roundRobinFrom_fuel found start (Function.iterate_minimalPeriod)
    (Function.minimalPeriod_pos_of_mem_periodicPts hperiodic)
    (Function.minimalPeriod_le_card) extra

end SpikeSim
