/-
# Sliding windows

A limit on how often something may happen within a window of time, kept by counters: each event
starts a counter at the length of the window, all counters run down together, and a counter that
is due is dropped.  The counters that are left are those of the events that share a window with
the next one, so that counting them before each event keeps every window below the limit.
-/

import Mathlib

namespace SpikeSim

variable {window most now : ℕ} {times : List ℕ}

/-- No window holds more than `most` of the times, wherever it starts. -/
def Sparse (window most : ℕ) (times : List ℕ) : Prop :=
  ∀ start, (times.filter fun t => start ≤ t ∧ t < start + window).length ≤ most

/-- The times that share a window with `now`. -/
def recent (window now : ℕ) (times : List ℕ) : List ℕ := times.filter fun t => now < t + window

theorem sparse_nil : Sparse window most [] := fun _ => Nat.zero_le _

/-- Something may happen if it has happened less than `most` times in its window. -/
theorem Sparse.append (h : Sparse window most times)
    (hfew : (recent window now times).length < most) : Sparse window most (times ++ [now]) := by
  intro start
  rw [List.filter_append, List.length_append]
  by_cases hnow : start ≤ now ∧ now < start + window
  · have hwithin : (times.filter fun t => start ≤ t ∧ t < start + window).length ≤
        (recent window now times).length := by
      apply List.Sublist.length_le
      apply List.monotone_filter_right
      intro t ht
      rw [decide_eq_true_eq] at ht ⊢
      omega
    have hlast : ([now].filter fun t => start ≤ t ∧ t < start + window).length ≤ 1 :=
      List.length_filter_le _ _
    omega
  · have hlast : [now].filter (fun t => decide (start ≤ t ∧ t < start + window)) = [] := by
      simpa using hnow
    rw [hlast]
    exact h start

/-! ## Counters -/

/-- What the counters show before the cycle `now`. -/
def remaining (window now : ℕ) (times : List ℕ) : List ℕ :=
  (times.filter fun t => now ≤ t + window).map fun t => t + window + 1 - now

/-- All counters run down, and the first is dropped when it is due. -/
def runDown (counters : List ℕ) : List ℕ :=
  match counters.map (· - 1) with
  | [] => []
  | counter :: rest => if counter = 0 then rest else counter :: rest

theorem remaining_pos {counter : ℕ} (h : counter ∈ remaining window now times) : 0 < counter := by
  obtain ⟨t, ht, rfl⟩ := List.mem_map.mp h
  have hdue := (List.mem_filter.mp ht).2
  rw [decide_eq_true_eq] at hdue
  omega

theorem length_remaining :
    (remaining window (now + 1) times).length = (recent window now times).length :=
  List.length_map _

/-- Only the first counter can be due, since the times are all different. -/
theorem runDown_remaining (hsorted : times.Pairwise (· < ·)) :
    runDown (remaining window now times) = remaining window (now + 1) times := by
  induction times with
  | nil => rfl
  | cons t times ih =>
      rw [List.pairwise_cons] at hsorted
      by_cases hgone : t + window < now
      · have hbefore : ¬now ≤ t + window := not_le.mpr hgone
        have hafter : ¬now + 1 ≤ t + window := by omega
        have hih := ih hsorted.2
        unfold remaining at hih ⊢
        rw [List.filter_cons_of_neg (by simpa using hbefore),
          List.filter_cons_of_neg (by simpa using hafter)]
        exact hih
      · have hbefore : now ≤ t + window := not_lt.mp hgone
        have hlater {x : ℕ} (hx : x ∈ times) : now + 1 ≤ x + window := by
          have := hsorted.1 x hx
          omega
        have hall : times.filter (fun x => decide (now ≤ x + window)) = times :=
          List.filter_eq_self.mpr fun x hx => decide_eq_true (by have := hlater hx; omega)
        have hall' : times.filter (fun x => decide (now + 1 ≤ x + window)) = times :=
          List.filter_eq_self.mpr fun x hx => decide_eq_true (hlater hx)
        have hstep : times.map (fun x => x + window + 1 - now - 1) =
            times.map fun x => x + window + 1 - (now + 1) :=
          List.map_congr_left fun x hx => by omega
        unfold remaining runDown
        rw [List.filter_cons_of_pos (by simpa using hbefore), hall, List.map_cons, List.map_cons,
          List.map_map]
        dsimp only [Function.comp_def]
        rw [hstep]
        by_cases hdue : t + window = now
        · have hafter : ¬now + 1 ≤ t + window := by omega
          rw [if_pos (by omega), List.filter_cons_of_neg (by simpa using hafter), hall']
        · have hafter : now + 1 ≤ t + window := by omega
          rw [if_neg (by omega), List.filter_cons_of_pos (by simpa using hafter), hall',
            List.map_cons]
          congr 1

/-- An event starts a counter. -/
theorem remaining_append (hwindow : 0 < window) :
    remaining window (now + 1) (times ++ [now]) = remaining window (now + 1) times ++ [window] := by
  have hlast : [now].filter (fun t => decide (now + 1 ≤ t + window)) = [now] := by
    simpa using hwindow
  unfold remaining
  rw [List.filter_append, hlast, List.map_append, List.map_singleton]
  congr 2
  omega

end SpikeSim
