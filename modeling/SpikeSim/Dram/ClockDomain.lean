/-
# Crossing clock domains

The processor calls the memory once in each of its own cycles, and the memory passes the calls on
at its own clock.  Two counters of 64 bits keep the ratio, and start again from zero whenever they
meet, so that the ratio is exact for ever.
-/

import Mathlib

namespace SpikeSim.Dram

/-- Both clocks are frequencies: `clock1` of the memory and `clock2` of the processor. -/
structure ClockDomainCrosser where
  clock1 : ℕ
  clock2 : ℕ
  counter1 : ℕ := 0
  counter2 : ℕ := 0

namespace ClockDomainCrosser

/-- The loop that calls back until `counter2` has caught up: the number of calls and the counter.
It has no end if it does not end within as many rounds as the counter has values. -/
def catchUp (clock2 counter1 : ℕ) : ℕ → ℕ → Option (ℕ × ℕ)
  | 0, _ => none
  | fuel + 1, counter2 =>
    if counter2 < counter1 then
      (catchUp clock2 counter1 fuel ((counter2 + clock2) % 2 ^ 64)).map fun done =>
        (done.1 + 1, done.2)
    else some (0, counter2)

/-- The number of callbacks, and the crosser afterwards. -/
def update (x : ClockDomainCrosser) : Option (ℕ × ClockDomainCrosser) :=
  if x.clock1 = x.clock2 then some (1, x)
  else
    let counter1 := (x.counter1 + x.clock1) % 2 ^ 64
    match catchUp x.clock2 counter1 (2 ^ 64) x.counter2 with
    | none => none
    | some (calls, counter2) =>
      if counter1 = counter2 then some (calls, { x with counter1 := 0, counter2 := 0 })
      else some (calls, { x with counter1 := counter1, counter2 := counter2 })

/-- Clocks for which no counter overflows. -/
structure Sound (x : ClockDomainCrosser) : Prop where
  clock1_pos : 0 < x.clock1
  clock2_pos : 0 < x.clock2
  period : Nat.lcm x.clock1 x.clock2 < 2 ^ 64

/-- After `updates` updates with `calls` callbacks, the counters are as far apart as the times that
have passed in the two domains. -/
structure Exact (updates calls : ℕ) (x : ClockDomainCrosser) : Prop where
  sound : x.Sound
  divides1 : x.clock1 ∣ x.counter1
  divides2 : x.clock2 ∣ x.counter2
  early : x.counter1 < Nat.lcm x.clock1 x.clock2
  behind : x.counter1 ≤ x.counter2 ∧ x.counter2 < x.counter1 + x.clock2
  apart : x.counter1 + calls * x.clock2 = x.counter2 + updates * x.clock1

theorem exact_start {x : ClockDomainCrosser} (h : x.Sound) (h1 : x.counter1 = 0)
    (h2 : x.counter2 = 0) : Exact 0 0 x where
  sound := h
  divides1 := h1 ▸ dvd_zero _
  divides2 := h2 ▸ dvd_zero _
  early := h1 ▸ Nat.lcm_pos h.clock1_pos h.clock2_pos
  behind := by
    rw [h1, h2]
    exact ⟨le_rfl, (Nat.zero_add _).symm ▸ h.clock2_pos⟩
  apart := by rw [h1, h2, Nat.zero_mul, Nat.zero_mul]

/-- The memory has done the cycles that the time of the processor amounts to, rounded up. -/
theorem Exact.calls_eq {updates calls : ℕ} {x : ClockDomainCrosser} (h : Exact updates calls x) :
    calls = (updates * x.clock1 + x.clock2 - 1) / x.clock2 := by
  have hpos := h.sound.clock2_pos
  obtain ⟨hlow, hhigh⟩ := h.behind
  have hapart := h.apart
  symm
  apply Nat.div_eq_of_lt_le
  · omega
  · rw [Nat.add_mul, Nat.one_mul]
    omega

theorem add_le_of_dvd {d a b : ℕ} (ha : d ∣ a) (hb : d ∣ b) (h : a < b) : a + d ≤ b := by
  obtain ⟨m, rfl⟩ := ha
  obtain ⟨n, rfl⟩ := hb
  have hlt : m < n := Nat.lt_of_mul_lt_mul_left h
  calc d * m + d
    _ = d * (m + 1) := (Nat.mul_succ d m).symm
    _ ≤ d * n := Nat.mul_le_mul_left d hlt

/-- **The loop ends** at the first multiple of `clock2` that is not below `counter1`. -/
theorem catchUp_eq {clock2 counter1 bound : ℕ} (hpos : 0 < clock2) (hbound : bound < 2 ^ 64)
    (hle : counter1 ≤ bound) (hdvd : clock2 ∣ bound) {fuel counter2 : ℕ}
    (hdvd2 : clock2 ∣ counter2) (hcounter2 : counter2 < counter1 + clock2)
    (hlow : counter2 ≤ bound) (hfuel : bound < counter2 + fuel) :
    ∃ calls counter2', catchUp clock2 counter1 fuel counter2 = some (calls, counter2') ∧
      counter2' = counter2 + calls * clock2 ∧ counter1 ≤ counter2' ∧
      counter2' < counter1 + clock2 := by
  induction fuel generalizing counter2 with
  | zero => omega
  | succ fuel ih =>
      unfold catchUp
      by_cases hless : counter2 < counter1
      · rw [if_pos hless]
        have hnext : counter2 + clock2 ≤ bound := add_le_of_dvd hdvd2 hdvd (by omega)
        rw [Nat.mod_eq_of_lt (by omega)]
        obtain ⟨calls, counter2', hloop, hsum, hdone⟩ :=
          ih (dvd_add hdvd2 dvd_rfl) (by omega) hnext (by omega)
        refine ⟨calls + 1, counter2', by rw [hloop]; rfl, ?_, hdone⟩
        rw [hsum, Nat.add_mul]
        omega
      · rw [if_neg hless]
        exact ⟨0, counter2, rfl, by omega, not_lt.mp hless, hcounter2⟩

/-- The clocks stay as they are. -/
theorem update_clocks {x x' : ClockDomainCrosser} {calls : ℕ} (h : x.update = some (calls, x')) :
    x'.clock1 = x.clock1 ∧ x'.clock2 = x.clock2 := by
  unfold update at h
  split at h
  · cases h
    exact ⟨rfl, rfl⟩
  · dsimp only at h
    split at h
    · cases h
    · split at h
      all_goals
        cases h
        exact ⟨rfl, rfl⟩

/-- **An update** keeps the counters exact; neither overflows, since they meet at the least common
multiple of the clocks at the latest. -/
theorem Exact.update {updates calls : ℕ} {x : ClockDomainCrosser} (h : Exact updates calls x) :
    ∃ more x', x.update = some (more, x') ∧ Exact (updates + 1) (calls + more) x' := by
  have hsound := h.sound
  have hpos1 := hsound.clock1_pos
  have hpos2 := hsound.clock2_pos
  have hperiod := hsound.period
  have hlcm1 : x.clock1 ∣ Nat.lcm x.clock1 x.clock2 := Nat.dvd_lcm_left _ _
  have hlcm2 : x.clock2 ∣ Nat.lcm x.clock1 x.clock2 := Nat.dvd_lcm_right _ _
  have hapart := h.apart
  obtain ⟨hbehind, hahead⟩ := h.behind
  unfold ClockDomainCrosser.update
  by_cases hsame : x.clock1 = x.clock2
  · rw [if_pos hsame]
    refine ⟨1, x, rfl, { h with apart := ?_ }⟩
    rw [Nat.add_mul, Nat.add_mul, Nat.one_mul, Nat.one_mul]
    omega
  · rw [if_neg hsame]
    dsimp only
    have hnext : x.counter1 + x.clock1 ≤ Nat.lcm x.clock1 x.clock2 :=
      add_le_of_dvd h.divides1 hlcm1 h.early
    have hcounter2 : x.counter2 ≤ Nat.lcm x.clock1 x.clock2 := by
      by_contra hover
      have := add_le_of_dvd hlcm2 h.divides2 (not_le.mp hover)
      have := h.early
      omega
    rw [Nat.mod_eq_of_lt (by omega)]
    have hfuel : Nat.lcm x.clock1 x.clock2 < x.counter2 + 2 ^ 64 := by omega
    obtain ⟨more, counter2, hloop, hsum, hlow, hhigh⟩ := catchUp_eq hpos2 hperiod hnext hlcm2
      h.divides2 (by omega) hcounter2 hfuel
    rw [hloop]
    dsimp only
    have hdvd2 : x.clock2 ∣ counter2 := by
      rw [hsum]
      exact dvd_add h.divides2 (dvd_mul_left _ _)
    by_cases hmeet : x.counter1 + x.clock1 = counter2
    · rw [if_pos hmeet]
      refine ⟨more, _, rfl, ⟨hpos1, hpos2, hperiod⟩, dvd_zero _, dvd_zero _,
        Nat.lcm_pos hpos1 hpos2, ⟨le_rfl, by simpa using hpos2⟩, ?_⟩
      dsimp only
      rw [Nat.add_mul, Nat.add_mul, Nat.one_mul]
      omega
    · rw [if_neg hmeet]
      refine ⟨more, _, rfl, ⟨hpos1, hpos2, hperiod⟩, dvd_add h.divides1 dvd_rfl, hdvd2, ?_,
        ⟨hlow, hhigh⟩, ?_⟩
      · -- At the least common multiple the counters would have met.
        apply lt_of_le_of_ne hnext
        intro hequal
        have := add_le_of_dvd (hequal ▸ hlcm2) hdvd2 (lt_of_le_of_ne hlow hmeet)
        omega
      · dsimp only
        rw [Nat.add_mul, Nat.add_mul, Nat.one_mul]
        omega

end ClockDomainCrosser

end SpikeSim.Dram
