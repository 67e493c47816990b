/-
# The window of four activates

A rank draws most current when it activates rows, so that only four activates may fall into any
`tFAW` cycles.  The command queue keeps a counter for each recent activate of a rank.
-/

import SpikeSim.Lib.SlidingWindow
import SpikeSim.Dram.Quiet

namespace SpikeSim.Dram

open CommandQueue MemorySystem

variable {cfg : Config} {s s' : MemorySystem cfg} {rank : Fin cfg.numRanks}

/-- The cycles in which a row of the rank was activated. -/
def activates (rank : Fin cfg.numRanks) (commands : List (ℕ × BusPacket cfg)) : List ℕ :=
  (commands.filter fun command =>
    command.2.busPacketType = .activate ∧ command.2.rank = rank).map Prod.fst

/-- Before the cycle `now`, the counters of a rank are those of its activates. -/
structure Windowed (now : ℕ) (s : MemorySystem cfg) (rank : Fin cfg.numRanks) : Prop where
  sorted : (activates rank (commands s.events)).Pairwise (· < ·)
  past : ∀ t ∈ activates rank (commands s.events), t < now
  counters : s.controller.commandQueue.tFAWCountdown rank =
    remaining cfg.tFAW now (activates rank (commands s.events))
  sparse : Sparse cfg.tFAW 4 (activates rank (commands s.events))

theorem windowed_initial (rank : Fin cfg.numRanks) : Windowed 0 ({} : MemorySystem cfg) rank :=
  ⟨.nil, by simp [activates, commands], rfl, sparse_nil⟩

theorem stepWindow_eq {counters : List ℕ} (h : ∀ counter ∈ counters, 0 < counter) :
    stepWindow counters = runDown counters := by
  have hmap : counters.map decrement = counters.map (· - 1) :=
    List.map_congr_left fun counter hc => decrement_of_pos (h counter hc)
  cases counters with
  | nil => rfl
  | cons counter rest =>
      rw [List.map_cons, List.map_cons, List.cons.injEq] at hmap
      simp only [stepWindow, runDown, List.map_cons, hmap.1, hmap.2]

theorem Windowed.of_eq {now : ℕ} (h : Windowed now s rank)
    (hcommands : commands s'.events = commands s.events)
    (hwindows : s'.controller.commandQueue.tFAWCountdown =
      s.controller.commandQueue.tFAWCountdown) : Windowed now s' rank := by
  refine ⟨?_, ?_, ?_, ?_⟩
  · rw [hcommands]
    exact h.sorted
  · rw [hcommands]
    exact h.past
  · rw [hcommands, hwindows]
    exact h.counters
  · rw [hcommands]
    exact h.sparse

/-- What is popped is an activate only if there is room for it in its window. -/
theorem Taken.window {now : ℕ} {banks : Banks cfg} {q q' : CommandQueue cfg}
    {packet : BusPacket cfg} (h : Taken now banks q packet q') :
    q'.tFAWCountdown = q.tFAWCountdown ∧
      (packet.busPacketType = .activate → (q.tFAWCountdown packet.rank).length < 4) := by
  cases h with
  | refresh rank q' _ _ _ _ hwindow => exact ⟨hwindow, by simp [refreshPacket]⟩
  | precharge rank bank q' _ _ _ _ hwindow => exact ⟨hwindow, by simp [prechargePacket]⟩
  | queued rank bank before packet after kept q' _ hissuable _ _ _ hwindow =>
      refine ⟨hwindow, fun htype => ?_⟩
      unfold isIssuable at hissuable
      rw [htype] at hissuable
      simp only [decide_eq_true_eq] at hissuable
      exact hissuable.2.2

theorem afterPop_window (q : CommandQueue cfg) (packet : BusPacket cfg) (rank : Fin cfg.numRanks) :
    (q.afterPop packet).tFAWCountdown rank =
      if packet.busPacketType = .activate ∧ packet.rank = rank then
        q.tFAWCountdown rank ++ [cfg.tFAW]
      else q.tFAWCountdown rank := by
  unfold afterPop
  by_cases hrank : packet.rank = rank
  · subst hrank
    by_cases hposted : 0 < cfg.AL ∧ q.sendAct = true <;>
      by_cases htype : packet.busPacketType = .activate <;> simp [hposted, htype]
  · have hother : ¬rank = packet.rank := Ne.symm hrank
    by_cases hposted : 0 < cfg.AL ∧ q.sendAct = true <;>
      by_cases htype : packet.busPacketType = .activate <;>
        simp [hposted, htype, hrank, hother]

/-- The counters after the command of a cycle, which count for the next cycle. -/
theorem windowed_issue (hwindow : 0 < cfg.tFAW) (h : Windowed s.currentClockCycle s rank)
    (hissue : issueCommand s = .ok () s') : Windowed (s.currentClockCycle + 1) s' rank := by
  obtain ⟨hqueue, -, -, -, hcommands⟩ := issueCommand_ok hissue
  have hstep : s.controller.commandQueue.stepWindows.tFAWCountdown rank =
      remaining cfg.tFAW (s.currentClockCycle + 1) (activates rank (commands s.events)) := by
    change stepWindow (s.controller.commandQueue.tFAWCountdown rank) = _
    rw [h.counters, stepWindow_eq fun _ => remaining_pos, runDown_remaining h.sorted]
  have hother (hsame : activates rank (commands s'.events) = activates rank (commands s.events))
      (hq : s'.controller.commandQueue.tFAWCountdown rank =
        s.controller.commandQueue.stepWindows.tFAWCountdown rank) :
      Windowed (s.currentClockCycle + 1) s' rank := by
    refine ⟨hsame ▸ h.sorted, fun t ht => ?_, ?_, hsame ▸ h.sparse⟩
    · exact (h.past t (hsame ▸ ht)).trans (Nat.lt_succ_self _)
    · rw [hq, hstep, ← hsame]
  rcases pop_cases s.currentClockCycle s.controller.bankStates s.controller.commandQueue with
    hpop | ⟨packet, q, htaken, hpop⟩
  · rw [hpop] at hqueue hcommands
    apply hother
    · rw [hcommands]
      simp
    · rw [hqueue]
  · rw [hpop] at hqueue hcommands
    obtain ⟨hkept, hroom⟩ := htaken.window
    have hcounters := afterPop_window q packet rank
    rw [hkept] at hcounters
    by_cases hactivate : packet.busPacketType = .activate ∧ packet.rank = rank
    · obtain ⟨htype, rfl⟩ := hactivate
      rw [if_pos ⟨htype, rfl⟩] at hcounters
      have htimes : activates packet.rank (commands s'.events) =
          activates packet.rank (commands s.events) ++ [s.currentClockCycle] := by
        rw [hcommands]
        simp [activates, htype]
      have hfew := hroom htype
      rw [hstep, length_remaining] at hfew
      refine ⟨?_, fun t ht => ?_, ?_, ?_⟩
      · rw [htimes]
        refine List.pairwise_append.mpr ⟨h.sorted, List.pairwise_singleton _ _, ?_⟩
        intro t ht now hnow
        rw [List.mem_singleton.mp hnow]
        exact h.past t ht
      · rw [htimes] at ht
        rcases List.mem_append.mp ht with ht | ht
        · exact (h.past t ht).trans (Nat.lt_succ_self _)
        · rw [List.mem_singleton.mp ht]
          exact Nat.lt_succ_self _
      · rw [hqueue, hcounters, hstep, htimes, remaining_append hwindow]
      · rw [htimes]
        exact h.sparse.append hfew
    · rw [if_neg hactivate] at hcounters
      apply hother
      · rw [hcommands]
        simp [activates, hactivate]
      · rw [hqueue, hcounters]

/-! ## Runs -/

theorem enqueue_windows {packet : BusPacket cfg} {q q' : CommandQueue cfg}
    (h : q.enqueue packet = .ok q') : q'.tFAWCountdown = q.tFAWCountdown := by
  unfold enqueue at h
  dsimp only at h
  split at h
  · cases h
  · cases h
    rfl

theorem windowed_serve (hwindow : 0 < cfg.tFAW) {request : Request}
    (h : Windowed s.currentClockCycle s rank) (hrun : serve request s = .ok () s') :
    Windowed s'.currentClockCycle s' rank := by
  cases request with
  | transaction isWrite address =>
      obtain ⟨queue, pending, hadd, -⟩ := addTransaction_eq s isWrite address
      rw [serve, hadd] at hrun
      cases hrun
      exact h.of_eq rfl rfl
  | cycle =>
      obtain ⟨s₁, s₂, s₃, s₄, h₁, h₂, h₃, h₄, rfl⟩ := update_ok hrun
      rw [← h₁.clock] at h
      have hissued := windowed_issue hwindow (h.of_eq h₁.commands h₁.windows) h₂
      obtain ⟨hcommands, hclock, -, hqueue⟩ := scheduleTransaction_ok h₃
      have hwindows : s₃.controller.commandQueue.tFAWCountdown =
          s₂.controller.commandQueue.tFAWCountdown := by
        rcases hqueue with ⟨hqueue, -⟩ | ⟨before, t, after, q, -, -, hfirst, hsecond⟩
        · rw [hqueue]
        · rw [enqueue_windows hsecond, enqueue_windows hfirst]
      have hdone := (hissued.of_eq hcommands hwindows).of_eq h₄.commands h₄.windows
      have hnow : s₄.currentClockCycle = s₁.currentClockCycle :=
        h₄.clock.trans (hclock.trans (issueCommand_ok h₂).2.2.2.1)
      rw [← hnow] at hdone
      exact hdone.of_eq rfl rfl

theorem windowed_run (hwindow : 0 < cfg.tFAW) (requests : List Request)
    (h : Windowed s.currentClockCycle s rank) (hrun : requests.forM serve s = .ok () s') :
    Windowed s'.currentClockCycle s' rank := by
  induction requests generalizing s with
  | nil =>
      cases hrun
      exact h
  | cons request requests ih =>
      obtain ⟨_, mid, hfirst, hrest⟩ := bind_ok hrun
      exact ih (windowed_serve hwindow h hfirst) hrest

/-- **At most four activates of a rank** fall into any `tFAW` cycles in a row, wherever these
start. -/
theorem four_activates (hwindow : 0 < cfg.tFAW) (requests : List Request)
    (hrun : requests.forM serve ({} : MemorySystem cfg) = .ok () s) (rank : Fin cfg.numRanks)
    (start : ℕ) : ((activates rank (commands s.events)).filter fun cycle =>
      start ≤ cycle ∧ cycle < start + cfg.tFAW).length ≤ 4 :=
  (windowed_run hwindow requests (windowed_initial rank) hrun).sparse start

theorem ddr2_four_activates : ∃ s, [Request.transaction false 64, .cycle, .cycle].forM serve
    ({} : MemorySystem Config.ddr2) = .ok () s ∧ ((activates 0 (commands s.events)).filter
      fun cycle => 0 ≤ cycle ∧ cycle < 0 + Config.ddr2.tFAW).length ≤ 4 := by
  obtain ⟨s, hrun, -⟩ := run_inv (by decide) (inv_initial Config.ddr2)
    [Request.transaction false 64, .cycle, .cycle]
  exact ⟨s, hrun, four_activates (by decide) _ hrun 0 0⟩

end SpikeSim.Dram
