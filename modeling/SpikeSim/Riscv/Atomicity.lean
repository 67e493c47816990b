/-
# Reservations across harts

Nothing snoops the stores of other harts.  A reservation is worth something because only the hart
whose turn it is executes instructions, and because the turn does not pass without its reservation
being given up: a hart that waits has none (`WaitingUnreserved`).

So from a load-reserved to the store-conditional that succeeds on it the turn has not passed,
whatever the calls of `step` were.
-/

import SpikeSim.Riscv.Reservation
import SpikeSim.Riscv.Timer

namespace SpikeSim.Riscv

variable {N : ℕ} {B : Board} {F : SoftFloat}

/-- What a hart keeps for itself in this machine. -/
def Machine.core (m : Machine (Soc N)) : Core := ⟨m.hart, m.mmu, m.decoder, m.trace, m.events⟩

namespace System

/-- The system that the constructor of `sim_t` makes: every hart is new, and none is in `step`. -/
structure Constructed (cfg : IsaConfig) (halted : Bool) (s : System N) : Prop where
  running : ∃ dram soc, s.point = .idle (cfg.machine halted dram soc)
  waiting : ∀ i, ∃ dram soc, s.parked i = (cfg.machine halted dram soc : Machine (Soc N)).core

/-- The reservation of the hart whose turn it is. -/
def reservation (s : System N) : Reg := s.point.machine.hart.loadReservation

/-- The harts whose turn it is not have no reservation. -/
def WaitingUnreserved (s : System N) : Prop :=
  ∀ i, i ≠ s.current → (s.parked i).hart.loadReservation = -1

theorem Constructed.waitingUnreserved {cfg : IsaConfig} {halted : Bool} {s : System N}
    (h : s.Constructed cfg halted) : s.WaitingUnreserved := by
  intro i _
  obtain ⟨dram, soc, hparked⟩ := h.waiting i
  rw [hparked]
  rfl

theorem Constructed.reservation {cfg : IsaConfig} {halted : Bool} {s : System N}
    (h : s.Constructed cfg halted) : s.reservation = -1 := by
  obtain ⟨dram, soc, hpoint⟩ := h.running
  rw [System.reservation, hpoint]
  rfl

/-- After the turn has passed nobody has a reservation that waits. -/
theorem pass_parked_unreserved {s : System N} (h : s.WaitingUnreserved) (m : Machine (Soc N))
    (i j : Fin N) : ((s.pass m i).parked j).hart.loadReservation = -1 := by
  change (Function.update s.parked s.current _ j).hart.loadReservation = -1
  by_cases hj : j = s.current
  · rw [hj, Function.update_self]
  · rw [Function.update_of_ne hj]
    exact h j hj

end System

/-- The harts that wait have no reservation after a step either. -/
theorem SystemStep.waitingUnreserved {s t : System N} (hstep : SystemStep B F s t)
    (h : s.WaitingUnreserved) : t.WaitingUnreserved := by
  cases hstep with
  | pass hpoint i => exact fun j _ => System.pass_parked_unreserved h _ i j
  | call | inside | increment | hostStore | host => all_goals exact h

/-- **A step of the system.**  A reservation that stands afterwards belongs to the hart whose turn
it was before; it was made by the instruction of that hart, or stood before and the instruction
makes none. -/
theorem SystemStep.reservation {s t : System N} (hstep : SystemStep B F s t)
    (hwaiting : s.WaitingUnreserved) {a : Reg} (ha : a ≠ -1) (hnow : t.reservation = a) :
    t.current = s.current ∧
      (s.point.reserves = some a ∨ s.reservation = a ∧ s.point.reserves = none) := by
  have hidle {m m' : Machine (Soc N)} (hpoint : s.point = .idle m)
      (hsame : m'.hart.loadReservation = m.hart.loadReservation)
      (hnow : m'.hart.loadReservation = a) :
      s.point.reserves = some a ∨ s.reservation = a ∧ s.point.reserves = none := by
    rw [System.reservation, hpoint]
    exact .inr ⟨hsame.symm.trans hnow, rfl⟩
  cases hstep with
  | @call m m' n left hpoint hcall =>
      refine ⟨rfl, ?_⟩
      have hnext : HartStep (B.platform s.current) F s.point (.head left m') := by
        rw [hpoint]
        exact .next (.call n hcall)
      exact reservation_step hnext ha hnow
  | inside hcall =>
      exact ⟨rfl, reservation_step (.next (.inside s.point hcall)) ha hnow⟩
  | @pass m hpoint i =>
      have hgiven : (s.pass m i).reservation = -1 :=
        System.pass_parked_unreserved hwaiting m i i
      exact absurd (hnow.symm.trans hgiven) ha
  | increment hpoint inc => exact ⟨rfl, hidle hpoint rfl hnow⟩
  | hostStore hpoint addr len data => exact ⟨rfl, hidle hpoint rfl hnow⟩
  | @host m m' hpoint hacts =>
      obtain ⟨debug, hhart⟩ := hacts.hart
      exact ⟨rfl, @hidle m m' hpoint (by rw [hhart]) hnow⟩

/-- **LR/SC is atomic.**  In every run of the system from its construction, a store-conditional
that succeeds has the last load-reserved of its hart before it, for the same address, and from
the one to the other no other hart has executed anything. -/
theorem lr_sc_atomic {cfg : IsaConfig} {halted : Bool} {r : ℕ → System N} {len : ℕ}
    (hrun : IsRun (SystemStep B F) r len) (hinit : (r 0).Constructed cfg halted) :
    ∀ k ≤ len, ∀ a,
      (r k).point.storesConditionally (B.platform (r k).current) F = some a →
        ∃ j < k, (r j).point.reserves = some a ∧
          (∀ i, j < i → i < k → (r i).point.reserves = none) ∧
            ∀ i, j ≤ i → i ≤ k → (r i).current = (r k).current := by
  intro k hk a hstores
  obtain ⟨hnow, ha, -⟩ := storesConditionally_reserved hstores
  have hwaiting : ∀ i ≤ len, (r i).WaitingUnreserved :=
    hrun.invariant hinit.waitingUnreserved fun _ _ hstep h => hstep.waitingUnreserved h
  have hstep : ∀ i < len, (r (i + 1)).reservation = a ∧ (r (i + 1)).current = (r k).current →
      ((r i).point.reserves = some a ∧ (r i).current = (r k).current) ∨
        ((r i).reservation = a ∧ (r i).current = (r k).current) ∧ (r i).point.reserves = none := by
    rintro i hi ⟨hnext, hcurrent⟩
    obtain ⟨hsame, hmade⟩ := (hrun i hi).reservation (hwaiting i hi.le) ha hnext
    have hcurrent' : (r i).current = (r k).current := hsame.symm.trans hcurrent
    rcases hmade with hmade | ⟨hstood, hnone⟩
    · exact .inl ⟨hmade, hcurrent'⟩
    · exact .inr ⟨⟨hstood, hcurrent'⟩, hnone⟩
  have hstart : ¬((r 0).reservation = a ∧ (r 0).current = (r k).current) := by
    rw [hinit.reservation]
    exact fun h => ha h.1.symm
  obtain ⟨j, hj, ⟨hmade, hcurrent⟩, hheld, hquiet⟩ :=
    IsRun.since (I := fun s : System N => s.reservation = a ∧ s.current = (r k).current)
      (A := fun s => s.point.reserves = some a ∧ s.current = (r k).current)
      (Q := fun s => s.point.reserves = none) hstart hstep hk ⟨hnow, rfl⟩
  refine ⟨j, hj, hmade, hquiet, fun i hlo hhi => ?_⟩
  rcases hlo.eq_or_lt with rfl | hlt
  · exact hcurrent
  · exact (hheld i hlt hhi).2

/-- A boot ROM with `lui x12, 0x80000`, `lr.w x5, (x12)` and `sc.w x6, x0, (x12)`. -/
def Board.conditional : Board :=
  { Board.small with
    bootRom := [0x37, 0x06, 0x00, 0x80, 0xaf, 0x22, 0x06, 0x10, 0x2f, 0x23, 0x06, 0x18] }

/-- A new hart in a system of two. -/
def newHart : Machine (Soc 2) :=
  IsaConfig.machine ⟨.rv32, 0x40141129, false⟩ false (fun _ => 0)
    ⟨fun _ => 0, fun _ => 0, ⟨fun _ => 0, [], []⟩, []⟩

/-- The hart runs the program, from its reset on. -/
def hartRun (hart : Fin 2) (k : ℕ) : System 2 where
  current := hart
  point :=
    if k = 0 then .idle newHart
    else (Point.next (Board.conditional.platform hart) .zeros)^[k - 1] (.head 3 newHart)
  parked _ := newHart.core

theorem firstHart_atomic :
    (hartRun 0 7).point.storesConditionally (Board.conditional.platform 0) .zeros =
        some 0xffffffff80000000 ∧
      ∃ j < 7, (hartRun 0 j).point.reserves = some 0xffffffff80000000 ∧
        (∀ i, j < i → i < 7 → (hartRun 0 i).point.reserves = none) ∧
          ∀ i, j ≤ i → i ≤ 7 → (hartRun 0 i).current = (hartRun 0 7).current := by
  have hfacts : (∀ k < 6, (hartRun 0 (k + 1)).point.isIdle = false) ∧
      (hartRun 0 7).point.storesConditionally (Board.conditional.platform 0) .zeros =
        some 0xffffffff80000000 := by
    decide +kernel
  obtain ⟨hinside, hstores⟩ := hfacts
  have hrun : IsRun (SystemStep Board.conditional .zeros) (hartRun 0) 7 := by
    intro k hk
    cases k with
    | zero => exact .call (hartRun 0 0) 3 rfl rfl
    | succ k =>
        have hnext : hartRun 0 (k + 1 + 1) = { hartRun 0 (k + 1) with
            point := (hartRun 0 (k + 1)).point.next (Board.conditional.platform 0) .zeros } := by
          simp only [hartRun, Nat.succ_ne_zero, if_false, Nat.add_sub_cancel,
            Function.iterate_succ_apply']
        rw [hnext]
        refine .inside (hartRun 0 (k + 1)) fun m heq => ?_
        have hidle := hinside k (by omega)
        rw [heq] at hidle
        cases hidle
  have hinit : (hartRun 0 0).Constructed ⟨.rv32, 0x40141129, false⟩ false :=
    ⟨⟨_, _, rfl⟩, fun _ => ⟨_, _, rfl⟩⟩
  exact ⟨hstores, lr_sc_atomic hrun hinit 7 le_rfl _ hstores⟩

end SpikeSim.Riscv
