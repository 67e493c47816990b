/-
# Selection and delivery of interrupts

`take_interrupt` decides with masks which interrupt to raise, and `take_trap`
decides again, from the cause, which level handles it.  The two decisions agree.
-/

import SpikeSim.Riscv.TrapEntry

namespace SpikeSim.Riscv

variable {β : Type}

/-- Interrupt `i` is pending, and enabled at the level that it goes to. -/
def InterruptEnabled (h : Hart) (i : Nat) : Prop :=
  (h.mip &&& h.mie).getLsbD i = true ∧
    if h.mideleg.getLsbD i then h.prv < prvS ∨ (h.prv = prvS ∧ hasField h.mstatus mstatusSie = true)
    else h.prv < prvM ∨ hasField h.mstatus mstatusMie = true

/-! ## Selection -/

theorem neg_boolReg_getLsbD (b : Bool) {i : Nat} (hi : i < 64) :
    (-boolReg b).getLsbD i = b := by
  cases b with
  | false => simp [boolReg]
  | true =>
      have hall : ∀ i < 64, (-boolReg true).getLsbD i = true := by decide
      exact hall i hi

/-- The mask holds the enabled interrupts. -/
theorem enabledInterrupts_getLsbD (h : Hart) (i : Nat) :
    (enabledInterrupts h).getLsbD i = true ↔ InterruptEnabled h i := by
  by_cases hi : i < 64
  · have hM : (decide (h.prv < prvM) || (h.prv == prvM && hasField h.mstatus mstatusMie)) = true ↔
        h.prv < prvM ∨ hasField h.mstatus mstatusMie = true := by
      have hle : h.prv ≤ prvM := Fin.le_last _
      rcases hle.lt_or_eq with hlt | heq
      · simp [hlt]
      · simp [heq]
    simp only [enabledInterrupts, InterruptEnabled, BitVec.getLsbD_or, BitVec.getLsbD_and,
      BitVec.getLsbD_not, neg_boolReg_getLsbD _ hi, hi, decide_true, Bool.true_and]
    cases h.mideleg.getLsbD i with
    | false =>
        rw [← hM]
        simp
    | true => simp
  · have hoff (v : Reg) : v.getLsbD i = false := BitVec.getLsbD_of_ge _ _ (by omega)
    simp [hoff, InterruptEnabled]

theorem and_one_eq_zero_iff (v : Reg) : v &&& 1 = 0 ↔ v.getLsbD 0 = false := by
  rw [show (1 : Reg) = BitVec.twoPow 64 0 from rfl, BitVec.and_twoPow]
  cases v.getLsbD 0 with
  | false => simp
  | true =>
      simp only [if_true, Bool.true_eq_false, iff_false]
      decide

/-- `ctz` finds the lowest bit. -/
theorem ctz_spec {val : Reg} {n j : Nat} (hj : j < n) (hbit : val.getLsbD j = true) :
    val.getLsbD (ctz val n) = true ∧ ∀ k < ctz val n, val.getLsbD k = false := by
  induction n generalizing val j with
  | zero => omega
  | succ n ih =>
      unfold ctz
      by_cases hlow : val &&& 1 = 0
      · rw [if_pos hlow]
        rw [and_one_eq_zero_iff] at hlow
        cases j with
        | zero =>
            rw [hlow] at hbit
            cases hbit
        | succ j =>
            have hshift (k : Nat) : (val >>> 1).getLsbD k = val.getLsbD (k + 1) := by
              rw [BitVec.getLsbD_ushiftRight, Nat.add_comm]
            have hbit' : (val >>> 1).getLsbD j = true := (hshift j).trans hbit
            obtain ⟨hset, hleast⟩ := ih (by omega) hbit'
            rw [hshift] at hset
            refine ⟨hset, fun k hk => ?_⟩
            cases k with
            | zero => exact hlow
            | succ k => exact (hshift k).symm.trans (hleast k (by omega))
      · rw [if_neg hlow]
        rw [and_one_eq_zero_iff, Bool.not_eq_false] at hlow
        exact ⟨hlow, fun k hk => by omega⟩

/-- The interrupt that is taken: the least of the enabled ones. -/
structure Selected (h : Hart) (i : Nat) : Prop where
  enabled : InterruptEnabled h i
  least : ∀ j < i, ¬InterruptEnabled h j

/-- The two outcomes of `take_interrupt`. -/
theorem takeInterrupt_cases (m : Machine β) :
    (takeInterrupt m = .ok () m ∧ ∀ i, ¬InterruptEnabled m.hart i) ∨
      ∃ i, Selected m.hart i ∧
        takeInterrupt m = .error (.trap ⟨interruptCause m.hart.maxXlen i, none⟩) m := by
  have hrun : takeInterrupt m = (if enabledInterrupts m.hart ≠ 0 then
      throwTrap ⟨interruptCause m.hart.maxXlen (ctz (enabledInterrupts m.hart) 64), none⟩
      else pure () : M β Unit) m := rfl
  rw [hrun]
  by_cases hnone : enabledInterrupts m.hart = 0
  · left
    rw [if_neg (not_not.mpr hnone)]
    refine ⟨rfl, fun i hi => ?_⟩
    rw [← enabledInterrupts_getLsbD, hnone] at hi
    simp at hi
  · right
    rw [if_pos hnone]
    have hsome : ∃ j < 64, (enabledInterrupts m.hart).getLsbD j = true := by
      by_contra hall
      refine hnone (BitVec.eq_of_getLsbD_eq fun j hj => ?_)
      cases hbit : (enabledInterrupts m.hart).getLsbD j with
      | false => simp
      | true => exact absurd ⟨j, hj, hbit⟩ hall
    obtain ⟨j, hj, hbit⟩ := hsome
    obtain ⟨hset, hleast⟩ := ctz_spec hj hbit
    refine ⟨_, ⟨(enabledInterrupts_getLsbD _ _).mp hset, fun k hk henabled => ?_⟩, rfl⟩
    rw [← enabledInterrupts_getLsbD, hleast k hk] at henabled
    cases henabled

/-! ## Delivery -/

/-- Whether an interrupt is delegated is a bit of `mideleg`. -/
theorem causeDelegated_interrupt (h : Hart) {i : Nat} (hi : i < h.maxXlen.bits) :
    CauseDelegated h (interruptCause h.maxXlen i) ↔ h.mideleg.getLsbD i = true := by
  constructor
  · rintro ⟨j, hj, ⟨hcause, _⟩ | ⟨hcause, hdeleg⟩⟩
    · have := (interruptCause_split h.maxXlen hi).2.1
      rw [hcause] at this
      exact absurd (interruptCause_split h.maxXlen hj).1 this
    · have hnum : BitVec.ofNat 64 i = BitVec.ofNat 64 j := by
        rw [← (interruptCause_split h.maxXlen hi).2.2, hcause,
          (interruptCause_split h.maxXlen hj).2.2]
      have hij : i = j := by
        have := congrArg BitVec.toNat hnum
        rwa [BitVec.toNat_ofNat, BitVec.toNat_ofNat, Nat.mod_eq_of_lt (hi.trans (Xlen.bits_lt _)),
          Nat.mod_eq_of_lt (hj.trans (Xlen.bits_lt _))] at this
      rwa [hij]
  · intro hdeleg
    exact ⟨i, hi, .inr ⟨rfl, hdeleg⟩⟩

theorem interruptCause_ne_breakpoint (maxXlen : Xlen) (i : Nat) : interruptCause maxXlen i ≠ 3 := by
  intro h
  have htop : (interruptCause maxXlen i).getLsbD (maxXlen.bits - 1) = true := by
    rw [interruptCause, BitVec.getLsbD_or]
    cases maxXlen <;> simp [topBit, Xlen.bits]
  rw [h] at htop
  cases maxXlen <;> revert htop <;> decide

/-- The hart after the delivery of an interrupt: its vector, cause and saved pc are those of
the level that the delegation names. -/
def DeliveredTo (supervisor : Bool) (cause epc : Reg) (h h' : Hart) : Prop :=
  if supervisor then
    h'.prv = prvS ∧ h'.pc = h.stvec ∧ h'.scause = cause ∧ h'.sepc = epc
  else h'.prv = prvM ∧ h'.pc = h.mtvec ∧ h'.mcause = cause ∧ h'.mepc = epc

/-- The pending interrupts are bits of a register of the hart. -/
def PendingFits (h : Hart) : Prop :=
  ∀ i, (h.mip &&& h.mie).getLsbD i = true → i < h.maxXlen.bits

/-- **Selection and delivery agree.**  Outside of debug mode an interrupt is raised exactly if
one is enabled; it is the least of the enabled ones, and it is delivered to S-mode exactly if
it is delegated, to M-mode otherwise, and never to a level below the current one. -/
theorem interrupt_selection_delivery {m : Machine β} (hdebug : m.hart.inDebugMode = false)
    (hfits : PendingFits m.hart) :
    ((∃ e m', takeInterrupt m = .error e m') ↔ ∃ i, InterruptEnabled m.hart i) ∧
      ∀ e m', takeInterrupt m = .error e m' → m' = m ∧
        ∃ i, Selected m.hart i ∧ e = .trap ⟨interruptCause m.hart.maxXlen i, none⟩ ∧
          ∀ epc, ∃ m'', takeTrap ⟨interruptCause m.hart.maxXlen i, none⟩ epc m = .ok () m'' ∧
            m.hart.prv ≤ m''.hart.prv ∧
            DeliveredTo (m.hart.mideleg.getLsbD i) (interruptCause m.hart.maxXlen i) epc
              m.hart m''.hart := by
  rcases takeInterrupt_cases m with ⟨hok, hnone⟩ | ⟨i, hselected, herror⟩
  · rw [hok]
    refine ⟨?_, fun e m' h => by cases h⟩
    constructor
    · rintro ⟨e, m', h⟩
      cases h
    · rintro ⟨i, hi⟩
      exact absurd hi (hnone i)
  · rw [herror]
    refine ⟨⟨fun _ => ⟨i, hselected.enabled⟩, fun _ => ⟨_, _, rfl⟩⟩, ?_⟩
    rintro e m' h
    cases h
    refine ⟨rfl, i, hselected, rfl, fun epc => ?_⟩
    have hi : i < m.hart.maxXlen.bits := hfits i hselected.enabled.1
    have henters : ¬(interruptCause m.hart.maxXlen i = 3 ∧ ebreakEnters m.hart) :=
      fun h => interruptCause_ne_breakpoint _ _ h.1
    refine ⟨_, run_takeTrap _ epc hdebug henters, ?_⟩
    cases hdeleg : m.hart.mideleg.getLsbD i with
    | true =>
        -- The enable bit of S-mode is consulted only in S-mode and below.
        have hle : m.hart.prv ≤ prvS := by
          have henabled := hselected.enabled.2
          rw [hdeleg, if_pos rfl] at henabled
          rcases henabled with hlt | ⟨heq, _⟩
          · exact hlt.le
          · exact heq.le
        have hdelegated : delegated m.hart (interruptCause m.hart.maxXlen i) = true :=
          (delegated_iff _ _).mpr ⟨hle, (causeDelegated_interrupt _ hi).mpr hdeleg⟩
        rw [Hart.afterTrap, if_pos hdelegated, DeliveredTo, if_pos rfl]
        exact ⟨hle, rfl, rfl, rfl, rfl⟩
    | false =>
        have hdelegated : ¬delegated m.hart (interruptCause m.hart.maxXlen i) = true := by
          intro h
          have := (causeDelegated_interrupt _ hi).mp ((delegated_iff _ _).mp h).2
          rw [hdeleg] at this
          cases this
        rw [Hart.afterTrap, if_neg hdelegated, DeliveredTo, if_neg (by simp)]
        exact ⟨Fin.le_last _, rfl, rfl, rfl, rfl⟩

/-- A supervisor with a delegated timer interrupt and a machine interrupt pending: the
machine interrupt has the smaller number. -/
theorem timer_and_software_interrupt :
    let h := { Hart.reset .rv32 0 false with
      prv := prvS
      mstatus := mstatusSie
      mip := mipMsip ||| mipStip
      mie := mipMsip ||| mipStip
      mideleg := mipStip }
    let m : Machine Unit := { Machine.reset .rv32 0 false (Decode.freshDecoder false)
      (fun _ => 0) () with hart := h }
    ∃ e, takeInterrupt m = .error e m ∧ e = .trap ⟨0x80000003, none⟩ ∧
      ∃ m'', takeTrap ⟨0x80000003, none⟩ 0x1000 m = .ok () m'' ∧ m''.hart.prv = prvM := by
  intro h m
  have hfits : PendingFits m.hart := by
    intro i hi
    by_contra hge
    have hall : ∀ i < 64, 32 ≤ i → (mipMsip ||| mipStip).getLsbD i = false := by decide
    have hself : m.hart.mip &&& m.hart.mie = mipMsip ||| mipStip := by decide
    rw [hself] at hi
    by_cases hi64 : i < 64
    · rw [hall i hi64 (not_lt.mp hge)] at hi
      cases hi
    · rw [BitVec.getLsbD_of_ge _ _ (by omega)] at hi
      cases hi
  obtain ⟨hraises, hdelivered⟩ := interrupt_selection_delivery (m := m) rfl hfits
  obtain ⟨e, m', herror⟩ := hraises.mpr ⟨3, by decide, by decide⟩
  obtain ⟨rfl, i, hselected, he, hdelivers⟩ := hdelivered e m' herror
  have hi : i = 3 := by
    have hle : i ≤ 3 := by
      by_contra hgt
      exact hselected.least 3 (by omega) ⟨by decide, by decide⟩
    have hset := hselected.enabled.1
    interval_cases i <;> first | rfl | (revert hset; decide)
  subst hi
  obtain ⟨m'', htrap, -, hto⟩ := hdelivers 0x1000
  have hcause : interruptCause m.hart.maxXlen 3 = 0x80000003 := by decide
  have hmachine : m.hart.mideleg.getLsbD 3 = false := by decide
  rw [hcause] at he htrap
  rw [hmachine, DeliveredTo, if_neg (by simp)] at hto
  exact ⟨e, herror, he, m'', htrap, hto.1⟩

end SpikeSim.Riscv
