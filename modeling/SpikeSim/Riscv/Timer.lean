/-
# The timer interrupt

`Timer` is what the clock and the harts share: the registers of the clock, `mip` of
every hart, and the record of the calls of `rtc_t::increment`.  `Timer.Step` says that
between two states `mtime` has moved by the increments that were made, that `MTIP` was
left alone if there were none, and that it agrees with the comparison if there were any.

The rest of the system respects this relation: writes of `mip` and `sip` are masked,
inter-processor interrupts set another bit, and a store to the clock ends with a call
of `increment`.
-/

import SpikeSim.Riscv.Fetch
import SpikeSim.Riscv.Soc

namespace SpikeSim.Riscv

open Soc

/-! ## The clock and the harts -/

/-- The registers of the clock, `mip` of every hart, and the increments so far. -/
structure Timer (N : Nat) where
  rtc : Fin (N + 1) → Reg
  mip : Fin N → Reg
  increments : List Reg

namespace Timer

variable {N : Nat}

def mtime (t : Timer N) : Reg := t.rtc ⟨0, N.succ_pos⟩

def mtimecmp (t : Timer N) (i : Fin N) : Reg := t.rtc i.succ

/-- `MTIP` of a hart is set. -/
def Pending (t : Timer N) (i : Fin N) : Prop := t.mip i &&& mipMtip ≠ 0

/-- `MTIP` tells whether the time has come. -/
def Compared (t : Timer N) : Prop := ∀ i, t.Pending i ↔ t.mtimecmp i ≤ t.mtime

/-- These increments, and nothing else, have moved the clock and the timer interrupts. -/
structure By (more : List Reg) (t t' : Timer N) : Prop where
  increments : t'.increments = t.increments ++ more
  mtime : t'.mtime = t.mtime + more.sum
  quiet : more = [] → t'.rtc = t.rtc ∧ ∀ i, t'.Pending i ↔ t.Pending i
  compared : more ≠ [] → t'.Compared

/-- Only increments have moved the clock and the timer interrupts. -/
def Step (t t' : Timer N) : Prop := ∃ more, By more t t'

/-- Nothing has happened to the clock and to `MTIP`. -/
theorem Step.of_same {t t' : Timer N} (hrtc : t'.rtc = t.rtc)
    (hmip : ∀ i, AgreeOn mipMtip (t'.mip i) (t.mip i)) (hinc : t'.increments = t.increments) :
    Step t t' := by
  refine ⟨[], ⟨?_, ?_, fun _ => ⟨hrtc, fun i => ?_⟩, fun h => absurd rfl h⟩⟩
  · rw [hinc, List.append_nil]
  · rw [mtime, hrtc, List.sum_nil, add_zero, mtime]
  · rw [Pending, Pending, show t'.mip i &&& mipMtip = t.mip i &&& mipMtip from hmip i]

theorem Step.refl (t : Timer N) : Step t t :=
  .of_same rfl (fun _ => .refl _ _) rfl

/-- What was compared stays so as long as there is no increment. -/
theorem Compared.quiet {t t' : Timer N} (h : t.Compared) (hrtc : t'.rtc = t.rtc)
    (hpending : ∀ i, t'.Pending i ↔ t.Pending i) : t'.Compared := by
  intro i
  rw [hpending i, h i, mtimecmp, mtimecmp, mtime, mtime, hrtc]

theorem Step.trans {a b c : Timer N} (hab : Step a b) (hbc : Step b c) : Step a c := by
  obtain ⟨first, hab⟩ := hab
  obtain ⟨second, hbc⟩ := hbc
  refine ⟨first ++ second, ⟨?_, ?_, ?_, ?_⟩⟩
  · rw [hbc.increments, hab.increments, List.append_assoc]
  · rw [hbc.mtime, hab.mtime, List.sum_append, BitVec.add_assoc]
  · intro hnone
    obtain ⟨hfirst, hsecond⟩ := List.append_eq_nil_iff.mp hnone
    obtain ⟨hrtc, hpending⟩ := hab.quiet hfirst
    obtain ⟨hrtc', hpending'⟩ := hbc.quiet hsecond
    exact ⟨hrtc'.trans hrtc, fun i => (hpending' i).trans (hpending i)⟩
  · intro hsome
    by_cases hsecond : second = []
    · -- The last increment was before the second part, which left its result alone.
      have hfirst : first ≠ [] := by
        intro hnil
        exact hsome (by rw [hnil, hsecond, List.append_nil])
      obtain ⟨hrtc, hpending⟩ := hbc.quiet hsecond
      exact (hab.compared hfirst).quiet hrtc hpending
    · exact hbc.compared hsecond

end Timer

variable {N : Nat}

/-- The clock and the harts, with `mip` of the hart that runs. -/
def Soc.timer (s : Soc N) (running : Fin N) (mip : Reg) : Timer N :=
  ⟨s.rtc, fun i => if i = running then mip else s.mip i, s.increments⟩

def Machine.timer (running : Fin N) (m : Machine (Soc N)) : Timer N :=
  m.dev.timer running m.hart.mip

def System.timer (s : System N) : Timer N := ⟨s.soc.rtc, s.mip, s.soc.increments⟩

theorem System.timer_eq (s : System N) : s.timer = s.point.machine.timer s.current := rfl

/-! ## Devices -/

theorem eq_of_bytes {v w : Reg} (h : ∀ j < 8, byteOf v j = byteOf w j) : v = w := by
  apply BitVec.eq_of_getLsbD_eq
  intro i hi
  have hbit (v : Reg) : (byteOf v (i / 8)).getLsbD (i % 8) = v.getLsbD i := by
    simp only [byteOf, BitVec.getLsbD_setWidth, BitVec.getLsbD_ushiftRight]
    rw [decide_eq_true (Nat.mod_lt i (by decide)), Bool.true_and, Nat.div_add_mod]
  rw [← hbit v, ← hbit w, h (i / 8) (by omega)]

/-- The bytes of a register make up the register. -/
theorem readLE_byteOf (v : Reg) : readLE (fun b => byteOf v b.toNat) 0 8 = v := by
  apply eq_of_bytes
  intro j hj
  have hbyte := readLE_byte (fun b => byteOf v b.toNat) 0 hj (le_refl 8)
  rw [byteOf, hbyte, zero_add, BitVec.toNat_ofNat, Nat.mod_eq_of_lt (by omega)]

/-- A store past the first register leaves `mtime` alone. -/
theorem rtcCopy_zero (rtc : Fin (N + 1) → Reg) {addr : Reg} (haddr : ¬addr < 8) (len : Nat)
    (data : Reg) : rtcCopy rtc addr len data 0 = rtc 0 := by
  rw [← readLE_byteOf (rtc 0), rtcCopy]
  apply readLE_congr
  intro j hj
  have hlow : (0 + BitVec.ofNat 64 j : Reg).toNat < addr.toNat := by
    have haddr : 8 ≤ addr.toNat := by simpa [BitVec.lt_def] using haddr
    rw [zero_add, BitVec.toNat_ofNat]
    omega
  rw [if_neg]
  simp only [Fin.val_zero, Nat.mul_zero, Nat.zero_add]
  omega

/-- `MTIP` after the comparison. -/
theorem timed_pending (s : Soc N) (i : Fin N) (mip : Reg) :
    s.timed i mip &&& mipMtip ≠ 0 ↔ s.mtimecmp i ≤ s.mtime := by
  have hset : (mip &&& ~~~mipMtip ||| mipMtip) &&& mipMtip = mipMtip := by
    ext i hi
    simp
    exact .inr
  have hclear : (mip &&& ~~~mipMtip) &&& mipMtip = 0 := by
    ext i hi
    simp
  unfold timed
  split
  · rename_i hcome
    rw [hset]
    exact iff_of_true (by decide) hcome
  · rename_i hearly
    rw [hclear]
    exact iff_of_false (by simp) hearly

/-- **A call of `increment`.** -/
theorem increment_step (running : Fin N) (inc : Reg) (s : Soc N) (mip : Reg) :
    (s.timer running mip).By [inc]
      ((s.increment running inc mip).1.timer running (s.increment running inc mip).2) where
  increments := rfl
  mtime := by
    change Function.update s.rtc 0 (s.rtc 0 + inc) 0 = s.rtc 0 + (inc + 0)
    rw [Function.update_self, add_zero]
  quiet h := by cases h
  compared _ i := by
    change (if i = running then _ else _) &&& mipMtip ≠ 0 ↔ _
    split
    · rename_i hrunning
      subst hrunning
      exact timed_pending (s.tick inc) i mip
    · exact timed_pending (s.tick inc) i (s.mip i)

/-- A write under a mask that does not hold `MTIP`. -/
theorem write_agreeOn_mtip {field : Reg} (hfield : mipMtip &&& field = 0) (mip val : Reg) :
    AgreeOn mipMtip ((mip &&& ~~~field) ||| (val &&& field)) mip := by
  apply AgreeOn.write
  rw [hfield]
  exact (BitVec.and_zero).trans BitVec.and_zero.symm

/-- An inter-processor interrupt. -/
theorem hartStore_step (running target : Fin N) (addr data : Reg) (s : Soc N) (mip : Reg) :
    (s.timer running mip).Step
      ((s.hartStore running target addr data mip).2.1.timer running
        (s.hartStore running target addr data mip).2.2) := by
  have hsent (mip : Reg) : AgreeOn mipMtip
      (if data &&& 1 ≠ 0 then mip &&& ~~~mipMsip ||| mipMsip else mip &&& ~~~mipMsip) mip := by
    split
    · have h := write_agreeOn_mtip (show mipMtip &&& mipMsip = 0 by decide) mip mipMsip
      rwa [BitVec.and_self] at h
    · have h := write_agreeOn_mtip (show mipMtip &&& mipMsip = 0 by decide) mip 0
      simpa using h
  unfold hartStore
  dsimp only
  split
  · exact .refl _
  · split
    · refine .of_same rfl (fun i => ?_) rfl
      by_cases hrunning : i = running
      · simp only [timer, if_pos hrunning]
        exact hsent mip
      · simp only [timer, if_neg hrunning]
        exact .refl _ _
    · refine .of_same rfl (fun i => ?_) rfl
      simp only [timer]
      by_cases hrunning : i = running
      · simp only [if_pos hrunning]
        exact .refl _ _
      · simp only [if_neg hrunning]
        by_cases htarget : i = target
        · subst htarget
          rw [Function.update_self]
          exact hsent (s.mip i)
        · rw [Function.update_of_ne htarget]

/-- A store to the clock. -/
theorem rtcStore_step (running : Fin N) (addr : Reg) (len : Nat) (data : Reg) (s : Soc N)
    (mip : Reg) :
    (s.timer running mip).Step
      ((s.rtcStore running addr len data mip).2.1.timer running
        (s.rtcStore running addr len data mip).2.2) := by
  unfold rtcStore
  split
  · exact .refl _
  · rename_i haccepted
    have hstep := increment_step running 0 { s with rtc := rtcCopy s.rtc addr len data } mip
    refine ⟨[0], ⟨hstep.increments, ?_, fun h => by simp at h, hstep.compared⟩⟩
    -- `mtime` is not among the bytes that were copied.
    rw [hstep.mtime]
    change rtcCopy s.rtc addr len data 0 + _ = _
    rw [rtcCopy_zero s.rtc (fun h => haccepted (.inr h))]
    rfl

/-- **Whatever a store finds on the bus.** -/
theorem busStore_step (running : Fin N) (addr : Reg) (len : Nat) (data : Reg) (s : Soc N)
    (mip : Reg) :
    (s.timer running mip).Step
      ((s.busStore running addr len data mip).2.1.timer running
        (s.busStore running addr len data mip).2.2) := by
  unfold busStore
  split
  · exact .refl _
  · rename_i key dev _
    cases dev with
    | debugModule => exact .of_same rfl (fun _ => .refl _ _) rfl
    | rtc => exact rtcStore_step ..
    | hart target => exact hartStore_step ..
    | bootRom => exact .refl _

theorem mmioStore_step (B : Board) (running : Fin N) (addr : Reg) (len : Nat) (data : Reg)
    (s : Soc N) (mip : Reg) :
    (s.timer running mip).Step
      (((B.platform running).mmioStore addr len data s mip).2.1.timer running
        ((B.platform running).mmioStore addr len data s mip).2.2) := by
  unfold Platform.mmioStore
  split
  · exact .refl _
  · exact busStore_step ..

/-! ## A hart -/

/-- A machine as seen by its clock. -/
def ClockKept (running : Fin N) (m m' : Machine (Soc N)) : Prop :=
  (m.timer running).Step (m'.timer running)

instance (running : Fin N) : Std.Refl (ClockKept running) := ⟨fun _ => .refl _⟩

instance (running : Fin N) : IsTrans (Machine (Soc N)) (ClockKept running) :=
  ⟨fun _ _ _ => Timer.Step.trans⟩

/-- The devices are as before, and so is `MTIP`. -/
theorem ClockKept.of_agreeOn {running : Fin N} {m m' : Machine (Soc N)} (hdev : m'.dev = m.dev)
    (hmip : AgreeOn mipMtip m'.hart.mip m.hart.mip) : ClockKept running m m' := by
  refine .of_same ?_ (fun i => ?_) ?_
  · rw [Machine.timer, timer, hdev]
    rfl
  · simp only [Machine.timer, timer, hdev]
    split
    · exact hmip
    · exact .refl _ _
  · rw [Machine.timer, timer, hdev]
    rfl

/-- The devices and `mip` are as before. -/
structure MipKept (m m' : Machine (Soc N)) : Prop where
  dev : m'.dev = m.dev
  mip : m'.hart.mip = m.hart.mip

instance : Std.Refl (MipKept (N := N)) := ⟨fun _ => ⟨rfl, rfl⟩⟩

instance : IsTrans (Machine (Soc N)) MipKept :=
  ⟨fun _ _ _ hab hbc => ⟨hbc.dev.trans hab.dev, hbc.mip.trans hab.mip⟩⟩

theorem MipKept.clock {running : Fin N} {m m' : Machine (Soc N)} (h : MipKept m m') :
    ClockKept running m m' :=
  .of_agreeOn h.dev (by rw [h.mip])

theorem flushTlb_mipKept : Keeps MipKept (flushTlb : M (Soc N) Unit) :=
  .bind (.modify fun _ => ⟨rfl, rfl⟩) fun _ => .modify fun _ => ⟨rfl, rfl⟩

theorem setPrivilege_mipKept (prv : Prv) : Keeps MipKept (setPrivilege prv : M (Soc N) Unit) :=
  .bind flushTlb_mipKept fun _ => .modify fun _ => ⟨rfl, rfl⟩

theorem enterDebugMode_mipKept (cause : DebugCause) :
    Keeps MipKept (enterDebugMode cause : M (Soc N) Unit) := by
  refine .bind keeps_getHart fun h => .bind (.modify fun _ => ⟨rfl, rfl⟩) fun _ => ?_
  refine .bind (.modify fun _ => ⟨rfl, rfl⟩) fun _ => .bind (setPrivilege_mipKept _) fun _ => ?_
  exact .modify fun _ => ⟨rfl, rfl⟩

theorem setMstatus_mipKept (val : Reg) : Keeps MipKept (setMstatus val : M (Soc N) Unit) := by
  refine .bind keeps_getHart fun h => .ite (.bind flushTlb_mipKept fun _ => ?_) ?_
  all_goals exact .modify fun _ => ⟨rfl, rfl⟩

theorem takeTrap_mipKept (t : Trap) (epc : Reg) :
    Keeps MipKept (takeTrap t epc : M (Soc N) Unit) := by
  refine .bind keeps_getHart fun h => .bind (.modify fun _ => ⟨rfl, rfl⟩) fun _ => ?_
  refine .ite (enterDebugMode_mipKept _) (.ite (.modify fun _ => ⟨rfl, rfl⟩) (.ite ?_ ?_))
  all_goals
    refine .bind (.modify fun _ => ⟨rfl, rfl⟩) fun _ => .bind (setMstatus_mipKept _) fun _ => ?_
    exact .bind (setPrivilege_mipKept _) fun _ => .modify fun _ => ⟨rfl, rfl⟩

/-- The registers `mip` and `sip` cannot be used to write `MTIP`. -/
theorem writeCsr_clockKept (running : Fin N) (csr : Csr) (val : Reg) :
    Keeps (ClockKept running) (writeCsr csr val : M (Soc N) Unit) := by
  have hkept {f : Hart → Hart} (hf : ∀ h, (f h).mip = h.mip) :
      Keeps (ClockKept running) (modifyHart f : M (Soc N) Unit) :=
    .modify fun m => MipKept.clock ⟨rfl, hf m.hart⟩
  have hmip (val : Hart → Reg) :
      Keeps (ClockKept running) (modifyHart fun h => setMip h (val h) : M (Soc N) Unit) :=
    .modify fun m => .of_agreeOn rfl (write_agreeOn_mtip (by decide) _ _)
  refine .bind keeps_getHart fun h => ?_
  cases csr
  case mstatus | sstatus => all_goals exact (setMstatus_mipKept _).imp fun _ _ => MipKept.clock
  case mip => exact hmip fun _ => _
  case sip => exact hmip fun h => _
  case sptbr =>
    refine .ite (.bind (.throw _) fun _ => ?_) ?_
    all_goals exact hkept fun _ => rfl
  case tselect => exact .ite (hkept fun _ => rfl) (.pure _)
  case tdata1 =>
    refine .ite (.pure _) (.bind (hkept fun _ => rfl) fun _ => ?_)
    refine .bind (flushTlb_mipKept.imp fun _ _ => MipKept.clock) fun _ => ?_
    exact .bind keeps_getHart fun h => .modify fun m => MipKept.clock ⟨rfl, rfl⟩
  case tdata2 => exact .ite (.pure _) (hkept fun _ => rfl)
  case cycle | instret | tdata3 | mvendorid | marchid | mimpid | mhartid =>
    all_goals exact .pure _
  all_goals exact hkept fun _ => rfl

theorem setCsr_clockKept (running : Fin N) (which val : Reg) :
    Keeps (ClockKept running) (setCsr which val : M (Soc N) Unit) := by
  unfold setCsr
  split
  · exact .pure _
  · exact writeCsr_clockKept ..

variable (B : Board) (running : Fin N)

/-- No access of a hart reaches the clock but for stores to it. -/
theorem actKeeps_clockKept :
    ActKeeps (B.platform running) (fun _ => True) (ClockKept running) where
  store := {
    read := {
      walk := fun _ _ _ _ _ _ => MipKept.clock ⟨rfl, rfl⟩
      refill := fun _ _ _ _ _ => MipKept.clock ⟨rfl, rfl⟩
      matched := fun _ _ => MipKept.clock ⟨rfl, rfl⟩
      device := fun m paddr len => by
        refine MipKept.clock ⟨?_, rfl⟩
        simp only [deviceLoad, Platform.mmioLoad]
        split <;> rfl
      tracers := fun _ _ => MipKept.clock ⟨rfl, rfl⟩ }
    write := fun _ _ => MipKept.clock ⟨rfl, rfl⟩
    device := fun m paddr len data => mmioStore_step B running paddr len data m.dev m.hart.mip }
  hart _ hf m := MipKept.clock ⟨rfl, by rw [Act.onHart_frame hf]⟩
  setPrivilege prv _ := (setPrivilege_mipKept prv).imp fun _ _ => MipKept.clock
  setCsr which value _ := setCsr_clockKept running which value
  flushTlb := flushTlb_mipKept.imp fun _ _ => MipKept.clock
  flushIcache := .modify fun _ => MipKept.clock ⟨rfl, rfl⟩

/-- Fetching an instruction does not reach the clock either. -/
theorem refillKeeps_clockKept : RefillKeeps (B.platform running) (ClockKept running) :=
  { (actKeeps_clockKept B running).store.read.fetch with
    decoder := fun _ _ => MipKept.clock ⟨rfl, rfl⟩
    traced := fun _ _ _ => MipKept.clock ⟨rfl, rfl⟩
    icache := fun _ _ _ => MipKept.clock ⟨rfl, rfl⟩ }

/-- What a relation keeps from a given state on. -/
theorem ClockKept.stable {α : Type} {x : M (Soc N) α} (hx : Keeps (ClockKept running) x)
    (m₀ : Machine (Soc N)) : Keeps (Stable (ClockKept running m₀)) x :=
  hx.imp fun _ _ hstep hkept => Timer.Step.trans hkept hstep

/-- The loop around the instructions does not reach the clock. -/
theorem machineStepRules_clockKept (F : SoftFloat) (m₀ : Machine (Soc N)) :
    MachineStepRules (B.platform running) F (ClockKept running m₀) fun _ => True where
  bookkeeping _ _ _ _ h := Timer.Step.trans h (show ClockKept running _ _ from MipKept.clock ⟨rfl, rfl⟩)
  unmatch h := Timer.Step.trans h (show ClockKept running _ _ from MipKept.clock ⟨rfl, rfl⟩)
  load pc m h := by
    have hload := ClockKept.stable running ((refillKeeps_clockKept B running).loadInsn pc) m₀
    exact (hload.ensures h).imp (fun _ _ h => ⟨h, trivial⟩) fun _ _ h => h
  lookup pc := ClockKept.stable running ((refillKeeps_clockKept B running).accessIcache pc) m₀
  entry _ _ := trivial
  refill pc i := ClockKept.stable running ((refillKeeps_clockKept B running).refillIcache pc i) m₀
  execute pc fetch _ := ClockKept.stable running (executeInsn_keeps (actKeeps_clockKept B running)
    (fun _ _ _ => MipKept.clock ⟨rfl, rfl⟩) F pc fetch) m₀
  enterDebugMode cause := ClockKept.stable running
    ((enterDebugMode_mipKept cause).imp fun _ _ => MipKept.clock) m₀
  takeTrap t epc := ClockKept.stable running
    ((takeTrap_mipKept t epc).imp fun _ _ => MipKept.clock) m₀

/-! ## The system -/

variable {B} {F : SoftFloat}

/-- Passing the turn changes no register of the clock and no `mip`. -/
theorem System.timer_pass (s : System N) {m : Machine (Soc N)} (hpoint : s.point = .idle m)
    (i : Fin N) : (s.pass m i).timer = s.timer := by
  have hmip (j : Fin N) : (s.pass m i).mip j = s.mip j := by
    have hstored : (s.pass m i).mip j = Function.update m.dev.mip s.current m.hart.mip j := by
      rw [System.mip]
      split
      · rename_i hj
        rw [hj]
        rfl
      · rfl
    rw [hstored, System.mip, System.soc, hpoint]
    by_cases hj : j = s.current
    · rw [if_pos hj, hj, Function.update_self]
      rfl
    · rw [if_neg hj, Function.update_of_ne hj]
      rfl
  rw [System.timer, System.timer, funext hmip, System.soc, System.soc, hpoint]
  rfl

/-- **A step of the system** moves the clock and the timer interrupts by increments alone. -/
theorem SystemStep.timer {s s' : System N} (h : SystemStep B F s s') :
    s.timer.Step s'.timer := by
  have hrules := machineStepRules_clockKept B s.current F s.point.machine
  have hidle {m : Machine (Soc N)} (hpoint : s.point = .idle m) :
      s.timer = m.timer s.current := by
    rw [System.timer_eq, hpoint]
    rfl
  cases h with
  | call n hpoint h =>
      have hkept := (hrules.stepPrologue n).ok h
      rw [hpoint] at hkept
      rw [hidle hpoint]
      exact hkept (.refl _)
  | inside hcall =>
      have hstart : PointInv (ClockKept s.current s.point.machine)
          (fun p => ClockKept s.current s.point.machine p.1) (fun _ => True) s.point :=
        PointInv.of_machine (.refl _)
      exact (hrules.stepRules.next hcall trivial hstart).machine
  | pass hpoint i =>
      rw [System.timer_pass s hpoint i]
      exact .refl _
  | increment hpoint inc =>
      rw [hidle hpoint]
      exact ⟨[inc], increment_step ..⟩
  | hostStore hpoint addr len data =>
      rw [hidle hpoint]
      exact mmioStore_step ..
  | @host m m' hpoint h =>
      rw [hidle hpoint]
      obtain ⟨debug, hhart⟩ := h.hart
      obtain ⟨d, hdev⟩ := h.dev
      refine .of_same ?_ (fun i => ?_) ?_
      · change m'.dev.rtc = _
        rw [hdev]
        rfl
      · change AgreeOn mipMtip (if i = s.current then m'.hart.mip else m'.dev.mip i) _
        rw [hhart, hdev]
        exact .refl _ _
      · change m'.dev.increments = _
        rw [hdev]
        rfl

/-- **The timer interrupt.**  In every run of the system, whatever its harts execute and store
and in whatever order they take their turns: once an increment has been made, `MTIP` of every
hart tells whether `mtime` has reached its `mtimecmp`; and in every step `mtime` moves by the
increments that are made, and a step without one leaves `mtime` and every `MTIP` alone. -/
theorem timer_interrupt (B : Board) (F : SoftFloat) {r : ℕ → System N} {len : ℕ}
    (hrun : IsRun (SystemStep B F) r len) :
    (∀ k ≤ len, (r k).soc.increments ≠ (r 0).soc.increments →
      ∀ i, (r k).mip i &&& mipMtip ≠ 0 ↔ (r k).soc.mtimecmp i ≤ (r k).soc.mtime) ∧
    ∀ k < len, ∃ more, (r (k + 1)).soc.increments = (r k).soc.increments ++ more ∧
      (r (k + 1)).soc.mtime = (r k).soc.mtime + more.sum ∧
      (more = [] → ∀ i, (r (k + 1)).mip i &&& mipMtip ≠ 0 ↔ (r k).mip i &&& mipMtip ≠ 0) := by
  constructor
  · have hsince := hrun.invariant (I := fun s => (r 0).timer.Step s.timer) (.refl _)
      fun k _ hstep h => h.trans hstep.timer
    intro k hk hmade
    obtain ⟨more, hby⟩ := hsince k hk
    apply hby.compared
    intro hnone
    apply hmade
    have hincrements : (r k).soc.increments = (r 0).soc.increments ++ more := hby.increments
    rw [hincrements, hnone, List.append_nil]
  · intro k hk
    obtain ⟨more, hby⟩ := (hrun k hk).timer
    exact ⟨more, hby.increments, hby.mtime, fun hnone => (hby.quiet hnone).2⟩

/-- A megabyte of memory and empty ROMs. -/
def Board.small : Board where
  mem := 0
  memsz := 0x100000
  interested := fun _ => false
  fetchTemp := 0
  debugRom := []
  bootRom := []
  memsz_dvd := Platform.bare.memsz_dvd
  memsz_le := Platform.bare.memsz_le
  mem_le := Platform.bare.mem_le

/-- Two harts after reset, of which the first is about to run. -/
def twoHarts (isa : Reg) : System 2 where
  current := 0
  point := .idle (.reset .rv64 isa false (Decode.freshDecoder false) (fun _ => 0)
    ⟨fun _ => 0, fun _ => 0, ⟨fun _ => 0, [], []⟩, []⟩)
  parked _ := ⟨.reset .rv64 isa false, .reset, Decode.freshDecoder false, [], []⟩

/-- The clock advances, the second hart takes its turn, and the host stores a single byte to
`mtimecmp` of the first one, which takes its timer interrupt back. -/
def twoHartsRun (k : ℕ) : System 2 :=
  let s₁ := (twoHarts 0).incrementClock (twoHarts 0).point.machine 5
  let s₂ := s₁.pass s₁.point.machine 1
  match k with
  | 0 => twoHarts 0
  | 1 => s₁
  | 2 => s₂
  | _ => s₂.hostStore .small s₂.point.machine (extIoBase + 8) 1 0x77

theorem twoHartsRun_timer :
    (twoHartsRun 3).soc.increments = [5, 0] ∧ (twoHartsRun 3).soc.mtimecmp 0 = 0x77 ∧
      ∀ i, (twoHartsRun 3).mip i &&& mipMtip ≠ 0 ↔
        (twoHartsRun 3).soc.mtimecmp i ≤ (twoHartsRun 3).soc.mtime := by
  have hrun : IsRun (SystemStep Board.small .zeros) twoHartsRun 3 := by
    intro k hk
    match k with
    | 0 => exact .increment _ rfl 5
    | 1 => exact .pass _ rfl 1
    | 2 => exact .hostStore _ rfl (extIoBase + 8) 1 0x77
  have hmade : (twoHartsRun 3).soc.increments = [5, 0] := by decide +kernel
  refine ⟨hmade, by decide +kernel, ?_⟩
  apply (timer_interrupt Board.small .zeros hrun).1 3 (le_refl 3)
  rw [hmade]
  exact List.cons_ne_nil _ _

end SpikeSim.Riscv
