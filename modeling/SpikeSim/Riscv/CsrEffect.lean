/-
# What a write of a CSR does

The closed forms of the functions that `set_csr` is made of: each changes the hart
and at most flushes the caches of the memory port.
-/

import SpikeSim.Lib.BitMask
import SpikeSim.Lib.Effect
import SpikeSim.Riscv.Csr

namespace SpikeSim.Riscv

variable {β : Type}

/-! ## Flushing -/

/-- The caches after `flush_tlb`. -/
def Mmu.flushed (u : Mmu) : Mmu :=
  { u with
    tlbInsnTag := fun _ => -1
    tlbLoadTag := fun _ => -1
    tlbStoreTag := fun _ => -1
    icache := fun i => { u.icache i with tag := -1 } }

/-- Flushing what is flushed already. -/
theorem Mmu.cond_flushed_flushed (b : Bool) (u : Mmu) :
    (bif b then u.flushed.flushed else u.flushed) = u.flushed := by
  cases b <;> rfl

/-- A flush hides whether there was one before. -/
theorem Mmu.flushed_cond_flushed (b : Bool) (u : Mmu) :
    (bif b then u.flushed else u).flushed = u.flushed := by
  cases b <;> rfl

@[simp]
theorem run_flushTlb (m : Machine β) : flushTlb m = .ok () { m with mmu := m.mmu.flushed } := rfl

@[simp]
theorem run_setPrivilege (prv : Prv) (m : Machine β) :
    setPrivilege prv m = .ok () { m with
      mmu := m.mmu.flushed
      hart := { m.hart with prv := if prv = prvH then prvU else prv } } := rfl

/-! ## Writing -/

/-- Whether a write of `mstatus` flushes. -/
def Hart.vmChanges (h : Hart) (val : Reg) : Bool :=
  (zextXlen h.xlen val ^^^ h.mstatus) &&& mstatusVmBits != 0

/-- The hart after a write of `mstatus`. -/
def Hart.withMstatus (h : Hart) (val : Reg) : Hart :=
  { h with mstatus := newMstatus h (zextXlen h.xlen val), xlen := h.maxXlen }

@[simp]
theorem run_setMstatus (val : Reg) (m : Machine β) :
    setMstatus val m = .ok () { m with
      hart := m.hart.withMstatus val
      mmu := bif m.hart.vmChanges val then m.mmu.flushed else m.mmu } := by
  simp only [setMstatus, run_bind, run_getHart]
  by_cases hvm : (zextXlen m.hart.xlen val ^^^ m.hart.mstatus) &&& mstatusVmBits ≠ 0
  · rw [if_pos hvm, show m.hart.vmChanges val = true from bne_iff_ne.mpr hvm]
    rfl
  · rw [if_neg hvm, show m.hart.vmChanges val = false from by simpa [Hart.vmChanges] using hvm]
    rfl

/-- The bit `SD` of `mstatus` at a width. -/
def sdBit (xlen : Xlen) : Reg := if xlen = .rv64 then mstatus64Sd else mstatus32Sd

theorem zextXlen_agreeOn (xlen : Xlen) (val : Reg) :
    AgreeOn 0xffffffff (zextXlen xlen val) val := by
  rw [agreeOn_iff]
  intro i hi hlow
  have hi32 : i < 32 := by
    by_contra hge
    have hfalse : ∀ j < 64, 32 ≤ j → (0xffffffff : Reg).getLsbD j = false := by decide
    rw [hfalse i hi (by omega)] at hlow
    cases hlow
  cases xlen with
  | rv64 => simp [zextXlen, Xlen.bits]
  | rv32 =>
      simp only [zextXlen, Xlen.bits, BitVec.getLsbD_ushiftRight, BitVec.getLsbD_shiftLeft]
      simp
      omega

theorem zextXlen_agreeOn_low {field val old : Reg} (xlen : Xlen)
    (hlow : SubMask field 0xffffffff) (hval : AgreeOn field val old) :
    AgreeOn field (zextXlen xlen val) old :=
  ((zextXlen_agreeOn xlen val).mono hlow).trans hval

/-- The bits of `mstatus` that a write can change, besides `SD`. -/
def mstatusWritable : Reg :=
  mstatusSie ||| mstatusSpie ||| mstatusMie ||| mstatusMpie ||| mstatusSpp ||| mstatusFs |||
    mstatusMprv ||| mstatusPum ||| mstatusMpp ||| mstatusMxr ||| mstatusXs ||| mstatusVm

theorem mstatusWriteMask_subMask (h : Hart) (val : Reg) :
    SubMask (mstatusWriteMask h val) mstatusWritable := by
  unfold mstatusWriteMask
  cases h.ext <;> cases validateVm h.maxXlen (getField val mstatusVm) <;> decide

theorem mstatusWritable_low (keep : Reg) : SubMask (keep &&& mstatusWritable) 0xffffffff :=
  (SubMask.and_right ..).trans (by decide)

/-- A write of `mstatus` changes `SD` and writable bits in which the value differs from
the register. -/
theorem withMstatus_agreeOn {mask : Reg} (h : Hart) (val : Reg)
    (hsd : SubMask (sdBit h.maxXlen) mask)
    (hval : AgreeOn (~~~mask &&& mstatusWritable) val h.mstatus) :
    AgreeOn (~~~mask) (h.withMstatus val).mstatus h.mstatus := by
  have hfield : (if h.maxXlen = .rv32 then mstatus32Sd else mstatus64Sd) = sdBit h.maxXlen := by
    cases h.maxXlen <;> rfl
  simp only [Hart.withMstatus, newMstatus, setField, hfield]
  refine (AgreeOn.write_outside hsd).trans (.write ?_)
  refine (zextXlen_agreeOn_low h.xlen (mstatusWritable_low _) hval).mono ?_
  exact .and (.and_left ..) ((SubMask.and_right ..).trans (mstatusWriteMask_subMask h _))

/-- The trigger checks that the registers ask for. -/
def Mmu.withTriggers (u : Mmu) (h : Hart) : Mmu :=
  let any (f : Mcontrol → Bool) : Bool := [(0 : Fin 4), 1, 2, 3].any fun i => f (h.mcontrol i)
  { u.flushed with
    checkTriggersFetch := any Mcontrol.execute
    checkTriggersLoad := any Mcontrol.load
    checkTriggersStore := any Mcontrol.store }

@[simp]
theorem run_triggerUpdated (m : Machine β) :
    triggerUpdated m = .ok () { m with mmu := m.mmu.withTriggers m.hart } := rfl

/-- Only the hart and the caches differ. -/
structure HartAndCaches (m m' : Machine β) : Prop where
  decoder : m'.decoder = m.decoder
  dram : m'.dram = m.dram
  dev : m'.dev = m.dev
  trace : m'.trace = m.trace
  events : m'.events = m.events

/-- How a write of a CSR ends. -/
theorem writeCsr_cases (csr : Csr) (val : Reg) (m : Machine β) :
    (csr = .sptbr ∧ writeCsr csr val m = .error .abort m) ∨
      ∃ m', writeCsr csr val m = .ok () m' ∧ HartAndCaches m m' := by
  cases csr
  case sptbr =>
    simp only [writeCsr, run_bind, run_getHart]
    by_cases hxlen : m.hart.xlen = m.hart.maxXlen
    · right
      simp only [hxlen, ne_eq, not_true, if_false]
      exact ⟨_, rfl, ⟨rfl, rfl, rfl, rfl, rfl⟩⟩
    · left
      simp [hxlen, run_bind]
  all_goals right
  case tselect =>
    simp only [writeCsr, run_bind, run_getHart]
    split
    · exact ⟨_, rfl, ⟨rfl, rfl, rfl, rfl, rfl⟩⟩
    · exact ⟨_, rfl, ⟨rfl, rfl, rfl, rfl, rfl⟩⟩
  case tdata1 | tdata2 =>
    all_goals
      simp only [writeCsr, run_bind, run_getHart]
      split
      · exact ⟨_, rfl, ⟨rfl, rfl, rfl, rfl, rfl⟩⟩
      · exact ⟨_, rfl, ⟨rfl, rfl, rfl, rfl, rfl⟩⟩
  case mstatus | sstatus =>
    all_goals
      simp only [writeCsr, run_bind, run_getHart, run_setMstatus]
      exact ⟨_, rfl, ⟨rfl, rfl, rfl, rfl, rfl⟩⟩
  all_goals exact ⟨_, rfl, ⟨rfl, rfl, rfl, rfl, rfl⟩⟩

/-! ## Numbers -/

theorem Csr.ofNum_num (csr : Csr) : Csr.ofNum csr.num = some csr := by
  cases csr <;> decide

theorem Csr.num_of_ofNum {which : Reg} {csr : Csr} (h : Csr.ofNum which = some csr) :
    csr.num = which := by
  have hfound := List.find?_some h
  exact eq_of_beq hfound

theorem setCsr_eq {which : Reg} {csr : Csr} (h : Csr.ofNum which = some csr) (val : Reg) :
    setCsr which val = (writeCsr csr val : M β Unit) := by
  unfold setCsr
  rw [h]

@[simp]
theorem run_setCsr_mstatus (val : Reg) (m : Machine β) :
    setCsr Csr.mstatus.num val m = setMstatus (zextXlen m.hart.xlen val) m := by
  rw [setCsr_eq (Csr.ofNum_num _)]
  rfl

/-- A number that is not looked up is ignored. -/
theorem setCsr_unknown {which : Reg} (h : Csr.ofNum which = none) (val : Reg) :
    setCsr which val = (pure () : M β Unit) := by
  unfold setCsr
  rw [h]

theorem setCsr_cases (which val : Reg) (m : Machine β) :
    (Csr.ofNum which = some .sptbr ∧ setCsr which val m = .error .abort m) ∨
      ∃ m', setCsr which val m = .ok () m' ∧ HartAndCaches m m' := by
  cases hcsr : Csr.ofNum which with
  | none =>
      rw [setCsr_unknown hcsr]
      exact .inr ⟨m, rfl, ⟨rfl, rfl, rfl, rfl, rfl⟩⟩
  | some csr =>
      rw [setCsr_eq hcsr]
      simpa using writeCsr_cases csr val m

/-- The hart after a write of `tdata1` that takes effect. -/
def Hart.withTdata1 (h : Hart) (val : Reg) : Hart :=
  { h with
    mcontrol := Function.update h.mcontrol h.tselect
      (setMcontrol h.xlen (zextXlen h.xlen val) (h.mcontrol h.tselect)) }

theorem run_setCsr_tdata1 (val : Reg) (m : Machine β) :
    setCsr Csr.tdata1.num val m =
      if (m.hart.mcontrol m.hart.tselect).dmode && !m.hart.inDebugMode then .ok () m
      else .ok () { m with
        hart := m.hart.withTdata1 val
        mmu := m.mmu.withTriggers (m.hart.withTdata1 val) } := by
  rw [setCsr_eq (Csr.ofNum_num _)]
  simp only [writeCsr, run_bind, run_getHart]
  split_ifs
  · rfl
  · rfl

/-! ## Reading -/

/-- The registers lie outside of the ranges of counters that read as zero. -/
theorem Csr.num_outside (csr : Csr) :
    (decide (0xc03 ≤ csr.num) && decide (csr.num ≤ 0xc1f)) = false ∧
      (decide (0xc83 ≤ csr.num) && decide (csr.num ≤ 0xc9f)) = false ∧
      (decide (0xb03 ≤ csr.num) && decide (csr.num ≤ 0xb1f)) = false ∧
      (decide (0x323 ≤ csr.num) && decide (csr.num ≤ 0x33f)) = false := by
  cases csr <;> decide

theorem readsZero_num (h : Hart) (csr : Csr) : readsZero h csr.num = false := by
  obtain ⟨huser, hhigh, hmachine, hevent⟩ := Csr.num_outside csr
  simp only [readsZero, Bool.and_assoc, huser, hhigh, hmachine, hevent, Bool.and_false,
    Bool.or_false]

theorem getCsr_of_read {P : Platform β} {m : Machine β} {csr : Csr} {v : Reg}
    (hread : readCsr P.id (P.debugInterrupt m.dev) m.hart csr = some v) :
    getCsr P csr.num m = .ok v m := by
  simp only [getCsr, run_bind, run_get, readsZero_num, Csr.ofNum_num, Option.bind_some, hread]
  rfl

/-- Reading a register changes nothing. -/
theorem getCsr_same {P : Platform β} {which v : Reg} {m m' : Machine β}
    (h : getCsr P which m = .ok v m') : m' = m := by
  simp only [getCsr, run_bind, run_get] at h
  split_ifs at h
  · cases h
    rfl
  · cases hread : (Csr.ofNum which).bind (readCsr P.id (P.debugInterrupt m.dev) m.hart) with
    | none =>
        rw [hread] at h
        cases h
    | some w =>
        rw [hread] at h
        cases h
        rfl

/-! ## What control code leaves alone -/

theorem keeps_getHart {R : Machine β → Machine β → Prop} [Std.Refl R] [IsTrans _ R] :
    Keeps R (getHart : M β Hart) :=
  Keeps.bind .get fun _ => .pure _

/-- What writes of CSRs leave alone. -/
structure CsrFrame (m m' : Machine β) : Prop where
  hart : m'.hart = { m'.hart with
    pc := m.hart.pc
    xpr := m.hart.xpr
    fpr := m.hart.fpr
    prv := m.hart.prv
    dcsr := { m'.hart.dcsr with cause := m.hart.dcsr.cause }
    serialized := m.hart.serialized
    singleStep := m.hart.singleStep
    loadReservation := m.hart.loadReservation
    maxXlen := m.hart.maxXlen
    maxIsa := m.hart.maxIsa
    ext := m.hart.ext
    debug := m.hart.debug }
  decoder : m'.decoder = m.decoder
  dram : m'.dram = m.dram
  dev : m'.dev = m.dev
  trace : m'.trace = m.trace
  events : m'.events = m.events

instance : Std.Refl (CsrFrame (β := β)) := ⟨fun _ => ⟨rfl, rfl, rfl, rfl, rfl, rfl⟩⟩

instance : IsTrans (Machine β) CsrFrame where
  trans _ _ _ hab hbc := {
    hart := by rw [hbc.hart, hab.hart]
    decoder := hbc.decoder.trans hab.decoder
    dram := hbc.dram.trans hab.dram
    dev := hbc.dev.trans hab.dev
    trace := hbc.trace.trans hab.trace
    events := hbc.events.trans hab.events }

theorem flushTlb_csrFrame : Keeps CsrFrame (flushTlb : M β Unit) :=
  .bind (.modify fun _ => ⟨rfl, rfl, rfl, rfl, rfl, rfl⟩) fun _ =>
    .modify fun _ => ⟨rfl, rfl, rfl, rfl, rfl, rfl⟩

theorem setMstatus_csrFrame (val : Reg) : Keeps CsrFrame (setMstatus val : M β Unit) := by
  refine .bind keeps_getHart fun h => .ite (.bind flushTlb_csrFrame fun _ => ?_) ?_
  all_goals exact .modify fun m => ⟨rfl, rfl, rfl, rfl, rfl, rfl⟩

theorem writeCsr_csrFrame (csr : Csr) (val : Reg) :
    Keeps CsrFrame (writeCsr csr val : M β Unit) := by
  refine .bind keeps_getHart fun h => ?_
  cases csr
  case mstatus | sstatus => all_goals exact setMstatus_csrFrame _
  case sptbr =>
    refine .ite (.bind (.throw _) fun _ => ?_) ?_
    all_goals exact .modify fun _ => ⟨rfl, rfl, rfl, rfl, rfl, rfl⟩
  case tselect => exact .ite (.modify fun _ => ⟨rfl, rfl, rfl, rfl, rfl, rfl⟩) (.pure _)
  case tdata1 =>
    refine .ite (.pure _) (.bind (.modify fun _ => ⟨rfl, rfl, rfl, rfl, rfl, rfl⟩) fun _ => ?_)
    refine .bind flushTlb_csrFrame fun _ => .bind keeps_getHart fun h => ?_
    exact .modify fun _ => ⟨rfl, rfl, rfl, rfl, rfl, rfl⟩
  case tdata2 => exact .ite (.pure _) (.modify fun _ => ⟨rfl, rfl, rfl, rfl, rfl, rfl⟩)
  case cycle | instret | tdata3 | mvendorid | marchid | mimpid | mhartid =>
    all_goals exact .pure _
  all_goals exact .modify fun _ => ⟨rfl, rfl, rfl, rfl, rfl, rfl⟩

theorem setCsr_csrFrame (which val : Reg) : Keeps CsrFrame (setCsr which val : M β Unit) := by
  unfold setCsr
  split
  · exact .pure _
  · exact writeCsr_csrFrame ..

/-- What writes of CSRs, changes of privilege, traps and debug entries leave alone. -/
structure ControlFrame (m m' : Machine β) : Prop where
  hart : m'.hart = { m'.hart with
    xpr := m.hart.xpr
    fpr := m.hart.fpr
    serialized := m.hart.serialized
    singleStep := m.hart.singleStep
    maxXlen := m.hart.maxXlen
    maxIsa := m.hart.maxIsa
    ext := m.hart.ext
    debug := m.hart.debug }
  decoder : m'.decoder = m.decoder
  dram : m'.dram = m.dram
  dev : m'.dev = m.dev
  trace : m'.trace = m.trace

instance : Std.Refl (ControlFrame (β := β)) := ⟨fun _ => ⟨rfl, rfl, rfl, rfl, rfl⟩⟩

instance : IsTrans (Machine β) ControlFrame where
  trans _ _ _ hab hbc := {
    hart := by rw [hbc.hart, hab.hart]
    decoder := hbc.decoder.trans hab.decoder
    dram := hbc.dram.trans hab.dram
    dev := hbc.dev.trans hab.dev
    trace := hbc.trace.trans hab.trace }

theorem CsrFrame.control {m m' : Machine β} (h : CsrFrame m m') : ControlFrame m m' where
  hart := by
    conv_lhs => rw [h.hart]
    rw [h.hart]
  decoder := h.decoder
  dram := h.dram
  dev := h.dev
  trace := h.trace

theorem flushTlb_frame : Keeps ControlFrame (flushTlb : M β Unit) :=
  flushTlb_csrFrame.imp fun _ _ => CsrFrame.control

theorem setPrivilege_frame (prv : Prv) : Keeps ControlFrame (setPrivilege prv : M β Unit) :=
  .bind flushTlb_frame fun _ => .modify fun _ => ⟨rfl, rfl, rfl, rfl, rfl⟩

theorem enterDebugMode_frame (cause : DebugCause) :
    Keeps ControlFrame (enterDebugMode cause : M β Unit) := by
  refine .bind keeps_getHart fun h => .bind (.modify fun _ => ⟨rfl, rfl, rfl, rfl, rfl⟩) fun _ => ?_
  refine .bind (.modify fun _ => ⟨rfl, rfl, rfl, rfl, rfl⟩) fun _ => ?_
  refine .bind (setPrivilege_frame _) fun _ => ?_
  exact .modify fun _ => ⟨rfl, rfl, rfl, rfl, rfl⟩

theorem setCsr_frame (which val : Reg) : Keeps ControlFrame (setCsr which val : M β Unit) :=
  (setCsr_csrFrame which val).imp fun _ _ => CsrFrame.control

theorem takeTrap_frame (t : Trap) (epc : Reg) : Keeps ControlFrame (takeTrap t epc : M β Unit) := by
  have hmodify (f : Hart → Hart) (hf : ∀ h, f h = { f h with
      xpr := h.xpr, fpr := h.fpr, serialized := h.serialized, singleStep := h.singleStep,
      maxXlen := h.maxXlen, maxIsa := h.maxIsa, ext := h.ext, debug := h.debug }) :
      Keeps ControlFrame (modifyHart f : M β Unit) :=
    .modify fun m => ⟨hf m.hart, rfl, rfl, rfl, rfl⟩
  have hstatus (val : Reg) : Keeps ControlFrame (setMstatus val : M β Unit) :=
    (setMstatus_csrFrame val).imp fun _ _ => CsrFrame.control
  refine .bind keeps_getHart fun h => .bind (.modify fun _ => ⟨rfl, rfl, rfl, rfl, rfl⟩) fun _ => ?_
  refine .ite (enterDebugMode_frame _) (.ite (hmodify _ fun _ => rfl) (.ite ?_ ?_))
  all_goals
    refine .bind (hmodify _ fun _ => rfl) fun _ => .bind (hstatus _) fun _ => ?_
    exact .bind (setPrivilege_frame _) fun _ => hmodify _ fun _ => rfl

/-- A relation that holds across whatever control code does as long as it leaves the triggers
alone: it flushes the TLB, changes other registers and records what happens. -/
structure ControlKeeps (R : Machine β → Machine β → Prop) : Prop where
  flushTlb : Keeps R (Riscv.flushTlb : M β Unit)
  hart : ∀ m h, h.mcontrol = m.hart.mcontrol → R m { m with hart := h }
  record : ∀ m events, R m { m with events := events }

namespace ControlKeeps

variable {R : Machine β → Machine β → Prop} [Std.Refl R] [IsTrans (Machine β) R]
  (hR : ControlKeeps R)

include hR

omit [Std.Refl R] in
theorem setPrivilege (prv : Prv) : Keeps R (setPrivilege prv : M β Unit) :=
  .bind hR.flushTlb fun _ => .modify fun m => hR.hart m _ rfl

theorem enterDebugMode (cause : DebugCause) : Keeps R (enterDebugMode cause : M β Unit) := by
  refine .bind keeps_getHart fun h => .bind (.modify fun m => hR.record m _) fun _ => ?_
  refine .bind (.modify fun m => hR.hart m _ rfl) fun _ => .bind (hR.setPrivilege _) fun _ => ?_
  exact .modify fun m => hR.hart m _ rfl

theorem setMstatus (val : Reg) : Keeps R (setMstatus val : M β Unit) := by
  refine .bind keeps_getHart fun h => .ite (.bind hR.flushTlb fun _ => ?_) ?_
  all_goals exact .modify fun m => hR.hart m _ rfl

theorem takeTrap (t : Trap) (epc : Reg) : Keeps R (takeTrap t epc : M β Unit) := by
  refine .bind keeps_getHart fun h => .bind (.modify fun m => hR.record m _) fun _ => ?_
  refine .ite (hR.enterDebugMode _) (.ite (.modify fun m => hR.hart m _ rfl) (.ite ?_ ?_))
  all_goals
    refine .bind (.modify fun m => hR.hart m _ rfl) fun _ => .bind (hR.setMstatus _) fun _ => ?_
    exact .bind (hR.setPrivilege _) fun _ => .modify fun m => hR.hart m _ rfl

/-- Only a write of `tdata1` changes a trigger's control word. -/
theorem writeCsr {csr : Csr} (hcsr : csr ≠ .tdata1) (val : Reg) :
    Keeps R (writeCsr csr val : M β Unit) := by
  refine .bind keeps_getHart fun h => ?_
  cases csr
  case tdata1 => exact absurd rfl hcsr
  case mstatus | sstatus => all_goals exact hR.setMstatus _
  case sptbr =>
    refine .ite (.bind (.throw _) fun _ => ?_) ?_
    all_goals exact .modify fun m => hR.hart m _ rfl
  case tselect => exact .ite (.modify fun m => hR.hart m _ rfl) (.pure _)
  case tdata2 => exact .ite (.pure _) (.modify fun m => hR.hart m _ rfl)
  case cycle | instret | tdata3 | mvendorid | marchid | mimpid | mhartid =>
    all_goals exact .pure _
  all_goals exact .modify fun m => hR.hart m _ rfl

theorem setCsr {which : Reg} (hwhich : which ≠ Csr.tdata1.num) (val : Reg) :
    Keeps R (setCsr which val : M β Unit) := by
  unfold Riscv.setCsr
  split
  · exact .pure _
  · rename_i csr hcsr
    apply hR.writeCsr
    rintro rfl
    exact hwhich (Csr.num_of_ofNum hcsr).symm

end ControlKeeps

/-! ## Returning from a trap -/

/-- The value that `mret` and `sret` write to `mstatus`. -/
def returnStatus (ppMask pieMask s : Reg) : Reg :=
  let s' := setField s (mstatusUie <<< (Prv.ofReg (getField s ppMask)).val) (getField s pieMask)
  setField (setField s' pieMask 0) ppMask prvU.toReg

/-- The hart after `mret` or `sret`. -/
def Hart.afterReturn (h : Hart) (epc : Hart → Reg) (ppMask pieMask : Reg) : Hart :=
  let prev := Prv.ofReg (getField h.mstatus ppMask)
  ({ h with pc := epc h, prv := if prev = prvH then prvU else prev }).withMstatus
    (zextXlen h.xlen (returnStatus ppMask pieMask h.mstatus))

end SpikeSim.Riscv
