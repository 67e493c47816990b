/-
# Privilege isolation

Below machine mode no handler that returns raises the privilege, touches a
machine-level register, or changes a bit of `mstatus`, `mie` or `mip` that is not
its own.

Most handlers cannot even touch the supervisor's registers, whatever mode they run
in: the acts they are made of are confined to the registers and to the FP state
(`UserConfined`).  The others are the CSR instructions, whose number says which
level may use them, and `sret`, which writes `mstatus` with all but three of its
bits as they were.
-/

import SpikeSim.Lib.BitMask
import SpikeSim.Riscv.Access
import SpikeSim.Riscv.CsrEffect
import SpikeSim.Riscv.Families
import SpikeSim.Riscv.FieldLaws

namespace SpikeSim.Riscv

open Handler

variable {β : Type} {P : Platform β}

/-! ## What may change -/

/-- The summary bits of a handler of this width on the hart.  A hart runs handlers
of its own width, and there the three are one bit. -/
def sdMask (xlen : Xlen) (h : Hart) : Reg := sdBit xlen ||| sdBit h.xlen ||| sdBit h.maxXlen

/-- What code in user mode may change: the register files, the FP state with its
two fields of `mstatus`, `pc`, and the bookkeeping of serialization and of the
load reservation. -/
structure UserConfined (sd : Reg) (h h' : Hart) : Prop where
  frame : h' = { h with
    pc := h'.pc
    xpr := h'.xpr
    fpr := h'.fpr
    mstatus := h'.mstatus
    fflags := h'.fflags
    frm := h'.frm
    serialized := h'.serialized
    loadReservation := h'.loadReservation }
  mstatus : AgreeOn (~~~(mstatusFs ||| sd)) h'.mstatus h.mstatus

/-- What code in supervisor mode may change: in addition the privilege, downwards,
the supervisor's registers, and the bits of `mstatus`, `mie` and `mip` that it sees.
The width is set by every write of `mstatus`. -/
structure Confined (sd : Reg) (h h' : Hart) : Prop where
  frame : h' = { h with
    pc := h'.pc
    xpr := h'.xpr
    fpr := h'.fpr
    prv := h'.prv
    mstatus := h'.mstatus
    mie := h'.mie
    mip := h'.mip
    sepc := h'.sepc
    sbadaddr := h'.sbadaddr
    sscratch := h'.sscratch
    stvec := h'.stvec
    sptbr := h'.sptbr
    scause := h'.scause
    fflags := h'.fflags
    frm := h'.frm
    serialized := h'.serialized
    loadReservation := h'.loadReservation
    xlen := h'.xlen }
  prv : h'.prv ≤ h.prv
  mstatus : AgreeOn (~~~(sstatusMask ||| sd)) h'.mstatus h.mstatus
  mie : AgreeOn (~~~h.mideleg) h'.mie h.mie
  mip : AgreeOn (~~~(mipSsip &&& h.mideleg)) h'.mip h.mip

section Confined

variable {sd : Reg} {h h₁ h₂ h' : Hart}

theorem UserConfined.refl (sd : Reg) (h : Hart) : UserConfined sd h h := ⟨rfl, .refl ..⟩

theorem UserConfined.trans (hfirst : UserConfined sd h h₁) (hrest : UserConfined sd h₁ h') :
    UserConfined sd h h' :=
  ⟨by rw [hrest.frame, hfirst.frame], hrest.mstatus.trans hfirst.mstatus⟩

theorem Confined.trans (hfirst : Confined sd h h₁) (hrest : Confined sd h₁ h') :
    Confined sd h h' where
  frame := by rw [hrest.frame, hfirst.frame]
  prv := hrest.prv.trans hfirst.prv
  mstatus := hrest.mstatus.trans hfirst.mstatus
  mie := by
    have hmie := hrest.mie
    rw [hfirst.frame] at hmie
    exact hmie.trans hfirst.mie
  mip := by
    have hmip := hrest.mip
    rw [hfirst.frame] at hmip
    exact hmip.trans hfirst.mip

/-- User mode is confined to less than supervisor mode. -/
theorem UserConfined.confined (huser : UserConfined sd h h') : Confined sd h h' where
  frame := by rw [huser.frame]
  prv := by rw [huser.frame]
  mstatus := by
    refine huser.mstatus.outside_mono (.or (.trans ?_ (.or_left ..)) (.or_right ..))
    decide
  mie := by rw [huser.frame]
  mip := by rw [huser.frame]

end Confined

/-! ## Ordinary acts -/

/-- Stores to devices do not reach `mip`. -/
def Platform.StoresKeepMip (P : Platform β) : Prop :=
  ∀ addr len data dev mip, (P.busStore addr len data dev mip).2.2 = mip

theorem dirtyFpState_userConfined {xlen : Xlen} {sd : Reg} (hsd : SubMask (sdBit xlen) sd)
    (h : Hart) : UserConfined sd h (dirtyFpState xlen h) :=
  ⟨rfl, .or (.or (.or_left ..) (hsd.trans (.or_right ..)))⟩

theorem writeXpr_userConfined (sd : Reg) (h : Hart) (reg : Fin 32) (value : Reg) :
    UserConfined sd h (h.writeXpr reg value) := by
  unfold Hart.writeXpr
  split
  · exact .refl ..
  · exact ⟨rfl, .refl ..⟩

theorem deviceStore_hart (hbus : P.StoresKeepMip) (m : Machine β) (paddr : Reg) (len : Nat)
    (data : Reg) : (deviceStore P paddr len data m).hart = m.hart := by
  have hmip : (P.mmioStore paddr len data m.dev m.hart.mip).2.2 = m.hart.mip := by
    unfold Platform.mmioStore
    split
    · rfl
    · exact hbus ..
  simp only [deviceStore, hmip]

/-- The hart is the same. -/
def SameHart (m m' : Machine β) : Prop := m'.hart = m.hart

instance : Std.Refl (SameHart (β := β)) := ⟨fun _ => rfl⟩

instance : IsTrans (Machine β) SameHart := ⟨fun _ _ _ hab hbc => Eq.trans hbc hab⟩

theorem storeKeeps_sameHart (hbus : P.StoresKeepMip) : StoreKeeps P SameHart where
  read := ⟨fun _ _ _ _ _ _ => rfl, fun _ _ _ _ _ => rfl, fun _ _ => rfl, fun _ _ _ => rfl,
    fun _ _ => rfl⟩
  write _ _ := rfl
  device m paddr len data := deviceStore_hart hbus m paddr len data

theorem ordinary_userConfined (hbus : P.StoresKeepMip) {xlen : Xlen} {sd : Reg}
    (hsd : SubMask (sdBit xlen) sd) {a : Act} (ha : a.Ordinary xlen) {m m' : Machine β}
    {r : a.Result} (h : a.exec P m = .ok r m') : UserConfined sd m.hart m'.hart := by
  have hsame : m'.hart = m.hart → UserConfined sd m.hart m'.hart := by
    intro heq
    rw [heq]
    exact .refl ..
  cases a with
  | hart =>
      cases h
      exact .refl ..
  | writeXpr reg value =>
      cases h
      exact writeXpr_userConfined ..
  | writeFpr width reg value =>
      obtain rfl : width = xlen := ha
      cases h
      have hwrite : UserConfined sd m.hart
          { m.hart with fpr := Function.update m.hart.fpr reg value } := ⟨rfl, .refl ..⟩
      exact hwrite.trans (dirtyFpState_userConfined hsd _)
  | setFpExceptions width flags =>
      obtain rfl : width = xlen := ha
      cases h
      change UserConfined sd m.hart (m.hart.setFpExceptions width flags)
      unfold Hart.setFpExceptions
      split
      · exact .refl ..
      · exact (dirtyFpState_userConfined hsd _).trans ⟨rfl, .refl ..⟩
  | setSerialized _ | setLoadReservation _ | setStatePc _ =>
      cases h
      exact ⟨rfl, .refl ..⟩
  | setPrivilege _ | leaveDebugMode | setCsr _ _ => cases ha
  | load ty addr => exact hsame ((load_readOnly P ty addr).ok h).hart
  | store ty addr value => exact hsame (((storeKeeps_sameHart hbus).store ..).ok h)
  | amo ty addr f => exact hsame (((storeKeeps_sameHart hbus).amo ..).ok h)
  | getCsr which => exact hsame ((getCsr_readOnly P which).ok h).hart
  | flushTlb | flushIcache =>
      cases h
      exact .refl ..

/-- A step of the machine that is confined so. -/
def UserStep (sd : Reg) (m m' : Machine β) : Prop := UserConfined sd m.hart m'.hart

instance (sd : Reg) : Std.Refl (UserStep (β := β) sd) := ⟨fun _ => .refl ..⟩

instance (sd : Reg) : IsTrans (Machine β) (UserStep sd) :=
  ⟨fun _ _ _ hab hbc => UserConfined.trans hab hbc⟩

/-! ## CSR instructions -/

/-- The level that a CSR number asks for. -/
def csrLevel (which : Reg) : Prv := Prv.ofReg (getField which 0x300)

theorem Confined.of_supervisor {sd : Reg} {h h' : Hart} (hframe : h' = { h with
      sepc := h'.sepc
      sbadaddr := h'.sbadaddr
      sscratch := h'.sscratch
      stvec := h'.stvec
      sptbr := h'.sptbr
      scause := h'.scause }) : Confined sd h h' := by
  constructor
  all_goals rw [hframe]

section Writes

variable {sd : Reg} {h : Hart}

theorem withMstatus_confined (hsd : SubMask (sdBit h.maxXlen) sd) {val : Reg}
    (hval : AgreeOn (~~~(sstatusMask ||| sd) &&& mstatusWritable) val h.mstatus) :
    Confined sd h (h.withMstatus val) where
  frame := rfl
  prv := le_refl _
  mstatus := withMstatus_agreeOn h val (hsd.trans (.or_right ..)) hval
  mie := .refl ..
  mip := .refl ..

theorem setMie_confined (val : Reg) :
    Confined sd h (setMie h ((h.mie &&& ~~~h.mideleg) ||| (val &&& h.mideleg))) where
  frame := rfl
  prv := le_refl _
  mstatus := .refl ..
  mie := .write (zextXlen_agreeOn_low h.xlen ((SubMask.and_right ..).trans (by decide))
    ((AgreeOn.write_outside (.refl _)).mono (.and_left ..)))
  mip := .refl ..

theorem setMip_confined (val : Reg) :
    Confined sd h (setMip h ((h.mip &&& ~~~(mipSsip &&& h.mideleg)) |||
      (val &&& (mipSsip &&& h.mideleg)))) where
  frame := rfl
  prv := le_refl _
  mstatus := .refl ..
  mie := .refl ..
  mip := .write (zextXlen_agreeOn_low h.xlen ((SubMask.and_right ..).trans (by decide))
    ((AgreeOn.write_outside (.refl _)).mono (.and_left ..)))

end Writes

/-- A write of a register of user level. -/
theorem writeCsr_userConfined {sd val : Reg} {csr : Csr} {m m' : Machine β} {u : Unit}
    (hlevel : csrLevel csr.num ≤ prvU) (hsd : SubMask (sdBit m.hart.xlen) sd)
    (h : writeCsr csr val m = .ok u m') : UserConfined sd m.hart m'.hart := by
  cases csr
  case fflags | frm | fcsr =>
    all_goals
      cases h
      exact (dirtyFpState_userConfined hsd _).trans ⟨rfl, .refl ..⟩
  case cycle | instret =>
    all_goals
      cases h
      exact .refl ..
  all_goals exact absurd hlevel (by decide)

/-- A write of a register of user or supervisor level. -/
theorem writeCsr_confined {sd val : Reg} {csr : Csr} {m m' : Machine β} {u : Unit}
    (hlevel : csrLevel csr.num ≤ prvS) (hsd : SubMask (sdBit m.hart.xlen) sd)
    (hsdMax : SubMask (sdBit m.hart.maxXlen) sd) (h : writeCsr csr val m = .ok u m') :
    Confined sd m.hart m'.hart := by
  by_cases huser : csrLevel csr.num ≤ prvU
  · exact (writeCsr_userConfined huser hsd h).confined
  · cases csr
    case sstatus =>
      simp only [writeCsr, run_bind, run_getHart, run_setMstatus] at h
      cases h
      refine withMstatus_confined hsdMax (AgreeOn.mono ?_ (.and_left ..))
      exact (AgreeOn.write_outside (.refl _)).outside_mono (.or_left ..)
    case sie =>
      cases h
      exact setMie_confined _
    case sip =>
      cases h
      exact setMip_confined _
    case sptbr =>
      simp only [writeCsr, run_bind, run_getHart] at h
      split at h
      · cases h
      · cases h
        exact .of_supervisor rfl
    case stvec | sscratch | sepc | scause | sbadaddr =>
      all_goals
        cases h
        exact .of_supervisor rfl
    case fflags | frm | fcsr | cycle | instret =>
      all_goals exact absurd (by decide) huser
    all_goals exact absurd hlevel (by decide)

theorem setCsr_confined {sd which val : Reg} {m m' : Machine β} {u : Unit}
    (hlevel : csrLevel which ≤ m.hart.prv) (hprv : m.hart.prv ≤ prvS)
    (hsd : SubMask (sdBit m.hart.xlen) sd) (hsdMax : SubMask (sdBit m.hart.maxXlen) sd)
    (h : setCsr which val m = .ok u m') :
    Confined sd m.hart m'.hart ∧ (m.hart.prv = prvU → UserConfined sd m.hart m'.hart) := by
  cases hcsr : Csr.ofNum which with
  | none =>
      rw [setCsr_unknown hcsr] at h
      cases h
      exact ⟨(UserConfined.refl ..).confined, fun _ => .refl ..⟩
  | some csr =>
      rw [setCsr_eq hcsr] at h
      obtain rfl := Csr.num_of_ofNum hcsr
      refine ⟨writeCsr_confined (hlevel.trans hprv) hsd hsdMax h, fun huser => ?_⟩
      exact writeCsr_userConfined (huser ▸ hlevel) hsd h

/-- A CSR instruction sends itself back to be serialized; or its number is of a level
that the hart has, and it reads and perhaps writes that register. -/
theorem run_csrOp_ok {c : Ctx} {write : Ctx → Bool} {new : Ctx → Hart → Reg → Reg} {npc : Reg}
    {m m' : Machine β} (h : (csrOp write new c).run (Act.exec P) m = .ok npc m') :
    m' = m ∨ csrLevel c.insn.csr ≤ m.hart.prv ∧
      ∃ (mid mid' : Machine β) (value : Reg), mid.hart = { m.hart with serialized := false } ∧
        (mid' = mid ∨ ∃ val, setCsr c.insn.csr val mid = .ok () mid') ∧
        m'.hart = mid'.hart.writeXpr c.insn.rd value := by
  rw [csrOp, run_readHart_bind] at h
  split at h
  · cases h
    exact .inl rfl
  · right
    change (if _ then _ else _ : Handler Reg).run (Act.exec P)
      { m with hart := { m.hart with serialized := false } } = _ at h
    split at h
    · cases h
    · rename_i hallowed
      have hlevel : csrLevel c.insn.csr ≤ m.hart.prv := by
        simp only [Bool.or_eq_true, decide_eq_true_eq, not_or, not_lt] at hallowed
        exact hallowed.2
      refine ⟨hlevel, ?_⟩
      obtain ⟨old, mid, hget, h⟩ := Program.run_call_ok h
      have hmid := ((getCsr_readOnly P _).ok hget).hart
      split at h
      · obtain ⟨_, mid', hset, h⟩ := Program.run_call_ok h
        cases h
        exact ⟨mid, mid', _, hmid, .inr ⟨_, hset⟩, rfl⟩
      · cases h
        exact ⟨mid, mid, _, hmid, .inl rfl, rfl⟩

theorem csrOp_confined {c : Ctx} {write : Ctx → Bool} {new : Ctx → Hart → Reg → Reg} {npc : Reg}
    {m m' : Machine β} (hprv : m.hart.prv ≤ prvS)
    (h : (csrOp write new c).run (Act.exec P) m = .ok npc m') :
    Confined (sdMask c.xlen m.hart) m.hart m'.hart ∧
      (m.hart.prv = prvU → UserConfined (sdMask c.xlen m.hart) m.hart m'.hart) := by
  rcases run_csrOp_ok h with rfl | ⟨hlevel, mid, mid', value, hmid, hset, hm'⟩
  · exact ⟨(UserConfined.refl ..).confined, fun _ => .refl ..⟩
  · have hfirst : UserConfined (sdMask c.xlen m.hart) m.hart mid.hart := by
      rw [hmid]
      exact ⟨rfl, .refl ..⟩
    have hlast : UserConfined (sdMask c.xlen m.hart) mid'.hart m'.hart := by
      rw [hm']
      exact writeXpr_userConfined ..
    have hwrite : Confined (sdMask c.xlen m.hart) mid.hart mid'.hart ∧
        (m.hart.prv = prvU → UserConfined (sdMask c.xlen m.hart) mid.hart mid'.hart) := by
      rcases hset with rfl | ⟨val, hset⟩
      · exact ⟨(UserConfined.refl ..).confined, fun _ => .refl ..⟩
      · have hsame : mid.hart.prv = m.hart.prv ∧ mid.hart.xlen = m.hart.xlen ∧
            mid.hart.maxXlen = m.hart.maxXlen := by
          rw [hmid]
          exact ⟨rfl, rfl, rfl⟩
        obtain ⟨hprv', hxlen, hmax⟩ := hsame
        rw [← hprv'] at hlevel hprv ⊢
        refine setCsr_confined hlevel hprv ?_ ?_ hset
        · rw [hxlen]
          exact (SubMask.or_right ..).trans (.or_left ..)
        · rw [hmax]
          exact .or_right ..
    exact ⟨(hfirst.confined.trans hwrite.1).trans hlast.confined,
      fun huser => (hfirst.trans (hwrite.2 huser)).trans hlast⟩

/-! ## Returning from a trap -/

/-- `SPP` has room for the levels up to supervisor mode. -/
theorem spp_le (s : Reg) : Prv.ofReg (getField s mstatusSpp) ≤ prvS := by
  have hfield : (getField s mstatusSpp).toNat ≤ 1 := by
    have hand : (s &&& mstatusSpp).toNat ≤ 0x100 := by
      rw [BitVec.toNat_and]
      exact Nat.and_le_right
    unfold getField
    rw [BitVec.toNat_udiv, show (mstatusSpp &&& ~~~(mstatusSpp <<< 1)).toNat = 0x100 from by decide]
    omega
  rw [Fin.le_def]
  change (getField s mstatusSpp).toNat % 4 ≤ 1
  omega

/-- The value that `sret` writes differs in `SIE`, `SPIE` and `SPP`, and in `UIE`,
which a write does not change. -/
theorem returnStatus_agreeOn (sd s : Reg) :
    AgreeOn (~~~(sstatusMask ||| sd) &&& mstatusWritable)
      (returnStatus mstatusSpp mstatusSpie s) s := by
  have houtside {field : Reg} (hfield : SubMask field sstatusMask) :
      SubMask (~~~(sstatusMask ||| sd) &&& mstatusWritable) (~~~field) :=
    (SubMask.and_left ..).trans (hfield.trans (.or_left ..)).not
  have henable : SubMask (~~~(sstatusMask ||| sd) &&& mstatusWritable)
      (~~~(mstatusUie <<< (Prv.ofReg (getField s mstatusSpp)).val)) := by
    have hspp := spp_le s
    generalize Prv.ofReg (getField s mstatusSpp) = prev at hspp ⊢
    obtain rfl | rfl : prev = prvU ∨ prev = prvS := by
      revert hspp prev
      decide
    · exact (SubMask.and_right ..).trans (by decide)
    · exact houtside (by decide)
  unfold returnStatus
  refine ((setField_agreeOn _ _ _).mono (houtside (by decide))).trans ?_
  refine ((setField_agreeOn _ _ _).mono (houtside (by decide))).trans ?_
  exact (setField_agreeOn _ _ _).mono henable

theorem sret_confined {c : Ctx} {npc : Reg} {m m' : Machine β} (hprv : m.hart.prv ≤ prvS)
    (h : (Insns.sret c).run (Act.exec P) m = .ok npc m') :
    m.hart.prv = prvS ∧ Confined (sdMask c.xlen m.hart) m.hart m'.hart := by
  obtain ⟨hlevel, -, rfl⟩ := run_trapReturn_ok h
  have hS : m.hart.prv = prvS := le_antisymm hprv hlevel
  refine ⟨hS, ?_⟩
  let prev := Prv.ofReg (getField m.hart.mstatus mstatusSpp)
  let lower : Hart := { m.hart with pc := m.hart.sepc, prv := if prev = prvH then prvU else prev }
  have hlower : Confined (sdMask c.xlen m.hart) m.hart lower := by
    refine ⟨rfl, ?_, .refl .., .refl .., .refl ..⟩
    rw [hS]
    change (if prev = prvH then prvU else prev) ≤ prvS
    split
    · decide
    · exact spp_le _
  refine hlower.trans (withMstatus_confined (h := lower) (.or_right ..) ?_)
  exact zextXlen_agreeOn_low _ (mstatusWritable_low _) (returnStatus_agreeOn _ _)

/-! ## All handlers -/

/-- **Privilege isolation.** Below machine mode a handler that returns is confined to
the registers of its mode. -/
theorem handler_isolated (hbus : P.StoresKeepMip) {F : SoftFloat} {name : InsnName}
    {xlen : Xlen} {insn : Insn} {pc npc : Reg} {m m' : Machine β}
    (hprv : m.hart.prv = prvU ∨ m.hart.prv = prvS)
    (h : (insnProgram F name xlen insn pc).run (Act.exec P) m = .ok npc m') :
    Confined (sdMask xlen m.hart) m.hart m'.hart ∧
      (m.hart.prv = prvU → UserConfined (sdMask xlen m.hart) m.hart m'.hart) := by
  have hle : m.hart.prv ≤ prvS := by
    rcases hprv with hU | hS
    · rw [hU]
      decide
    · rw [hS]
  have hlow : ¬ prvM ≤ m.hart.prv := fun hM => absurd (hM.trans hle) (by decide)
  let c : Ctx := ⟨xlen, insn, pc, sextXlen xlen (pc + BitVec.ofNat 64 (insnLength name.encoding.1))⟩
  change (handler F name c).run (Act.exec P) m = _ at h
  rcases uses_family (handler_family F name c) with
    huses | ⟨write, new, -, hcsr⟩ | hmret | hsret | hdret
  · have huser := Program.run_trans (R := UserStep (sdMask xlen m.hart))
      (fun a m r m' ha hexec => ordinary_userConfined hbus
        ((SubMask.or_left ..).trans (.or_left ..)) (Act.OrdinaryOf.ordinary ha) hexec) huses h
    exact ⟨huser.confined, fun _ => huser⟩
  · rw [hcsr] at h
    exact csrOp_confined hle h
  · rw [hmret] at h
    exact absurd (run_trapReturn_ok h).1 hlow
  · rw [hsret] at h
    obtain ⟨hS, hconfined⟩ := sret_confined hle h
    refine ⟨hconfined, fun hU => ?_⟩
    rw [hS] at hU
    exact absurd hU (by decide)
  · rw [hdret] at h
    obtain ⟨_, hneeds⟩ := run_requireAll_bind_ok h
    exact absurd (by simpa [Need.holds] using hneeds) hlow

/-- `csrw sstatus, x1` in supervisor mode, with all bits of the operand set. -/
theorem csrw_sstatus_isolated :
    let h := Hart.reset .rv64 0 false
    let m : Machine Unit := { Machine.reset .rv64 0 false (Decode.freshDecoder false)
      (fun _ => 0) () with
        hart := { h with prv := prvS, serialized := true, xpr := Function.update h.xpr 1 (-1) } }
    ∃ m', (insnProgram .zeros .csrrw .rv64 ⟨0x10009073⟩ 0).run (Act.exec .bare) m = .ok 4 m' ∧
      m'.hart.mstatus = 0x8000000000046122 ∧
      Confined (sdMask .rv64 m.hart) m.hart m'.hart ∧
        (m.hart.prv = prvU → UserConfined (sdMask .rv64 m.hart) m.hart m'.hart) := by
  intro h m
  have hrun : (match (insnProgram .zeros .csrrw .rv64 ⟨0x10009073⟩ 0).run (Act.exec .bare) m with
      | .ok npc m' => some (npc, m'.hart.mstatus)
      | .error .. => none) = some (4, 0x8000000000046122) := by
    decide +kernel
  split at hrun
  · rename_i npc m' hok
    obtain ⟨rfl, hstatus⟩ : npc = 4 ∧ m'.hart.mstatus = 0x8000000000046122 := by
      simpa using hrun
    exact ⟨m', hok, hstatus, handler_isolated (fun _ _ _ _ _ => rfl) (.inr rfl) hok⟩
  · cases hrun

end SpikeSim.Riscv
