/-
# Trap entry and return

`take_trap` saves the interrupt-enable bit and the privilege level of the
interrupted program in `mstatus`, and `mret` and `sret` restore them.  Both go
through the write of `mstatus`, which keeps some bits.  Here are the closed forms
of entry and return, and the proof that they are inverse to each other.
-/

import SpikeSim.Riscv.Families
import SpikeSim.Riscv.FieldLaws

namespace SpikeSim.Riscv

variable {β : Type}

/-! ## Entry -/

/-- The fields of `mstatus` that a trap to one level uses. -/
structure TrapFields where
  ie : Reg
  pie : Reg
  pp : Reg

def supervisorFields : TrapFields := ⟨mstatusSie, mstatusSpie, mstatusSpp⟩

def machineFields : TrapFields := ⟨mstatusMie, mstatusMpie, mstatusMpp⟩

/-- The value that `take_trap` writes to `mstatus`. -/
def Hart.trapStatus (h : Hart) (fields : TrapFields) : Reg :=
  let enabled := getField h.mstatus (mstatusUie <<< h.prv.val)
  setField (setField (setField h.mstatus fields.pie enabled) fields.pp h.prv.toReg) fields.ie 0

/-- The hart after a trap that is not a debug entry. -/
def Hart.afterTrap (h : Hart) (t : Trap) (epc : Reg) : Hart :=
  if delegated h t.cause then
    { { h with
        pc := h.stvec
        scause := t.cause
        sepc := epc
        sbadaddr := t.badaddr.getD h.sbadaddr }.withMstatus (h.trapStatus supervisorFields) with
      prv := prvS
      loadReservation := -1 }
  else
    { { h with
        pc := h.mtvec
        mepc := epc
        mcause := t.cause
        mbadaddr := t.badaddr.getD h.mbadaddr }.withMstatus (h.trapStatus machineFields) with
      prv := prvM
      loadReservation := -1 }

/-- Such a trap leaves the debugger's registers alone. -/
theorem afterTrap_debug (h : Hart) (t : Trap) (epc : Reg) :
    (h.afterTrap t epc).dcsr = h.dcsr ∧ (h.afterTrap t epc).dpc = h.dpc ∧
      (h.afterTrap t epc).singleStep = h.singleStep := by
  unfold Hart.afterTrap
  split <;> exact ⟨rfl, rfl, rfl⟩

/-- A trap outside of debug mode that does not enter it. -/
theorem run_takeTrap (t : Trap) (epc : Reg) {m : Machine β}
    (hdebug : m.hart.inDebugMode = false) (henters : ¬(t.cause = 3 ∧ ebreakEnters m.hart)) :
    takeTrap t epc m = .ok () { m with
      hart := m.hart.afterTrap t epc
      mmu := m.mmu.flushed
      events := m.events ++ [.trapTaken t.cause epc] } := by
  simp only [takeTrap, run_bind, run_getHart, run_record, if_neg henters, hdebug, Hart.afterTrap]
  cases delegated m.hart t.cause with
  | false =>
      simp only [Bool.false_eq_true, if_false, run_bind, run_modifyHart, run_setMstatus,
        run_setPrivilege, yieldLoadReservation, Mmu.flushed_cond_flushed]
      rfl
  | true =>
      simp only [Bool.false_eq_true, if_false, if_true, run_bind, run_modifyHart, run_setMstatus,
        run_setPrivilege, yieldLoadReservation, Mmu.flushed_cond_flushed]
      rfl

/-- The hart after `enter_debug_mode`. -/
def Hart.afterDebugEntry (h : Hart) (cause : DebugCause) : Hart :=
  { h with
    dcsr := { h.dcsr with cause := cause, prv := h.prv }
    prv := prvM
    dpc := h.pc
    pc := debugRomStart }

@[simp]
theorem run_enterDebugMode (cause : DebugCause) (m : Machine β) :
    enterDebugMode cause m = .ok () { m with
      hart := m.hart.afterDebugEntry cause
      mmu := m.mmu.flushed
      events := m.events ++ [.debugEntered m.hart.dcsr.cause] } := rfl

/-- A breakpoint that goes to the debugger. -/
theorem run_takeTrap_enters {t : Trap} {m : Machine β} (henters : t.cause = 3 ∧ ebreakEnters m.hart)
    (epc : Reg) :
    takeTrap t epc m = .ok () { m with
      hart := m.hart.afterDebugEntry .swbp
      mmu := m.mmu.flushed
      events := m.events ++ [.trapTaken t.cause epc] ++ [.debugEntered m.hart.dcsr.cause] } := by
  simp only [takeTrap, run_bind, run_getHart, run_record, if_pos henters, run_enterDebugMode]

/-- Any other trap in debug mode. -/
theorem run_takeTrap_inDebugMode {t : Trap} {m : Machine β} (hdebug : m.hart.inDebugMode = true)
    (henters : ¬(t.cause = 3 ∧ ebreakEnters m.hart)) (epc : Reg) :
    takeTrap t epc m = .ok () { m with
      hart := { m.hart with pc := debugRomException }
      events := m.events ++ [.trapTaken t.cause epc] } := by
  simp only [takeTrap, run_bind, run_getHart, run_record, if_neg henters, hdebug, if_true,
    run_modifyHart]

theorem takeTrap_returns (t : Trap) (epc : Reg) (m : Machine β) :
    ∃ m', takeTrap t epc m = .ok () m' := by
  by_cases henters : t.cause = 3 ∧ ebreakEnters m.hart
  · exact ⟨_, run_takeTrap_enters henters epc⟩
  · cases hdebug : m.hart.inDebugMode with
    | true => exact ⟨_, run_takeTrap_inDebugMode hdebug henters epc⟩
    | false => exact ⟨_, run_takeTrap t epc hdebug henters⟩

/-! ## Delegation -/

/-- The bit of a cause that tells interrupts from exceptions. -/
def topBit (maxXlen : Xlen) : Reg := 1 <<< (maxXlen.bits - 1)

/-- The cause of interrupt `i`. -/
def interruptCause (maxXlen : Xlen) (i : Nat) : Reg := topBit maxXlen ||| BitVec.ofNat 64 i

/-- The bit of the cause is set in `medeleg` or, for an interrupt, in `mideleg`. -/
def CauseDelegated (h : Hart) (cause : Reg) : Prop :=
  ∃ i < h.maxXlen.bits, (cause = BitVec.ofNat 64 i ∧ h.medeleg.getLsbD i = true) ∨
    (cause = interruptCause h.maxXlen i ∧ h.mideleg.getLsbD i = true)

/-- The top bit and the number of an interrupt do not meet. -/
theorem interruptCause_split (maxXlen : Xlen) {i : Nat} (hi : i < maxXlen.bits) :
    BitVec.ofNat 64 i &&& topBit maxXlen = 0 ∧ interruptCause maxXlen i &&& topBit maxXlen ≠ 0 ∧
      interruptCause maxXlen i &&& ~~~topBit maxXlen = BitVec.ofNat 64 i := by
  cases maxXlen with
  | rv32 =>
      have hall : ∀ i < 32, BitVec.ofNat 64 i &&& topBit .rv32 = 0 ∧
          interruptCause .rv32 i &&& topBit .rv32 ≠ 0 ∧
          interruptCause .rv32 i &&& ~~~topBit .rv32 = BitVec.ofNat 64 i := by decide
      exact hall i hi
  | rv64 =>
      have hall : ∀ i < 64, BitVec.ofNat 64 i &&& topBit .rv64 = 0 ∧
          interruptCause .rv64 i &&& topBit .rv64 ≠ 0 ∧
          interruptCause .rv64 i &&& ~~~topBit .rv64 = BitVec.ofNat 64 i := by decide
      exact hall i hi

/-- A cause with its top bit set is that of an interrupt. -/
theorem eq_interruptCause {maxXlen : Xlen} {cause : Reg} (h : cause &&& topBit maxXlen ≠ 0) :
    cause = interruptCause maxXlen (cause &&& ~~~topBit maxXlen).toNat := by
  have htop : cause &&& topBit maxXlen = topBit maxXlen := by
    have hand := BitVec.and_twoPow cause (maxXlen.bits - 1)
    rw [BitVec.twoPow_eq] at hand
    change cause &&& topBit maxXlen = _ at hand
    rw [hand] at h ⊢
    split
    · rfl
    · rename_i hbit
      rw [if_neg hbit] at h
      exact absurd rfl h
  rw [interruptCause, BitVec.ofNat_toNat, BitVec.setWidth_eq]
  refine BitVec.eq_of_getLsbD_eq fun j hj => ?_
  have hbit := congrArg (fun v => v.getLsbD j) htop
  simp only [BitVec.getLsbD_and, BitVec.getLsbD_or, BitVec.getLsbD_not] at hbit ⊢
  cases hcause : cause.getLsbD j with
  | false =>
      rw [hcause] at hbit
      rw [← hbit]
      rfl
  | true => cases (topBit maxXlen).getLsbD j <;> simp [hj]

theorem Xlen.bits_lt (xlen : Xlen) : xlen.bits < 2 ^ 64 := by
  cases xlen <;> decide

/-- `take_trap` goes to S-mode for the delegated causes, from S-mode and below. -/
theorem delegated_iff (h : Hart) (cause : Reg) :
    delegated h cause = true ↔ h.prv ≤ prvS ∧ CauseDelegated h cause := by
  have hnum {i : Nat} (hi : i < h.maxXlen.bits) : (BitVec.ofNat 64 i).toNat = i := by
    rw [BitVec.toNat_ofNat, Nat.mod_eq_of_lt (hi.trans (Xlen.bits_lt _))]
  have hlt {v : Reg} : v < BitVec.ofNat 64 h.maxXlen.bits ↔ v.toNat < h.maxXlen.bits := by
    rw [BitVec.lt_def, BitVec.toNat_ofNat, Nat.mod_eq_of_lt (Xlen.bits_lt _)]
  unfold delegated
  simp only [Bool.and_eq_true, decide_eq_true_eq, and_assoc, shift_and_one_ne_zero, hlt]
  change _ ∧ (if cause &&& topBit h.maxXlen != 0 then cause &&& ~~~topBit h.maxXlen
    else cause).toNat < _ ∧ (if cause &&& topBit h.maxXlen != 0 then h.mideleg
      else h.medeleg).getLsbD (if cause &&& topBit h.maxXlen != 0 then
        cause &&& ~~~topBit h.maxXlen else cause).toNat = true ↔ _
  refine and_congr_right fun _ => ?_
  by_cases htop : cause &&& topBit h.maxXlen = 0
  · have hexception : (cause &&& topBit h.maxXlen != 0) = false := by simpa using htop
    simp only [hexception, Bool.false_eq_true, if_false]
    constructor
    · rintro ⟨hbound, hdeleg⟩
      exact ⟨cause.toNat, hbound, .inl ⟨by simp, hdeleg⟩⟩
    · rintro ⟨i, hi, ⟨rfl, hdeleg⟩ | ⟨rfl, _⟩⟩
      · rw [hnum hi]
        exact ⟨hi, hdeleg⟩
      · exact absurd htop (interruptCause_split h.maxXlen hi).2.1
  · have hinterrupt : (cause &&& topBit h.maxXlen != 0) = true := by simpa using htop
    simp only [hinterrupt, if_true]
    constructor
    · rintro ⟨hbound, hdeleg⟩
      exact ⟨_, hbound, .inr ⟨eq_interruptCause htop, hdeleg⟩⟩
    · rintro ⟨i, hi, ⟨rfl, _⟩ | ⟨rfl, hdeleg⟩⟩
      · exact absurd (interruptCause_split h.maxXlen hi).1 htop
      · rw [(interruptCause_split h.maxXlen hi).2.2, hnum hi]
        exact ⟨hi, hdeleg⟩

/-! ## The bits of `mstatus` -/

theorem getLsbD_zextXlen (xlen : Xlen) (val : Reg) {i : Nat} (hi : i < 32) :
    (zextXlen xlen val).getLsbD i = val.getLsbD i := by
  refine agreeOn_iff.mp (zextXlen_agreeOn xlen val) i (by omega) ?_
  have hall : ∀ i < 32, (0xffffffff : Reg).getLsbD i = true := by decide
  exact hall i hi

theorem sdBit_getLsbD (xlen : Xlen) {i : Nat} (hi : i < 31) : (sdBit xlen).getLsbD i = false := by
  have hall : ∀ i < 31, (sdBit .rv32).getLsbD i = false ∧ (sdBit .rv64).getLsbD i = false := by
    decide
  cases xlen with
  | rv32 => exact (hall i hi).1
  | rv64 => exact (hall i hi).2

/-- A bit below `SD` after a write of `mstatus`. -/
theorem withMstatus_getLsbD (h : Hart) (val : Reg) {i : Nat} (hi : i < 31) :
    (h.withMstatus val).mstatus.getLsbD i =
      if (mstatusWriteMask h (zextXlen h.xlen val)).getLsbD i then val.getLsbD i
      else h.mstatus.getLsbD i := by
  have hfield : (if h.maxXlen = .rv32 then mstatus32Sd else mstatus64Sd) = sdBit h.maxXlen := by
    cases h.maxXlen <;> rfl
  have hsd : ∃ lo, FieldAt (sdBit h.maxXlen) lo := by
    cases h.maxXlen with
    | rv32 => exact ⟨31, by decide⟩
    | rv64 => exact ⟨63, by decide⟩
  obtain ⟨lo, hsd⟩ := hsd
  simp only [Hart.withMstatus, newMstatus, hfield]
  rw [getLsbD_setField hsd _ _ (by omega), sdBit_getLsbD _ hi]
  simp only [Bool.false_eq_true, if_false, BitVec.getLsbD_or, BitVec.getLsbD_and,
    BitVec.getLsbD_not, getLsbD_zextXlen h.xlen val (by omega : i < 32)]
  cases (mstatusWriteMask h (zextXlen h.xlen val)).getLsbD i with
  | false => simp [show i < 64 by omega]
  | true => simp

/-- The bits of `mstatus` that every write changes. -/
def mstatusAlways : Reg :=
  mstatusSie ||| mstatusSpie ||| mstatusMie ||| mstatusMpie ||| mstatusSpp ||| mstatusFs |||
    mstatusMprv ||| mstatusPum ||| mstatusMpp ||| mstatusMxr

theorem mstatusAlways_subMask (h : Hart) (val : Reg) :
    SubMask mstatusAlways (mstatusWriteMask h val) := by
  unfold mstatusWriteMask
  cases h.ext <;> cases validateVm h.maxXlen (getField val mstatusVm) <;> decide

theorem withMstatus_written (h : Hart) (val : Reg) {i : Nat} (hi : i < 31)
    (hmask : mstatusAlways.getLsbD i = true) :
    (h.withMstatus val).mstatus.getLsbD i = val.getLsbD i := by
  rw [withMstatus_getLsbD h val hi,
    subMask_iff.mp (mstatusAlways_subMask h _) i (by omega) hmask, if_pos rfl]

theorem withMstatus_kept (h : Hart) (val : Reg) {i : Nat} (hi : i < 31)
    (hmask : mstatusWritable.getLsbD i = false) :
    (h.withMstatus val).mstatus.getLsbD i = h.mstatus.getLsbD i := by
  rw [withMstatus_getLsbD h val hi]
  cases hwritten : (mstatusWriteMask h (zextXlen h.xlen val)).getLsbD i with
  | false => simp
  | true =>
      have := subMask_iff.mp (mstatusWriteMask_subMask h _) i (by omega) hwritten
      rw [hmask] at this
      cases this

/-! ## Saving -/

/-- Where the fields lie that a trap saves to.  They do not meet, and every write of
`mstatus` reaches them. -/
structure TrapFields.Layout (fields : TrapFields) (pie pp : Nat) : Prop where
  pie_eq : fields.pie = BitVec.twoPow 64 pie
  pie_mem : mstatusAlways.getLsbD pie = true
  pp_at : FieldAt fields.pp pp
  pp_mem : SubMask fields.pp mstatusAlways
  ie_at : ∃ lo, FieldAt fields.ie lo
  pie_pp : fields.pp.getLsbD pie = false
  pie_ie : fields.ie.getLsbD pie = false
  pp_ie : SubMask fields.pp (~~~fields.ie)
  low : ∀ i < 4, fields.pie.getLsbD i = false ∧ fields.pp.getLsbD i = false

theorem supervisorFields_layout : supervisorFields.Layout 5 8 := by
  constructor
  case ie_at => exact ⟨1, by decide⟩
  all_goals decide

theorem machineFields_layout : machineFields.Layout 7 11 := by
  constructor
  case ie_at => exact ⟨3, by decide⟩
  all_goals decide

theorem mstatusAlways_lt {i : Nat} (h : mstatusAlways.getLsbD i = true) : i < 31 := by
  by_contra hge
  have hall : ∀ i < 64, 31 ≤ i → mstatusAlways.getLsbD i = false := by decide
  by_cases hi : i < 64
  · rw [hall i hi (by omega)] at h
    cases h
  · rw [BitVec.getLsbD_of_ge _ _ (by omega)] at h
    cases h

/-- The bit of `mstatus` that enables interrupts at a level. -/
theorem getField_enabled (s : Reg) (prv : Prv) :
    getField s (mstatusUie <<< prv.val) = boolReg (s.getLsbD prv.val) :=
  getField_bit (by omega) s

theorem boolReg_getLsbD_zero (b : Bool) : (boolReg b).getLsbD 0 = b := by
  cases b <;> rfl

/-- A trap changes the fields of its level and `SD`. -/
theorem trapStatus_agreeOn (h : Hart) (fields : TrapFields) :
    AgreeOn (~~~(fields.ie ||| fields.pie ||| fields.pp ||| sdBit h.maxXlen))
      (h.withMstatus (h.trapStatus fields)).mstatus h.mstatus := by
  refine withMstatus_agreeOn h _ (.or_right ..) ?_
  refine AgreeOn.mono ?_ (.and_left ..)
  have hmask {field : Reg} (hsub : SubMask field (fields.ie ||| fields.pie ||| fields.pp)) :
      SubMask field (fields.ie ||| fields.pie ||| fields.pp ||| sdBit h.maxXlen) :=
    hsub.trans (.or_left ..)
  refine (setField_agreeOn_of_subMask (hmask ?_) _ _).trans
    ((setField_agreeOn_of_subMask (hmask (.or_right ..)) _ _).trans
      (setField_agreeOn_of_subMask (hmask ?_) _ _))
  · exact (SubMask.or_left ..).trans (.or_left ..)
  · exact (SubMask.or_right ..).trans (.or_left ..)

section Saving

variable {fields : TrapFields} {pie pp : Nat} (layout : fields.Layout pie pp)

include layout

theorem pieField_at : FieldAt fields.pie pie := by
  have hlt := mstatusAlways_lt layout.pie_mem
  have hall : ∀ i < 31, FieldAt (BitVec.twoPow 64 i) i := by decide
  rw [layout.pie_eq]
  exact hall pie hlt

/-- The enable bit of the interrupted level is saved. -/
theorem trapStatus_pie (h : Hart) :
    (h.trapStatus fields).getLsbD pie = h.mstatus.getLsbD h.prv.val := by
  obtain ⟨ie, hie⟩ := layout.ie_at
  have hlt := mstatusAlways_lt layout.pie_mem
  rw [Hart.trapStatus, getLsbD_setField hie _ _ (by omega), layout.pie_ie, if_neg (by simp),
    getLsbD_setField layout.pp_at _ _ (by omega), layout.pie_pp, if_neg (by simp),
    getLsbD_setField (pieField_at layout) _ _ (by omega), layout.pie_eq, getField_enabled,
    if_pos (by simp [show pie < 64 by omega]), Nat.sub_self, boolReg_getLsbD_zero]
  simp

/-- The level is saved, if it fits into its field. -/
theorem trapStatus_pp (h : Hart)
    (hfits : ∀ j, h.prv.toReg.getLsbD j = true → fields.pp.getLsbD (pp + j) = true) :
    getField (h.withMstatus (h.trapStatus fields)).mstatus fields.pp = h.prv.toReg := by
  obtain ⟨ie, hie⟩ := layout.ie_at
  refine BitVec.eq_of_getLsbD_eq fun j hj => ?_
  rw [getLsbD_getField layout.pp_at]
  cases hmask : fields.pp.getLsbD (pp + j) with
  | false =>
      cases hprv : h.prv.toReg.getLsbD j with
      | false => simp
      | true => rw [hfits j hprv] at hmask; cases hmask
  | true =>
      have hbound : pp + j < 64 := by
        by_contra hge
        rw [BitVec.getLsbD_of_ge _ _ (by omega)] at hmask
        cases hmask
      have halways := subMask_iff.mp layout.pp_mem _ hbound hmask
      have hie' := subMask_iff.mp layout.pp_ie _ hbound hmask
      have hnot : fields.ie.getLsbD (pp + j) = false := by
        simpa [BitVec.getLsbD_not, hbound] using hie'
      rw [withMstatus_written h _ (mstatusAlways_lt halways) halways, Hart.trapStatus,
        getLsbD_setField hie _ _ hbound, hnot, if_neg (by simp),
        getLsbD_setField layout.pp_at _ _ hbound, hmask, if_pos rfl]
      simp

end Saving

/-! ## Restoring -/

/-- A return changes the fields of its level, `SD` and the enable bit of the level that it
returns to. -/
theorem withReturnStatus_agreeOn (r : Hart) (fields : TrapFields) {prv : Prv}
    (hprev : Prv.ofReg (getField r.mstatus fields.pp) = prv) :
    AgreeOn (~~~((mstatusUie <<< prv.val) ||| (fields.pie ||| fields.pp ||| sdBit r.maxXlen)))
      (r.withMstatus (zextXlen r.xlen (returnStatus fields.pp fields.pie r.mstatus))).mstatus
      r.mstatus := by
  refine withMstatus_agreeOn r _ ((SubMask.or_right ..).trans (.or_right ..)) ?_
  refine zextXlen_agreeOn_low r.xlen (mstatusWritable_low _) ?_
  refine AgreeOn.mono ?_ (.and_left ..)
  simp only [returnStatus, hprev]
  refine (setField_agreeOn_of_subMask ?_ _ _).trans
    ((setField_agreeOn_of_subMask ?_ _ _).trans (setField_agreeOn_of_subMask (.or_left ..) _ _))
  · exact (SubMask.or_right ..).trans ((SubMask.or_left ..).trans (.or_right ..))
  · exact (SubMask.or_left ..).trans ((SubMask.or_left ..).trans (.or_right ..))

theorem enableBit_self (prv : Prv) : (mstatusUie <<< prv.val).getLsbD prv.val = true := by
  revert prv
  decide

theorem enableBit_at (prv : Prv) : FieldAt (mstatusUie <<< prv.val) prv.val := by
  revert prv
  decide

section Restoring

variable {fields : TrapFields} {pie pp : Nat} (layout : fields.Layout pie pp)

include layout

/-- The restored bit comes from where it was saved. -/
theorem returnStatus_enabled {s : Reg} {prv : Prv}
    (hprev : Prv.ofReg (getField s fields.pp) = prv) :
    (returnStatus fields.pp fields.pie s).getLsbD prv.val = s.getLsbD pie := by
  have hlt := mstatusAlways_lt layout.pie_mem
  obtain ⟨hpie, hpp⟩ := layout.low prv.val prv.isLt
  simp only [returnStatus, hprev]
  rw [getLsbD_setField layout.pp_at _ _ (by omega), hpp, if_neg (by simp),
    getLsbD_setField (pieField_at layout) _ _ (by omega), hpie, if_neg (by simp),
    getLsbD_setField (enableBit_at prv) _ _ (by omega), enableBit_self, if_pos rfl, Nat.sub_self,
    layout.pie_eq, getField_bit (by omega), boolReg_getLsbD_zero]
  simp

/-- **Saving and restoring.**  A return from the state of `mstatus` that a trap left gives
back the level and the enable bit, and changes the fields of its level and `SD` at most. -/
theorem restore_saved {h r : Hart} (hprv : h.prv ≠ prvH) (hxlen : r.maxXlen = h.maxXlen)
    (hfits : ∀ j, h.prv.toReg.getLsbD j = true → fields.pp.getLsbD (pp + j) = true)
    (hstatus : r.mstatus = (h.withMstatus (h.trapStatus fields)).mstatus) :
    Prv.ofReg (getField r.mstatus fields.pp) = h.prv ∧
      (r.withMstatus (zextXlen r.xlen (returnStatus fields.pp fields.pie r.mstatus))).mstatus.getLsbD
        h.prv.val = h.mstatus.getLsbD h.prv.val ∧
      AgreeOn (~~~(fields.ie ||| fields.pie ||| fields.pp ||| sdBit h.maxXlen))
        (r.withMstatus (zextXlen r.xlen (returnStatus fields.pp fields.pie r.mstatus))).mstatus
        h.mstatus := by
  have hprev : Prv.ofReg (getField r.mstatus fields.pp) = h.prv := by
    rw [hstatus, trapStatus_pp layout h hfits, Prv.ofReg_toReg]
  have hentry := trapStatus_agreeOn h fields
  rw [← hstatus] at hentry
  have hreturn := withReturnStatus_agreeOn r fields hprev
  rw [hxlen] at hreturn
  have henabled : (r.withMstatus (zextXlen r.xlen
      (returnStatus fields.pp fields.pie r.mstatus))).mstatus.getLsbD h.prv.val =
        h.mstatus.getLsbD h.prv.val := by
    have hlow : h.prv.val < 31 := by omega
    cases hwrites : mstatusAlways.getLsbD h.prv.val with
    | true =>
        rw [withMstatus_written r _ hlow hwrites, getLsbD_zextXlen _ _ (by omega),
          returnStatus_enabled layout hprev, hstatus,
          withMstatus_written h _ (mstatusAlways_lt layout.pie_mem) layout.pie_mem,
          trapStatus_pie layout]
    | false =>
        -- `UIE` is not implemented: neither write reaches it.
        have hkept : mstatusWritable.getLsbD h.prv.val = false := by
          generalize h.prv = prv at hprv hwrites
          revert prv
          decide
        rw [withMstatus_kept r _ hlow hkept, hstatus, withMstatus_kept h _ hlow hkept]
  refine ⟨hprev, henabled, ?_⟩
  rw [agreeOn_iff] at hentry hreturn ⊢
  intro i hi hmask
  by_cases hi' : i = h.prv.val
  · rw [hi', henabled]
  · refine (hreturn i hi ?_).trans (hentry i hi hmask)
    have hne : (mstatusUie <<< h.prv.val).getLsbD i = false := by
      rw [show mstatusUie = 1#64 from rfl, ← BitVec.twoPow_eq, BitVec.getLsbD_twoPow]
      simp [Ne.symm hi']
    simp only [BitVec.getLsbD_not, BitVec.getLsbD_or, hi, decide_true, Bool.true_and, hne,
      Bool.false_or, Bool.not_eq_true', Bool.or_eq_false_iff] at hmask ⊢
    exact ⟨⟨hmask.1.1.2, hmask.1.2⟩, hmask.2⟩

end Restoring

/-! ## Entry and return together -/

theorem afterTrap_prv (h : Hart) (t : Trap) (epc : Reg) :
    (h.afterTrap t epc).prv = if delegated h t.cause then prvS else prvM := by
  unfold Hart.afterTrap
  split <;> rfl

theorem afterTrap_maxXlen (h : Hart) (t : Trap) (epc : Reg) :
    (h.afterTrap t epc).maxXlen = h.maxXlen := by
  unfold Hart.afterTrap
  split <;> rfl

/-- The handler takes the machine `r` back to the program that was interrupted in the state
`h` of the hart: to `epc`, its level and its enable bit, with the other bits of `mstatus`
but for the fields of the trap and `SD`. -/
def Resumes (P : Platform β) (p : Handler Reg) (r : Machine β) (fields : TrapFields) (epc : Reg)
    (h : Hart) : Prop :=
  ∃ r', p.run (Act.exec P) r = .ok pcSerializeAfter r' ∧ r'.hart.pc = epc ∧ r'.hart.prv = h.prv ∧
    getField r'.hart.mstatus (mstatusUie <<< h.prv.val) =
      getField h.mstatus (mstatusUie <<< h.prv.val) ∧
    AgreeOn (~~~(fields.ie ||| fields.pie ||| fields.pp ||| sdBit h.maxXlen))
      r'.hart.mstatus h.mstatus

/-- A return that finds the fields as a trap left them resumes. -/
theorem trapReturn_resumes {P : Platform β} {fields : TrapFields} {pie pp : Nat}
    (layout : fields.Layout pie pp) {prv : Prv} {epc : Hart → Reg} {c : Ctx} {h : Hart}
    {r : Machine β} (hprv : h.prv ≠ prvH) (hlevel : prv ≤ r.hart.prv)
    (hxlen : r.hart.maxXlen = h.maxXlen)
    (halign : epc r.hart &&& 2 ≠ 0 → r.hart.supportsExtension 'C' = true)
    (hfits : ∀ j, h.prv.toReg.getLsbD j = true → fields.pp.getLsbD (pp + j) = true)
    (hstatus : r.hart.mstatus = (h.withMstatus (h.trapStatus fields)).mstatus) :
    Resumes P (Handler.trapReturn prv epc fields.pp fields.pie c) r fields (epc r.hart) h := by
  obtain ⟨hprev, henabled, hagree⟩ := restore_saved layout hprv hxlen hfits hstatus
  refine ⟨_, run_trapReturn_of_legal hlevel halign, rfl, ?_, ?_, hagree⟩
  · change (if Prv.ofReg (getField r.hart.mstatus fields.pp) = prvH then _ else _) = _
    rw [hprev, if_neg hprv]
  · rw [getField_enabled, getField_enabled]
    exact congrArg boolReg henabled

theorem supervisor_fits {prv : Prv} (h : prv ≤ prvS) (j : Nat)
    (hbit : prv.toReg.getLsbD j = true) : supervisorFields.pp.getLsbD (8 + j) = true := by
  have hj : j < 64 := by
    by_contra hge
    rw [BitVec.getLsbD_of_ge _ _ (by omega)] at hbit
    cases hbit
  have hall : ∀ prv ≤ prvS, ∀ j < 64, (Prv.toReg prv).getLsbD j = true →
      supervisorFields.pp.getLsbD (8 + j) = true := by decide
  exact hall prv h j hj hbit

theorem machine_fits (prv : Prv) (j : Nat) (hbit : prv.toReg.getLsbD j = true) :
    machineFields.pp.getLsbD (11 + j) = true := by
  have hj : j < 64 := by
    by_contra hge
    rw [BitVec.getLsbD_of_ge _ _ (by omega)] at hbit
    cases hbit
  have hall : ∀ prv : Prv, ∀ j < 64, (Prv.toReg prv).getLsbD j = true →
      machineFields.pp.getLsbD (11 + j) = true := by decide
  exact hall prv j hj hbit

/-- **Trap entry and return are inverse.**  A trap goes to S-mode exactly for a delegated
cause from S-mode or below, and to M-mode otherwise; `sret` or `mret` then resumes the
interrupted program, from any later state that has `mstatus` and the saved pc as the trap
left them. -/
theorem trap_return_inverse (P : Platform β) (F : SoftFloat) (t : Trap) (epc : Reg)
    {m : Machine β} (hdebug : m.hart.inDebugMode = false) (hprv : m.hart.prv ≠ prvH)
    (henters : ¬(t.cause = 3 ∧ ebreakEnters m.hart)) :
    ∃ m', takeTrap t epc m = .ok () m' ∧
      (m'.hart.prv = prvS ↔ m.hart.prv ≤ prvS ∧ CauseDelegated m.hart t.cause) ∧
      (m'.hart.prv = prvS ∨ m'.hart.prv = prvM) ∧ m.hart.prv ≤ m'.hart.prv ∧
      ∀ (c : Ctx) (r : Machine β), r.hart.maxXlen = m.hart.maxXlen →
        r.hart.mstatus = m'.hart.mstatus → m'.hart.prv ≤ r.hart.prv →
        (epc &&& 2 ≠ 0 → r.hart.supportsExtension 'C' = true) →
          (m'.hart.prv = prvS → r.hart.sepc = m'.hart.sepc →
            Resumes P (handler F .sret c) r supervisorFields epc m.hart) ∧
          (m'.hart.prv = prvM → r.hart.mepc = m'.hart.mepc →
            Resumes P (handler F .mret c) r machineFields epc m.hart) := by
  refine ⟨_, run_takeTrap t epc hdebug henters, ?_⟩
  simp only [afterTrap_prv]
  cases hdelegated : delegated m.hart t.cause with
  | true =>
      obtain ⟨hle, hcause⟩ := (delegated_iff _ _).mp hdelegated
      refine ⟨by simp [hle, hcause], by simp, hle, ?_⟩
      intro c r hxlen hstatus hlevel halign
      simp only [Hart.afterTrap, hdelegated, if_true] at hstatus ⊢
      refine ⟨fun _ hsepc => ?_, fun h => absurd h (by decide)⟩
      subst hsepc
      exact trapReturn_resumes supervisorFields_layout hprv hlevel hxlen halign
        (supervisor_fits hle) hstatus
  | false =>
      have hnot : ¬(m.hart.prv ≤ prvS ∧ CauseDelegated m.hart t.cause) := by
        rw [← delegated_iff, hdelegated]
        simp
      have hle : m.hart.prv ≤ prvM := Fin.le_last _
      refine ⟨by simp [hnot, show prvM ≠ prvS by decide], by simp, by simpa using hle, ?_⟩
      intro c r hxlen hstatus hlevel halign
      simp only [Hart.afterTrap, hdelegated, Bool.false_eq_true, if_false] at hstatus ⊢
      refine ⟨fun h => absurd h (by decide), fun _ hmepc => ?_⟩
      subst hmepc
      exact trapReturn_resumes machineFields_layout hprv hlevel hxlen halign
        (machine_fits _) hstatus

/-- An `ecall` of a supervisor that delegates it to itself, with interrupts enabled. -/
theorem supervisor_ecall_resumes :
    let h := { Hart.reset .rv64 0 false with
      prv := prvS, medeleg := 0x200, mstatus := mstatusSie }
    let m : Machine Unit := { Machine.reset .rv64 0 false (Decode.freshDecoder false)
      (fun _ => 0) () with hart := h }
    ∃ m', takeTrap .supervisorEcall 0x80000004 m = .ok () m' ∧ m'.hart.prv = prvS ∧
      Resumes .bare (handler .zeros .sret ⟨.rv64, ⟨0x10200073⟩, 0, 4⟩) m' supervisorFields
        0x80000004 h := by
  intro h m
  have hdebug : m.hart.inDebugMode = false := rfl
  have henters : ¬(Trap.supervisorEcall.cause = 3 ∧ ebreakEnters m.hart) := by decide
  obtain ⟨m', hrun, hS, -, -, hresumes⟩ := trap_return_inverse .bare .zeros .supervisorEcall
    0x80000004 hdebug (by decide) henters
  have hS : m'.hart.prv = prvS := hS.mpr ⟨le_refl _, 9, by decide, .inl ⟨rfl, by decide⟩⟩
  have hxlen : m'.hart.maxXlen = m.hart.maxXlen := by
    rw [run_takeTrap _ _ hdebug henters] at hrun
    rw [← (EStateM.Result.ok.inj hrun).2]
    exact afterTrap_maxXlen ..
  have haligned : ¬((0x80000004 : Reg) &&& 2 ≠ 0) := by decide
  exact ⟨m', hrun, hS, (hresumes _ m' hxlen rfl le_rfl (absurd · haligned)).1 hS rfl⟩

end SpikeSim.Riscv
