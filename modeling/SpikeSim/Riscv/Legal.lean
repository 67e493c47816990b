/-
# Legal values of the registers

What holds of the control registers in every reachable state: the privilege is
never H, `mstatus` names a page-table format of the hart and its `SD` summarises
`FS` and `XS`, delegation and enables stay within their masks, vectors are aligned,
and so on (`Legal`).  Every way in which the hart changes keeps it.
-/

import SpikeSim.Riscv.FieldLaws
import SpikeSim.Riscv.Reachable

namespace SpikeSim.Riscv

variable {β : Type}

/-- `paddr_bits`. -/
def paddrBits (maxXlen : Xlen) : Nat := if maxXlen = .rv64 then 50 else 34

/-- The letters of `misa` that software can switch. -/
def misaSwitches : List Nat := [12, 0, 5, 3, 2]

/-- The legal values. -/
structure Legal (h : Hart) : Prop where
  prv : h.prv ≠ prvH
  xlen : h.xlen = h.maxXlen
  vm : validateVm h.maxXlen (getField h.mstatus mstatusVm) = true
  sd : h.mstatus.getLsbD (h.maxXlen.bits - 1) = true ↔
    getField h.mstatus mstatusFs = 3 ∨ getField h.mstatus mstatusXs = 3
  mideleg : SubMask h.mideleg delegableInts
  mie : SubMask h.mie allInts
  medeleg : SubMask h.medeleg medelegMask
  stvec : h.stvec &&& 3 = 0
  mtvec : h.mtvec &&& 3 = 0
  sptbr : h.sptbr.toNat < 2 ^ (paddrBits h.maxXlen - pgshift)
  misaD : h.isa.getLsbD 3 = true → h.isa.getLsbD 5 = true
  misaMax : ∀ i ∈ misaSwitches, h.isa.getLsbD i = true → h.maxIsa.getLsbD i = true
  maxIsaD : h.maxIsa.getLsbD 3 = true → h.maxIsa.getLsbD 5 = true
  tselect : h.tselect.val < 4
  timing : ∀ i, (h.mcontrol i).execute = true → (h.mcontrol i).timing = false

theorem vmShape_of_valid {maxXlen : Xlen} {mstatus : Reg}
    (hvalid : validateVm maxXlen (getField mstatus mstatusVm) = true)
    (hvm : getField mstatus mstatusVm ≠ vmMbare) : ∃ shape, vmShape mstatus = some shape := by
  unfold validateVm at hvalid
  unfold vmShape
  generalize getField mstatus mstatusVm = vm at hvalid hvm
  simp only [Bool.or_eq_true, Bool.and_eq_true, beq_iff_eq] at hvalid
  rcases hvalid with (⟨-, rfl | rfl⟩ | ⟨-, rfl⟩) | rfl
  · exact ⟨_, rfl⟩
  · exact ⟨_, rfl⟩
  · exact ⟨_, rfl⟩
  · exact absurd rfl hvm

theorem translation_of_legal (P : Platform β) {m : Machine β} (hl : Legal m.hart) (addr : Reg)
    (type : AccessType) :
    ∃ paddr leaf, translation P m.hart m.dram addr type = some (paddr, leaf) := by
  by_cases hmode : translationMode m.hart type = prvM
  · exact ⟨_, _, if_pos hmode⟩
  · have hvm : getField m.hart.mstatus mstatusVm ≠ vmMbare := by
      intro hbare
      exact hmode (by simp [translationMode, hbare])
    obtain ⟨shape, hshape⟩ := vmShape_of_valid hl.vm hvm
    simp only [translation, if_neg hmode, hshape]
    cases walkLeaf P m.hart m.dram shape addr type (translationMode m.hart type) with
    | none => exact ⟨_, _, rfl⟩
    | some found => exact ⟨_, _, rfl⟩

/-- The `abort()` of `walk` is not reached: every translation returns. -/
theorem translate_returns (P : Platform β) {m : Machine β} (hl : Legal m.hart) (addr : Reg)
    (type : AccessType) : ∃ paddr m', translate P addr type m = .ok paddr m' := by
  obtain ⟨paddr, leaf, htr⟩ := translation_of_legal P hl addr type
  exact ⟨paddr, _, by rw [translate_eq, htr]⟩

/-! ## Writing `mstatus` -/

theorem fs_dirty_iff (v : Reg) : getField v mstatusFs = 3 ↔ v &&& mstatusFs = mstatusFs :=
  getField_eq_three_iff (show FieldAt mstatusFs 13 by decide) (by decide) (by decide) v

theorem xs_dirty_iff (v : Reg) : getField v mstatusXs = 3 ↔ v &&& mstatusXs = mstatusXs :=
  getField_eq_three_iff (show FieldAt mstatusXs 15 by decide) (by decide) (by decide) v

theorem sdField_eq (maxXlen : Xlen) :
    (if maxXlen = .rv32 then mstatus32Sd else mstatus64Sd) = sdBit maxXlen := by
  cases maxXlen <;> rfl

theorem sdBit_eq (maxXlen : Xlen) : sdBit maxXlen = BitVec.twoPow 64 (maxXlen.bits - 1) := by
  cases maxXlen <;> decide

/-- The bits of `mstatus` other than `SD` after a write. -/
theorem newMstatus_agreeOn (h : Hart) (val : Reg) {keep : Reg}
    (hkeep : SubMask keep (~~~sdBit h.maxXlen)) :
    AgreeOn keep (newMstatus h val)
      ((h.mstatus &&& ~~~mstatusWriteMask h val) ||| (val &&& mstatusWriteMask h val)) := by
  rw [newMstatus, sdField_eq]
  exact (setField_agreeOn _ _ _).mono hkeep

/-- A write brings the page-table format if it is one of the hart. -/
theorem newMstatus_vm (h : Hart) (val : Reg) :
    getField (newMstatus h val) mstatusVm =
      if validateVm h.maxXlen (getField val mstatusVm) then getField val mstatusVm
      else getField h.mstatus mstatusVm := by
  have hsd : SubMask mstatusVm (~~~sdBit h.maxXlen) := by
    cases h.maxXlen <;> decide
  rw [getField_congr (newMstatus_agreeOn h val hsd)]
  by_cases hvalid : validateVm h.maxXlen (getField val mstatusVm) = true
  · rw [if_pos hvalid]
    refine getField_congr (.write_inside ?_)
    rw [mstatusWriteMask, if_pos hvalid]
    exact .or_right ..
  · rw [if_neg hvalid]
    refine getField_congr (.write ?_)
    have hoff : mstatusVm &&& mstatusWriteMask h val = 0 := by
      rw [mstatusWriteMask, if_neg hvalid]
      cases h.ext <;> decide
    rw [hoff]
    simp [AgreeOn]

/-- A write recomputes the summary bit. -/
theorem newMstatus_sd (h : Hart) (val : Reg) :
    (newMstatus h val).getLsbD (h.maxXlen.bits - 1) = true ↔
      getField (newMstatus h val) mstatusFs = 3 ∨ getField (newMstatus h val) mstatusXs = 3 := by
  have hsd : ∀ xlen, SubMask mstatusFs (~~~sdBit xlen) ∧ SubMask mstatusXs (~~~sdBit xlen) := by
    intro xlen
    cases xlen <;> decide
  rw [getField_congr (newMstatus_agreeOn h val (hsd h.maxXlen).1),
    getField_congr (newMstatus_agreeOn h val (hsd h.maxXlen).2), fs_dirty_iff, xs_dirty_iff,
    newMstatus, sdField_eq]
  have hfield : FieldAt (sdBit h.maxXlen) (h.maxXlen.bits - 1) ∧ h.maxXlen.bits - 1 < 64 ∧
      (sdBit h.maxXlen).getLsbD (h.maxXlen.bits - 1) = true := by
    cases h.maxXlen <;> decide
  rw [getLsbD_setField hfield.1 _ _ hfield.2.1, if_pos hfield.2.2]
  simp only [le_refl, decide_true, Bool.true_and, Nat.sub_self, boolReg]
  by_cases hdirty : (((h.mstatus &&& ~~~mstatusWriteMask h val) ||| (val &&& mstatusWriteMask h val))
      &&& mstatusFs == mstatusFs ||
      ((h.mstatus &&& ~~~mstatusWriteMask h val) ||| (val &&& mstatusWriteMask h val))
      &&& mstatusXs == mstatusXs) = true
  · rw [if_pos hdirty]
    simpa using hdirty
  · rw [if_neg hdirty]
    simpa using hdirty

theorem Legal.withMstatus {h : Hart} (hl : Legal h) (val : Reg) : Legal (h.withMstatus val) :=
  { hl with
    xlen := rfl
    vm := by
      change validateVm h.maxXlen (getField (newMstatus h _) mstatusVm) = true
      rw [newMstatus_vm]
      split
      · assumption
      · exact hl.vm
    sd := newMstatus_sd h _ }

/-- Marking the FP state as dirty, at the width of the hart. -/
theorem Legal.dirtyFpState {h : Hart} (hl : Legal h) : Legal (dirtyFpState h.xlen h) :=
  { hl with
    vm := by
      have hkeep : AgreeOn mstatusVm (Riscv.dirtyFpState h.xlen h).mstatus h.mstatus := by
        refine AgreeOn.mono (AgreeOn.or (.refl _)) ?_
        cases h.xlen <;> decide
      change validateVm h.maxXlen (getField (Riscv.dirtyFpState h.xlen h).mstatus mstatusVm) = true
      rw [getField_congr hkeep]
      exact hl.vm
    sd := by
      have hset : (Riscv.dirtyFpState h.xlen h).mstatus &&& mstatusFs = mstatusFs := by
        have hsub : SubMask mstatusFs (Riscv.dirtyFpState h.xlen h).mstatus :=
          (SubMask.or_left ..).trans (.or_right ..)
        rw [BitVec.and_comm]
        exact hsub
      have hbit : (Riscv.dirtyFpState h.xlen h).mstatus.getLsbD (h.maxXlen.bits - 1) = true := by
        have hsub : SubMask (sdBit h.xlen) (Riscv.dirtyFpState h.xlen h).mstatus :=
          (SubMask.or_right ..).trans (.or_right ..)
        refine subMask_iff.mp hsub _ ?_ ?_
        · cases h.maxXlen <;> decide
        · rw [hl.xlen]
          cases h.maxXlen <;> decide
      exact iff_of_true hbit (.inl ((fs_dirty_iff _).mpr hset)) }

/-! ## Writing other registers -/

section Write

variable {h : Hart} (hl : Legal h)

include hl

theorem Legal.setMie (val : Reg) : Legal (setMie h val) :=
  { hl with
    mie := by
      refine subMask_iff.mpr fun i hi hbit => ?_
      simp only [Riscv.setMie, BitVec.getLsbD_or, BitVec.getLsbD_and, Bool.or_eq_true,
        Bool.and_eq_true] at hbit
      rcases hbit with ⟨hold, _⟩ | ⟨_, hmask⟩
      · exact subMask_iff.mp hl.mie i hi hold
      · exact hmask }

theorem Legal.setMisa (val : Reg) : Legal (setMisa h val) := by
  -- The bits that a write can change, and those that it brings.
  have hmask (i : Nat) (hi : i ∈ misaSwitches) :
      (misaMask h).getLsbD i = h.maxIsa.getLsbD i := by
    have hall : ∀ i ∈ misaSwitches,
        ((1 <<< 12 : Reg) ||| (1 <<< 0) ||| (1 <<< 5) ||| (1 <<< 3) ||| (1 <<< 2)).getLsbD i =
          true := by decide
    rw [misaMask, BitVec.getLsbD_and, hall i hi, Bool.true_and]
  have hbit (i : Nat) (hi : i ∈ misaSwitches) (hlt : i < 64) : (Riscv.setMisa h val).isa.getLsbD i =
      if h.maxIsa.getLsbD i then
        (if val &&& (1 <<< 5) = 0 then val &&& ~~~(1 <<< 3 : Reg) else val).getLsbD i
      else h.isa.getLsbD i := by
    simp only [Riscv.setMisa, BitVec.getLsbD_or, BitVec.getLsbD_and, BitVec.getLsbD_not,
      hmask i hi]
    cases h.maxIsa.getLsbD i with
    | false => simp [hlt]
    | true => simp
  have hmax (i : Nat) (hi : i ∈ misaSwitches) :
      (Riscv.setMisa h val).isa.getLsbD i = true → h.maxIsa.getLsbD i = true := by
    have hall : ∀ i ∈ misaSwitches, i < 64 := by decide
    rw [hbit i hi (hall i hi)]
    split
    · exact fun _ => by assumption
    · exact hl.misaMax i hi
  have hD (hD : (Riscv.setMisa h val).isa.getLsbD 3 = true) :
      (Riscv.setMisa h val).isa.getLsbD 5 = true := by
    have hmaxD := hmax 3 (by decide) hD
    have hmaxF := hl.maxIsaD hmaxD
    rw [hbit 3 (by decide) (by omega), if_pos hmaxD] at hD
    rw [hbit 5 (by decide) (by omega), if_pos hmaxF]
    -- Without F in the value its D is cleared.
    by_cases hF : val &&& (1 <<< 5) = 0
    · rw [if_pos hF] at hD
      have hoff : (~~~(1 <<< 3 : Reg)).getLsbD 3 = false := by decide
      rw [BitVec.getLsbD_and, hoff, Bool.and_false] at hD
      cases hD
    · rw [if_neg hF]
      have hpow : (1 <<< 5 : Reg) = BitVec.twoPow 64 5 := by decide
      rw [hpow, BitVec.and_twoPow] at hF
      by_contra hval
      exact hF (if_neg hval)
  exact { hl with misaMax := hmax, misaD := hD }

end Write

theorem aligned_shift (v : Reg) : ((v >>> 2) <<< 2) &&& 3 = 0 := by
  refine BitVec.eq_of_getLsbD_eq fun i hi => ?_
  have h3 : ∀ i < 64, 2 ≤ i → (3 : Reg).getLsbD i = false := by decide
  rw [BitVec.getLsbD_and, BitVec.getLsbD_shiftLeft]
  by_cases hlow : i < 2
  · simp [hlow]
  · rw [h3 i hi (by omega)]
    simp

theorem toNat_and_mask_lt (v : Reg) {n : Nat} (hn : n < 64) :
    (v &&& ((1 <<< n) - 1)).toNat < 2 ^ n := by
  have hmask : ((1 <<< n : Reg) - 1).toNat = 2 ^ n - 1 := by
    have hpow : (1 <<< n : Reg) = BitVec.twoPow 64 n := (BitVec.twoPow_eq 64 n).symm
    have hlt : 2 ^ n < 2 ^ 64 := Nat.pow_lt_pow_right (by omega) hn
    have hpos : 0 < 2 ^ n := Nat.two_pow_pos n
    rw [hpow, BitVec.toNat_sub_of_le, BitVec.toNat_twoPow, Nat.mod_eq_of_lt hlt]
    · rfl
    · rw [BitVec.le_def, BitVec.toNat_twoPow, Nat.mod_eq_of_lt hlt]
      exact hpos
  have hle : (v &&& ((1 <<< n) - 1)).toNat ≤ 2 ^ n - 1 := by
    rw [BitVec.toNat_and, hmask]
    exact Nat.and_le_right
  have hpos : 0 < 2 ^ n := Nat.two_pow_pos n
  omega

/-! ## The code of the hart -/

/-- Code that keeps the registers legal. -/
abbrev KeepsLegal {α : Type} (x : M β α) : Prop := Keeps (Stable fun m => Legal m.hart) x

theorem modifyHart_legal {f : Hart → Hart} (hf : ∀ h, Legal h → Legal (f h)) :
    KeepsLegal (modifyHart f : M β Unit) :=
  .modify fun m hl => hf m.hart hl

theorem flushTlb_legal : KeepsLegal (flushTlb : M β Unit) :=
  .bind (.modify fun _ hl => hl) fun _ => .modify fun _ hl => hl

theorem setPrivilege_legal (prv : Prv) : KeepsLegal (setPrivilege prv : M β Unit) := by
  refine .bind flushTlb_legal fun _ => modifyHart_legal fun h hl => { hl with prv := ?_ }
  change (if prv = prvH then prvU else prv) ≠ prvH
  split
  · decide
  · assumption

theorem enterDebugMode_legal (cause : DebugCause) :
    KeepsLegal (enterDebugMode cause : M β Unit) := by
  refine .bind keeps_getHart fun h => .bind (.modify fun _ hl => hl) fun _ => ?_
  refine .bind (modifyHart_legal fun h hl => { hl with }) fun _ => ?_
  refine .bind (setPrivilege_legal _) fun _ => ?_
  exact modifyHart_legal fun h hl => { hl with }

theorem setMstatus_legal (val : Reg) : KeepsLegal (setMstatus val : M β Unit) := by
  refine keeps_stable_iff.mpr fun m hl => ?_
  unfold Ensures
  rw [run_setMstatus]
  exact hl.withMstatus val

theorem writeCsr_legal (csr : Csr) (val : Reg) : KeepsLegal (writeCsr csr val : M β Unit) := by
  have hmask {a b : Reg} {mask : Reg} (ha : SubMask a mask) :
      SubMask ((a &&& ~~~mask) ||| (b &&& mask)) mask :=
    .or ((SubMask.and_left ..).trans ha) (.and_right ..)
  cases csr
  case sptbr =>
    refine keeps_stable_iff.mpr fun m hl => ?_
    simp only [Ensures, writeCsr, run_bind, run_getHart, hl.xlen, ne_eq, not_true, if_false]
    refine { hl with sptbr := ?_ }
    change BitVec.toNat (_ &&& ((1 <<< (paddrBits m.hart.maxXlen - pgshift)) - 1)) < _
    refine toNat_and_mask_lt _ ?_
    cases m.hart.maxXlen <;> decide
  all_goals refine .bind keeps_getHart fun h => ?_
  case fflags | frm | fcsr =>
    all_goals exact modifyHart_legal fun h hl => { hl.dirtyFpState with }
  case mstatus | sstatus => all_goals exact setMstatus_legal _
  case mip | sip => all_goals exact modifyHart_legal fun h hl => { hl with }
  case mie | sie => all_goals exact modifyHart_legal fun h hl => hl.setMie _
  case mideleg => exact modifyHart_legal fun h hl => { hl with mideleg := hmask hl.mideleg }
  case medeleg => exact modifyHart_legal fun h hl => { hl with medeleg := hmask hl.medeleg }
  case stvec => exact modifyHart_legal fun h hl => { hl with stvec := aligned_shift _ }
  case mtvec => exact modifyHart_legal fun h hl => { hl with mtvec := aligned_shift _ }
  case misa => exact modifyHart_legal fun h hl => hl.setMisa _
  case tselect => exact .ite (modifyHart_legal fun h hl => { hl with tselect := Fin.isLt _ }) (.pure _)
  case tdata1 =>
    refine .ite (.pure _) (.bind (modifyHart_legal fun h hl => { hl with timing := ?_ }) fun _ => ?_)
    · intro i
      change (Function.update h.mcontrol h.tselect _ i).execute = true →
        (Function.update h.mcontrol h.tselect _ i).timing = false
      by_cases hi : i = h.tselect
      · subst hi
        rw [Function.update_self]
        intro hexecute
        simp only [setMcontrol] at hexecute ⊢
        rw [hexecute]
        exact Bool.and_false _
      · rw [Function.update_of_ne hi]
        exact hl.timing i
    · exact .bind flushTlb_legal fun _ => .bind keeps_getHart fun _ => .modify fun _ hl => hl
  case tdata2 => exact .ite (.pure _) (modifyHart_legal fun h hl => { hl with })
  case cycle | instret | tdata3 | mvendorid | marchid | mimpid | mhartid =>
    all_goals exact .pure _
  all_goals exact modifyHart_legal fun h hl => { hl with }

theorem setCsr_legal (which val : Reg) : KeepsLegal (setCsr which val : M β Unit) := by
  unfold setCsr
  split
  · exact .pure _
  · exact writeCsr_legal ..

theorem takeTrap_legal (t : Trap) (epc : Reg) : KeepsLegal (takeTrap t epc : M β Unit) := by
  refine .bind keeps_getHart fun h => .bind (.modify fun _ hl => hl) fun _ => ?_
  refine .ite (enterDebugMode_legal _) (.ite (modifyHart_legal fun h hl => { hl with }) (.ite ?_ ?_))
  all_goals
    refine .bind (modifyHart_legal fun h hl => { hl with }) fun _ => ?_
    refine .bind (setMstatus_legal _) fun _ => .bind (setPrivilege_legal _) fun _ => ?_
    exact modifyHart_legal fun h hl => { hl with }

/-- The registers are legal on a hart of this width. -/
def LegalAt (xlen : Xlen) (h : Hart) : Prop := Legal h ∧ h.maxXlen = xlen

theorem keeps_legalAt {xlen : Xlen} {α : Type} {x : M β α} (hcode : Keeps SameCode x)
    (hx : KeepsLegal x) : Keeps (Stable fun m => LegalAt xlen m.hart) x where
  ok hrun h := ⟨hx.ok hrun h.1, (hcode.ok hrun).maxXlen.trans h.2⟩
  error hrun h := ⟨hx.error hrun h.1, (hcode.error hrun).maxXlen.trans h.2⟩

/-- An act of a handler of the hart's width that only changes the hart. -/
theorem onHart_legal {xlen : Xlen} {a : Act} {f : Hart → Hart} (hfits : a.Fits xlen)
    (hf : a.onHart = some f) {h : Hart} (hl : LegalAt xlen h) : Legal (f h) := by
  obtain ⟨hl, rfl⟩ := hl
  rw [← hl.xlen] at hfits
  cases a with
  | writeXpr reg value =>
      cases hf
      unfold Hart.writeXpr
      split
      · exact hl
      · exact { hl with }
  | writeFpr width reg value =>
      cases hf
      obtain rfl : width = h.xlen := hfits
      have hwrite : Legal { h with fpr := Function.update h.fpr reg value } := { hl with }
      exact hwrite.dirtyFpState
  | setFpExceptions width flags =>
      cases hf
      obtain rfl : width = h.xlen := hfits
      unfold Hart.setFpExceptions
      split
      · exact hl
      · exact { hl.dirtyFpState with }
  | setSerialized | setLoadReservation | setStatePc | leaveDebugMode =>
      all_goals
        cases hf
        exact { hl with }
  | hart | setPrivilege | load | store | amo | getCsr | setCsr | flushTlb | flushIcache =>
      all_goals cases hf

theorem actKeeps_legalAt (P : Platform β) (xlen : Xlen) :
    ActKeeps P (Act.Fits xlen) (Stable fun m => LegalAt xlen m.hart) where
  store := {
    read := ⟨fun _ _ _ _ _ _ hl => hl, fun _ _ _ _ _ hl => hl, fun _ _ hl => hl, fun _ _ _ hl => hl,
      fun _ _ hl => hl⟩
    write := fun _ _ hl => hl
    device := fun _ _ _ _ hl => ⟨{ hl.1 with }, hl.2⟩ }
  hart hfits hf m hl := by
    refine ⟨onHart_legal hfits hf hl, ?_⟩
    rw [Act.onHart_frame hf]
    exact hl.2
  setPrivilege prv _ := keeps_legalAt (setPrivilege_sameCode prv) (setPrivilege_legal prv)
  setCsr which value _ := keeps_legalAt (setCsr_sameCode which value) (setCsr_legal which value)
  flushTlb := keeps_legalAt flushTlb_sameCode flushTlb_legal
  flushIcache := .modify fun _ hl => hl

theorem executeInsn_legal (P : Platform β) (F : SoftFloat) {xlen : Xlen} (pc : Reg)
    {fetch : Decode.InsnFunc × Insn} (hfetch : Fetched xlen fetch) :
    Keeps (Stable fun m => LegalAt xlen m.hart) (executeInsn P F pc fetch) := by
  refine .bind ?_ fun npc => ?_
  · cases hfetch with
    | base name insn hmatch hword =>
        have hrun : Keeps (Stable fun m => LegalAt xlen m.hart)
            ((insnProgram F name xlen insn pc).run (Act.exec P)) :=
          Program.keeps_run (fun _ h => (actKeeps_legalAt P xlen).exec h)
            (fits_insnProgram F name xlen insn pc)
        cases xlen with
        | rv32 => exact hrun
        | rv64 => exact hrun
    | custom n insn => exact .throw _
    | illegal insn => exact .throw _
  · exact .ite (.bind (.modify fun _ hl => hl) fun _ => .pure _) (.pure _)

theorem hartRules_legal (P : Platform β) (F : SoftFloat) (xlen : Xlen) :
    HartRules P F xlen (LegalAt xlen) where
  interfere _ _ _ hl := ⟨{ hl.1 with }, hl.2⟩
  bookkeeping _ _ _ _ hl := ⟨{ hl.1 with }, hl.2⟩
  execute pc _ hfetch := executeInsn_legal P F pc hfetch
  enterDebugMode cause := keeps_legalAt (enterDebugMode_sameCode cause) (enterDebugMode_legal cause)
  takeTrap t epc := keeps_legalAt (takeTrap_sameCode t epc) (takeTrap_legal t epc)
  setCsr which val := keeps_legalAt (setCsr_sameCode which val) (setCsr_legal which val)

/-! ## Reachable states -/

/-- The registers of a new processor. -/
theorem legal_reset {findExtension : List Char → Bool} {str : List Char} {cfg : IsaConfig}
    (hisa : parseIsaString findExtension str = some cfg) (halt : Bool) (dram : Reg → BitVec 8)
    (dev : β) : Legal (cfg.machine halt dram dev).hart where
  prv := by
    change prvM ≠ prvH
    decide
  xlen := rfl
  vm := by
    change validateVm cfg.maxXlen (getField 0 mstatusVm) = true
    cases cfg.maxXlen <;> decide
  sd := by
    change (0 : Reg).getLsbD (cfg.maxXlen.bits - 1) = true ↔
      getField 0 mstatusFs = 3 ∨ getField 0 mstatusXs = 3
    cases cfg.maxXlen <;> decide
  mideleg := by
    change SubMask 0 delegableInts
    decide
  mie := by
    change SubMask 0 allInts
    decide
  medeleg := by
    change SubMask 0 medelegMask
    decide
  stvec := by
    change (0 : Reg) &&& 3 = 0
    decide
  mtvec := by
    change defaultMtvec &&& 3 = 0
    decide
  sptbr := by
    change (0 : Reg).toNat < _
    exact Nat.two_pow_pos _
  misaD := parseIsaString_supports hisa
  misaMax _ _ h := h
  maxIsaD := parseIsaString_supports hisa
  tselect := Fin.isLt _
  timing _ h := by cases h

/-- **Legal values.** In every state that a hart reaches from its construction, the
registers hold legal values, and no translation aborts. -/
theorem reachable_legal {P : Platform β} {F : SoftFloat} {findExtension : List Char → Bool}
    {str : List Char} {cfg : IsaConfig} (hisa : parseIsaString findExtension str = some cfg)
    (halt : Bool) (dram : Reg → BitVec 8) (dev : β) {r : ℕ → Point β} {len : ℕ}
    (hrun : IsRun (HartStep P F) r len) (hinit : r 0 = .idle (cfg.machine halt dram dev)) :
    ∀ k ≤ len, Legal (r k).machine.hart ∧
      ∀ addr type, ∃ paddr m', translate P addr type (r k).machine = .ok paddr m' := by
  intro k hk
  have hstart : LegalAt cfg.maxXlen (cfg.machine halt dram dev).hart :=
    ⟨legal_reset hisa halt dram dev, rfl⟩
  have hlegal := ((hartRules_legal P F cfg.maxXlen).reachable hstart hrun hinit k hk).1
  exact ⟨hlegal, translate_returns P hlegal⟩

/-- A write of `mstatus` that switches Sv39 and the FP unit on, on a new `rv64g` hart. -/
theorem rv64g_sv39_legal :
    let cfg : IsaConfig := ⟨.rv64, 0x8000000000141129, false⟩
    let m : Machine Unit := cfg.machine false (fun _ => 0) ()
    parseIsaString (fun _ => false) ['r', 'v', '6', '4', 'g'] = some cfg ∧
      ∃ m', setCsr Csr.mstatus.num 0x09006000 m = .ok () m' ∧
        m'.hart.mstatus = 0x8000000009006000 ∧ Legal m'.hart := by
  intro cfg m
  have hisa : parseIsaString (fun _ => false) ['r', 'v', '6', '4', 'g'] = some cfg := by
    decide +kernel
  obtain ⟨m', hset, hstatus⟩ : ∃ m', setCsr Csr.mstatus.num 0x09006000 m = .ok () m' ∧
      m'.hart.mstatus = 0x8000000009006000 := by
    have hrun : (match setCsr Csr.mstatus.num 0x09006000 m with
        | .ok _ m' => some m'.hart.mstatus
        | .error .. => none) = some 0x8000000009006000 := by decide +kernel
    split at hrun
    · rename_i m' hok
      exact ⟨m', hok, by simpa using hrun⟩
    · cases hrun
  refine ⟨hisa, m', hset, hstatus, ?_⟩
  let r : ℕ → Point Unit := fun k => if k = 0 then .idle m else .idle m'
  have hstep : IsRun (HartStep .bare .zeros) r 1 := by
    intro k hk
    obtain rfl : k = 0 := by omega
    exact .method (.setCsr _ _ (.inl ⟨(), hset⟩))
  exact (reachable_legal hisa false (fun _ => 0) () hstep rfl 1 le_rfl).1

end SpikeSim.Riscv
