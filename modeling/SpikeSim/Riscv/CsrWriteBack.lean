/-
# Writing a register back

`get_csr` and `set_csr` pack and unpack the same registers in two long switches.  On the
values that a hart can hold they are inverse: writing what was read changes no register
that can be read.  A register of RV32 may come back without the copies of its sign above
bit 31, which is why values are compared sign-extended.
-/

import SpikeSim.Riscv.NarrowFields
import SpikeSim.Riscv.MulDiv

namespace SpikeSim.Riscv

open Handler

variable {β : Type}

/-! ## Fields -/

/-- A field that is written and read again. -/
theorem getField_setField_self {mask val : Reg} {lo : Nat} (hfield : FieldAt mask lo) (reg : Reg)
    (hfits : ∀ i < 64, val.getLsbD i = true → mask.getLsbD (lo + i) = true) :
    getField (setField reg mask val) mask = val := by
  refine BitVec.eq_of_getLsbD_eq fun i hi => ?_
  rw [getLsbD_getField hfield]
  cases hmask : mask.getLsbD (lo + i) with
  | false =>
      have hbit : val.getLsbD i = false := by
        by_contra hbit
        rw [Bool.not_eq_false] at hbit
        rw [hfits i hi hbit] at hmask
        cases hmask
      rw [hbit, Bool.and_false]
  | true =>
      have hlt : lo + i < 64 := by
        by_contra hge
        rw [BitVec.getLsbD_of_ge _ _ (by omega)] at hmask
        cases hmask
      rw [getLsbD_setField hfield _ _ hlt, if_pos hmask]
      simp

/-- A field that is read after another one was written. -/
theorem getField_setField_of_ne {mask other : Reg} (h : SubMask mask (~~~other)) (reg val : Reg) :
    getField (setField reg other val) mask = getField reg mask :=
  getField_congr ((setField_agreeOn reg other val).mono h)

/-- A write that brings back what is there. -/
theorem write_same {mask val old : Reg} (h : AgreeOn mask val old) :
    (old &&& ~~~mask) ||| (val &&& mask) = old := by
  refine BitVec.eq_of_getLsbD_eq fun i hi => ?_
  rw [BitVec.getLsbD_or, BitVec.getLsbD_and, BitVec.getLsbD_and, BitVec.getLsbD_not]
  cases hmask : mask.getLsbD i with
  | false => simp [hi]
  | true => simp [agreeOn_iff.mp h i hi hmask]

theorem sextXlen_zextXlen (xlen : Xlen) (v : Reg) :
    sextXlen xlen (zextXlen xlen v) = sextXlen xlen v := by
  rw [sextXlen_eq_signExtend, sextXlen_eq_signExtend, zextXlen_eq_setWidth,
    setWidth_setWidth_self (xlen_bits_le xlen)]

theorem sextXlen_sextXlen (xlen : Xlen) (v : Reg) :
    sextXlen xlen (sextXlen xlen v) = sextXlen xlen v := by
  rw [sextXlen_eq_signExtend, sextXlen_eq_signExtend, setWidth_signExtend_self (xlen_bits_le xlen)]

/-! ## The values of the registers -/

/-- What `get_csr` returns, sign-extended; `none` if it traps. -/
def csrValue (P : Platform β) (which : Reg) (m : Machine β) : Option Reg :=
  match getCsr P which m with
  | .ok v _ => some (sextXlen m.hart.xlen v)
  | .error .. => none

/-- The registers that hold addresses and whole words, sign-extended. -/
def Hart.extended (h : Hart) : Hart :=
  { h with
    mepc := sextXlen h.xlen h.mepc
    mbadaddr := sextXlen h.xlen h.mbadaddr
    mscratch := sextXlen h.xlen h.mscratch
    mtvec := sextXlen h.xlen h.mtvec
    mcause := sextXlen h.xlen h.mcause
    sepc := sextXlen h.xlen h.sepc
    sbadaddr := sextXlen h.xlen h.sbadaddr
    sscratch := sextXlen h.xlen h.sscratch
    stvec := sextXlen h.xlen h.stvec
    scause := sextXlen h.xlen h.scause
    dpc := sextXlen h.xlen h.dpc
    dscratch := sextXlen h.xlen h.dscratch
    tdata2 := fun i => sextXlen h.xlen (h.tdata2 i) }

theorem csrValue_eq (P : Platform β) (which : Reg) (m : Machine β) :
    csrValue P which m = if readsZero m.hart which then some (sextXlen m.hart.xlen 0)
      else ((Csr.ofNum which).bind (readCsr P.id (P.debugInterrupt m.dev) m.hart)).map
        (sextXlen m.hart.xlen) := by
  simp only [csrValue, getCsr, run_bind, run_get]
  cases readsZero m.hart which with
  | true => rfl
  | false =>
      cases (Csr.ofNum which).bind (readCsr P.id (P.debugInterrupt m.dev) m.hart) <;> rfl

theorem readCsr_extended {h : Hart} (hxlen : h.xlen = h.maxXlen) (id : Reg) (debugInterrupt : Bool)
    (csr : Csr) :
    (readCsr id debugInterrupt h.extended csr).map (sextXlen h.xlen) =
      (readCsr id debugInterrupt h csr).map (sextXlen h.xlen) := by
  cases csr
  case scause => simp [readCsr, Hart.extended, hxlen, sextXlen_sextXlen]
  case mepc | mbadaddr | mscratch | mtvec | mcause | sepc | sbadaddr | sscratch | stvec | dpc
      | dscratch | tdata2 =>
    all_goals simp only [readCsr, Hart.extended, Option.map_some, sextXlen_sextXlen]
  all_goals rfl

/-- The values depend on the extended registers. -/
theorem csrValue_congr (P : Platform β) {m m' : Machine β} (hxlen : m.hart.xlen = m.hart.maxXlen)
    (hhart : m'.hart.extended = m.hart.extended) (hdev : m'.dev = m.dev) (which : Reg) :
    csrValue P which m' = csrValue P which m := by
  have hkept {α : Type} (f : Hart → α) : f m'.hart.extended = f m.hart.extended := congrArg f hhart
  have hxlen' : m'.hart.xlen = m.hart.xlen := hkept Hart.xlen
  have hmax' : m'.hart.maxXlen = m.hart.maxXlen := hkept Hart.maxXlen
  have hzero : readsZero m'.hart which = readsZero m.hart which := hkept fun h => readsZero h which
  rw [csrValue_eq, csrValue_eq, hzero, hxlen', hdev]
  cases Csr.ofNum which with
  | none => rfl
  | some csr =>
      simp only [Option.bind_some]
      have hread := readCsr_extended (hxlen'.trans (hxlen.trans hmax'.symm)) P.id
        (P.debugInterrupt m.dev) csr
      rw [hxlen', hhart, readCsr_extended hxlen] at hread
      rw [hread]

/-! ## Registers that are written as they are -/

section Write

variable {h : Hart} (hl : Legal h)

include hl

/-- A write of `mstatus` that brings back its writable bits. -/
theorem withMstatus_same {val : Reg} (hval : AgreeOn mstatusWritable val h.mstatus) :
    h.withMstatus val = h := by
  have hagree : AgreeOn (~~~sdBit h.maxXlen) (h.withMstatus val).mstatus h.mstatus :=
    withMstatus_agreeOn h val (.refl _) (hval.mono (.and_right ..))
  have hsd : (h.withMstatus val).mstatus.getLsbD (h.maxXlen.bits - 1) =
      h.mstatus.getLsbD (h.maxXlen.bits - 1) := by
    have hfs : SubMask mstatusFs (~~~sdBit h.maxXlen) ∧ SubMask mstatusXs (~~~sdBit h.maxXlen) := by
      cases h.maxXlen <;> decide
    have hnew : (h.withMstatus val).mstatus.getLsbD (h.maxXlen.bits - 1) = true ↔ _ :=
      (hl.withMstatus val).sd
    rw [Bool.eq_iff_iff, hnew, hl.sd, getField_congr (hagree.mono hfs.1),
      getField_congr (hagree.mono hfs.2)]
  have hmstatus : (h.withMstatus val).mstatus = h.mstatus := by
    refine BitVec.eq_of_getLsbD_eq fun i hi => ?_
    by_cases hsdbit : i = h.maxXlen.bits - 1
    · rw [hsdbit, hsd]
    · apply agreeOn_iff.mp hagree i hi
      rw [sdBit_eq, BitVec.getLsbD_not, BitVec.getLsbD_twoPow]
      simp [hi, Ne.symm hsdbit]
  have hsame (status : Reg) (xlen : Xlen) (hstatus : status = h.mstatus) (hxlen : xlen = h.xlen) :
      { h with mstatus := status, xlen := xlen } = h := by
    rw [hstatus, hxlen]
  exact hsame _ _ hmstatus hl.xlen.symm

omit hl in
theorem setMip_same {val : Reg} (hval : AgreeOn (mipSsip ||| mipStip) val h.mip) :
    setMip h val = h := by
  rw [setMip, write_same (zextXlen_agreeOn_low h.xlen (by decide) hval)]

omit hl in
theorem setMie_same {val : Reg} (hval : AgreeOn allInts val h.mie) : setMie h val = h := by
  rw [setMie, write_same (zextXlen_agreeOn_low h.xlen (by decide) hval)]

/-- `misa` has no D without F, so the write does not take D away. -/
theorem setMisa_same {val : Reg} (hval : AgreeOn 0xffffffff val h.isa) : setMisa h val = h := by
  have hbit (i : Nat) (hi : i < 32) : val.getLsbD i = h.isa.getLsbD i := by
    have hlow : ∀ i < 32, (0xffffffff : Reg).getLsbD i = true := by decide
    exact agreeOn_iff.mp hval i (by omega) (hlow i hi)
  have hpow : (1 <<< 5 : Reg) = BitVec.twoPow 64 5 := by decide
  have hval' : AgreeOn 0xffffffff
      (if val &&& (1 <<< 5) = 0 then val &&& ~~~(1 <<< 3 : Reg) else val) h.isa := by
    by_cases hF : val &&& (1 <<< 5) = 0
    · -- Without F there is no D that could be lost.
      have hf : h.isa.getLsbD 5 = false := by
        rw [hpow, BitVec.and_twoPow] at hF
        rw [← hbit 5 (by decide)]
        by_contra hset
        rw [if_pos (by simpa using hset)] at hF
        exact absurd hF (by decide)
      have hd : val.getLsbD 3 = false := by
        rw [hbit 3 (by decide)]
        by_contra hset
        rw [hl.misaD (by simpa using hset)] at hf
        cases hf
      rw [if_pos hF]
      refine AgreeOn.trans ?_ hval
      rw [agreeOn_iff]
      intro i hi hlow
      rw [BitVec.getLsbD_and]
      by_cases hi3 : i = 3
      · rw [hi3, hd, Bool.false_and]
      · have hother : ∀ i < 64, i ≠ 3 → (~~~(1 <<< 3 : Reg)).getLsbD i = true := by decide
        rw [hother i hi hi3, Bool.and_true]
    · rw [if_neg hF]
      exact hval
  have hmask : SubMask (misaMask h) 0xffffffff := (SubMask.and_left ..).trans (by decide)
  rw [setMisa, BitVec.or_comm]
  simp only [write_same (hval'.mono hmask)]

end Write

/-! ## Registers that are packed -/

/-- A flag as a one-bit field. -/
theorem boolReg_fits {mask : Reg} {lo : Nat} (hlo : mask.getLsbD lo = true) (b : Bool) :
    ∀ i < 64, (boolReg b).getLsbD i = true → mask.getLsbD (lo + i) = true := by
  intro i _ hbit
  cases b with
  | false => simp [boolReg] at hbit
  | true =>
      obtain rfl : i = 0 := by simpa [boolReg, BitVec.getLsbD_one] using hbit
      exact hlo

theorem hasField_boolReg {reg mask : Reg} {b : Bool} (h : getField reg mask = boolReg b) :
    hasField reg mask = b := by
  rw [hasField, h]
  cases b <;> rfl

theorem fits_of_subMask {val low mask : Reg} {lo : Nat} (h : SubMask val low)
    (hlow : ∀ i < 64, low.getLsbD i = true → mask.getLsbD (lo + i) = true) :
    ∀ i < 64, val.getLsbD i = true → mask.getLsbD (lo + i) = true :=
  fun i hi hbit => hlow i hi (subMask_iff.mp h i hi hbit)

/-- The fields of `tdata1` as they are read from the packed value. -/
theorem readMcontrol_fields (xlen : Xlen) {mc : Mcontrol} (haction : SubMask mc.action 0x3f)
    (hmatch : SubMask mc.matchKind 0xf) :
    let v := readMcontrol xlen mc
    getField v (1 <<< (xlen.bits - 5)) = boolReg mc.dmode ∧
      getField v (1 <<< 19) = boolReg mc.select ∧ getField v (1 <<< 18) = boolReg mc.timing ∧
      getField v (0x3f <<< 12) = mc.action ∧ getField v (1 <<< 11) = boolReg mc.chain ∧
      getField v (0xf <<< 7) = mc.matchKind ∧ getField v (1 <<< 6) = boolReg mc.m ∧
      getField v (1 <<< 5) = boolReg mc.h ∧ getField v (1 <<< 4) = boolReg mc.s ∧
      getField v (1 <<< 3) = boolReg mc.u ∧ getField v (1 <<< 2) = boolReg mc.execute ∧
      getField v (1 <<< 1) = boolReg mc.store ∧ getField v (1 <<< 0) = boolReg mc.load := by
  have hself (reg : Reg) {lo : Nat} (hfield : FieldAt (1 <<< lo) lo)
      (hlo : (1 <<< lo : Reg).getLsbD lo = true) (b : Bool) :
      getField (setField reg (1 <<< lo) (boolReg b)) (1 <<< lo) = boolReg b :=
    getField_setField_self hfield reg (boolReg_fits hlo b)
  cases xlen
  all_goals
    simp only [readMcontrol, Xlen.bits, Nat.reduceSub]
    refine ⟨?_, ?_, ?_, ?_, ?_, ?_, ?_, ?_, ?_, ?_, ?_, ?_, hself _ (by decide) (by decide) _⟩
    -- The fields that are written later do not meet the one that is read.
    all_goals simp (disch := decide) only [getField_setField_of_ne]
  case rv32.refine_4 | rv64.refine_4 =>
    all_goals
      apply getField_setField_self (show FieldAt (0x3f <<< 12) 12 by decide)
      exact fits_of_subMask haction (by decide)
  case rv32.refine_6 | rv64.refine_6 =>
    all_goals
      apply getField_setField_self (show FieldAt (0xf <<< 7) 7 by decide)
      exact fits_of_subMask hmatch (by decide)
  all_goals exact hself _ (by decide) (by decide) _

/-- A field below the width of the hart. -/
theorem getField_zextXlen {xlen : Xlen} {mask : Reg}
    (hmask : xlen = .rv32 → SubMask mask 0xffffffff) (v : Reg) :
    getField (zextXlen xlen v) mask = getField v mask := by
  cases xlen with
  | rv32 => exact getField_congr ((zextXlen_agreeOn .rv32 v).mono (hmask rfl))
  | rv64 => simp [zextXlen, Xlen.bits]

/-- An execute trigger has no timing, so the write does not take it away. -/
theorem setMcontrol_readMcontrol (xlen : Xlen) {mc : Mcontrol} (haction : SubMask mc.action 0x3f)
    (hmatch : SubMask mc.matchKind 0xf) (htiming : mc.execute = true → mc.timing = false) :
    setMcontrol xlen (zextXlen xlen (readMcontrol xlen mc)) mc = mc := by
  have hdmode : xlen = .rv32 → SubMask (1 <<< (xlen.bits - 5) : Reg) 0xffffffff := by
    rintro rfl
    decide
  have hzext {mask : Reg} (hmask : SubMask mask 0xffffffff) (v : Reg) :
      getField (zextXlen xlen v) mask = getField v mask :=
    getField_zextXlen (fun _ => hmask) v
  have hfields := readMcontrol_fields xlen haction hmatch
  obtain ⟨h1, h2, h3, h4, h5, h6, h7, h8, h9, h10, h11, h12, h13⟩ := hfields
  rw [← getField_zextXlen hdmode] at h1
  rw [← hzext (by decide)] at h2 h3 h4 h5 h6 h7 h8 h9 h10 h11 h12 h13
  have hkept : (mc.timing && !mc.execute) = mc.timing := by
    cases hexecute : mc.execute with
    | false => simp
    | true => simp [htiming hexecute]
  simp only [setMcontrol, hasField_boolReg h1, hasField_boolReg h2, hasField_boolReg h3, h4,
    hasField_boolReg h5, h6, hasField_boolReg h7, hasField_boolReg h8, hasField_boolReg h9,
    hasField_boolReg h10, hasField_boolReg h11, hasField_boolReg h12, hasField_boolReg h13, hkept]

/-- `dcsr` after its own value was written. -/
theorem setDcsr_readDcsr (h : Hart) (debugInterrupt : Bool) :
    setDcsr h (zextXlen h.xlen (readDcsr h.dcsr debugInterrupt)) = h := by
  have hzext {mask : Reg} (hmask : SubMask mask 0xffffffff) (v : Reg) :
      getField (zextXlen h.xlen v) mask = getField v mask :=
    getField_zextXlen (fun _ => hmask) v
  have hflag (reg : Reg) {lo : Nat} (hfield : FieldAt (1 <<< lo) lo)
      (hlo : (1 <<< lo : Reg).getLsbD lo = true) (b : Bool) :
      getField (setField reg (1 <<< lo) (boolReg b)) (1 <<< lo) = boolReg b :=
    getField_setField_self hfield reg (boolReg_fits hlo b)
  have hprv (reg : Reg) : getField (setField reg 3 h.dcsr.prv.toReg) 3 = h.dcsr.prv.toReg := by
    apply getField_setField_self (show FieldAt 3 0 by decide)
    generalize h.dcsr.prv = prv
    revert prv
    decide
  have hread : let v := readDcsr h.dcsr debugInterrupt
      getField v 3 = h.dcsr.prv.toReg ∧ getField v (1 <<< 2) = boolReg h.dcsr.step ∧
        getField v (1 <<< 15) = boolReg h.dcsr.ebreakm ∧
        getField v (1 <<< 14) = boolReg h.dcsr.ebreakh ∧
        getField v (1 <<< 13) = boolReg h.dcsr.ebreaks ∧
        getField v (1 <<< 12) = boolReg h.dcsr.ebreaku ∧
        getField v (1 <<< 3) = boolReg h.dcsr.halt := by
    simp only [readDcsr]
    refine ⟨?_, ?_, ?_, ?_, ?_, ?_, ?_⟩
    all_goals simp (disch := decide) only [getField_setField_of_ne]
    · exact hprv _
    all_goals exact hflag _ (by decide) (by decide) _
  obtain ⟨h1, h2, h3, h4, h5, h6, h7⟩ := hread
  rw [← hzext (by decide)] at h1 h2 h3 h4 h5 h6 h7
  simp only [setDcsr, h1, Prv.ofReg_toReg, hasField_boolReg h2, hasField_boolReg h3,
    hasField_boolReg h4, hasField_boolReg h5, hasField_boolReg h6, hasField_boolReg h7]

/-! ## Registers that are cut -/

/-- A 32-bit register, read and written at the width of the hart. -/
theorem setWidth_zextXlen (xlen : Xlen) (v : BitVec 32) :
    (zextXlen xlen (v.setWidth 64)).setWidth 32 = v := by
  refine BitVec.eq_of_getLsbD_eq fun i hi => ?_
  have hlow : ∀ i < 32, (0xffffffff : Reg).getLsbD i = true := by decide
  rw [BitVec.getLsbD_setWidth, agreeOn_iff.mp (zextXlen_agreeOn xlen _) i (by omega) (hlow i hi),
    BitVec.getLsbD_setWidth]
  simp [hi, show i < 64 by omega]

/-- A narrow register, read and masked again. -/
theorem setWidth_and_zextXlen (xlen : Xlen) {v : BitVec 32} (mask : Reg)
    (hv : SubMask v (mask.setWidth 32)) :
    (zextXlen xlen (v.setWidth 64) &&& mask).setWidth 32 = v := by
  rw [BitVec.setWidth_and, setWidth_zextXlen]
  exact hv

/-- The halves of `minstret` on RV32. -/
theorem minstret_low (v : Reg) :
    ((v >>> 32) <<< 32) ||| (zextXlen .rv32 v &&& 0xffffffff) = v := by
  simp only [zextXlen, Xlen.bits]
  refine BitVec.eq_of_getLsbD_eq fun i hi => ?_
  have hlow : ∀ i < 64, (0xffffffff : Reg).getLsbD i = decide (i < 32) := by decide
  simp only [BitVec.getLsbD_or, BitVec.getLsbD_and, BitVec.getLsbD_shiftLeft,
    BitVec.getLsbD_ushiftRight, hlow i hi]
  by_cases h32 : i < 32
  · simp [h32, hi, show 32 + i < 64 by omega]
  · simp [h32, hi, show 32 + (i - 32) = i by omega]

theorem minstret_same (h : Hart) :
    (if h.xlen = .rv32 then
        ((h.minstret >>> 32) <<< 32) ||| (zextXlen h.xlen h.minstret &&& 0xffffffff)
      else zextXlen h.xlen h.minstret) = h.minstret := by
  cases hxlen : h.xlen with
  | rv32 => exact (if_pos rfl).trans (minstret_low h.minstret)
  | rv64 => simp [zextXlen, Xlen.bits]

theorem minstret_high (v : Reg) :
    (zextXlen .rv32 (v >>> 32) <<< 32) ||| ((v <<< 32) >>> 32) = v := by
  simp only [zextXlen, Xlen.bits]
  refine BitVec.eq_of_getLsbD_eq fun i hi => ?_
  simp only [BitVec.getLsbD_or, BitVec.getLsbD_shiftLeft, BitVec.getLsbD_ushiftRight]
  by_cases h32 : i < 32
  · simp [h32, hi, show 32 + i < 64 by omega]
  · simp [h32, hi, show 32 + (i - 32) = i by omega, show ¬32 + i < 64 by omega]

/-- A register that is read and written whole on RV64, and as its low word on RV32. -/
theorem zextXlen_of_lt {xlen : Xlen} {v : Reg} {n : Nat} (hv : v.toNat < 2 ^ n)
    (hn : n ≤ xlen.bits) : zextXlen xlen v = v := by
  rw [zextXlen_eq_setWidth]
  apply BitVec.eq_of_toNat_eq
  rw [BitVec.toNat_setWidth, BitVec.toNat_setWidth]
  have hlt : v.toNat < 2 ^ xlen.bits := lt_of_lt_of_le hv (Nat.pow_le_pow_right (by decide) hn)
  rw [Nat.mod_eq_of_lt hlt, Nat.mod_eq_of_lt v.isLt]

/-- The bits that `set_csr` keeps of a vector. -/
theorem aligned_zextXlen (xlen : Xlen) {v : Reg} (hv : v &&& 3 = 0) :
    (zextXlen xlen v >>> 2) <<< 2 = zextXlen xlen v := by
  have hlow : ∀ i < 2, v.getLsbD i = false := by
    intro i hi
    have hbit := congrArg (fun w => w.getLsbD i) hv
    have h3 : ∀ i < 2, (3#64).getLsbD i = true := by decide
    simp only [BitVec.getLsbD_and] at hbit
    rw [show (3 : Reg).getLsbD i = true from h3 i hi, Bool.and_true] at hbit
    simpa using hbit
  have hzlow : ∀ i < 2, (zextXlen xlen v).getLsbD i = false := by
    intro i hi
    have hmask : ∀ i < 2, (0xffffffff : Reg).getLsbD i = true := by decide
    rw [agreeOn_iff.mp (zextXlen_agreeOn xlen v) i (by omega) (hmask i hi), hlow i hi]
  refine BitVec.eq_of_getLsbD_eq fun i hi => ?_
  rw [BitVec.getLsbD_shiftLeft, BitVec.getLsbD_ushiftRight]
  by_cases h2 : i < 2
  · simp [h2, hzlow i h2]
  · simp [h2, hi, show 2 + (i - 2) = i by omega]

/-- A bit outside of the mask. -/
theorem getLsbD_of_subMask {w : Nat} {v mask : BitVec w} (h : SubMask v mask) {i : Nat} (hi : i < w)
    (hmask : mask.getLsbD i = false) : v.getLsbD i = false := by
  by_contra hbit
  rw [Bool.not_eq_false] at hbit
  rw [subMask_iff.mp h i hi hbit] at hmask
  cases hmask

/-- The two parts of `fcsr`. -/
theorem fcsr_parts (xlen : Xlen) {fflags frm : BitVec 32} (hfflags : NarrowFlags fflags)
    (hfrm : SubMask frm 0x7) :
    let v := zextXlen xlen ((fflags ||| (frm <<< 5)).setWidth 64)
    (v &&& 0x1f).setWidth 32 = fflags ∧ ((v &&& 0xe0) >>> 5).setWidth 32 = frm := by
  have hlow : ∀ i < 32, (0xffffffff : Reg).getLsbD i = true := by decide
  have hv (i : Nat) (hi : i < 32) : (zextXlen xlen ((fflags ||| (frm <<< 5)).setWidth 64)).getLsbD i =
      (fflags.getLsbD i || (frm <<< 5).getLsbD i) := by
    rw [agreeOn_iff.mp (zextXlen_agreeOn xlen _) i (by omega) (hlow i hi), BitVec.getLsbD_setWidth,
      BitVec.getLsbD_or]
    simp [show i < 64 by omega]
  have hflag : ∀ i < 32, 5 ≤ i → fflags.getLsbD i = false := fun i hi h5 =>
    getLsbD_of_subMask hfflags hi ((by decide : ∀ i < 32, 5 ≤ i → (0x1f#32).getLsbD i = false) i hi h5)
  have hmode : ∀ i < 32, 3 ≤ i → frm.getLsbD i = false := fun i hi h3 =>
    getLsbD_of_subMask hfrm hi ((by decide : ∀ i < 32, 3 ≤ i → (0x7#32).getLsbD i = false) i hi h3)
  constructor
  · refine BitVec.eq_of_getLsbD_eq fun i hi => ?_
    have hmask : ∀ i < 32, (0x1f : Reg).getLsbD i = decide (i < 5) := by decide
    rw [BitVec.getLsbD_setWidth, BitVec.getLsbD_and, hv i hi, hmask i hi, BitVec.getLsbD_shiftLeft]
    by_cases h5 : i < 5
    · simp [hi, h5]
    · rw [hflag i hi (by omega)]
      simp [h5]
  · refine BitVec.eq_of_getLsbD_eq fun i hi => ?_
    have hmask : ∀ i < 32, (0xe0 : Reg).getLsbD (5 + i) = decide (i < 3) := by decide
    rw [BitVec.getLsbD_setWidth, BitVec.getLsbD_ushiftRight, BitVec.getLsbD_and, hmask i hi]
    by_cases h3 : i < 3
    · rw [hv (5 + i) (by omega), BitVec.getLsbD_shiftLeft, hflag (5 + i) (by omega) (by omega)]
      simp [hi, h3, show 5 + i < 32 by omega]
    · rw [hmode i hi (by omega)]
      simp [h3]

/-! ## Every register -/

/-- The hart after the value of a register was written back: the floating-point registers
mark their state as dirty. -/
def Hart.writtenBack (h : Hart) : Csr → Hart
  | .fflags | .frm | .fcsr => dirtyFpState h.xlen h
  | _ => h

/-- The action ends with the registers of a hart, as they are read. -/
def EndsWith (x : M β Unit) (m : Machine β) (h : Hart) : Prop :=
  ∃ m', x m = .ok () m' ∧ m'.hart.extended = h.extended ∧ m'.dev = m.dev

/-- A word and its part under a mask. -/
theorem AgreeOn.and_self (mask v : Reg) : AgreeOn mask (v &&& mask) v := by
  unfold AgreeOn
  rw [BitVec.and_assoc, BitVec.and_self]

/-- `sstatus` agrees with `mstatus` on the bits of its view. -/
theorem sstatus_same {h : Hart} (hl : Legal h) {v id : Reg} {debugInterrupt : Bool}
    (hread : readCsr id debugInterrupt h .sstatus = some v) :
    h.withMstatus ((h.mstatus &&& ~~~sstatusMask) ||| (zextXlen h.xlen v &&& sstatusMask)) = h := by
  have hv : AgreeOn sstatusMask v h.mstatus := by
    have hview := AgreeOn.and_self sstatusMask h.mstatus
    simp only [readCsr] at hread
    split_ifs at hread with hdirty hxlen
    · obtain rfl := Option.some.inj hread
      exact ((AgreeOn.or (.refl _)).mono (by decide)).trans hview
    · obtain rfl := Option.some.inj hread
      exact ((AgreeOn.or (.refl _)).mono (by decide)).trans hview
    · obtain rfl := Option.some.inj hread
      exact hview
  apply withMstatus_same hl
  rw [write_same (zextXlen_agreeOn_low h.xlen (by decide) hv)]

theorem sip_same (h : Hart) :
    setMip h ((h.mip &&& ~~~(mipSsip &&& h.mideleg)) |||
      (zextXlen h.xlen (h.mip &&& h.mideleg) &&& (mipSsip &&& h.mideleg))) = h := by
  have hview : AgreeOn (mipSsip &&& h.mideleg) (h.mip &&& h.mideleg) h.mip :=
    (AgreeOn.and_self ..).mono (.and_right ..)
  have hlow : SubMask (mipSsip &&& h.mideleg) 0xffffffff := (SubMask.and_left ..).trans (by decide)
  apply setMip_same
  rw [write_same (zextXlen_agreeOn_low h.xlen hlow hview)]

theorem sie_same {h : Hart} (hl : Legal h) :
    setMie h ((h.mie &&& ~~~h.mideleg) ||| (zextXlen h.xlen (h.mie &&& h.mideleg) &&& h.mideleg)) =
      h := by
  have hlow : SubMask h.mideleg 0xffffffff := hl.mideleg.trans (by decide)
  apply setMie_same
  rw [write_same (zextXlen_agreeOn_low h.xlen hlow (AgreeOn.and_self ..))]

/-- The trigger that is selected, after its own `tdata1` was written. -/
theorem update_same {h : Hart} (hl : Legal h) (hn : NarrowFields h) :
    Function.update h.mcontrol h.tselect (setMcontrol h.xlen
      (zextXlen h.xlen (readMcontrol h.xlen (h.mcontrol h.tselect))) (h.mcontrol h.tselect)) =
      h.mcontrol := by
  rw [setMcontrol_readMcontrol h.xlen (hn.action _) (hn.matchKind _) (hl.timing _),
    Function.update_eq_self]

theorem tselect_same (h : Hart) :
    let v := zextXlen h.xlen (BitVec.ofNat 64 h.tselect.val)
    v < 4 ∧ Fin.ofNat 4 v.toNat = h.tselect := by
  generalize h.tselect = i
  cases h.xlen
  all_goals
    revert i
    decide

theorem tdata2_same (h : Hart) :
    (fun i => sextXlen h.xlen (Function.update h.tdata2 h.tselect
      (zextXlen h.xlen (h.tdata2 h.tselect)) i)) = fun i => sextXlen h.xlen (h.tdata2 i) := by
  funext i
  by_cases hi : i = h.tselect
  · rw [hi, Function.update_self, sextXlen_zextXlen]
  · rw [Function.update_of_ne hi]

theorem sptbr_same {h : Hart} (hl : Legal h) :
    zextXlen h.xlen h.sptbr &&& ((1 <<< ((if h.maxXlen = .rv64 then 50 else 34) - pgshift)) - 1) =
      h.sptbr := by
  have hbits : paddrBits h.maxXlen - pgshift ≤ h.xlen.bits := by
    rw [hl.xlen]
    cases h.maxXlen <;> decide
  rw [zextXlen_of_lt hl.sptbr hbits]
  have hlt := hl.sptbr
  cases hmax : h.maxXlen
  all_goals
    rw [hmax] at hlt
    apply BitVec.eq_of_toNat_eq
    rw [BitVec.toNat_and]
  · exact (Nat.and_two_pow_sub_one_eq_mod _ 22).trans (Nat.mod_eq_of_lt hlt)
  · exact (Nat.and_two_pow_sub_one_eq_mod _ 38).trans (Nat.mod_eq_of_lt hlt)

/-- **Writing back.** A write of the value that was read ends with the registers that were
there, but for the dirty mark of the floating-point registers. -/
theorem writeCsr_read {m : Machine β} (hl : Legal m.hart) (hn : NarrowFields m.hart) {csr : Csr}
    {v id : Reg} {debugInterrupt : Bool} (hread : readCsr id debugInterrupt m.hart csr = some v) :
    EndsWith (writeCsr csr v) m (m.hart.writtenBack csr) := by
  have hlow (field v : Reg) (hfield : SubMask field 0xffffffff) :
      AgreeOn field (zextXlen m.hart.xlen v) v :=
    zextXlen_agreeOn_low m.hart.xlen hfield (.refl ..)
  -- Each register: what was read, and that the hart is the one before.
  cases csr
  case fflags =>
    simp only [readCsr] at hread
    split_ifs at hread
    obtain rfl := Option.some.inj hread
    have hflags := setWidth_and_zextXlen m.hart.xlen 0x1f hn.fflags
    refine ⟨_, rfl, ?_, rfl⟩
    exact congrArg (fun x => ({ dirtyFpState m.hart.xlen m.hart with fflags := x } : Hart).extended)
      hflags
  case sstatus =>
    have hset : writeCsr .sstatus v m = setMstatus
      ((m.hart.mstatus &&& ~~~sstatusMask) ||| (zextXlen m.hart.xlen v &&& sstatusMask)) m := rfl
    refine ⟨_, hset.trans (run_setMstatus _ m), ?_, rfl⟩
    exact congrArg Hart.extended (sstatus_same hl hread)
  case mstatus =>
    obtain rfl := Option.some.inj hread
    have hset : writeCsr .mstatus m.hart.mstatus m =
      setMstatus (zextXlen m.hart.xlen m.hart.mstatus) m := rfl
    refine ⟨_, hset.trans (run_setMstatus _ m), ?_, rfl⟩
    exact congrArg Hart.extended (withMstatus_same hl (hlow _ _ (by decide)))
  case mip =>
    obtain rfl := Option.some.inj hread
    refine ⟨_, rfl, ?_, rfl⟩
    exact congrArg Hart.extended (setMip_same (hlow _ _ (by decide)))
  case mie =>
    obtain rfl := Option.some.inj hread
    refine ⟨_, rfl, ?_, rfl⟩
    exact congrArg Hart.extended (setMie_same (hlow _ _ (by decide)))
  case frm =>
    simp only [readCsr] at hread
    split_ifs at hread
    obtain rfl := Option.some.inj hread
    have hfrm := setWidth_and_zextXlen m.hart.xlen 0x7 hn.frm
    refine ⟨_, rfl, ?_, rfl⟩
    exact congrArg (fun x => ({ dirtyFpState m.hart.xlen m.hart with frm := x } : Hart).extended) hfrm
  case fcsr =>
    simp only [readCsr] at hread
    split_ifs at hread
    obtain rfl := Option.some.inj hread
    obtain ⟨hflags, hfrm⟩ := fcsr_parts m.hart.xlen hn.fflags hn.frm
    refine ⟨_, rfl, ?_, rfl⟩
    exact congrArg₂ (fun x y =>
      ({ dirtyFpState m.hart.xlen m.hart with fflags := x, frm := y } : Hart).extended) hflags hfrm
  case minstreth | mcycleh =>
    all_goals
      simp only [readCsr] at hread
      split_ifs at hread with hxlen
      obtain rfl := Option.some.inj hread
      have hkept := minstret_high m.hart.minstret
      rw [← hxlen] at hkept
      refine ⟨_, rfl, ?_, rfl⟩
      exact congrArg (fun x => ({ m.hart with minstret := x } : Hart).extended) hkept
  case minstret | mcycle =>
    all_goals
      obtain rfl := Option.some.inj hread
      have hkept := minstret_same m.hart
      refine ⟨_, rfl, ?_, rfl⟩
      exact congrArg (fun x => ({ m.hart with minstret := x } : Hart).extended) hkept
  case mucounteren =>
    obtain rfl := Option.some.inj hread
    have hkept := setWidth_zextXlen m.hart.xlen m.hart.mucounteren
    refine ⟨_, rfl, ?_, rfl⟩
    exact congrArg (fun x => ({ m.hart with mucounteren := x } : Hart).extended) hkept
  case mscounteren =>
    obtain rfl := Option.some.inj hread
    have hkept := setWidth_zextXlen m.hart.xlen m.hart.mscounteren
    refine ⟨_, rfl, ?_, rfl⟩
    exact congrArg (fun x => ({ m.hart with mscounteren := x } : Hart).extended) hkept
  case mideleg =>
    obtain rfl := Option.some.inj hread
    have hkept := write_same (hlow delegableInts m.hart.mideleg (by decide))
    refine ⟨_, rfl, ?_, rfl⟩
    exact congrArg (fun x => ({ m.hart with mideleg := x } : Hart).extended) hkept
  case medeleg =>
    obtain rfl := Option.some.inj hread
    have hkept := write_same (hlow medelegMask m.hart.medeleg (by decide))
    refine ⟨_, rfl, ?_, rfl⟩
    exact congrArg (fun x => ({ m.hart with medeleg := x } : Hart).extended) hkept
  case sip =>
    obtain rfl := Option.some.inj hread
    refine ⟨_, rfl, ?_, rfl⟩
    exact congrArg Hart.extended (sip_same m.hart)
  case sie =>
    obtain rfl := Option.some.inj hread
    refine ⟨_, rfl, ?_, rfl⟩
    exact congrArg Hart.extended (sie_same hl)
  case misa =>
    obtain rfl := Option.some.inj hread
    refine ⟨_, rfl, ?_, rfl⟩
    exact congrArg Hart.extended (setMisa_same hl (hlow _ _ (.refl _)))
  case sptbr =>
    obtain rfl := Option.some.inj hread
    have hguard : ¬m.hart.xlen ≠ m.hart.maxXlen := not_not.mpr hl.xlen
    have hset : writeCsr .sptbr m.hart.sptbr m = .ok () { m with hart := { m.hart with
        sptbr := zextXlen m.hart.xlen m.hart.sptbr &&&
          ((1 <<< ((if m.hart.maxXlen = .rv64 then 50 else 34) - pgshift)) - 1) } } := by
      simp only [writeCsr, run_bind, run_getHart, if_neg hguard]
      rfl
    refine ⟨_, hset, ?_, rfl⟩
    exact congrArg (fun x => ({ m.hart with sptbr := x } : Hart).extended) (sptbr_same hl)
  case stvec =>
    obtain rfl := Option.some.inj hread
    refine ⟨_, rfl, ?_, rfl⟩
    simp only [Hart.extended, Hart.writtenBack, aligned_zextXlen m.hart.xlen hl.stvec,
      sextXlen_zextXlen]
  case mtvec =>
    obtain rfl := Option.some.inj hread
    refine ⟨_, rfl, ?_, rfl⟩
    simp only [Hart.extended, Hart.writtenBack, aligned_zextXlen m.hart.xlen hl.mtvec,
      sextXlen_zextXlen]
  case scause =>
    have hwidth : ¬m.hart.xlen.bits < m.hart.maxXlen.bits := by
      rw [hl.xlen]
      exact lt_irrefl _
    simp only [readCsr, if_neg hwidth] at hread
    obtain rfl := Option.some.inj hread
    refine ⟨_, rfl, ?_, rfl⟩
    simp only [Hart.extended, Hart.writtenBack, sextXlen_zextXlen]
  case mepc | mbadaddr | mscratch | mcause | sepc | sbadaddr | sscratch | dpc | dscratch =>
    all_goals
      obtain rfl := Option.some.inj hread
      refine ⟨_, rfl, ?_, rfl⟩
      simp only [Hart.extended, Hart.writtenBack, sextXlen_zextXlen]
  case tselect =>
    obtain rfl := Option.some.inj hread
    obtain ⟨hlt, hsame⟩ := tselect_same m.hart
    simp only [EndsWith, writeCsr, run_bind, run_getHart, if_pos hlt]
    refine ⟨_, rfl, ?_, rfl⟩
    exact congrArg (fun x => ({ m.hart with tselect := x } : Hart).extended) hsame
  case tdata1 =>
    obtain rfl := Option.some.inj hread
    simp only [EndsWith, writeCsr, run_bind, run_getHart]
    split_ifs
    · exact ⟨_, rfl, rfl, rfl⟩
    · refine ⟨_, rfl, ?_, rfl⟩
      exact congrArg (fun x => ({ m.hart with mcontrol := x } : Hart).extended) (update_same hl hn)
  case tdata2 =>
    obtain rfl := Option.some.inj hread
    simp only [EndsWith, writeCsr, run_bind, run_getHart]
    split_ifs
    · exact ⟨_, rfl, rfl, rfl⟩
    · refine ⟨_, rfl, ?_, rfl⟩
      simp only [Hart.extended, Hart.writtenBack, tdata2_same m.hart]
  case dcsr =>
    obtain rfl := Option.some.inj hread
    refine ⟨_, rfl, ?_, rfl⟩
    exact congrArg Hart.extended (setDcsr_readDcsr m.hart debugInterrupt)
  all_goals exact ⟨_, rfl, rfl, rfl⟩

/-! ## The values after a write -/

/-- The numbers whose writes mark the floating-point state as dirty. -/
def setsDirty (which : Reg) : Bool :=
  which == Csr.fflags.num || which == Csr.frm.num || which == Csr.fcsr.num

/-- The numbers that show the mark. -/
def showsDirty (other : Reg) : Bool := other == Csr.mstatus.num || other == Csr.sstatus.num

/-- `FS` and `SD`, sign-extended. -/
def dirtyMark (xlen : Xlen) : Reg := mstatusFs ||| sextXlen xlen (sdBit xlen)

/-- Every register is read as before. -/
def CsrsKept (P : Platform β) (m m' : Machine β) : Prop :=
  ∀ other, csrValue P other m' = csrValue P other m

/-- Every register is read as before, but for `FS` and `SD`, which are set. -/
def CsrsDirtied (P : Platform β) (m m' : Machine β) : Prop :=
  ∀ other, csrValue P other m' = (csrValue P other m).map fun v =>
    if showsDirty other then v ||| dirtyMark m.hart.xlen else v

/-- The value that was read of a register was written to it: every register is read as
before, but `fflags`, `frm` and `fcsr` may set `FS` and `SD`. -/
def WrittenBack (P : Platform β) (which : Reg) (m m' : Machine β) : Prop :=
  CsrsKept P m m' ∨ (setsDirty which = true ∧ CsrsDirtied P m m')

theorem sextXlen_or (xlen : Xlen) (a b : Reg) :
    sextXlen xlen (a ||| b) = sextXlen xlen a ||| sextXlen xlen b := by
  simp only [sextXlen_eq_signExtend, BitVec.setWidth_or, BitVec.signExtend_or]

theorem sextXlen_fs (xlen : Xlen) : sextXlen xlen mstatusFs = mstatusFs := by
  cases xlen <;> decide

/-- The view of a dirty `mstatus`. -/
theorem readCsr_sstatus_dirty (id : Reg) (debugInterrupt : Bool) (h : Hart) :
    (readCsr id debugInterrupt (dirtyFpState h.xlen h) .sstatus).map (sextXlen h.xlen) =
      (readCsr id debugInterrupt h .sstatus).map fun v => sextXlen h.xlen v ||| dirtyMark h.xlen := by
  have hview : (dirtyFpState h.xlen h).mstatus &&& sstatusMask =
      (h.mstatus &&& sstatusMask) ||| mstatusFs := by
    have hmask : (mstatusFs ||| sdBit h.xlen) &&& sstatusMask = mstatusFs := by
      cases h.xlen <;> decide
    change (h.mstatus ||| (mstatusFs ||| sdBit h.xlen)) &&& sstatusMask = _
    rw [BitVec.and_or_distrib_right, hmask]
  have hfs : ((h.mstatus &&& sstatusMask) ||| mstatusFs) &&& mstatusFs = mstatusFs :=
    (BitVec.and_comm ..).trans (SubMask.or_right ..)
  have hxlen : (dirtyFpState h.xlen h).xlen = h.xlen := rfl
  have habsorb (a b c : Reg) : (a ||| c) ||| (b ||| c) = (a ||| b) ||| c := by
    rw [BitVec.or_assoc, BitVec.or_comm c, BitVec.or_assoc, BitVec.or_self, BitVec.or_assoc]
  simp only [readCsr, hview, hfs, hxlen, true_or, if_true, sdField_eq, Option.map_some, sextXlen_or,
    dirtyMark, sextXlen_fs]
  split_ifs
  · simp only [Option.map_some, sextXlen_or, habsorb]
  · simp only [Option.map_some, BitVec.or_assoc]

theorem fpCsrReadable_dirty {h : Hart} (hfp : fpCsrReadable h = true) :
    fpCsrReadable (dirtyFpState h.xlen h) = true := by
  have hfs : (h.mstatus ||| (mstatusFs ||| sdBit h.xlen)) &&& mstatusFs = mstatusFs := by
    have hsub : SubMask mstatusFs (h.mstatus ||| (mstatusFs ||| sdBit h.xlen)) :=
      (SubMask.or_left ..).trans (.or_right ..)
    rw [BitVec.and_comm]
    exact hsub
  have hset : (dirtyFpState h.xlen h).mstatus &&& mstatusFs != 0 := by
    change (h.mstatus ||| (mstatusFs ||| sdBit h.xlen)) &&& mstatusFs != 0
    rw [hfs]
    decide
  unfold fpCsrReadable at hfp ⊢
  rw [Bool.and_eq_true] at hfp ⊢
  exact ⟨hset, hfp.2⟩

/-- What is read of a hart whose floating-point state is dirty. -/
theorem readCsr_dirty {h : Hart} (hfp : fpCsrReadable h = true) (id : Reg) (debugInterrupt : Bool)
    (csr : Csr) :
    (readCsr id debugInterrupt (dirtyFpState h.xlen h) csr).map (sextXlen h.xlen) =
      (readCsr id debugInterrupt h csr).map fun v =>
        if showsDirty csr.num then sextXlen h.xlen v ||| dirtyMark h.xlen else sextXlen h.xlen v := by
  cases csr
  case fflags | frm | fcsr =>
    all_goals
      simp only [readCsr, hfp, fpCsrReadable_dirty hfp, if_true]
      rfl
  case mstatus =>
    change some (sextXlen h.xlen (h.mstatus ||| (mstatusFs ||| sdBit h.xlen))) =
      some (sextXlen h.xlen h.mstatus ||| dirtyMark h.xlen)
    rw [sextXlen_or, sextXlen_or, sextXlen_fs, dirtyMark]
  case sstatus => exact readCsr_sstatus_dirty ..
  all_goals rfl

/-- A number that is not looked up is not that of a register. -/
theorem num_ne_of_unknown {which : Reg} (h : Csr.ofNum which = none) (csr : Csr) :
    (which == csr.num) = false := by
  rw [beq_eq_false_iff_ne]
  rintro rfl
  rw [Csr.ofNum_num] at h
  cases h

theorem csrsDirtied_of_extended (P : Platform β) {m m' : Machine β}
    (hxlen : m.hart.xlen = m.hart.maxXlen) (hfp : fpCsrReadable m.hart = true)
    (hhart : m'.hart.extended = (dirtyFpState m.hart.xlen m.hart).extended) (hdev : m'.dev = m.dev) :
    CsrsDirtied P m m' := by
  intro other
  let md : Machine β := { m with hart := dirtyFpState m.hart.xlen m.hart }
  have hsame : csrValue P other m' = csrValue P other md :=
    csrValue_congr (m := md) P hxlen hhart hdev other
  have hzero : readsZero md.hart other = readsZero m.hart other := rfl
  rw [hsame, csrValue_eq, csrValue_eq, hzero]
  cases hcsr : Csr.ofNum other with
  | none =>
      simp only [showsDirty, num_ne_of_unknown hcsr, Bool.or_self, Bool.false_eq_true, if_false, Option.map_id']
      rfl
  | some csr =>
      obtain rfl := Csr.num_of_ofNum hcsr
      rw [readsZero_num]
      simp only [Bool.false_eq_true, if_false, Option.bind_some, Option.map_map]
      exact readCsr_dirty hfp ..

theorem fpCsrReadable_of_read {id v : Reg} {debugInterrupt : Bool} {h : Hart} {csr : Csr}
    (hcsr : setsDirty csr.num = true) (hread : readCsr id debugInterrupt h csr = some v) :
    fpCsrReadable h = true := by
  by_contra hfp
  cases csr
  case fflags | frm | fcsr => all_goals simp [readCsr, hfp] at hread
  all_goals exact absurd hcsr (by decide)

theorem writtenBack_eq (h : Hart) (csr : Csr) :
    h.writtenBack csr = if setsDirty csr.num then dirtyFpState h.xlen h else h := by
  cases csr <;> rfl

/-- A write of what was read keeps every value, but for the mark of the floating-point
registers. -/
theorem setCsr_getCsr {P : Platform β} {m m1 : Machine β} (hl : Legal m.hart)
    (hn : NarrowFields m.hart) {which v : Reg} (hget : getCsr P which m = .ok v m1) :
    ∃ m', setCsr which v m = .ok () m' ∧ WrittenBack P which m m' := by
  cases hcsr : Csr.ofNum which with
  | none =>
      rw [setCsr_unknown hcsr]
      exact ⟨m, rfl, .inl fun _ => rfl⟩
  | some csr =>
      obtain rfl := Csr.num_of_ofNum hcsr
      have hread : readCsr P.id (P.debugInterrupt m.dev) m.hart csr = some v := by
        simp only [getCsr, run_bind, run_get, readsZero_num, hcsr, Option.bind_some] at hget
        cases hval : readCsr P.id (P.debugInterrupt m.dev) m.hart csr with
        | none =>
            rw [hval] at hget
            cases hget
        | some w =>
            rw [hval] at hget
            cases hget
            rfl
      rw [setCsr_eq hcsr]
      obtain ⟨m', hset, hhart, hdev⟩ := writeCsr_read hl hn hread
      refine ⟨m', hset, ?_⟩
      rw [writtenBack_eq] at hhart
      cases hdirty : setsDirty csr.num with
      | true =>
          rw [hdirty] at hhart
          have hfp := fpCsrReadable_of_read hdirty hread
          exact .inr ⟨hdirty, csrsDirtied_of_extended P hl.xlen hfp hhart hdev⟩
      | false =>
          rw [hdirty] at hhart
          exact .inl (csrValue_congr P hl.xlen hhart hdev)

/-! ## Reachable states -/

theorem WrittenBack.trans_kept {P : Platform β} {which : Reg} {m m1 m2 : Machine β}
    (h : WrittenBack P which m m1) (hkept : CsrsKept P m1 m2) : WrittenBack P which m m2 := by
  rcases h with hsame | ⟨hwhich, hdirty⟩
  · exact .inl fun other => (hkept other).trans (hsame other)
  · exact .inr ⟨hwhich, fun other => (hkept other).trans (hdirty other)⟩

theorem WrittenBack.of_kept {P : Platform β} {which : Reg} {m m1 m2 : Machine β}
    (h : WrittenBack P which m1 m2) (hkept : CsrsKept P m m1) (hxlen : m1.hart.xlen = m.hart.xlen) :
    WrittenBack P which m m2 := by
  rcases h with hsame | ⟨hwhich, hdirty⟩
  · exact .inl fun other => (hsame other).trans (hkept other)
  · refine .inr ⟨hwhich, fun other => ?_⟩
    rw [hdirty other, hkept other, hxlen]

/-- The integer registers and the serialization flag are not CSRs. -/
theorem csrValue_xpr (P : Platform β) (other : Reg) (m : Machine β) (serialized : Bool)
    (xpr : Fin 32 → Reg) :
    csrValue P other { m with hart := { m.hart with serialized := serialized, xpr := xpr } } =
      csrValue P other m := by
  rw [csrValue_eq, csrValue_eq]
  cases Csr.ofNum other with
  | none => rfl
  | some csr => cases csr <;> rfl

theorem writeXpr_csrsKept (P : Platform β) (m : Machine β) (reg : Fin 32) (value : Reg) :
    CsrsKept P m { m with hart := m.hart.writeXpr reg value } := by
  intro other
  unfold Hart.writeXpr
  split
  · rfl
  · exact csrValue_xpr P other m m.hart.serialized _

/-- A CSR instruction whose new value is the old one. -/
theorem csrOp_writtenBack {P : Platform β} {c : Ctx} {write : Ctx → Bool}
    {new : Ctx → Hart → Reg → Reg} {npc : Reg} {m m' : Machine β} (hl : Legal m.hart)
    (hn : NarrowFields m.hart) (hnew : ∀ old, new c m.hart old = old)
    (h : (csrOp write new c).run (Act.exec P) m = .ok npc m') :
    WrittenBack P c.insn.csr m m' := by
  rw [csrOp, run_readHart_bind] at h
  split at h
  · cases h
    exact .inl fun _ => rfl
  · obtain ⟨mid, hmid⟩ : ∃ mid : Machine β,
      mid = { m with hart := { m.hart with serialized := false } } := ⟨_, rfl⟩
    change (if _ then _ else _ : Handler Reg).run (Act.exec P)
      { m with hart := { m.hart with serialized := false } } = _ at h
    rw [← hmid] at h
    have hfirst : CsrsKept P m mid := fun other => hmid ▸ csrValue_xpr P other m false m.hart.xpr
    have hlmid : Legal mid.hart := hmid ▸ { hl with }
    have hnmid : NarrowFields mid.hart := hmid ▸ { hn with }
    have hxlen : mid.hart.xlen = m.hart.xlen := by rw [hmid]
    split at h
    · cases h
    · obtain ⟨old, mid1, hget, hrest⟩ := Program.run_call_ok h
      have hsame : mid1 = mid := getCsr_same hget
      rw [hsame] at hget hrest
      obtain ⟨m1, hset, hback⟩ := setCsr_getCsr hlmid hnmid hget
      split at hrest
      · obtain ⟨_, mid', hset', hlast⟩ := Program.run_call_ok hrest
        change setCsr c.insn.csr (new c m.hart old) mid = _ at hset'
        rw [show new c m.hart old = old from hnew old, hset] at hset'
        cases hset'
        cases hlast
        exact (hback.of_kept hfirst hxlen).trans_kept (writeXpr_csrsKept P m1 _ _)
      · cases hrest
        exact .inl fun other => (writeXpr_csrsKept P _ _ _ other).trans (hfirst other)

/-- **Writing back a register's own value.** In every state that a hart reaches from its
construction, writing what was read of a register changes the value of no register, but for the
mark of the floating-point registers; `csrrs` and `csrrc` with a mask of zeros change
none either. -/
theorem csr_write_back {P : Platform β} {F : SoftFloat} (hF : F.Narrow)
    {findExtension : List Char → Bool} {str : List Char} {cfg : IsaConfig}
    (hisa : parseIsaString findExtension str = some cfg) (halt : Bool) (dram : Reg → BitVec 8)
    (dev : β) {r : ℕ → Point β} {len : ℕ} (hrun : IsRun (HartStep P F) r len)
    (hinit : r 0 = .idle (cfg.machine halt dram dev)) :
    ∀ k ≤ len, let m := (r k).machine
      (∀ which v m1, getCsr P which m = .ok v m1 →
        ∃ m', setCsr which v m = .ok () m' ∧ WrittenBack P which m m') ∧
      ∀ (c : Ctx) (npc : Reg) (m' : Machine β), Insns.rs1 c m.hart = 0 →
        (Insns.csrrs c).run (Act.exec P) m = .ok npc m' ∨
          (Insns.csrrc c).run (Act.exec P) m = .ok npc m' →
        WrittenBack P c.insn.csr m m' := by
  intro k hk m
  have hlegal : Legal m.hart :=
    ((hartRules_legal P F cfg.maxXlen).reachable ⟨legal_reset hisa halt dram dev, rfl⟩ hrun hinit
      k hk).1
  have hnarrow : NarrowFields m.hart :=
    (hartRules_narrow P hF cfg.maxXlen).reachable (narrow_reset cfg halt dram dev) hrun hinit k hk
  constructor
  · intro which v m1 hget
    exact setCsr_getCsr hlegal hnarrow hget
  · intro c npc m' hrs1 hexec
    rcases hexec with hexec | hexec
    · apply csrOp_writtenBack hlegal hnarrow _ hexec
      intro old
      rw [hrs1]
      exact BitVec.or_zero
    · apply csrOp_writtenBack hlegal hnarrow _ hexec
      intro old
      rw [hrs1]
      exact BitVec.and_allOnes

/-- `fcsr` on a hart with the FP unit switched on. -/
theorem csr_write_back_fcsr :
    let cfg : IsaConfig := ⟨.rv64, 0x8000000000141129, false⟩
    let m : Machine Unit := cfg.machine false (fun _ => 0) ()
    parseIsaString (fun _ => false) ['r', 'v', '6', '4', 'g'] = some cfg ∧
      ∃ m1, setCsr Csr.mstatus.num 0x2000 m = .ok () m1 ∧
        csrValue .bare Csr.fcsr.num m1 = some 0 ∧ csrValue .bare Csr.mstatus.num m1 = some 0x2000 ∧
        ∃ m', setCsr Csr.fcsr.num 0 m1 = .ok () m' ∧ WrittenBack .bare Csr.fcsr.num m1 m' ∧
          csrValue .bare Csr.mstatus.num m' = some 0x8000000000006000 := by
  intro cfg m
  have hisa : parseIsaString (fun _ => false) ['r', 'v', '6', '4', 'g'] = some cfg := by
    decide +kernel
  let m1 : Machine Unit := { m with
    hart := m.hart.withMstatus 0x2000
    mmu := bif m.hart.vmChanges 0x2000 then m.mmu.flushed else m.mmu }
  have hset : setCsr Csr.mstatus.num 0x2000 m = .ok () m1 := run_setMstatus 0x2000 m
  have hvalues : csrValue .bare Csr.fcsr.num m1 = some 0 ∧
      csrValue .bare Csr.mstatus.num m1 = some 0x2000 := by
    decide +kernel
  let r : ℕ → Point Unit := fun k => if k = 0 then .idle m else .idle m1
  have hstep : IsRun (HartStep .bare .zeros) r 1 := by
    intro k hk
    obtain rfl : k = 0 := by omega
    exact .method (.setCsr _ _ (.inl ⟨(), hset⟩))
  have hback := (csr_write_back softFloat_zeros_narrow hisa false (fun _ => 0) () hstep rfl 1 le_rfl).1
  have hread : readCsr 0 false m1.hart .fcsr = some 0 := by
    decide +kernel
  obtain ⟨m', hset', hwritten⟩ := hback Csr.fcsr.num 0 m1 (getCsr_of_read hread)
  refine ⟨hisa, m1, hset, hvalues.1, hvalues.2, m', hset', hwritten, ?_⟩
  cases hset'
  decide +kernel

end SpikeSim.Riscv
