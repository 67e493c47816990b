/-
# The field macros

`get_field` and `set_field` are macros: a mask keeps the type of the literals that it is written
with, which need not be that of the register.  Here they are with the conversions that the
language inserts, for a register of 64 bits or, as `dcsr`, of 32.
-/

import SpikeSim.Lib.BitField
import SpikeSim.Riscv.FieldLaws

namespace SpikeSim

/-! ## Integer types -/

/-- The types of registers: `uint32_t` and `reg_t`. -/
inductive RegType
  | uint32 | reg
  deriving DecidableEq, Repr

def RegType.bits : RegType → Nat
  | .uint32 => 32
  | .reg => 64

/-- The types of masks: that of a small literal, and those of the registers. -/
inductive MaskType
  | int
  | unsigned (type : RegType)
  deriving DecidableEq, Repr

namespace MaskType

def bits : MaskType → Nat
  | int => 32
  | unsigned type => type.bits

/-- The number that an expression of the type stands for. -/
def value : (M : MaskType) → BitVec M.bits → Int
  | int, v => v.toInt
  | unsigned _, v => v.toNat

/-- The conversion to a type of `n` bits. -/
def convert : (M : MaskType) → (n : Nat) → BitVec M.bits → BitVec n
  | int, n, v => v.signExtend n
  | unsigned _, n, v => v.setWidth n

end MaskType

/-- The type of an operation on a register and a mask: none that is narrower than either, and
an unsigned one. -/
def RegType.common : RegType → MaskType → RegType
  | .uint32, .unsigned .reg => .reg
  | R, _ => R

/-! ## The macros -/

variable {R : RegType} {M : MaskType}

/-- `((mask) & ~((mask) << 1))`.  The bit that is shifted out of the type is lost. -/
def maskUnit (mask : BitVec M.bits) : BitVec M.bits := mask &&& ~~~(mask <<< 1)

/-- `get_field(reg, mask)`. -/
def getFieldOf (R : RegType) (M : MaskType) (reg : BitVec R.bits) (mask : BitVec M.bits) :
    BitVec (R.common M).bits :=
  (reg &&& M.convert R.bits mask).setWidth _ / M.convert _ (maskUnit mask)

/-- `set_field(reg, mask, val)`, for a `val` of any integer type. -/
def setFieldOf (R : RegType) (M : MaskType) (reg : BitVec R.bits) (mask : BitVec M.bits)
    (val : Int) : BitVec (R.common M).bits :=
  (reg &&& ~~~(M.convert R.bits mask)).setWidth _ |||
    (((BitVec.ofInt R.bits val).setWidth _ * M.convert _ (maskUnit mask)) &&&
      (M.convert R.bits mask).setWidth _)

/-! ## Masks -/

theorem RegType.bits_le_common (R : RegType) (M : MaskType) : R.bits ≤ (R.common M).bits := by
  cases R <;> rcases M with _ | _ | _ <;> decide

theorem MaskType.bits_le_common (R : RegType) (M : MaskType) : M.bits ≤ (R.common M).bits := by
  cases R <;> rcases M with _ | _ | _ <;> decide

namespace MaskType

theorem msb_of_nonneg {v : BitVec int.bits} (h : 0 ≤ int.value v) : v.msb = false := by
  rw [BitVec.msb_eq_toInt, decide_eq_false_iff_not, not_lt]
  exact h

/-- An expression whose number is not negative is converted as it stands. -/
theorem convert_of_nonneg {v : BitVec M.bits} (h : 0 ≤ M.value v) (n : Nat) :
    M.convert n v = v.setWidth n := by
  cases M with
  | int => exact BitVec.signExtend_eq_setWidth_of_msb_false (msb_of_nonneg h)
  | unsigned type => rfl

theorem value_of_nonneg {v : BitVec M.bits} (h : 0 ≤ M.value v) : M.value v = v.toNat := by
  cases M with
  | int => exact BitVec.toInt_eq_toNat_of_msb (msb_of_nonneg h)
  | unsigned type => rfl

theorem value_and_nonneg {a : BitVec M.bits} (h : 0 ≤ M.value a) (b : BitVec M.bits) :
    0 ≤ M.value (a &&& b) := by
  cases M with
  | int =>
      have hmsb : (a &&& b).msb = false := by
        rw [BitVec.msb_and, msb_of_nonneg h, Bool.false_and]
      rw [BitVec.msb_eq_toInt, decide_eq_false_iff_not, not_lt] at hmsb
      exact hmsb
  | unsigned type => exact Int.natCast_nonneg _

end MaskType

section Masks

variable {mask : BitVec M.bits} {m : BitVec R.bits} {lo len : Nat}

/-- The bits of a mask do not depend on its type. -/
theorem getLsbD_of_value (h : M.value mask = m.toNat) (i : Nat) :
    mask.getLsbD i = m.getLsbD i := by
  have hvalue : M.value mask = mask.toNat := by
    apply MaskType.value_of_nonneg
    rw [h]
    exact Int.natCast_nonneg _
  rw [h] at hvalue
  rw [BitVec.getLsbD, BitVec.getLsbD, Int.ofNat.inj hvalue]

theorem nonneg_of_value (h : M.value mask = m.toNat) : 0 ≤ M.value mask := by
  rw [h]
  exact Int.natCast_nonneg _

/-- The mask is converted to that of the register. -/
theorem convert_mask (h : M.value mask = m.toNat) : M.convert R.bits mask = m := by
  rw [MaskType.convert_of_nonneg (nonneg_of_value h)]
  apply BitVec.eq_of_getLsbD_eq
  intro i hi
  rw [BitVec.getLsbD_setWidth, getLsbD_of_value h, decide_eq_true hi, Bool.true_and]

/-- The lowest bit of the mask is right in each of the types. -/
theorem convert_maskUnit (h : M.value mask = m.toNat) (hspans : Spans m lo len) :
    M.convert (R.common M).bits (maskUnit mask) = BitVec.twoPow _ lo := by
  have hunit : maskUnit mask = BitVec.twoPow M.bits lo :=
    (hspans.of_getLsbD (getLsbD_of_value h)).lowBit
  have hlt : lo < M.bits := (hspans.of_getLsbD (getLsbD_of_value h)).lo_lt
  have hnonneg : 0 ≤ M.value (maskUnit mask) :=
    MaskType.value_and_nonneg (nonneg_of_value h) _
  rw [MaskType.convert_of_nonneg hnonneg, hunit]
  apply BitVec.eq_of_getLsbD_eq
  intro i hi
  rw [BitVec.getLsbD_setWidth, BitVec.getLsbD_twoPow, BitVec.getLsbD_twoPow]
  have hwide := MaskType.bits_le_common R M
  rw [decide_eq_true hi, decide_eq_true hlt, decide_eq_true (hlt.trans_le hwide)]
  rfl

end Masks

/-! ## Bit by bit -/

section Bits

variable {mask : BitVec M.bits} {m : BitVec R.bits} {lo len : Nat}
  (hmask : M.value mask = m.toNat) (hspans : Spans m lo len)

include hmask hspans

/-- Reading a field moves it down. -/
theorem getLsbD_getFieldOf (reg : BitVec R.bits) (i : Nat) :
    (getFieldOf R M reg mask).getLsbD i = (decide (i < len) && reg.getLsbD (lo + i)) := by
  have hlt : lo < (R.common M).bits := hspans.lo_lt.trans_le (R.bits_le_common M)
  rw [getFieldOf, convert_mask hmask, convert_maskUnit hmask hspans,
    BitVec.udiv_twoPow_eq_of_lt hlt, BitVec.getLsbD_ushiftRight, BitVec.getLsbD_setWidth,
    BitVec.getLsbD_and, hspans.getLsbD]
  have hle := hspans.le
  have hwide := R.bits_le_common M
  by_cases hi : i < len
  · rw [decide_eq_true hi, decide_eq_true (show lo ≤ lo + i ∧ lo + i < lo + len by omega),
      decide_eq_true (show lo + i < (R.common M).bits by omega), Bool.and_true]
  · rw [decide_eq_false hi, decide_eq_false (show ¬(lo ≤ lo + i ∧ lo + i < lo + len) by omega),
      Bool.and_false, Bool.and_false, Bool.false_and]

/-- Writing a field moves the value up and leaves the other bits. -/
theorem getLsbD_setFieldOf (reg : BitVec R.bits) (val : Int) (i : Nat) :
    (setFieldOf R M reg mask val).getLsbD i =
      if lo ≤ i ∧ i < lo + len then (BitVec.ofInt R.bits val).getLsbD (i - lo)
      else reg.getLsbD i := by
  rw [setFieldOf, convert_mask hmask, convert_maskUnit hmask hspans,
    BitVec.mul_twoPow_eq_shiftLeft, BitVec.getLsbD_or, BitVec.getLsbD_and,
    BitVec.getLsbD_shiftLeft, BitVec.getLsbD_setWidth, BitVec.getLsbD_setWidth,
    BitVec.getLsbD_setWidth, BitVec.getLsbD_and, BitVec.getLsbD_not, hspans.getLsbD]
  have hle := hspans.le
  have hwide := R.bits_le_common M
  by_cases hin : lo ≤ i ∧ i < lo + len
  · rw [if_pos hin, decide_eq_true hin]
    simp only [show i < (R.common M).bits by omega, show ¬i < lo by omega,
      show i - lo < (R.common M).bits by omega, show i < R.bits by omega, decide_true,
      decide_false, Bool.not_true, Bool.not_false, Bool.and_false, Bool.false_or, Bool.true_and,
      Bool.and_true]
  · rw [if_neg hin, decide_eq_false hin, Bool.and_false, Bool.and_false, Bool.or_false]
    by_cases hi : i < R.bits
    · simp only [hi, hi.trans_le hwide, decide_true, Bool.not_false, Bool.true_and, Bool.and_true]
    · rw [BitVec.getLsbD_of_ge reg i (by omega), Bool.false_and, Bool.and_false]

end Bits

/-- A conversion to fewer bits. -/
theorem ofInt_setWidth {n k : Nat} (h : k ≤ n) (v : Int) :
    (BitVec.ofInt n v).setWidth k = BitVec.ofInt k v := by
  have hpow : ((2 ^ k : Nat) : Int) ∣ ((2 ^ n : Nat) : Int) :=
    Int.natCast_dvd_natCast.mpr (Nat.pow_dvd_pow 2 h)
  have hnonneg : 0 ≤ v % ((2 ^ n : Nat) : Int) := Int.emod_nonneg _ (by positivity)
  apply BitVec.eq_of_toNat_eq
  rw [BitVec.toNat_setWidth, BitVec.toNat_ofInt, BitVec.toNat_ofInt, ← Int.emod_emod_of_dvd v hpow,
    Int.toNat_emod hnonneg (Int.natCast_nonneg _), Int.toNat_natCast]

theorem getLsbD_ofInt {n k : Nat} (h : k ≤ n) (v : Int) {i : Nat} (hi : i < k) :
    (BitVec.ofInt n v).getLsbD i = (BitVec.ofInt k v).getLsbD i := by
  rw [← ofInt_setWidth h, BitVec.getLsbD_setWidth, decide_eq_true hi, Bool.true_and]

/-! ## Laws -/

section Laws

variable {mask : BitVec M.bits} {m : BitVec R.bits} {lo len : Nat}
  (hmask : M.value mask = m.toNat)

include hmask

/-- The mask, as it stands in the type of the result. -/
theorem value_widened (M' : MaskType) :
    M.value mask = (m.setWidth (R.common M').bits).toNat := by
  rw [hmask, BitVec.toNat_setWidth_of_le (R.bits_le_common M')]

variable (hspans : Spans m lo len)

include hspans

/-- What was written is read. -/
theorem getFieldOf_setFieldOf (r : BitVec R.bits) (v : Int) :
    ((getFieldOf (R.common M) M (setFieldOf R M r mask v) mask).toNat : Int) = v % 2 ^ len := by
  have hle := hspans.le
  have hwide := R.bits_le_common M
  have hwider := (R.common M).bits_le_common M
  have hfield : getFieldOf (R.common M) M (setFieldOf R M r mask v) mask =
      (BitVec.ofInt len v).setWidth _ := by
    apply BitVec.eq_of_getLsbD_eq
    intro i hi
    rw [getLsbD_getFieldOf (value_widened hmask M) (hspans.widen hwide),
      getLsbD_setFieldOf hmask hspans, BitVec.getLsbD_setWidth, decide_eq_true hi, Bool.true_and]
    by_cases hlen : i < len
    · rw [if_pos (by omega), Nat.add_sub_cancel_left, decide_eq_true hlen, Bool.true_and,
        getLsbD_ofInt (by omega) v hlen]
    · rw [decide_eq_false hlen, Bool.false_and, BitVec.getLsbD_of_ge _ _ (by omega)]
  have hnonneg : 0 ≤ v % ((2 ^ len : Nat) : Int) := Int.emod_nonneg _ (by positivity)
  rw [hfield, BitVec.toNat_setWidth_of_le (by omega), BitVec.toNat_ofInt,
    Int.toNat_of_nonneg hnonneg]
  norm_cast

/-- Writing what was read changes nothing. -/
theorem setFieldOf_getFieldOf (r : BitVec R.bits) :
    (setFieldOf R M r mask (getFieldOf R M r mask).toNat).toNat = r.toNat := by
  have hle := hspans.le
  apply Nat.eq_of_testBit_eq
  intro i
  rw [BitVec.testBit_toNat, BitVec.testBit_toNat, getLsbD_setFieldOf hmask hspans]
  split_ifs with hin
  · rw [BitVec.ofInt_natCast, BitVec.getLsbD_ofNat, BitVec.testBit_toNat,
      getLsbD_getFieldOf hmask hspans, decide_eq_true (show i - lo < R.bits by omega),
      decide_eq_true (show i - lo < len by omega), Nat.add_sub_cancel' hin.1, Bool.true_and,
      Bool.true_and]
  · rfl

end Laws

/-- Fields without a common bit are written in either order. -/
theorem setFieldOf_comm {M' : MaskType} {mask : BitVec M.bits} {mask' : BitVec M'.bits}
    {m m' : BitVec R.bits} {lo lo' len len' : Nat} (hmask : M.value mask = m.toNat)
    (hmask' : M'.value mask' = m'.toNat) (hspans : Spans m lo len) (hspans' : Spans m' lo' len')
    (hdisjoint : m &&& m' = 0) (r : BitVec R.bits) (v v' : Int) :
    (setFieldOf (R.common M) M' (setFieldOf R M r mask v) mask' v').toNat =
      (setFieldOf (R.common M') M (setFieldOf R M' r mask' v') mask v).toNat := by
  have hle := hspans.le
  have hle' := hspans'.le
  have happart (i : Nat) : ¬((lo ≤ i ∧ i < lo + len) ∧ lo' ≤ i ∧ i < lo' + len') := by
    rintro ⟨hin, hin'⟩
    have hbit : (m &&& m').getLsbD i = true := by
      rw [BitVec.getLsbD_and, hspans.getLsbD, hspans'.getLsbD, decide_eq_true hin,
        decide_eq_true hin']
      rfl
    have hzero : (0 : BitVec R.bits).getLsbD i = false := BitVec.getLsbD_zero
    rw [hdisjoint, hzero] at hbit
    cases hbit
  apply Nat.eq_of_testBit_eq
  intro i
  rw [BitVec.testBit_toNat, BitVec.testBit_toNat,
    getLsbD_setFieldOf (value_widened hmask' M) (hspans'.widen (R.bits_le_common M)),
    getLsbD_setFieldOf (value_widened hmask M') (hspans.widen (R.bits_le_common M')),
    getLsbD_setFieldOf hmask hspans, getLsbD_setFieldOf hmask' hspans']
  by_cases hin : lo ≤ i ∧ i < lo + len
  · have hout : ¬(lo' ≤ i ∧ i < lo' + len') := fun hin' => happart i ⟨hin, hin'⟩
    rw [if_neg hout, if_pos hin, if_pos hin,
      getLsbD_ofInt (R.bits_le_common M') v (show i - lo < R.bits by omega)]
  · rw [if_neg hin, if_neg hin]
    by_cases hin' : lo' ≤ i ∧ i < lo' + len'
    · rw [if_pos hin', if_pos hin',
        getLsbD_ofInt (R.bits_le_common M) v' (show i - lo' < R.bits by omega)]
    · rw [if_neg hin', if_neg hin']

/-! ## Words of 64 bits -/

theorem RegType.bits_le (R : RegType) : R.bits ≤ 64 := by
  cases R <;> decide

section Words

variable {mask : BitVec M.bits} {m : BitVec R.bits} {lo len : Nat}
  (hmask : M.value mask = m.toNat) (hspans : Spans m lo len)

include hmask hspans

/-- The macros do on any register what they do on the same number of 64 bits. -/
theorem toNat_getFieldOf (r : BitVec R.bits) :
    (getFieldOf R M r mask).toNat = (getField (r.setWidth 64) (m.setWidth 64)).toNat := by
  have hwide := hspans.widen R.bits_le
  have hle := hwide.le
  apply Nat.eq_of_testBit_eq
  intro i
  rw [BitVec.testBit_toNat, BitVec.testBit_toNat, getLsbD_getFieldOf hmask hspans,
    getLsbD_getField ⟨hwide.lo_lt, hwide.lowBit⟩, hwide.getLsbD, BitVec.getLsbD_setWidth]
  by_cases hi : i < len
  · rw [decide_eq_true (show lo + i < 64 by omega), decide_eq_true hi,
      decide_eq_true (show lo ≤ lo + i ∧ lo + i < lo + len by omega), Bool.and_true]
  · rw [decide_eq_false hi, decide_eq_false (show ¬(lo ≤ lo + i ∧ lo + i < lo + len) by omega),
      Bool.false_and, Bool.and_false]

theorem toNat_setFieldOf (r : BitVec R.bits) (v : Reg) :
    (setFieldOf R M r mask v.toNat).toNat =
      (setField (r.setWidth 64) (m.setWidth 64) v).toNat := by
  have hwide := hspans.widen R.bits_le
  have hle := hspans.le
  have hbits := R.bits_le
  apply Nat.eq_of_testBit_eq
  intro i
  rw [BitVec.testBit_toNat, BitVec.testBit_toNat, getLsbD_setFieldOf hmask hspans]
  by_cases hi : i < 64
  · rw [getLsbD_setField ⟨hwide.lo_lt, hwide.lowBit⟩ _ _ hi, hwide.getLsbD,
      BitVec.getLsbD_setWidth, decide_eq_true hi, Bool.true_and]
    by_cases hin : lo ≤ i ∧ i < lo + len
    · rw [if_pos hin, if_pos (decide_eq_true hin), decide_eq_true hin.1, Bool.true_and,
        BitVec.ofInt_natCast, BitVec.getLsbD_ofNat, BitVec.testBit_toNat,
        decide_eq_true (show i - lo < R.bits by omega), Bool.true_and]
    · rw [if_neg hin, if_neg (by simpa using hin)]
  · rw [if_neg (by omega), BitVec.getLsbD_of_ge _ _ (by omega), BitVec.getLsbD_of_ge _ _ (by omega)]

end Words

/-! ## The laws of the macros -/

/-- **The field macros**, for a mask of any type that stands for a contiguous mask of the
register, and a value of any type. -/
theorem field_macros (R : RegType) {m : BitVec R.bits} (hm : Contiguous m) (M : MaskType)
    {mask : BitVec M.bits} (hmask : M.value mask = m.toNat) (r : BitVec R.bits) (v : Int) :
    ((getFieldOf (R.common M) M (setFieldOf R M r mask v) mask).toNat : Int) =
        v % 2 ^ m.cpop.toNat ∧
      (∀ i, m.getLsbD i = false → (setFieldOf R M r mask v).getLsbD i = r.getLsbD i) ∧
      (setFieldOf R M r mask (getFieldOf R M r mask).toNat).toNat = r.toNat ∧
      ∀ (m' : BitVec R.bits) (M' : MaskType) (mask' : BitVec M'.bits) (v' : Int), Contiguous m' →
        M'.value mask' = m'.toNat → m &&& m' = 0 →
        (setFieldOf (R.common M) M' (setFieldOf R M r mask v) mask' v').toNat =
          (setFieldOf (R.common M') M (setFieldOf R M' r mask' v') mask v).toNat := by
  obtain ⟨lo, len, hspans⟩ := hm
  refine ⟨?_, ?_, setFieldOf_getFieldOf hmask hspans r, ?_⟩
  · rw [hspans.cpop]
    exact getFieldOf_setFieldOf hmask hspans r v
  · intro i hi
    rw [hspans.getLsbD, decide_eq_false_iff_not] at hi
    rw [getLsbD_setFieldOf hmask hspans, if_neg hi]
  · rintro m' M' mask' v' ⟨lo', len', hspans'⟩ hmask' hdisjoint
    exact setFieldOf_comm hmask hmask' hspans hspans' hdisjoint r v v'

/-- `MSTATUS_UIE << prv`. -/
theorem contiguous_uie (prv : Prv) : Contiguous (mstatusUie <<< prv.val) := by
  have huie : Contiguous mstatusUie := ⟨0, 1, by decide, by decide, by decide⟩
  apply huie.shiftLeft
  revert prv
  decide

/-- The enable bit of M-mode and the top bit of `mstatus`, and the top field of `dcsr`. -/
theorem field_macros_registers :
    ((getFieldOf .reg .int (setFieldOf .reg .int 0x1800 (1 <<< 3) 1) (1 <<< 3)).toNat : Int) = 1 ∧
    (setFieldOf .reg (.unsigned .reg) (setFieldOf .reg .int 0x1800 (1 <<< 3) 1)
        mstatus64Sd 1).toNat =
      (setFieldOf .reg .int (setFieldOf .reg (.unsigned .reg) 0x1800 mstatus64Sd 1)
        (1 <<< 3) 1).toNat ∧
    ((getFieldOf .uint32 (.unsigned .uint32)
      (setFieldOf .uint32 (.unsigned .uint32) 3 (3 <<< 30) (-3)) (3 <<< 30)).toNat : Int) = 1 := by
  have hsd : Contiguous mstatus64Sd := ⟨63, 1, by decide, by decide, by decide⟩
  have hver : Contiguous (3 <<< 30 : BitVec 32) := ⟨30, 2, by decide, by decide, by decide⟩
  have hmie := @field_macros .reg _ (contiguous_uie prvM) .int (1 <<< 3) (by decide) 0x1800 1
  have hdcsr := @field_macros .uint32 _ hver (.unsigned .uint32) (3 <<< 30) rfl 3 (-3)
  refine ⟨hmie.1.trans (by decide), ?_, hdcsr.1.trans (by decide)⟩
  exact hmie.2.2.2 mstatus64Sd (.unsigned .reg) mstatus64Sd 1 hsd rfl (by decide)

end SpikeSim
