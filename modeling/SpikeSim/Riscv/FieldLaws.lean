/-
# The bits of a field

`get_field` divides by the lowest bit of a mask and `set_field` multiplies by it.
Bit by bit, a field is a shift: these are the laws with which the rest of the
development reasons about `mstatus` and its like.
-/

import SpikeSim.Lib.BitMask
import SpikeSim.Riscv.Fields

namespace SpikeSim

/-- The lowest bit of the mask is bit `lo`, and the mask is contiguous. -/
def FieldAt (mask : Reg) (lo : Nat) : Prop :=
  lo < 64 ∧ mask &&& ~~~(mask <<< 1) = BitVec.twoPow 64 lo

instance (mask : Reg) (lo : Nat) : Decidable (FieldAt mask lo) :=
  inferInstanceAs (Decidable (_ ∧ _))

variable {mask : Reg} {lo : Nat}

/-- Reading a field moves it down. -/
theorem getField_eq (h : FieldAt mask lo) (reg : Reg) :
    getField reg mask = (reg &&& mask) >>> lo := by
  rw [getField, h.2, BitVec.udiv_twoPow_eq_of_lt h.1]

theorem getLsbD_getField (h : FieldAt mask lo) (reg : Reg) (i : Nat) :
    (getField reg mask).getLsbD i = (reg.getLsbD (lo + i) && mask.getLsbD (lo + i)) := by
  rw [getField_eq h, BitVec.getLsbD_ushiftRight, BitVec.getLsbD_and]

/-- Writing a field moves the value up and leaves the other bits. -/
theorem getLsbD_setField (h : FieldAt mask lo) (reg val : Reg) {i : Nat} (hi : i < 64) :
    (setField reg mask val).getLsbD i =
      if mask.getLsbD i then decide (lo ≤ i) && val.getLsbD (i - lo) else reg.getLsbD i := by
  rw [setField, h.2, BitVec.mul_twoPow_eq_shiftLeft, BitVec.getLsbD_or, BitVec.getLsbD_and,
    BitVec.getLsbD_and, BitVec.getLsbD_not, BitVec.getLsbD_shiftLeft]
  cases mask.getLsbD i with
  | false => simp [hi]
  | true =>
      have hle : (!decide (i < lo)) = decide (lo ≤ i) := by
        rw [← decide_not]
        congr 1
        exact propext Nat.not_lt
      simp [hi, hle]

theorem setField_agreeOn (reg mask val : Reg) : AgreeOn (~~~mask) (setField reg mask val) reg :=
  AgreeOn.write_outside (.refl mask)

/-- A write inside of a larger mask leaves what is outside of that. -/
theorem setField_agreeOn_of_subMask {field : Reg} (h : SubMask field mask) (reg val : Reg) :
    AgreeOn (~~~mask) (setField reg field val) reg :=
  AgreeOn.write_outside h

/-! ## One-bit fields -/

theorem getField_bit {i : Nat} (hi : i < 64) (reg : Reg) :
    getField reg (BitVec.twoPow 64 i) = boolReg (reg.getLsbD i) := by
  have hfield : FieldAt (BitVec.twoPow 64 i) i := by
    refine ⟨hi, BitVec.eq_of_getLsbD_eq fun j hj => ?_⟩
    simp only [BitVec.getLsbD_and, BitVec.getLsbD_not, BitVec.getLsbD_shiftLeft,
      BitVec.getLsbD_twoPow, hj, hi, decide_true, Bool.true_and]
    rcases Nat.lt_trichotomy i j with hlt | heq | hgt
    · simp [show i ≠ j by omega]
    · subst heq
      by_cases hzero : i < 1
      · simp [hzero]
      · simp [show ¬(i = i - 1) by omega]
    · simp [show i ≠ j by omega]
  refine BitVec.eq_of_getLsbD_eq fun j hj => ?_
  rw [getLsbD_getField hfield, BitVec.getLsbD_twoPow]
  cases j with
  | zero => cases reg.getLsbD i <;> simp [boolReg, hi]
  | succ j => cases reg.getLsbD i <;> simp [boolReg, BitVec.getLsbD_one]

theorem hasField_bit {i : Nat} (hi : i < 64) (reg : Reg) :
    hasField reg (BitVec.twoPow 64 i) = reg.getLsbD i := by
  rw [hasField, getField_bit hi]
  cases reg.getLsbD i <;> rfl

/-- A bit that is shifted down to be tested. -/
theorem shift_and_one_ne_zero (v : Reg) (i : Nat) :
    ((v >>> i) &&& 1 != 0) = v.getLsbD i := by
  rw [show (1 : Reg) = BitVec.twoPow 64 0 from rfl, BitVec.and_twoPow, BitVec.getLsbD_ushiftRight]
  cases v.getLsbD (i + 0) <;> rfl

/-- Fields of words that agree on the mask. -/
theorem getField_congr {a b : Reg} (h : AgreeOn mask a b) : getField a mask = getField b mask := by
  rw [getField, getField, show a &&& mask = b &&& mask from h]

/-- A field of two bits that is all ones. -/
theorem getField_eq_three_iff {mask : Reg} {lo : Nat} (hfield : FieldAt mask lo)
    (hmask : ∀ i < 64, mask.getLsbD i = true ↔ i = lo ∨ i = lo + 1) (hlo : lo + 1 < 64) (v : Reg) :
    getField v mask = 3 ↔ v &&& mask = mask := by
  have h3 (i : Nat) (hi : i < 64) : (3 : Reg).getLsbD i = true ↔ i = 0 ∨ i = 1 := by
    revert hi i
    decide
  constructor
  · intro h
    rw [BitVec.and_comm]
    refine subMask_iff.mpr fun i hi hbit => ?_
    have hget (j : Nat) := getLsbD_getField hfield v j
    rw [h] at hget
    rcases (hmask i hi).mp hbit with rfl | rfl
    · have := hget 0
      rw [(h3 0 (by omega)).mpr (.inl rfl), Nat.add_zero, hbit] at this
      simpa using this.symm
    · have := hget 1
      rw [(h3 1 (by omega)).mpr (.inr rfl), hbit] at this
      simpa using this.symm
  · intro h
    refine BitVec.eq_of_getLsbD_eq fun i hi => ?_
    rw [getField_eq hfield, h, BitVec.getLsbD_ushiftRight]
    rw [Bool.eq_iff_iff, h3 i hi]
    by_cases hin : lo + i < 64
    · rw [hmask _ hin]
      omega
    · rw [BitVec.getLsbD_of_ge _ _ (by omega)]
      simp
      omega

/-- The two-bit fields hold privilege levels. -/
theorem Prv.ofReg_toReg (prv : Prv) : Prv.ofReg prv.toReg = prv := by
  revert prv
  decide

end SpikeSim
