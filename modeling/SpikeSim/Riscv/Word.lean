/-
# 32-bit values in 64-bit registers

RV32 is simulated with registers of 64 bits.  A value is canonical when it is the
sign extension of its low half; on canonical values the comparisons of 64 bits are
those of 32 bits.
-/

import SpikeSim.Riscv.Operands

namespace SpikeSim

/-- The value is the sign extension of its low 32 bits. -/
def Canonical (v : Reg) : Prop := sext32 v = v

instance (v : Reg) : Decidable (Canonical v) := inferInstanceAs (Decidable (_ = _))

theorem getLsbD_sext32 (v : Reg) (i : Nat) :
    (sext32 v).getLsbD i = (decide (i < 64) && v.getLsbD (min i 31)) := by
  unfold sext32
  rw [BitVec.getLsbD_signExtend]
  by_cases hi : i < 64
  · by_cases hlow : i < 32
    · simp [hi, hlow, Nat.min_eq_left (show i ≤ 31 by omega)]
    · simp [hi, hlow, Nat.min_eq_right (show 31 ≤ i by omega), BitVec.msb_eq_getLsbD_last]
  · simp [hi]

theorem canonical_iff {v : Reg} :
    Canonical v ↔ ∀ i < 64, 32 ≤ i → v.getLsbD i = v.getLsbD 31 := by
  constructor
  · intro h i hi hhigh
    rw [← show sext32 v = v from h, getLsbD_sext32, getLsbD_sext32]
    simp [hi, Nat.min_eq_right (show 31 ≤ i by omega)]
  · intro h
    refine BitVec.eq_of_getLsbD_eq fun i hi => ?_
    rw [getLsbD_sext32]
    by_cases hlow : i < 32
    · simp [hi, Nat.min_eq_left (show i ≤ 31 by omega)]
    · rw [Nat.min_eq_right (show 31 ≤ i by omega), h i hi (by omega)]
      simp [hi]

/-! ## Values that are canonical -/

@[simp]
theorem canonical_sext32 (v : Reg) : Canonical (sext32 v) := by
  refine canonical_iff.mpr fun i hi hhigh => ?_
  rw [getLsbD_sext32, getLsbD_sext32]
  simp [hi, Nat.min_eq_right (show 31 ≤ i by omega)]

/-- `sext_xlen` of an RV32 handler. -/
theorem sextXlen_rv32 (v : Reg) : sextXlen .rv32 v = sext32 v := by
  refine BitVec.eq_of_getLsbD_eq fun i hi => ?_
  rw [getLsbD_sext32, sextXlen]
  simp only [Xlen.bits, BitVec.getLsbD_sshiftRight, BitVec.getLsbD_shiftLeft,
    BitVec.msb_eq_getLsbD_last]
  by_cases hlow : i < 32
  · simp [hi, show 32 + i < 64 by omega, Nat.min_eq_left (show i ≤ 31 by omega)]
  · simp [hi, show ¬ 32 + i < 64 by omega, Nat.min_eq_right (show 31 ≤ i by omega)]

@[simp]
theorem canonical_sextXlen (v : Reg) : Canonical (sextXlen .rv32 v) := by
  rw [sextXlen_rv32]
  exact canonical_sext32 v

/-- A 32-bit value that is sign-extended. -/
theorem canonical_signExtend (v : BitVec 32) : Canonical (v.signExtend 64) := by
  have hself : v.signExtend 64 = sext32 (v.setWidth 64) := by simp [sext32]
  rw [hself]
  exact canonical_sext32 _

/-- A value whose sign starts below bit 32. -/
theorem SignFrom.canonical {k : Nat} {v : Reg} (h : SignFrom k v) (hk : k ≤ 31) : Canonical v := by
  refine canonical_iff.mpr fun i hi hhigh => ?_
  rw [h i (by omega) hi, h 31 hk (by omega)]

theorem Canonical.signFrom {v : Reg} (h : Canonical v) : SignFrom 31 v := by
  intro i hi hlt
  rcases Nat.eq_or_lt_of_le hi with rfl | hlt'
  · rfl
  · exact canonical_iff.mp h i hlt hlt'

theorem canonical_boolReg (b : Bool) : Canonical (boolReg b) := by
  cases b <;> decide

theorem Canonical.and {a b : Reg} (ha : Canonical a) (hb : Canonical b) : Canonical (a &&& b) := by
  rw [canonical_iff] at *
  intro i hi hhigh
  rw [BitVec.getLsbD_and, BitVec.getLsbD_and, ha i hi hhigh, hb i hi hhigh]

theorem Canonical.or {a b : Reg} (ha : Canonical a) (hb : Canonical b) : Canonical (a ||| b) := by
  rw [canonical_iff] at *
  intro i hi hhigh
  rw [BitVec.getLsbD_or, BitVec.getLsbD_or, ha i hi hhigh, hb i hi hhigh]

theorem Canonical.xor {a b : Reg} (ha : Canonical a) (hb : Canonical b) : Canonical (a ^^^ b) := by
  rw [canonical_iff] at *
  intro i hi hhigh
  rw [BitVec.getLsbD_xor, BitVec.getLsbD_xor, ha i hi hhigh, hb i hi hhigh]

/-- Shifting right arithmetically moves copies of the sign down. -/
theorem Canonical.sshiftRight {a : Reg} (ha : Canonical a) (n : Nat) :
    Canonical (a.sshiftRight n) := by
  rw [canonical_iff] at *
  have hbit (j : Nat) (hj : 31 ≤ j) (hj' : j < 64) : a.getLsbD j = a.getLsbD 31 := by
    rcases Nat.eq_or_lt_of_le hj with rfl | hlt
    · rfl
    · exact ha j hj' hlt
  have hshift (j : Nat) (hj : 31 ≤ j) (hj' : j < 64) :
      (a.sshiftRight n).getLsbD j = a.getLsbD 31 := by
    rw [BitVec.getLsbD_sshiftRight, BitVec.msb_eq_getLsbD_last, hbit 63 (by omega) (by omega)]
    by_cases hin : n + j < 64
    · rw [if_pos hin, hbit (n + j) (by omega) hin]
      simp [hj']
    · simp [hj', hin]
  intro i hi hhigh
  rw [hshift i (by omega) hi, hshift 31 le_rfl (by omega)]

/-- Clearing low bits. -/
theorem Canonical.shiftRight_shiftLeft {a : Reg} (ha : Canonical a) {n : Nat} (hn : n ≤ 31) :
    Canonical (a.sshiftRight n <<< n) := by
  have hshift (j : Nat) (hj : 31 ≤ j) (hj' : j < 64) :
      (a.sshiftRight n <<< n).getLsbD j = (a.sshiftRight n).getLsbD (j - n) := by
    rw [BitVec.getLsbD_shiftLeft]
    simp [hj', show ¬ j < n by omega]
  have hbit (j : Nat) (hj : 31 ≤ j) (hj' : j < 64) :
      (a.sshiftRight n).getLsbD (j - n) = a.getLsbD j := by
    rw [BitVec.getLsbD_sshiftRight, Nat.add_sub_cancel' (by omega)]
    simp [hj', show ¬ 64 ≤ j - n by omega]
  refine canonical_iff.mpr fun i hi hhigh => ?_
  rw [hshift i (by omega) hi, hbit i (by omega) hi, hshift 31 le_rfl (by omega),
    hbit 31 le_rfl (by omega)]
  exact canonical_iff.mp ha i hi hhigh

/-! ## Comparisons -/

section Compare

variable {a b : Reg} (ha : Canonical a) (hb : Canonical b)

include ha hb

/-- Canonical values are equal when their low halves are. -/
theorem Canonical.eq_iff : a = b ↔ a.setWidth 32 = b.setWidth 32 := by
  constructor
  · exact fun h => by rw [h]
  · intro h
    rw [← show sext32 a = a from ha, ← show sext32 b = b from hb, sext32, sext32, h]

theorem Canonical.slt_eq : a.slt b = (a.setWidth 32).slt (b.setWidth 32) := by
  have hsign (v : BitVec 32) : (v.signExtend 64).toInt = v.toInt :=
    BitVec.toInt_signExtend_of_le (by omega)
  conv_lhs => rw [← show sext32 a = a from ha, ← show sext32 b = b from hb]
  simp only [sext32, BitVec.slt, hsign]

omit ha hb in
/-- The number that a sign extension is. -/
theorem toNat_signExtend_word (v : BitVec 32) :
    (v.signExtend 64).toNat =
      if v.toNat < 2 ^ 31 then v.toNat else v.toNat + (2 ^ 64 - 2 ^ 32) := by
  have hv := v.isLt
  rw [BitVec.toNat_signExtend, BitVec.msb_eq_decide, BitVec.toNat_setWidth,
    Nat.mod_eq_of_lt (by omega)]
  by_cases hlow : v.toNat < 2 ^ 31
  · rw [if_pos hlow, if_neg (by simpa using hlow)]
    rfl
  · rw [if_neg hlow, if_pos (by simpa using hlow)]

/-- The sign extension keeps the unsigned order as well. -/
theorem Canonical.lt_iff : a < b ↔ a.setWidth 32 < b.setWidth 32 := by
  conv_lhs => rw [← show sext32 a = a from ha, ← show sext32 b = b from hb]
  have hx := (a.setWidth 32).isLt
  have hy := (b.setWidth 32).isLt
  simp only [sext32, BitVec.lt_def, toNat_signExtend_word]
  split <;> split <;> omega

end Compare

end SpikeSim
