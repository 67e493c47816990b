/-
# Arithmetic of narrow words in wide ones

Words of `w` bits are kept in words of `v` bits, sign- or zero-extended, and an
operation on the wide words is truncated again.  For division and remainder this is
the operation on the narrow words, without exception.  `SignedDivision` and
`UnsignedDivision` state what a pair of such results is meant to be.
-/

import Mathlib

namespace SpikeSim

variable {v w : Nat}

/-! ## Truncation -/

/-- Truncation forgets the high bits of the integer. -/
theorem setWidth_ofInt (h : w ≤ v) (n : Int) :
    (BitVec.ofInt v n).setWidth w = BitVec.ofInt w n := by
  apply BitVec.eq_of_toNat_eq
  rw [BitVec.toNat_setWidth, BitVec.toNat_ofInt, BitVec.toNat_ofInt]
  have hpos (k : Nat) : (0 : Int) < ((2 ^ k : Nat) : Int) := by positivity
  have hnonneg (k : Nat) : 0 ≤ n % ((2 ^ k : Nat) : Int) := Int.emod_nonneg n (hpos k).ne'
  have hdvd : ((2 ^ w : Nat) : Int) ∣ ((2 ^ v : Nat) : Int) :=
    Int.natCast_dvd_natCast.mpr (pow_dvd_pow 2 h)
  apply Int.ofNat_inj.mp
  rw [Int.natCast_emod, Int.toNat_of_nonneg (hnonneg w), Int.toNat_of_nonneg (hnonneg v)]
  exact Int.emod_emod_of_dvd n hdvd

theorem setWidth_signExtend_self (h : w ≤ v) (a : BitVec w) : (a.signExtend v).setWidth w = a := by
  rw [← BitVec.ofInt_toInt (x := a.signExtend v), setWidth_ofInt h,
    BitVec.toInt_signExtend_of_le h, BitVec.ofInt_toInt]

theorem setWidth_setWidth_self (h : w ≤ v) (a : BitVec w) : (a.setWidth v).setWidth w = a := by
  rw [BitVec.setWidth_setWidth_of_le a h, BitVec.setWidth_eq]

theorem signExtend_eq_zero_iff (h : w ≤ v) (b : BitVec w) : b.signExtend v = 0#v ↔ b = 0#w := by
  rw [← BitVec.toInt_inj, ← BitVec.toInt_inj, BitVec.toInt_signExtend_of_le h, BitVec.toInt_zero,
    BitVec.toInt_zero]

theorem setWidth_eq_zero_iff (h : w ≤ v) (b : BitVec w) : b.setWidth v = 0#v ↔ b = 0#w := by
  rw [← BitVec.toNat_inj, ← BitVec.toNat_inj, BitVec.toNat_setWidth_of_le h]
  rfl

theorem signExtend_allOnes (h : w ≤ v) (hw : 0 < w) : (BitVec.allOnes w).signExtend v = -1#v := by
  apply BitVec.eq_of_toInt_eq
  rw [BitVec.toInt_signExtend_of_le h, BitVec.neg_one_eq_allOnes, BitVec.toInt_allOnes,
    BitVec.toInt_allOnes, if_pos hw, if_pos (hw.trans_le h)]

/-- A narrow word is not the least wide one. -/
theorem signExtend_ne_intMin (h : w < v) (a : BitVec w) : a.signExtend v ≠ BitVec.intMin v := by
  intro heq
  have hint := congrArg BitVec.toInt heq
  rw [BitVec.toInt_signExtend_of_le h.le, BitVec.toInt_intMin_of_pos (Nat.zero_lt_of_lt h)] at hint
  have hlow := BitVec.le_two_mul_toInt (x := a)
  have hpow : (2 : Int) ^ w ≤ 2 ^ (v - 1) := pow_le_pow_right₀ (by decide) (Nat.le_sub_one_of_lt h)
  have hpos : (0 : Int) < 2 ^ (v - 1) := by positivity
  rw [hint] at hlow
  linarith

/-! ## Division -/

theorem sdiv_eq_ofInt (a b : BitVec w) : a.sdiv b = BitVec.ofInt w (a.toInt.tdiv b.toInt) := by
  apply BitVec.eq_of_toInt_eq
  rw [BitVec.toInt_sdiv, BitVec.toInt_ofInt]

theorem srem_eq_ofInt (a b : BitVec w) : a.srem b = BitVec.ofInt w (a.toInt.tmod b.toInt) := by
  rw [← BitVec.toInt_srem, BitVec.ofInt_toInt]

theorem setWidth_sdiv (h : w ≤ v) (a b : BitVec w) :
    ((a.signExtend v).sdiv (b.signExtend v)).setWidth w = a.sdiv b := by
  rw [sdiv_eq_ofInt, setWidth_ofInt h, BitVec.toInt_signExtend_of_le h,
    BitVec.toInt_signExtend_of_le h, ← sdiv_eq_ofInt]

theorem setWidth_srem (h : w ≤ v) (a b : BitVec w) :
    ((a.signExtend v).srem (b.signExtend v)).setWidth w = a.srem b := by
  rw [srem_eq_ofInt, setWidth_ofInt h, BitVec.toInt_signExtend_of_le h,
    BitVec.toInt_signExtend_of_le h, ← srem_eq_ofInt]

theorem setWidth_udiv (h : w ≤ v) (a b : BitVec w) :
    (a.setWidth v / b.setWidth v).setWidth w = a / b := by
  apply BitVec.eq_of_toNat_eq
  rw [BitVec.toNat_setWidth, BitVec.toNat_udiv, BitVec.toNat_setWidth_of_le h,
    BitVec.toNat_setWidth_of_le h, BitVec.toNat_udiv]
  exact Nat.mod_eq_of_lt ((Nat.div_le_self _ _).trans_lt a.isLt)

theorem setWidth_umod (h : w ≤ v) (a b : BitVec w) :
    (a.setWidth v % b.setWidth v).setWidth w = a % b := by
  apply BitVec.eq_of_toNat_eq
  rw [BitVec.toNat_setWidth, BitVec.toNat_umod, BitVec.toNat_setWidth_of_le h,
    BitVec.toNat_setWidth_of_le h, BitVec.toNat_umod]
  exact Nat.mod_eq_of_lt ((Nat.mod_le _ _).trans_lt a.isLt)

/-- A remainder by zero is the dividend. -/
theorem ite_srem (a b : BitVec w) : (if b = 0 then a else a.srem b) = a.srem b := by
  by_cases hb : b = 0
  · rw [if_pos hb, hb]
    exact BitVec.srem_zero.symm
  · rw [if_neg hb]

theorem ite_umod (a b : BitVec w) : (if b = 0 then a else a % b) = a % b := by
  by_cases hb : b = 0
  · rw [if_pos hb, hb]
    exact BitVec.umod_zero.symm
  · rw [if_neg hb]

/-! ## What division is meant to be -/

/-- Quotient and remainder of signed words.  A division by zero gives all ones and the
dividend; the one quotient that does not fit is the dividend, without remainder. -/
structure SignedDivision (a b q r : BitVec w) : Prop where
  by_zero : b = 0 → q = BitVec.allOnes w ∧ r = a
  overflow : b ≠ 0 → a = BitVec.intMin w → b = -1 → q = a ∧ r = 0
  exact : b ≠ 0 → ¬ (a = BitVec.intMin w ∧ b = -1) →
    a.toInt = q.toInt * b.toInt + r.toInt ∧ |r.toInt| < |b.toInt| ∧
      (r = 0 ∨ r.toInt.sign = a.toInt.sign)

/-- Quotient and remainder of unsigned words. -/
structure UnsignedDivision (a b q r : BitVec w) : Prop where
  by_zero : b = 0 → q = BitVec.allOnes w ∧ r = a
  exact : b ≠ 0 → a.toNat = q.toNat * b.toNat + r.toNat ∧ r.toNat < b.toNat

/-- A remainder with the sign of the dividend. -/
theorem tmod_bounds {a b : Int} (hb : b ≠ 0) :
    |a.tmod b| < |b| ∧ (a.tmod b = 0 ∨ (a.tmod b).sign = a.sign) := by
  constructor
  · rw [Int.abs_eq_natAbs, Int.abs_eq_natAbs, Int.natAbs_tmod]
    exact_mod_cast Nat.mod_lt _ (Int.natAbs_pos.mpr hb)
  · rw [Int.sign_tmod]
    by_cases hdvd : b ∣ a
    · exact .inl (Int.tmod_eq_zero_of_dvd hdvd)
    · rw [if_neg hdvd]
      exact .inr rfl

theorem signedDivision_sdiv (a b : BitVec w) :
    SignedDivision a b (if b = 0 then BitVec.allOnes w else a.sdiv b) (a.srem b) where
  by_zero hb := by
    rw [if_pos hb, hb]
    exact ⟨rfl, BitVec.srem_zero⟩
  overflow hb ha hone := by
    rw [if_neg hb, ha, hone]
    refine ⟨BitVec.intMin_sdiv_neg_one, BitVec.srem_zero_of_dvd ?_⟩
    rw [show (-1 : BitVec w) = BitVec.allOnes w from BitVec.neg_one_eq_allOnes,
      BitVec.toInt_allOnes]
    by_cases hw : 0 < w
    · rw [if_pos hw]
      exact Int.neg_dvd.mpr (one_dvd _)
    · obtain rfl : w = 0 := by omega
      exact absurd (Subsingleton.elim b 0) hb
  exact hb hfits := by
    have hne : b.toInt ≠ 0 := fun h => hb (BitVec.eq_of_toInt_eq (by simpa using h))
    have hquot := BitVec.toInt_sdiv_of_ne_or_ne a b (not_and_or.mp hfits)
    rw [if_neg hb, hquot, BitVec.toInt_srem, Int.tdiv_mul_add_tmod]
    obtain ⟨hlt, hsign⟩ := tmod_bounds hne (a := a.toInt)
    refine ⟨rfl, hlt, hsign.imp_left fun hzero => ?_⟩
    apply BitVec.eq_of_toInt_eq
    rw [BitVec.toInt_srem, hzero]
    exact BitVec.toInt_zero.symm

theorem unsignedDivision_udiv (a b : BitVec w) :
    UnsignedDivision a b (if b = 0 then BitVec.allOnes w else a / b) (a % b) where
  by_zero hb := by
    rw [if_pos hb, hb]
    exact ⟨rfl, BitVec.umod_zero⟩
  exact hb := by
    have hpos : 0 < b.toNat := Nat.pos_of_ne_zero fun h => hb (BitVec.eq_of_toNat_eq h)
    rw [if_neg hb, BitVec.toNat_udiv, BitVec.toNat_umod]
    exact ⟨(Nat.div_add_mod' _ _).symm, Nat.mod_lt _ hpos⟩

end SpikeSim
