/-
# The bits of the operands

The accessors of `insn_t` cut fields out of an instruction word and add them up to an
immediate.  The fields of one immediate do not overlap, so that each of its bits is a
bit of the word; these are the laws that say which.
-/

import SpikeSim.Lib.BitMask
import SpikeSim.Riscv.Fields

namespace SpikeSim

/-! ## Fields of a word -/

theorem getLsbD_mask (len i : Nat) (hlen : len < 64) :
    ((1 <<< len : Reg) - 1).getLsbD i = decide (i < len) := by
  have hpow : (1 <<< len : Reg) = BitVec.twoPow 64 len := (BitVec.twoPow_eq 64 len).symm
  have hlt : 2 ^ len < 2 ^ 64 := Nat.pow_lt_pow_right (by omega) hlen
  have hnat : ((1 <<< len : Reg) - 1).toNat = 2 ^ len - 1 := by
    rw [hpow, BitVec.toNat_sub_of_le, BitVec.toNat_twoPow, Nat.mod_eq_of_lt hlt]
    · rfl
    · rw [BitVec.le_def, BitVec.toNat_twoPow, Nat.mod_eq_of_lt hlt]
      exact Nat.two_pow_pos len
  rw [← BitVec.testBit_toNat, hnat, Nat.testBit_two_pow_sub_one]

namespace Insn

variable (insn : Insn)

/-- The bits of an unsigned field. -/
theorem getLsbD_x (lo len i : Nat) (hlen : len < 64) :
    (insn.x lo len).getLsbD i = (decide (i < len) && insn.bits.getLsbD (lo + i)) := by
  rw [x, BitVec.getLsbD_and, BitVec.getLsbD_ushiftRight, getLsbD_mask len i hlen, Bool.and_comm]

/-- The bits of a signed field: from its length on they repeat the last one. -/
theorem getLsbD_xs (lo len i : Nat) (hlen : 0 < len) (hword : lo + len ≤ 64) :
    (insn.xs lo len).getLsbD i =
      (decide (i < 64) && insn.bits.getLsbD (lo + min i (len - 1))) := by
  rw [xs, BitVec.getLsbD_sshiftRight, BitVec.msb_eq_getLsbD_last, BitVec.getLsbD_shiftLeft,
    BitVec.getLsbD_shiftLeft]
  by_cases hi : i < 64
  · by_cases hin : 64 - len + i < 64
    · rw [if_pos hin, Nat.min_eq_left (by omega),
        show 64 - len + i - (64 - lo - len) = lo + i by omega]
      simp [hi, hin, show ¬ 64 - len + i < 64 - lo - len by omega]
    · rw [if_neg hin, Nat.min_eq_right (by omega),
        show 64 - 1 - (64 - lo - len) = lo + (len - 1) by omega]
      simp [hi, show ¬ 64 - 1 < 64 - lo - len by omega]
  · simp [hi, show 64 ≤ i by omega]

theorem toNat_x_lt (lo len : Nat) (hlen : len < 64) : (insn.x lo len).toNat < 2 ^ len := by
  refine Nat.lt_pow_two_of_testBit _ fun i hi => ?_
  rw [BitVec.testBit_toNat, getLsbD_x insn lo len i hlen]
  simp [show ¬ i < len by omega]

end Insn

/-! ## Signed values -/

/-- The bits from `k` on repeat the sign. -/
def SignFrom (k : Nat) (v : Reg) : Prop := ∀ i, k ≤ i → i < 64 → v.getLsbD i = v.getLsbD k

theorem SignFrom.mono {k k' : Nat} {v : Reg} (h : SignFrom k v) (hle : k ≤ k') (hk' : k' < 64) :
    SignFrom k' v := by
  intro i hi hlt
  rw [h i (by omega) hlt, h k' hle hk']

theorem signFrom_of_lt {k : Nat} {v : Reg} (h : v.toNat < 2 ^ k) : SignFrom k v := by
  have hzero (i : Nat) (hi : k ≤ i) : v.getLsbD i = false := by
    rw [← BitVec.testBit_toNat]
    exact Nat.testBit_lt_two_pow (h.trans_le (Nat.pow_le_pow_right (by omega) hi))
  intro i hi _
  rw [hzero i hi, hzero k le_rfl]

/-- A field of one bit is all sign. -/
theorem signFrom_xs (insn : Insn) (lo : Nat) (hlo : lo < 64) : SignFrom 0 (insn.xs lo 1) := by
  intro i _ hi
  rw [insn.getLsbD_xs lo 1 i (by omega) (by omega), insn.getLsbD_xs lo 1 0 (by omega) (by omega)]
  simp [hi]

theorem SignFrom.shiftLeft {k : Nat} {v : Reg} (h : SignFrom k v) (n : Nat) :
    SignFrom (k + n) (v <<< n) := by
  intro i hi hlt
  rw [BitVec.getLsbD_shiftLeft, BitVec.getLsbD_shiftLeft, h (i - n) (by omega) (by omega),
    Nat.add_sub_cancel]
  simp [hlt, show ¬ i < n by omega, show k + n < 64 by omega]

/-! ## Sums of fields -/

/-- Summands that share no bit. -/
theorem getLsbD_add_of_disjoint {a b : Reg} (h : ∀ i, (a.getLsbD i && b.getLsbD i) = false)
    (i : Nat) : (a + b).getLsbD i = (a.getLsbD i || b.getLsbD i) := by
  have hand : a &&& b = 0#64 := by
    refine BitVec.eq_of_getLsbD_eq fun j _ => ?_
    rw [BitVec.getLsbD_and, h j]
    simp
  rw [BitVec.add_eq_or_of_and_eq_zero a b hand, BitVec.getLsbD_or]

/-- A sum of low bits and a sign above them. -/
theorem SignFrom.add_low {n : Nat} {a s : Reg} (ha : a.toNat < 2 ^ n) (hs : SignFrom 0 s) :
    SignFrom n (a + (s <<< n)) := by
  have hlow (i : Nat) (hi : n ≤ i) : a.getLsbD i = false := by
    rw [← BitVec.testBit_toNat]
    exact Nat.testBit_lt_two_pow (ha.trans_le (Nat.pow_le_pow_right (by omega) hi))
  have hsum := getLsbD_add_of_disjoint (a := a) (b := s <<< n) fun i => by
    rw [BitVec.getLsbD_shiftLeft]
    by_cases hi : i < n
    · simp [hi]
    · rw [hlow i (by omega)]
      rfl
  intro i hi hlt
  have hshift := hs.shiftLeft n i (by omega) hlt
  rw [Nat.zero_add] at hshift
  rw [hsum, hsum, hlow i hi, hlow n le_rfl, hshift]

/-! ## Even values -/

/-- The lowest bit is clear. -/
def IsEven (v : Reg) : Prop := v.getLsbD 0 = false

instance (v : Reg) : Decidable (IsEven v) := inferInstanceAs (Decidable (_ = _))

theorem isEven_iff (v : Reg) : IsEven v ↔ v.toNat % 2 = 0 := by
  unfold IsEven
  rw [← BitVec.testBit_toNat, Nat.testBit_zero]
  simp

theorem IsEven.add {a b : Reg} (ha : IsEven a) (hb : IsEven b) : IsEven (a + b) := by
  rw [isEven_iff] at ha hb ⊢
  rw [BitVec.toNat_add]
  omega

theorem isEven_shiftLeft (v : Reg) {n : Nat} (hn : 0 < n) : IsEven (v <<< n) := by
  unfold IsEven
  rw [BitVec.getLsbD_shiftLeft]
  simp [hn]

theorem isEven_and_not_one (v : Reg) : IsEven (v &&& ~~~1) := by
  unfold IsEven
  rw [BitVec.getLsbD_and]
  simp

namespace Insn

variable (insn : Insn)

theorem isEven_x (lo len : Nat) {n : Nat} (hn : 0 < n) : IsEven (insn.x lo len <<< n) :=
  isEven_shiftLeft _ hn

/-- The offsets of the jumps and branches are even. -/
theorem isEven_sbImm : IsEven insn.sbImm := by
  have hsign : IsEven (insn.immSign <<< 12) := isEven_shiftLeft _ (by decide)
  exact (((insn.isEven_x 8 4 (by decide)).add (insn.isEven_x 25 6 (by decide))).add
    (insn.isEven_x 7 1 (by decide))).add hsign

theorem isEven_ujImm : IsEven insn.ujImm := by
  have hsign : IsEven (insn.immSign <<< 20) := isEven_shiftLeft _ (by decide)
  exact (((insn.isEven_x 21 10 (by decide)).add (insn.isEven_x 20 1 (by decide))).add
    (insn.isEven_x 12 8 (by decide))).add hsign

theorem isEven_rvcBImm : IsEven insn.rvcBImm := by
  have hsign : IsEven (insn.xs 12 1 <<< 8) := isEven_shiftLeft _ (by decide)
  exact ((((insn.isEven_x 3 2 (by decide)).add (insn.isEven_x 10 2 (by decide))).add
    (insn.isEven_x 2 1 (by decide))).add (insn.isEven_x 5 2 (by decide))).add hsign

theorem isEven_rvcJImm : IsEven insn.rvcJImm := by
  have hsign : IsEven (insn.xs 12 1 <<< 11) := isEven_shiftLeft _ (by decide)
  exact (((((((insn.isEven_x 3 3 (by decide)).add (insn.isEven_x 11 1 (by decide))).add
    (insn.isEven_x 2 1 (by decide))).add (insn.isEven_x 7 1 (by decide))).add
    (insn.isEven_x 6 1 (by decide))).add (insn.isEven_x 9 2 (by decide))).add
    (insn.isEven_x 8 1 (by decide))).add hsign

end Insn

end SpikeSim
