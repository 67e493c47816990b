/-
# Contiguous masks

A mask whose bits follow each other is given by its lowest bit and by how many bits it has.
The lowest bit is the mask without its own left shift, and the number of bits is the population
count.
-/

import Mathlib

namespace SpikeSim

variable {w : Nat} {m : BitVec w} {lo len : Nat}

/-- The bits of the mask are the `len` bits from `lo` on. -/
structure Spans (m : BitVec w) (lo len : Nat) : Prop where
  pos : 0 < len
  le : lo + len ≤ w
  bits : ∀ i < w, m.getLsbD i = decide (lo ≤ i ∧ i < lo + len)

/-- A non-zero mask without gaps. -/
def Contiguous (m : BitVec w) : Prop := ∃ lo len, Spans m lo len

namespace Spans

theorem getLsbD (h : Spans m lo len) (i : Nat) :
    m.getLsbD i = decide (lo ≤ i ∧ i < lo + len) := by
  by_cases hi : i < w
  · exact h.bits i hi
  · have hle := h.le
    rw [BitVec.getLsbD_of_ge _ _ (by omega)]
    simp only [Bool.false_eq, decide_eq_false_iff_not]
    omega

theorem lo_lt (h : Spans m lo len) : lo < w := by
  have hpos := h.pos
  have hle := h.le
  omega

/-- **The lowest bit of a mask.** -/
theorem lowBit (h : Spans m lo len) : m &&& ~~~(m <<< 1) = BitVec.twoPow w lo := by
  have hpos := h.pos
  apply BitVec.eq_of_getLsbD_eq
  intro i hi
  rw [BitVec.getLsbD_and, BitVec.getLsbD_not, BitVec.getLsbD_shiftLeft, BitVec.getLsbD_twoPow,
    h.getLsbD, h.getLsbD]
  rw [Bool.eq_iff_iff]
  simp only [hi, h.lo_lt, decide_true, Bool.true_and, Bool.and_eq_true, Bool.not_eq_true',
    decide_eq_true_eq, Bool.and_eq_false_iff, decide_eq_false_iff_not, Bool.not_eq_false']
  omega

/-- **The number of bits of a mask.** -/
theorem cpop (h : Spans m lo len) : m.cpop.toNat = len := by
  have hcount (n : Nat) : m.cpopNatRec n 0 = min n (lo + len) - min n lo := by
    induction n with
    | zero => simp
    | succ n ih =>
        rw [BitVec.cpopNatRec_succ, BitVec.cpopNatRec_add, ih, h.getLsbD]
        by_cases hin : lo ≤ n ∧ n < lo + len
        · rw [decide_eq_true hin, Bool.toNat_true]
          omega
        · rw [decide_eq_false hin, Bool.toNat_false]
          omega
  have hle := h.le
  rw [BitVec.toNat_cpop, hcount]
  omega

/-- A mask that is shifted up, as long as no bit is lost. -/
theorem shiftLeft (h : Spans m lo len) {k : Nat} (hfits : lo + len + k ≤ w) :
    Spans (m <<< k) (lo + k) len where
  pos := h.pos
  le := by omega
  bits i hi := by
    rw [BitVec.getLsbD_shiftLeft, h.getLsbD, Bool.eq_iff_iff]
    simp only [hi, decide_true, Bool.true_and, Bool.and_eq_true, Bool.not_eq_true',
      decide_eq_true_eq, decide_eq_false_iff_not]
    omega

/-- The same bits in a word of another width. -/
theorem of_getLsbD {v : Nat} {m' : BitVec v} (h : Spans m lo len)
    (hbits : ∀ i, m'.getLsbD i = m.getLsbD i) : Spans m' lo len where
  pos := h.pos
  le := by
    have hpos := h.pos
    have htop : m'.getLsbD (lo + len - 1) = true := by
      rw [hbits, h.getLsbD, decide_eq_true_eq]
      omega
    have hlt := BitVec.lt_of_getLsbD htop
    omega
  bits i _ := by rw [hbits, h.getLsbD]

theorem widen (h : Spans m lo len) {v : Nat} (hle : w ≤ v) : Spans (m.setWidth v) lo len := by
  apply h.of_getLsbD
  intro i
  rw [BitVec.getLsbD_setWidth]
  by_cases hi : i < v
  · rw [decide_eq_true hi, Bool.true_and]
  · rw [decide_eq_false hi, BitVec.getLsbD_of_ge m i (by omega), Bool.false_and]

end Spans

theorem Contiguous.shiftLeft (h : Contiguous m) {k : Nat}
    (hfits : ∀ i < w, m.getLsbD i = true → i + k < w) : Contiguous (m <<< k) := by
  obtain ⟨lo, len, hm⟩ := h
  have hpos := hm.pos
  have hle := hm.le
  have htop := hfits (lo + len - 1) (by omega) (by
    rw [hm.getLsbD, decide_eq_true_eq]
    omega)
  exact ⟨lo + k, len, hm.shiftLeft (by omega)⟩

end SpikeSim
