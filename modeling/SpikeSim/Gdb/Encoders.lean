/-
# The encoders and the decoder agree

The words that the debug server writes are read back by a hart: `refill_icache` assembles one
from two halfwords and sign-extends the last, `decode_insn` finds the instruction, and the
accessors of `insn_t` cut out the operands.  All formats but that of a jump are three fields
over an opcode (`packed`), so that the accessors are checked once for all of them.
-/

import SpikeSim.Decode.Alone
import SpikeSim.Gdb.Server
import SpikeSim.Riscv.Fetch
import SpikeSim.Riscv.Translation

namespace SpikeSim.Gdb

open Riscv

/-! ## Words of fields -/

/-- Three fields over an opcode. -/
def packed (top : BitVec 12) (rs1 rd : BitVec 5) (opcode : Word) : Word :=
  (top.setWidth 32 <<< 20) ||| (rs1.setWidth 32 <<< 15) ||| (rd.setWidth 32 <<< 7) ||| opcode

/-- An opcode with its `funct3`. -/
def OpcodeOnly (opcode : Word) : Prop := opcode &&& ~~~0x707f = 0

instance (opcode : Word) : Decidable (OpcodeOnly opcode) := inferInstanceAs (Decidable (_ = _))

theorem OpcodeOnly.getLsbD {opcode : Word} (h : OpcodeOnly opcode) {i : Nat}
    (hi : 7 ≤ i ∧ i < 12 ∨ 15 ≤ i) : opcode.getLsbD i = false := by
  by_cases hlt : i < 32
  · have hfield : ∀ i < 32, 7 ≤ i ∧ i < 12 ∨ 15 ≤ i → (~~~0x707f : Word).getLsbD i = true := by
      decide
    have hbit := congrArg (fun w => w.getLsbD i) (show opcode &&& ~~~0x707f = 0 from h)
    rw [BitVec.getLsbD_and, hfield i hlt hi] at hbit
    simpa using hbit
  · exact BitVec.getLsbD_of_ge opcode i (by omega)

section Packed

variable {top : BitVec 12} {rs1 rd : BitVec 5} {opcode : Word}

theorem getLsbD_packed (i : Nat) (hi : i < 32) : (packed top rs1 rd opcode).getLsbD i =
    (!decide (i < 20) && top.getLsbD (i - 20) || !decide (i < 15) && rs1.getLsbD (i - 15) ||
      !decide (i < 7) && rd.getLsbD (i - 7) || opcode.getLsbD i) := by
  simp only [packed, BitVec.getLsbD_or, BitVec.getLsbD_shiftLeft, BitVec.getLsbD_setWidth, hi,
    show i - 20 < 32 by omega, show i - 15 < 32 by omega, show i - 7 < 32 by omega, decide_true,
    Bool.true_and]

theorem getLsbD_packed_top (h : OpcodeOnly opcode) {i : Nat} (hi : i < 12) :
    (packed top rs1 rd opcode).getLsbD (20 + i) = top.getLsbD i := by
  rw [getLsbD_packed _ (by omega), h.getLsbD (by omega), BitVec.getLsbD_of_ge rs1 _ (by omega),
    BitVec.getLsbD_of_ge rd _ (by omega)]
  simp

theorem getLsbD_packed_rs1 (h : OpcodeOnly opcode) {i : Nat} (hi : i < 5) :
    (packed top rs1 rd opcode).getLsbD (15 + i) = rs1.getLsbD i := by
  rw [getLsbD_packed _ (by omega), h.getLsbD (by omega), BitVec.getLsbD_of_ge rd _ (by omega)]
  simp [show 15 + i < 20 by omega]

theorem getLsbD_packed_rd (h : OpcodeOnly opcode) {i : Nat} (hi : i < 5) :
    (packed top rs1 rd opcode).getLsbD (7 + i) = rd.getLsbD i := by
  rw [getLsbD_packed _ (by omega), h.getLsbD (by omega)]
  simp [show 7 + i < 20 by omega, show 7 + i < 15 by omega]

theorem getLsbD_packed_opcode {i : Nat} (hi : i < 7 ∨ 12 ≤ i ∧ i < 15) :
    (packed top rs1 rd opcode).getLsbD i = opcode.getLsbD i := by
  rw [getLsbD_packed _ (by omega)]
  rcases hi with hi | hi
  · simp [show i < 20 by omega, show i < 15 by omega, hi]
  · rw [BitVec.getLsbD_of_ge rd _ (by omega)]
    simp [show i < 20 by omega, hi.2]

end Packed

/-! ## The accessors -/

/-- The word as `refill_icache` assembles it. -/
def assembled (w : Word) : Insn := ⟨w.signExtend 64⟩

theorem getLsbD_assembled (w : Word) {i : Nat} (hi : i < 32) :
    (assembled w).bits.getLsbD i = w.getLsbD i := by
  rw [assembled, BitVec.getLsbD_signExtend]
  simp [hi, show i < 64 by omega]

theorem getLsbD_assembled_high (w : Word) {i : Nat} (hi : i < 64) (hhigh : 31 ≤ i) :
    (assembled w).bits.getLsbD i = w.getLsbD 31 := by
  rw [assembled, BitVec.getLsbD_signExtend, BitVec.msb_eq_getLsbD_last]
  by_cases heq : i = 31
  · simp [heq]
  · simp [hi, show ¬i < 32 by omega]

/-- An unsigned field. -/
theorem x_assembled {n : Nat} {w : Word} {v : BitVec n} (lo : Nat) (hword : lo + n ≤ 32)
    (h : ∀ i < n, w.getLsbD (lo + i) = v.getLsbD i) : (assembled w).x lo n = v.setWidth 64 := by
  apply BitVec.eq_of_getLsbD_eq
  intro i hi
  rw [Insn.getLsbD_x _ _ _ _ (by omega), BitVec.getLsbD_setWidth]
  by_cases hin : i < n
  · rw [getLsbD_assembled _ (by omega), h i hin]
    simp [hin, hi]
  · rw [BitVec.getLsbD_of_ge v i (by omega)]
    simp [hin]

theorem regIndex_setWidth (r : BitVec 5) : regIndex (r.setWidth 64) = r.toFin := by
  apply Fin.ext
  simp only [regIndex, Fin.ofNat, BitVec.toNat_setWidth]
  have hlt := r.isLt
  change r.toNat % 2 ^ 64 % 32 = r.toNat
  omega

/-- The value has the bits of `v` from `lo` up to `hi`, and no others. -/
def Spans (v : Nat → Bool) (lo hi : Nat) (a : Reg) : Prop :=
  ∀ i, a.getLsbD i = (decide (lo ≤ i ∧ i < hi) && v i)

/-- Neighbouring fields add up. -/
theorem Spans.add {v : Nat → Bool} {lo mid hi : Nat} {a b : Reg} (ha : Spans v lo mid a)
    (hb : Spans v mid hi b) (hlo : lo ≤ mid) (hhi : mid ≤ hi) : Spans v lo hi (a + b) := by
  intro i
  rw [getLsbD_add_of_disjoint, ha i, hb i]
  · by_cases hin : i < mid
    · simp [hin, show ¬mid ≤ i by omega, show i < hi by omega]
    · simp [hin, show mid ≤ i by omega, show lo ≤ i by omega]
  · intro j
    rw [ha j, hb j]
    by_cases hj : j < mid
    · simp [show ¬mid ≤ j by omega]
    · simp [hj]

/-- A field of an immediate, shifted to its place. -/
theorem spans_x {w : Word} {v : Nat → Bool} (lo len n : Nat) (hword : lo + len ≤ 32)
    (hfit : n + len ≤ 64) (h : ∀ i < len, w.getLsbD (lo + i) = v (n + i)) :
    Spans v n (n + len) ((assembled w).x lo len <<< n) := by
  intro i
  by_cases hlen : len < 64
  · rw [BitVec.getLsbD_shiftLeft, Insn.getLsbD_x _ _ _ _ hlen]
    by_cases hin : n ≤ i ∧ i < n + len
    · rw [getLsbD_assembled _ (by omega), h (i - n) (by omega), Nat.add_sub_cancel' hin.1]
      simp [hin, show i < 64 by omega, show ¬i < n by omega, show i - n < len by omega]
    · by_cases hlow : i < n
      · simp [hin, hlow]
      · simp [hin, show ¬i - n < len by omega]
  · omega

/-- The field with the sign. -/
theorem spans_xs {w : Word} {v : Nat → Bool} (lo len n : Nat) (hlen : 0 < len) (hn : n < 64)
    (hword : lo + len ≤ 64)
    (h : ∀ i, n ≤ i → i < 64 → (assembled w).bits.getLsbD (lo + min (i - n) (len - 1)) = v i) :
    Spans v n 64 ((assembled w).xs lo len <<< n) := by
  intro i
  rw [BitVec.getLsbD_shiftLeft, Insn.getLsbD_xs _ _ _ _ hlen hword]
  by_cases hin : n ≤ i ∧ i < 64
  · rw [h i hin.1 hin.2]
    simp [hin, show ¬i < n by omega, show i - n < 64 by omega]
  · by_cases hlow : i < n
    · simp [hlow, show ¬n ≤ i by omega]
    · simp [show ¬i < 64 by omega]

/-- The bits of a sign-extended immediate. -/
theorem eq_signExtend_of_spans {n : Nat} {imm : BitVec n} (hn : 0 < n) (hle : n ≤ 64) {a : Reg}
    (h : Spans (fun i => imm.getLsbD (min i (n - 1))) 0 64 a) : a = imm.signExtend 64 := by
  apply BitVec.eq_of_getLsbD_eq
  intro i hi
  rw [h i, BitVec.getLsbD_signExtend, BitVec.msb_eq_getLsbD_last]
  by_cases hlow : i < n
  · simp [hi, hlow, show min i (n - 1) = i by omega]
  · simp [hi, hlow, show min i (n - 1) = n - 1 by omega]

section Accessors

variable {top : BitVec 12} {rs1 rd : BitVec 5} {opcode : Word} (h : OpcodeOnly opcode)

include h

theorem rdBits_packed : (assembled (packed top rs1 rd opcode)).rdBits = rd.setWidth 64 :=
  x_assembled 7 (by omega) fun _ hi => getLsbD_packed_rd h hi

theorem rs1Bits_packed : (assembled (packed top rs1 rd opcode)).rs1Bits = rs1.setWidth 64 :=
  x_assembled 15 (by omega) fun _ hi => getLsbD_packed_rs1 h hi

theorem csr_packed : (assembled (packed top rs1 rd opcode)).csr = top.setWidth 64 :=
  x_assembled 20 (by omega) fun _ hi => getLsbD_packed_top h hi

theorem rd_packed : (assembled (packed top rs1 rd opcode)).rd = rd.toFin := by
  rw [Insn.rd, rdBits_packed h, regIndex_setWidth]

theorem rs1_packed : (assembled (packed top rs1 rd opcode)).rs1 = rs1.toFin := by
  rw [Insn.rs1, rs1Bits_packed h, regIndex_setWidth]

theorem rs2_packed {hi : BitVec 7} {rs2 : BitVec 5} :
    (assembled (packed (hi ++ rs2) rs1 rd opcode)).rs2 = rs2.toFin := by
  have hfield : (assembled (packed (hi ++ rs2) rs1 rd opcode)).x 20 5 = rs2.setWidth 64 := by
    apply x_assembled 20 (by omega)
    intro i hi
    rw [getLsbD_packed_top h (show i < 12 by omega), BitVec.getLsbD_append]
    simp [hi]
  rw [Insn.rs2, hfield, regIndex_setWidth]

theorem iImm_packed : (assembled (packed top rs1 rd opcode)).iImm = top.signExtend 64 := by
  have hmsb : (packed top rs1 rd opcode).getLsbD 31 = top.getLsbD 11 :=
    getLsbD_packed_top h (i := 11) (by omega)
  apply eq_signExtend_of_spans (by decide) (by decide)
  intro i
  rw [Insn.iImm, BitVec.getLsbD_sshiftRight, BitVec.msb_eq_getLsbD_last,
    getLsbD_assembled_high _ (show 64 - 1 < 64 by omega) (by omega), hmsb]
  by_cases hlow : i < 12
  · rw [getLsbD_assembled _ (show 20 + i < 32 by omega), getLsbD_packed_top h hlow]
    simp [show i < 64 by omega, show 20 + i < 64 by omega, show min i (12 - 1) = i by omega]
  · by_cases hin : 20 + i < 64
    · rw [getLsbD_assembled_high _ hin (by omega), hmsb]
      simp [hin, show i < 64 by omega, show min i (12 - 1) = 11 by omega]
    · by_cases hi : i < 64
      · simp [hin, hi, show ¬64 ≤ i by omega, show min i (12 - 1) = 11 by omega]
      · simp [hi, show 64 ≤ i by omega]

/-- The offset of a store is in two fields. -/
theorem sImm_packed {imm : BitVec 12} {rs2 : BitVec 5} :
    (assembled (packed (imm.extractLsb' 5 7 ++ rs2) rs1 (imm.extractLsb' 0 5) opcode)).sImm =
      imm.signExtend 64 := by
  apply eq_signExtend_of_spans (by decide) (by decide)
  rw [Insn.sImm, ← BitVec.shiftLeft_zero (Insn.x _ 7 5)]
  apply Spans.add (spans_x 7 5 0 (by decide) (by decide) fun i hi => ?_)
    (spans_xs 25 7 5 (by decide) (by decide) (by decide) fun i hlow hi => ?_) (by decide)
      (by decide)
  · rw [getLsbD_packed_rd h hi, BitVec.getLsbD_extractLsb']
    simp [hi, show min i 11 = i by omega]
  · rw [getLsbD_assembled _ (by omega),
      show 25 + min (i - 5) (7 - 1) = 20 + (5 + min (i - 5) 6) by omega,
      getLsbD_packed_top h (show 5 + min (i - 5) 6 < 12 by omega), BitVec.getLsbD_append,
      BitVec.getLsbD_extractLsb']
    simp only [show ¬5 + min (i - 5) 6 < 5 by omega, if_false, Nat.add_sub_cancel_left,
      show min (i - 5) 6 < 7 by omega, decide_true, Bool.true_and]
    exact congrArg imm.getLsbD (show 5 + min (i - 5) 6 = min i (12 - 1) by omega)

end Accessors

/-! ## The formats -/

/-- The number of a register. -/
def regNumber (r : Fin 32) : Word := BitVec.ofNat 32 r

/-- A signed immediate, passed as `uint16_t`. -/
def imm16 (imm : BitVec 12) : Word := (imm.signExtend 16).setWidth 32

theorem getLsbD_bits (value : Word) {hi lo : Nat} (hlen : hi + 1 - lo < 32) (i : Nat) :
    (bits value hi lo).getLsbD i = (decide (i < hi + 1 - lo) && value.getLsbD (lo + i)) := by
  have hmask : ((1 <<< (hi + 1 - lo) : Word) - 1).getLsbD i = decide (i < hi + 1 - lo) := by
    have hpow : (1 <<< (hi + 1 - lo) : Word) = BitVec.twoPow 32 (hi + 1 - lo) :=
      (BitVec.twoPow_eq 32 _).symm
    have hlt : 2 ^ (hi + 1 - lo) < 2 ^ 32 := Nat.pow_lt_pow_right (by omega) hlen
    have hnat : ((1 <<< (hi + 1 - lo) : Word) - 1).toNat = 2 ^ (hi + 1 - lo) - 1 := by
      rw [hpow, BitVec.toNat_sub_of_le, BitVec.toNat_twoPow, Nat.mod_eq_of_lt hlt]
      · rfl
      · rw [BitVec.le_def, BitVec.toNat_twoPow, Nat.mod_eq_of_lt hlt]
        exact Nat.two_pow_pos _
    rw [← BitVec.testBit_toNat, hnat, Nat.testBit_two_pow_sub_one]
  rw [bits, BitVec.getLsbD_and, BitVec.getLsbD_ushiftRight, hmask, Bool.and_comm]

theorem getLsbD_imm16 (imm : BitVec 12) {i : Nat} (hi : i < 12) :
    (imm16 imm).getLsbD i = imm.getLsbD i := by
  rw [imm16, BitVec.getLsbD_setWidth, BitVec.getLsbD_signExtend]
  simp [hi, show i < 32 by omega, show i < 16 by omega]

theorem regNumber_eq (r : Fin 32) : regNumber r = (BitVec.ofFin r : BitVec 5).setWidth 32 := by
  apply BitVec.eq_of_toNat_eq
  simp [regNumber]

theorem bits_regNumber (r : Fin 32) : bits (regNumber r) 4 0 = regNumber r := by
  apply BitVec.eq_of_getLsbD_eq
  intro i hi
  rw [getLsbD_bits _ (by omega), regNumber_eq, BitVec.getLsbD_setWidth, BitVec.getLsbD_setWidth]
  by_cases hlow : i < 5
  · simp [hlow]
  · rw [BitVec.getLsbD_of_ge _ i (by omega)]
    simp [hlow]

theorem bits_imm16 (imm : BitVec 12) : bits (imm16 imm) 11 0 = imm.setWidth 32 := by
  apply BitVec.eq_of_getLsbD_eq
  intro i hi
  rw [getLsbD_bits _ (by omega), BitVec.getLsbD_setWidth]
  by_cases hlow : i < 12
  · rw [Nat.zero_add, getLsbD_imm16 _ hlow]
    simp [hlow, hi]
  · rw [BitVec.getLsbD_of_ge imm i (by omega)]
    simp [hlow]

theorem immWord_eq (name : InsnName) (dest src : Fin 32) (imm : BitVec 12) :
    immWord name (regNumber dest) (regNumber src) (imm16 imm) =
      packed imm (.ofFin src) (.ofFin dest) (matchWord name) := by
  rw [immWord, bits_imm16, regNumber_eq, regNumber_eq, packed]

theorem loadWord_eq (name : InsnName) (rd base : Fin 32) (offset : BitVec 12) :
    loadWord name (regNumber rd) (regNumber base) (imm16 offset) =
      packed offset (.ofFin base) (.ofFin rd) (matchWord name) := by
  rw [loadWord, bits_imm16, bits_regNumber, regNumber_eq, regNumber_eq, packed]

theorem storeWord_eq (name : InsnName) (src base : Fin 32) (offset : BitVec 12) :
    storeWord name (regNumber src) (regNumber base) (imm16 offset) =
      packed (offset.extractLsb' 5 7 ++ (.ofFin src : BitVec 5)) (.ofFin base)
        (offset.extractLsb' 0 5) (matchWord name) := by
  have hlow : bits (imm16 offset) 4 0 = (offset.extractLsb' 0 5).setWidth 32 := by
    apply BitVec.eq_of_getLsbD_eq
    intro i hi
    rw [getLsbD_bits _ (by omega), BitVec.getLsbD_setWidth, BitVec.getLsbD_extractLsb']
    by_cases hfive : i < 5
    · rw [Nat.zero_add, getLsbD_imm16 _ (show i < 12 by omega)]
      simp [hfive, hi]
    · simp [hfive]
  have htop : (bits (imm16 offset) 11 5 <<< 25) ||| (regNumber src <<< 20) =
      (offset.extractLsb' 5 7 ++ (.ofFin src : BitVec 5)).setWidth 32 <<< 20 := by
    apply BitVec.eq_of_getLsbD_eq
    intro i hi
    rw [BitVec.getLsbD_or, BitVec.getLsbD_shiftLeft, BitVec.getLsbD_shiftLeft,
      BitVec.getLsbD_shiftLeft, getLsbD_bits _ (by omega), regNumber_eq, BitVec.getLsbD_setWidth,
      BitVec.getLsbD_setWidth, BitVec.getLsbD_append, BitVec.getLsbD_extractLsb']
    by_cases htwenty : i < 20
    · simp [htwenty, show i < 25 by omega]
    · by_cases hreg : i < 25
      · simp [htwenty, hreg, hi, show i - 20 < 32 by omega, show i - 20 < 5 by omega]
      · have hsrc : (BitVec.ofFin src : BitVec 5).getLsbD (i - 20) = false :=
          BitVec.getLsbD_of_ge _ _ (by omega)
        rw [getLsbD_imm16 _ (show 5 + (i - 25) < 12 by omega), hsrc]
        simp [htwenty, hreg, hi, show i - 20 < 32 by omega, show ¬i - 20 < 5 by omega,
          show i - 25 < 7 by omega, show i - 20 - 5 = i - 25 by omega]
  rw [storeWord, htop, hlow, regNumber_eq, packed]

theorem csrr_eq (rd : Fin 32) (csr : BitVec 12) :
    csrr (regNumber rd) (csr.setWidth 32) = packed csr 0 (.ofFin rd) (matchWord .csrrs) := by
  rw [csrr, packed, regNumber_eq]
  simp

theorem csrw_eq (source : Fin 32) (csr : BitVec 12) :
    csrw (regNumber source) (csr.setWidth 32) =
      packed csr (.ofFin source) 0 (matchWord .csrrw) := by
  rw [csrw, packed, regNumber_eq]
  simp

/-- Of the immediate of these instructions there are five bits. -/
theorem bits_zimm (imm : BitVec 16) :
    bits (imm.setWidth 32) 4 0 = (imm.setWidth 5).setWidth 32 := by
  apply BitVec.eq_of_getLsbD_eq
  intro i hi
  rw [getLsbD_bits _ (by omega), BitVec.getLsbD_setWidth, BitVec.getLsbD_setWidth,
    BitVec.getLsbD_setWidth]
  by_cases hlow : i < 5
  · simp [hlow, hi]
  · simp [hlow]

theorem csrsi_eq (csr : BitVec 12) (imm : BitVec 16) :
    csrsi (csr.setWidth 32) (imm.setWidth 32) =
      packed csr (imm.setWidth 5) 0 (matchWord .csrrsi) := by
  rw [csrsi, packed, bits_zimm]
  simp

theorem csrci_eq (csr : BitVec 12) (imm : BitVec 16) :
    csrci (csr.setWidth 32) (imm.setWidth 32) =
      packed csr (imm.setWidth 5) 0 (matchWord .csrrci) := by
  rw [csrci, packed, bits_zimm]
  simp

/-! ## Jumps -/

theorem getLsbD_bit (value : Word) (b i : Nat) :
    (bit value b).getLsbD i = (decide (i = 0) && value.getLsbD b) := by
  rw [bit, BitVec.getLsbD_and, BitVec.getLsbD_ushiftRight, Bool.and_comm]
  by_cases hi : i = 0
  · simp [hi]
  · simp [hi]

section Jumps

variable {rd : Fin 32} {offset : BitVec 21}

/-- The bits of a jump above its opcode. -/
theorem getLsbD_jal {i : Nat} (hi : i < 32) (hseven : 7 ≤ i) :
    (jal (regNumber rd) (offset.signExtend 32)).getLsbD i =
      if i < 12 then (BitVec.ofFin rd : BitVec 5).getLsbD (i - 7)
      else if i < 20 then offset.getLsbD i
      else if i = 20 then offset.getLsbD 11
      else if i < 31 then offset.getLsbD (i - 20)
      else offset.getLsbD 20 := by
  have hopcode : ∀ i < 32, 7 ≤ i → (matchWord .jal).getLsbD i = false := by decide
  have hrd (h : 12 ≤ i) : (BitVec.ofFin rd : BitVec 5).getLsbD (i - 7) = false :=
    BitVec.getLsbD_of_ge _ _ (by omega)
  have himm (j : Nat) (hj : j < 21) : (offset.signExtend 32).getLsbD j = offset.getLsbD j := by
    rw [BitVec.getLsbD_signExtend]
    simp [hj, show j < 32 by omega]
  simp only [jal, BitVec.getLsbD_or, BitVec.getLsbD_shiftLeft, getLsbD_bit,
    getLsbD_bits _ (show 10 + 1 - 1 < 32 by decide),
    getLsbD_bits _ (show 19 + 1 - 12 < 32 by decide),
    hopcode i hi hseven, regNumber_eq, BitVec.getLsbD_setWidth, hi]
  rcases (show i < 12 ∨ 12 ≤ i ∧ i < 20 ∨ i = 20 ∨ 21 ≤ i ∧ i < 31 ∨ i = 31 by omega) with
    hrange | hrange | rfl | hrange | rfl
  · simp [hrange, show i < 31 by omega, show i < 21 by omega, show i < 20 by omega,
      show ¬i < 7 by omega, show i - 7 < 32 by omega]
  · simp [hrd hrange.1, hrange.2, show i < 31 by omega, show i < 21 by omega,
      show ¬i < 12 by omega, show i - 12 < 8 by omega, show 12 + (i - 12) = i by omega,
      himm i (by omega)]
  · rw [hrd (by omega), himm 11 (by omega)]
    simp
  · simp [hrd (by omega), hrange.2, show ¬i < 21 by omega, show ¬i < 20 by omega,
      show ¬i < 12 by omega, show ¬i = 20 by omega, show ¬i - 20 = 0 by omega,
      show i - 21 < 10 by omega, show 1 + (i - 21) = i - 20 by omega,
      show ¬i - 12 < 8 by omega, himm (i - 20) (by omega)]
  · rw [hrd (by omega), himm 20 (by omega)]
    simp

theorem rd_jal : (assembled (jal (regNumber rd) (offset.signExtend 32))).rd = rd := by
  have hfield : (assembled (jal (regNumber rd) (offset.signExtend 32))).rdBits =
      (BitVec.ofFin rd : BitVec 5).setWidth 64 := by
    apply x_assembled 7 (by omega)
    intro i hi
    rw [getLsbD_jal (by omega) (by omega), if_pos (by omega), Nat.add_sub_cancel_left]
  rw [Insn.rd, hfield, regIndex_setWidth]

theorem ujImm_jal (heven : offset.getLsbD 0 = false) :
    (assembled (jal (regNumber rd) (offset.signExtend 32))).ujImm = offset.signExtend 64 := by
  let v : Nat → Bool := fun i => offset.getLsbD (min i (21 - 1))
  have hten : Spans v 1 11
      ((assembled (jal (regNumber rd) (offset.signExtend 32))).x 21 10 <<< 1) := by
    apply spans_x 21 10 1 (by decide) (by decide)
    intro i hi
    rw [getLsbD_jal (by omega) (by omega), if_neg (by omega), if_neg (by omega), if_neg (by omega),
      if_pos (by omega), show 21 + i - 20 = min (1 + i) (21 - 1) by omega]
  have hone : Spans v 11 12
      ((assembled (jal (regNumber rd) (offset.signExtend 32))).x 20 1 <<< 11) := by
    apply spans_x 20 1 11 (by decide) (by decide)
    intro i hi
    obtain rfl : i = 0 := by omega
    rw [getLsbD_jal (by omega) (by omega), if_neg (by omega), if_neg (by omega), if_pos rfl]
    rfl
  have height : Spans v 12 20
      ((assembled (jal (regNumber rd) (offset.signExtend 32))).x 12 8 <<< 12) := by
    apply spans_x 12 8 12 (by decide) (by decide)
    intro i hi
    rw [getLsbD_jal (by omega) (by omega), if_neg (by omega), if_pos (by omega)]
    exact congrArg offset.getLsbD (show 12 + i = min (12 + i) (21 - 1) by omega)
  have hsign : Spans v 20 64
      ((assembled (jal (regNumber rd) (offset.signExtend 32))).immSign <<< 20) := by
    apply spans_xs 63 1 20 (by decide) (by decide) (by decide)
    intro i hlow hi
    rw [Nat.sub_self, Nat.min_zero, getLsbD_assembled_high _ (by omega) (by omega),
      getLsbD_jal (by omega) (by omega), if_neg (by omega), if_neg (by omega), if_neg (by omega),
      if_neg (by omega)]
    exact congrArg offset.getLsbD (show 20 = min i (21 - 1) by omega)
  have hsum := ((hten.add hone (by decide) (by decide)).add height (by decide) (by decide)).add
    hsign (by decide) (by decide)
  apply eq_signExtend_of_spans (by decide) (by decide)
  intro i
  refine (hsum i).trans ?_
  by_cases hi : i = 0
  · subst hi
    exact heven.symm
  · simp [v, show 1 ≤ i by omega]

end Jumps

/-! ## Decoding -/

/-- The instructions of which the three fields are the operands. -/
def Format (name : InsnName) : Prop :=
  name.encoding.2 = 0x707f ∧ OpcodeOnly (matchWord name) ∧
    name.encoding.1 = (matchWord name).setWidth 64 ∧ name.encoding.1 ≠ 0 ∧
      insnLength name.encoding.1 = 4 ∧ Decode.Alone name

instance (name : InsnName) : Decidable (Format name) := inferInstanceAs (Decidable (_ ∧ _))

/-- What a word has to be to be decoded to an instruction. -/
structure Encodes (w : Word) (name : InsnName) : Prop where
  isMatch : Matches name (assembled w).bits
  alone : Decode.Alone name
  long : insnLength name.encoding.1 = 4
  nonzero : name.encoding.1 ≠ 0

theorem matches_of_bits {w : Word} {name : InsnName} {mask : Word}
    (hmask : name.encoding.2 = mask.setWidth 64)
    (hmatch : name.encoding.1 = (matchWord name).setWidth 64)
    (h : ∀ i < 32, (w.getLsbD i && mask.getLsbD i) = (matchWord name).getLsbD i) :
    Matches name (assembled w).bits := by
  apply BitVec.eq_of_getLsbD_eq
  intro i hi
  rw [hmask, hmatch, BitVec.getLsbD_and, BitVec.getLsbD_setWidth, BitVec.getLsbD_setWidth]
  by_cases hlow : i < 32
  · rw [getLsbD_assembled _ hlow, ← h i hlow]
    simp [hi]
  · rw [BitVec.getLsbD_of_ge mask i (by omega), BitVec.getLsbD_of_ge (matchWord name) i (by omega)]
    simp

theorem encodes_packed {name : InsnName} (h : Format name) (top : BitVec 12) (rs1 rd : BitVec 5) :
    Encodes (packed top rs1 rd (matchWord name)) name where
  isMatch := by
    obtain ⟨hmask, hopcode, hmatch, -⟩ := h
    apply matches_of_bits (show _ = (0x707f : Word).setWidth 64 from hmask) hmatch
    intro i hi
    have hfield : ∀ i < 32, (0x707f : Word).getLsbD i = decide (i < 7 ∨ 12 ≤ i ∧ i < 15) := by
      decide
    rw [hfield i hi]
    by_cases hin : i < 7 ∨ 12 ≤ i ∧ i < 15
    · rw [getLsbD_packed_opcode hin, decide_eq_true hin, Bool.and_true]
    · rw [hopcode.getLsbD (by omega), decide_eq_false hin, Bool.and_false]
  alone := h.2.2.2.2.2
  long := h.2.2.2.2.1
  nonzero := h.2.2.2.1

theorem encodes_jal (rd : Fin 32) (offset : BitVec 21) :
    Encodes (jal (regNumber rd) (offset.signExtend 32)) .jal where
  isMatch := by
    apply matches_of_bits (show _ = (0x7f : Word).setWidth 64 from rfl) rfl
    intro i hi
    have hfield : ∀ i < 32, (0x7f : Word).getLsbD i = decide (i < 7) := by decide
    rw [hfield i hi]
    by_cases hin : i < 7
    · have hshift (v : Word) (n : Nat) (hn : i < n) : (v <<< n).getLsbD i = false := by
        rw [BitVec.getLsbD_shiftLeft]
        simp [hn]
      simp only [jal, BitVec.getLsbD_or, hshift _ 31 (by omega), hshift _ 21 (by omega),
        hshift _ 20 (by omega), hshift _ 12 (by omega), hshift _ 7 (by omega), Bool.false_or]
      rw [decide_eq_true hin, Bool.and_true]
    · have hopcode : ∀ i < 32, 7 ≤ i → (matchWord .jal).getLsbD i = false := by decide
      rw [hopcode i hi (by omega), decide_eq_false hin, Bool.and_false]
  alone := by decide +kernel
  long := by decide
  nonzero := by decide

/-! ## Fetching -/

section Fetch

variable {β : Type} {P : Platform β}

/-- The two reads of `refill_icache` find the halves of a word that was written to memory with
its lowest byte first. -/
def ReadsWord (P : Platform β) (m : Machine β) (addr : Reg) (w : Word) : Prop :=
  ∃ memory ptr first second m₁ m₂,
    translateInsnAddr P addr m = .ok first m₁ ∧
      first.value = readLE (writeLE memory ptr 4 (w.setWidth 64)) ptr 2 ∧
    translateInsnAddr P (addr + 2) m₁ = .ok second m₂ ∧
      second.value = readLE (writeLE memory ptr 4 (w.setWidth 64)) (ptr + 2) 2

theorem readLE_half (memory : Reg → BitVec 8) (ptr v : Reg) {n : Nat} (hn : n ≤ 2) :
    readLE (writeLE memory ptr 4 v) (ptr + BitVec.ofNat 64 n) 2 = zext16 (v >>> (8 * n)) := by
  have hbyte (j : Nat) (hj : j < 2) :
      writeLE memory ptr 4 v (ptr + BitVec.ofNat 64 n + BitVec.ofNat 64 j) =
        (v >>> (8 * (n + j))).setWidth 8 := by
    have hoffset : (ptr + BitVec.ofNat 64 n + BitVec.ofNat 64 j - ptr).toNat = n + j := by
      rw [BitVec.add_assoc, BitVec.add_comm, BitVec.add_sub_cancel, ← BitVec.ofNat_add,
        BitVec.toNat_ofNat, Nat.mod_eq_of_lt (by omega)]
    rw [writeLE_apply _ _ _ _ (by omega), hoffset, if_pos (by omega)]
  have hfirst := hbyte 0 (by omega)
  have hsecond : writeLE memory ptr 4 v (ptr + BitVec.ofNat 64 n + 1) =
      (v >>> (8 * (n + 1))).setWidth 8 := hbyte 1 (by omega)
  rw [BitVec.add_zero] at hfirst
  apply BitVec.eq_of_getLsbD_eq
  intro i hi
  rw [getLsbD_zext16, readLE, readLE, readLE, hfirst, hsecond]
  simp only [BitVec.getLsbD_or, BitVec.getLsbD_shiftLeft, BitVec.getLsbD_setWidth,
    BitVec.getLsbD_ushiftRight]
  by_cases h8 : i < 8
  · simp [h8, hi, show i < 16 by omega]
  · by_cases h16 : i < 16
    · simp [h8, h16, hi, show i - 8 < 8 by omega, show i - 8 < 64 by omega,
        show 8 * (n + 1) + (i - 8) = 8 * n + i by omega]
    · simp [h8, h16, show ¬i - 8 < 8 by omega]

/-- A word of two halves, of which the second is sign-extended. -/
theorem halves_eq (w : Word) :
    zext16 (w.setWidth 64) ||| (sext16 (zext16 (w.setWidth 64 >>> 16)) <<< 16) =
      (assembled w).bits := by
  apply BitVec.eq_of_getLsbD_eq
  intro i hi
  rw [BitVec.getLsbD_or, BitVec.getLsbD_shiftLeft, getLsbD_zext16, getLsbD_sext16, getLsbD_zext16,
    BitVec.getLsbD_setWidth, BitVec.getLsbD_ushiftRight, BitVec.getLsbD_setWidth]
  by_cases h16 : i < 16
  · rw [getLsbD_assembled _ (by omega)]
    simp [h16, hi]
  · by_cases h32 : i < 32
    · rw [getLsbD_assembled _ h32]
      simp [h16, hi, show i - 16 < 64 by omega, show min (i - 16) 15 = i - 16 by omega,
        show i - 16 < 16 by omega, show 16 + (i - 16) = i by omega]
    · rw [getLsbD_assembled_high _ hi (by omega)]
      simp [h16, hi, show i - 16 < 64 by omega, show min (i - 16) 15 = 15 by omega]

/-- A word of which the halves are read is decoded to its instruction. -/
theorem Encodes.refillEntry_eq {w : Word} {name : InsnName} (h : Encodes w name) {rocc : Bool}
    {m m₁ m₂ : Machine β} {addr : Reg} {first second : Halfword}
    (hvalid : Decode.Valid (Decode.freshDecoder rocc).instructions m.decoder)
    (hfirst : translateInsnAddr P addr m = .ok first m₁)
    (hlow : first.value = zext16 (w.setWidth 64))
    (hsecond : translateInsnAddr P (addr + 2) m₁ = .ok second m₂)
    (hhigh : second.value = zext16 (w.setWidth 64 >>> 16)) :
    ∃ tag d trace, Decode.Valid (Decode.freshDecoder rocc).instructions d ∧
      refillEntry P addr m = .ok ⟨tag, insnFunc m.hart.xlen name, assembled w⟩
        { m₂ with decoder := d, trace := trace } := by
  have hlength : insnLength first.value = 4 := by
    rw [← h.long, ← h.isMatch.insnLength_eq, ← halves_eq, ← hlow, insnLength_high _ _ (by omega)]
  have hfetch : fetchBits P addr m = .ok (assembled w, 4, first.ptr) m₂ := by
    simp only [fetchBits, run_bind, hfirst, hlength, if_pos, hsecond]
    rw [hlow, hhigh, halves_eq]
    rfl
  have hframe : CodeFrame m m₂ := ((fetchKeeps_codeFrame P).fetchBits addr).ok hfetch
  have hne : (assembled w).bits ≠ 0 := by
    intro hzero
    have hmatch : (assembled w).bits &&& name.encoding.2 = name.encoding.1 := h.isMatch
    rw [hzero] at hmatch
    exact h.nonzero (hmatch.symm.trans BitVec.zero_and)
  obtain ⟨d, hdecode, hvalid'⟩ := Decode.decodeInsn_of_alone (hframe.decoder ▸ hvalid) h.alone hne
    h.isMatch m₂.hart.xlen
  have hfunc : (Decode.insnDesc name).handler m₂.hart.xlen = insnFunc m.hart.xlen name := by
    rw [hframe.hart]
    cases m.hart.xlen <;> rfl
  rw [hfunc] at hdecode
  have hdecoded : decodeInsn (assembled w) m₂ =
      .ok (insnFunc m.hart.xlen name) { m₂ with decoder := d } := by
    simp only [decodeInsn, run_bind, run_get, hdecode]
    rfl
  by_cases htraced : P.interested .fetch = true
  · refine ⟨-1, d, m₂.trace ++ [⟨P.memToAddr first.ptr, 4, .fetch⟩], hvalid', ?_⟩
    simp only [refillEntry, run_bind, hfetch, hdecoded, htraced, if_pos]
    rfl
  · refine ⟨addr, d, m₂.trace, hvalid', ?_⟩
    simp only [refillEntry, run_bind, hfetch, hdecoded, htraced]
    rfl

/-- The instruction that is fetched for a word. -/
def Decodes (P : Platform β) (w : Word) (name : InsnName) (operands : Insn → Prop) : Prop :=
  ∀ rocc m addr, Decode.Valid (Decode.freshDecoder rocc).instructions m.decoder →
    ReadsWord P m addr w →
      ∃ tag insn m', refillEntry P addr m = .ok ⟨tag, insnFunc m.hart.xlen name, insn⟩ m' ∧
        operands insn

theorem Encodes.decodes {w : Word} {name : InsnName} (h : Encodes w name) {operands : Insn → Prop}
    (hoperands : operands (assembled w)) : Decodes P w name operands := by
  intro rocc m addr hvalid hreads
  obtain ⟨memory, ptr, first, second, m₁, m₂, hfirst, hlow, hsecond, hhigh⟩ := hreads
  have hlow' := readLE_half memory ptr (w.setWidth 64) (n := 0) (by omega)
  have hhigh' := readLE_half memory ptr (w.setWidth 64) (n := 2) (by omega)
  rw [BitVec.add_zero, Nat.mul_zero, BitVec.ushiftRight_zero] at hlow'
  obtain ⟨tag, d, trace, -, hentry⟩ := h.refillEntry_eq hvalid hfirst (hlow.trans hlow') hsecond
    (hhigh.trans hhigh')
  exact ⟨tag, assembled w, _, hentry, hoperands⟩

/-! ## All encoders -/

/-- The encoders of loads, stores and operations with an immediate. -/
def loadEncoders : List (InsnName × (Word → Word → Word → Word)) :=
  [(.lb, lb), (.lh, lh), (.lw, lw), (.ld, ld), (.flw, flw), (.fld, fld)]

def storeEncoders : List (InsnName × (Word → Word → Word → Word)) :=
  [(.sb, sb), (.sh, sh), (.sw, sw), (.sd, sd), (.fsw, fsw), (.fsd, fsd)]

def immEncoders : List (InsnName × (Word → Word → Word → Word)) :=
  [(.addi, addi), (.ori, ori), (.xori, xori)]

theorem decodes_packed {name : InsnName} (h : Format name) {top : BitVec 12} {rs1 rd : BitVec 5}
    {operands : Insn → Prop}
    (hoperands : operands (assembled (packed top rs1 rd (matchWord name)))) :
    Decodes P (packed top rs1 rd (matchWord name)) name operands :=
  (encodes_packed h top rs1 rd).decodes hoperands

theorem decodes_load {name : InsnName} {encode : Word → Word → Word → Word}
    (hmem : (name, encode) ∈ loadEncoders) (rd base : Fin 32) (offset : BitVec 12) :
    Decodes P (encode (regNumber rd) (regNumber base) (imm16 offset)) name fun insn =>
      insn.rd = rd ∧ insn.rs1 = base ∧ insn.iImm = offset.signExtend 64 := by
  have hformat : ∀ entry ∈ loadEncoders, Format entry.1 := by decide +kernel
  have hword : encode (regNumber rd) (regNumber base) (imm16 offset) =
      packed offset (.ofFin base) (.ofFin rd) (matchWord name) := by
    simp only [loadEncoders, List.mem_cons, List.not_mem_nil, or_false, Prod.mk.injEq] at hmem
    rcases hmem with ⟨rfl, rfl⟩ | ⟨rfl, rfl⟩ | ⟨rfl, rfl⟩ | ⟨rfl, rfl⟩ | ⟨rfl, rfl⟩ | ⟨rfl, rfl⟩
    all_goals exact loadWord_eq _ rd base offset
  have h := hformat _ hmem
  rw [hword]
  exact decodes_packed h ⟨rd_packed h.2.1, rs1_packed h.2.1, iImm_packed h.2.1⟩

theorem decodes_store {name : InsnName} {encode : Word → Word → Word → Word}
    (hmem : (name, encode) ∈ storeEncoders) (src base : Fin 32) (offset : BitVec 12) :
    Decodes P (encode (regNumber src) (regNumber base) (imm16 offset)) name fun insn =>
      insn.rs2 = src ∧ insn.rs1 = base ∧ insn.sImm = offset.signExtend 64 := by
  have hformat : ∀ entry ∈ storeEncoders, Format entry.1 := by decide +kernel
  -- The wider stores cut their register number to five bits first.
  have hnarrow (name : InsnName) :
      storeWord name (bits (regNumber src) 4 0) (regNumber base) (imm16 offset) =
        packed (offset.extractLsb' 5 7 ++ (.ofFin src : BitVec 5)) (.ofFin base)
          (offset.extractLsb' 0 5) (matchWord name) := by
    rw [bits_regNumber, storeWord_eq]
  have hword : encode (regNumber src) (regNumber base) (imm16 offset) =
      packed (offset.extractLsb' 5 7 ++ (.ofFin src : BitVec 5)) (.ofFin base)
        (offset.extractLsb' 0 5) (matchWord name) := by
    simp only [storeEncoders, List.mem_cons, List.not_mem_nil, or_false, Prod.mk.injEq] at hmem
    rcases hmem with ⟨rfl, rfl⟩ | ⟨rfl, rfl⟩ | ⟨rfl, rfl⟩ | ⟨rfl, rfl⟩ | ⟨rfl, rfl⟩ | ⟨rfl, rfl⟩
    · exact storeWord_eq _ src base offset
    · exact storeWord_eq _ src base offset
    · exact storeWord_eq _ src base offset
    all_goals exact hnarrow _
  have h := hformat _ hmem
  rw [hword]
  exact decodes_packed h ⟨rs2_packed h.2.1, rs1_packed h.2.1, sImm_packed h.2.1⟩

theorem decodes_imm {name : InsnName} {encode : Word → Word → Word → Word}
    (hmem : (name, encode) ∈ immEncoders) (dest src : Fin 32) (imm : BitVec 12) :
    Decodes P (encode (regNumber dest) (regNumber src) (imm16 imm)) name fun insn =>
      insn.rd = dest ∧ insn.rs1 = src ∧ insn.iImm = imm.signExtend 64 := by
  have hformat : ∀ entry ∈ immEncoders, Format entry.1 := by decide +kernel
  have hword : encode (regNumber dest) (regNumber src) (imm16 imm) =
      packed imm (.ofFin src) (.ofFin dest) (matchWord name) := by
    simp only [immEncoders, List.mem_cons, List.not_mem_nil, or_false, Prod.mk.injEq] at hmem
    rcases hmem with ⟨rfl, rfl⟩ | ⟨rfl, rfl⟩ | ⟨rfl, rfl⟩
    all_goals exact immWord_eq _ dest src imm
  have h := hformat _ hmem
  rw [hword]
  exact decodes_packed h ⟨rd_packed h.2.1, rs1_packed h.2.1, iImm_packed h.2.1⟩

/-- The jump at a word of the debug RAM leads to the entry of the debug ROM that resumes. -/
theorem decodes_jump {index : Nat} (hindex : index < 16) :
    Decodes P (jal 0 (debugRomResume - ramAddr index)) .jal fun insn =>
      insn.rd = 0 ∧ (ramAddr index).setWidth 64 + insn.ujImm = debugRomResume.setWidth 64 := by
  have hwords : ∀ index < 16,
      debugRomResume - ramAddr index =
          ((debugRomResume - ramAddr index).setWidth 21).signExtend 32 ∧
        ((debugRomResume - ramAddr index).setWidth 21).getLsbD 0 = false ∧
        (ramAddr index).setWidth 64 +
            ((debugRomResume - ramAddr index).setWidth 21).signExtend 64 =
          debugRomResume.setWidth 64 := by
    decide
  obtain ⟨hoffset, heven, htarget⟩ := hwords index hindex
  rw [hoffset, show (0 : Word) = regNumber 0 from rfl]
  apply (encodes_jal 0 _).decodes
  refine ⟨rd_jal, ?_⟩
  rw [ujImm_jal heven]
  exact htarget

/-- **The encoders and the decoder agree.**  Whatever a word was encoded from is what the
accessors return after it was fetched; of the immediate of `csrsi` and `csrci` these are the
five bits that the instruction has. -/
theorem encoders_agree (P : Platform β) :
    (∀ (rd : Fin 32) (offset : BitVec 21), offset.getLsbD 0 = false →
      Decodes P (jal (regNumber rd) (offset.signExtend 32)) .jal fun insn =>
        insn.rd = rd ∧ insn.ujImm = offset.signExtend 64) ∧
    (∀ (rd : Fin 32) (csr : BitVec 12),
      Decodes P (csrr (regNumber rd) (csr.setWidth 32)) .csrrs fun insn =>
        insn.rd = rd ∧ insn.rs1 = 0 ∧ insn.csr = csr.setWidth 64) ∧
    (∀ (source : Fin 32) (csr : BitVec 12),
      Decodes P (csrw (regNumber source) (csr.setWidth 32)) .csrrw fun insn =>
        insn.rd = 0 ∧ insn.rs1 = source ∧ insn.csr = csr.setWidth 64) ∧
    (∀ (csr : BitVec 12) (imm : BitVec 16),
      Decodes P (csrsi (csr.setWidth 32) (imm.setWidth 32)) .csrrsi (fun insn =>
        insn.rd = 0 ∧ insn.rs1Bits = (imm.setWidth 5).setWidth 64 ∧ insn.csr = csr.setWidth 64) ∧
      Decodes P (csrci (csr.setWidth 32) (imm.setWidth 32)) .csrrci fun insn =>
        insn.rd = 0 ∧ insn.rs1Bits = (imm.setWidth 5).setWidth 64 ∧ insn.csr = csr.setWidth 64) ∧
    (∀ entry ∈ loadEncoders, ∀ (rd base : Fin 32) (offset : BitVec 12),
      Decodes P (entry.2 (regNumber rd) (regNumber base) (imm16 offset)) entry.1 fun insn =>
        insn.rd = rd ∧ insn.rs1 = base ∧ insn.iImm = offset.signExtend 64) ∧
    (∀ entry ∈ storeEncoders, ∀ (src base : Fin 32) (offset : BitVec 12),
      Decodes P (entry.2 (regNumber src) (regNumber base) (imm16 offset)) entry.1 fun insn =>
        insn.rs2 = src ∧ insn.rs1 = base ∧ insn.sImm = offset.signExtend 64) ∧
    (∀ entry ∈ immEncoders, ∀ (dest src : Fin 32) (imm : BitVec 12),
      Decodes P (entry.2 (regNumber dest) (regNumber src) (imm16 imm)) entry.1 fun insn =>
        insn.rd = dest ∧ insn.rs1 = src ∧ insn.iImm = imm.signExtend 64) ∧
    ∀ index < 16, Decodes P (jal 0 (debugRomResume - ramAddr index)) .jal fun insn =>
      insn.rd = 0 ∧ (ramAddr index).setWidth 64 + insn.ujImm = debugRomResume.setWidth 64 := by
  have hformat : Format .csrrs ∧ Format .csrrw ∧ Format .csrrsi ∧ Format .csrrci := by
    decide +kernel
  obtain ⟨hcsrrs, hcsrrw, hcsrrsi, hcsrrci⟩ := hformat
  refine ⟨fun rd offset heven => ?_, fun rd csr => ?_, fun source csr => ?_,
    fun csr imm => ⟨?_, ?_⟩, fun entry hmem => decodes_load hmem,
    fun entry hmem => decodes_store hmem, fun entry hmem => decodes_imm hmem,
    fun index hindex => decodes_jump hindex⟩
  · exact (encodes_jal rd offset).decodes ⟨rd_jal, ujImm_jal heven⟩
  · rw [csrr_eq]
    exact decodes_packed hcsrrs ⟨rd_packed hcsrrs.2.1, rs1_packed hcsrrs.2.1, csr_packed hcsrrs.2.1⟩
  · rw [csrw_eq]
    exact decodes_packed hcsrrw ⟨rd_packed hcsrrw.2.1, rs1_packed hcsrrw.2.1, csr_packed hcsrrw.2.1⟩
  · rw [csrsi_eq]
    exact decodes_packed hcsrrsi
      ⟨rd_packed hcsrrsi.2.1, rs1Bits_packed hcsrrsi.2.1, csr_packed hcsrrsi.2.1⟩
  · rw [csrci_eq]
    exact decodes_packed hcsrrci
      ⟨rd_packed hcsrrci.2.1, rs1Bits_packed hcsrrci.2.1, csr_packed hcsrrci.2.1⟩

end Fetch

/-- A hart after reset, whose decoder is new. -/
def bootMachine : Machine Bool :=
  .reset .rv64 0x8000000000141129 false (Decode.freshDecoder false) (fun _ => 0) false

/-- `not s1, zero` is read from a boot ROM. -/
theorem encoders_agree_not : ∃ tag insn m',
    refillEntry (.rom [0xfff04493]) 0x1000 bootMachine = .ok ⟨tag, .rv64 .xori, insn⟩ m' ∧
      insn.rd = 9 ∧ insn.rs1 = 0 ∧ insn.iImm = -1 := by
  have hreads : ReadsWord (.rom [0xfff04493]) bootMachine 0x1000
      (xori (regNumber 9) (regNumber 0) (imm16 (-1))) :=
    ⟨fun _ => 0, 0, ⟨0x4493, 0⟩, ⟨0xfff0, 0⟩, bootMachine, bootMachine, rfl, by decide +kernel, rfl,
      by decide +kernel⟩
  exact (encoders_agree _).2.2.2.2.2.2.1 (.xori, xori) (by simp [immEncoders]) 9 0 (-1) false
    bootMachine 0x1000 (Decode.valid_freshDecoder false) hreads

/-- `csrsi` loses the bits of its immediate from the sixth on. -/
theorem csrsi_drops_bits : ¬∀ (csr imm : BitVec 12),
    Decodes (.rom [0x7b006073]) (csrsi (csr.setWidth 32) (imm16 imm)) .csrrsi fun insn =>
      insn.csr = csr.setWidth 64 ∧ insn.rs1Bits = imm.signExtend 64 := by
  intro h
  have hreads : ReadsWord (.rom [0x7b006073]) bootMachine 0x1000
      (csrsi ((0x7b0 : BitVec 12).setWidth 32) (imm16 32)) :=
    ⟨fun _ => 0, 0, ⟨0x6073, 0⟩, ⟨0x7b00, 0⟩, bootMachine, bootMachine, rfl, by decide +kernel, rfl,
      by decide +kernel⟩
  obtain ⟨tag, insn, m', hentry, -, hzimm⟩ := h 0x7b0 32 false bootMachine 0x1000
    (Decode.valid_freshDecoder false) hreads
  have hread : (match refillEntry (.rom [0x7b006073]) 0x1000 bootMachine with
    | .ok entry _ => entry.insn.rs1Bits
    | .error _ _ => 0) = 0 := by decide +kernel
  rw [hentry] at hread
  exact absurd (hzimm.symm.trans hread) (by decide)

end SpikeSim.Gdb
