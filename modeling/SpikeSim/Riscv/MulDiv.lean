/-
# Multiplication and division

The handlers of the M extension compute with 64-bit host arithmetic at both widths.
Division is stated on words of the operand width, with the results that the
architecture gives to a zero divisor and to the overflow of the signed quotient; a
second reading of the handlers, in which the host division is undefined where it is
in C++, shows that they never come to such a division.  High multiplication is stated
on the exact product.
-/

import SpikeSim.Lib.NarrowArith
import SpikeSim.Riscv.Families
import SpikeSim.Riscv.Word

namespace SpikeSim.Riscv

open Handler

variable {β : Type}

/-! ## Handlers that compute -/

/-- A handler that computes a register writes it and goes on. -/
theorem run_compute_of_holds {P : Platform β} {c : Ctx} {needs : List Need} {dest : Ctx → Fin 32}
    {f : Ctx → Hart → Reg} {m : Machine β} (h : ∀ need ∈ needs, need.holds c m.hart = true) :
    (compute needs dest f c).run (Act.exec P) m =
      .ok c.npc { m with hart := m.hart.writeXpr (dest c) (f c m.hart) } := by
  rw [compute, run_requireAll_bind_of_holds _ h, run_readHart_bind]
  rfl

theorem sextXlen_eq_signExtend (xlen : Xlen) (v : Reg) :
    sextXlen xlen v = (v.setWidth xlen.bits).signExtend 64 := by
  cases xlen with
  | rv32 => exact sextXlen_rv32 v
  | rv64 => simp [sextXlen, Xlen.bits]

theorem zextXlen_eq_setWidth (xlen : Xlen) (v : Reg) :
    zextXlen xlen v = (v.setWidth xlen.bits).setWidth 64 := by
  refine BitVec.eq_of_getLsbD_eq fun i hi => ?_
  cases xlen with
  | rv64 => simp [zextXlen, Xlen.bits]
  | rv32 =>
      rw [zextXlen, Xlen.bits, BitVec.getLsbD_ushiftRight, BitVec.getLsbD_shiftLeft]
      by_cases hlow : i < 32
      · simp [hi, hlow, show 32 + i < 64 by omega]
      · simp [hlow, show ¬ 32 + i < 64 by omega]

theorem xlen_bits_le (xlen : Xlen) : xlen.bits ≤ 64 := by
  cases xlen <;> decide

/-! ## Division on the host -/

/-- The host divides these two numbers as signed ones. -/
def HostDivides (lhs rhs : Reg) : Prop := rhs ≠ 0 ∧ ¬ (lhs = BitVec.intMin 64 ∧ rhs = -1)

instance (lhs rhs : Reg) : Decidable (HostDivides lhs rhs) := inferInstanceAs (Decidable (_ ∧ _))

/-- `/` or `%` of `int64_t`; `none` where it is undefined. -/
def hostSigned (op : Reg → Reg → Reg) (lhs rhs : Reg) : Option Reg :=
  if HostDivides lhs rhs then some (op lhs rhs) else none

/-- `/` or `%` of `uint64_t`. -/
def hostUnsigned (op : Reg → Reg → Reg) (lhs rhs : Reg) : Option Reg :=
  if rhs = 0 then none else some (op lhs rhs)

/-- What a host operation is where it is defined. -/
def HostMeans (defined : Reg → Reg → Prop) (host : Reg → Reg → Option Reg)
    (op : Reg → Reg → Reg) : Prop :=
  ∀ lhs rhs, defined lhs rhs → host lhs rhs = some (op lhs rhs)

theorem hostSigned_means (op : Reg → Reg → Reg) : HostMeans HostDivides (hostSigned op) op :=
  fun _ _ h => if_pos h

theorem hostUnsigned_means (op : Reg → Reg → Reg) :
    HostMeans (fun _ rhs => rhs ≠ 0) (hostUnsigned op) op :=
  fun _ _ h => if_neg h

/-! ## The handlers over a host division

The values that the handlers write, with the division of the host as a parameter that
may be undefined. -/

section Host

variable (host : Reg → Reg → Option Reg) (xlen : Xlen) (a b : Reg)

def divOn : Option Reg :=
  let lhs := sextXlen xlen a
  let rhs := sextXlen xlen b
  if rhs = 0 then some (-1)
  else if lhs = 0x8000000000000000 ∧ rhs = -1 then some lhs
  else (host lhs rhs).map (sextXlen xlen)

def remOn : Option Reg :=
  let lhs := sextXlen xlen a
  let rhs := sextXlen xlen b
  if rhs = 0 then some lhs
  else if lhs = 0x8000000000000000 ∧ rhs = -1 then some 0
  else (host lhs rhs).map (sextXlen xlen)

def divuOn : Option Reg :=
  let lhs := zextXlen xlen a
  let rhs := zextXlen xlen b
  if rhs = 0 then some (-1) else (host lhs rhs).map (sextXlen xlen)

def remuOn : Option Reg :=
  let lhs := zextXlen xlen a
  let rhs := zextXlen xlen b
  if rhs = 0 then some (sextXlen xlen a) else (host lhs rhs).map (sextXlen xlen)

def divwOn : Option Reg :=
  let lhs := sext32 a
  let rhs := sext32 b
  if rhs = 0 then some (-1) else (host lhs rhs).map sext32

def remwOn : Option Reg :=
  let lhs := sext32 a
  let rhs := sext32 b
  if rhs = 0 then some lhs else (host lhs rhs).map sext32

def divuwOn : Option Reg :=
  let lhs := zext32 a
  let rhs := zext32 b
  if rhs = 0 then some (-1) else (host lhs rhs).map sext32

def remuwOn : Option Reg :=
  let lhs := zext32 a
  let rhs := zext32 b
  if rhs = 0 then some (sext32 lhs) else (host lhs rhs).map sext32

end Host

/-! ## Values of the division handlers -/

section Values

variable {w : Nat} {ext : BitVec w → Reg} {defined : Reg → Reg → Prop}
  {host : Reg → Reg → Option Reg} {op : Reg → Reg → Reg} {narrow : BitVec w → BitVec w → BitVec w}

/-- A division of narrow words behind the test for zero: the wide division is defined and
its truncation is the narrow one. -/
theorem hostValue_eq (hext : ∀ b, ext b = 0 ↔ b = 0) (hhost : HostMeans defined host op)
    (hnarrow : ∀ a b, (op (ext a) (ext b)).setWidth w = narrow a b) (a b onZero : BitVec w)
    (hdefined : b ≠ 0 → defined (ext a) (ext b)) :
    (if ext b = 0 then some (onZero.signExtend 64)
      else (host (ext a) (ext b)).map fun v => (v.setWidth w).signExtend 64) =
    some ((if b = 0 then onZero else narrow a b).signExtend 64) := by
  by_cases hb : b = 0
  · rw [if_pos ((hext b).mpr hb), if_pos hb]
  · rw [if_neg (mt (hext b).mp hb), if_neg hb, hhost _ _ (hdefined hb), Option.map_some,
      hnarrow]

/-- The same with the overflow of the 64-bit division caught before. -/
theorem hostGuarded_eq (hw : w ≤ 64) (hhost : HostMeans HostDivides host op)
    (hnarrow : ∀ a b : BitVec w,
      (op (a.signExtend 64) (b.signExtend 64)).setWidth w = narrow a b)
    (a b onZero onOverflow : BitVec w)
    (hoverflow : a.signExtend 64 = BitVec.intMin 64 → b.signExtend 64 = (-1 : Reg) →
      narrow a b = onOverflow) :
    (if b.signExtend 64 = (0 : Reg) then some (onZero.signExtend 64)
      else if a.signExtend 64 = (0x8000000000000000 : Reg) ∧ b.signExtend 64 = (-1 : Reg) then
        some (onOverflow.signExtend 64)
      else (host (a.signExtend 64) (b.signExtend 64)).map fun v => (v.setWidth w).signExtend 64) =
    some ((if b = 0 then onZero else narrow a b).signExtend 64) := by
  by_cases hguard : a.signExtend 64 = (0x8000000000000000 : Reg) ∧ b.signExtend 64 = (-1 : Reg)
  · have hrhs : b.signExtend 64 ≠ (0 : Reg) := by
      rw [hguard.2]
      decide
    have hb : b ≠ 0 := mt (signExtend_eq_zero_iff hw b).mpr hrhs
    rw [if_neg hrhs, if_pos hguard, if_neg hb, hoverflow hguard.1 hguard.2]
  · rw [if_neg hguard]
    apply hostValue_eq (signExtend_eq_zero_iff hw) hhost hnarrow
    exact fun hb => ⟨mt (signExtend_eq_zero_iff hw b).mp hb, hguard⟩

end Values

/-! Each handler comes to a division only where the host defines it. -/

section Handlers

variable {host : Reg → Reg → Option Reg} (xlen : Xlen) (a b : Reg)

theorem xlen_bits_pos : 0 < xlen.bits := by
  cases xlen <;> decide

theorem sext32_eq (v : Reg) : sext32 v = (v.setWidth 32).signExtend 64 := rfl

theorem zext32_eq (v : Reg) : zext32 v = (v.setWidth 32).setWidth 64 := rfl

theorem divOn_eq (hhost : HostMeans HostDivides host BitVec.sdiv) :
    divOn host xlen a b = some ((if b.setWidth xlen.bits = 0 then BitVec.allOnes xlen.bits
      else (a.setWidth xlen.bits).sdiv (b.setWidth xlen.bits)).signExtend 64) := by
  have hw := xlen_bits_le xlen
  rw [← hostGuarded_eq hw hhost (setWidth_sdiv hw) _ _ _ (a.setWidth xlen.bits)]
  · simp only [divOn, sextXlen_eq_signExtend, funext (sextXlen_eq_signExtend xlen)]
    rw [signExtend_allOnes hw (xlen_bits_pos xlen)]
    rfl
  · intro hlhs hrhs
    rw [← setWidth_sdiv hw, hlhs, hrhs, ← setWidth_signExtend_self hw (a.setWidth xlen.bits), hlhs]
    rfl

theorem remOn_eq (hhost : HostMeans HostDivides host BitVec.srem) :
    remOn host xlen a b = some (((a.setWidth xlen.bits).srem (b.setWidth xlen.bits)).signExtend 64) := by
  have hw := xlen_bits_le xlen
  have hzero : (0 : BitVec xlen.bits).signExtend 64 = 0 := (signExtend_eq_zero_iff hw 0).mpr rfl
  rw [← ite_srem, ← hostGuarded_eq hw hhost (setWidth_srem hw) _ _ _ 0]
  · simp only [remOn, sextXlen_eq_signExtend, funext (sextXlen_eq_signExtend xlen), hzero]
  · intro hlhs hrhs
    have hrem : (BitVec.intMin 64).srem (-1) = 0 := by decide
    rw [← setWidth_srem hw, hlhs, hrhs, hrem]
    exact BitVec.setWidth_zero _ _

theorem divuOn_eq (hhost : HostMeans (fun _ rhs => rhs ≠ 0) host (· / ·)) :
    divuOn host xlen a b = some ((if b.setWidth xlen.bits = 0 then BitVec.allOnes xlen.bits
      else a.setWidth xlen.bits / b.setWidth xlen.bits).signExtend 64) := by
  have hw := xlen_bits_le xlen
  rw [← hostValue_eq (setWidth_eq_zero_iff hw) hhost (setWidth_udiv hw)]
  · simp only [divuOn, zextXlen_eq_setWidth, funext (sextXlen_eq_signExtend xlen)]
    rw [signExtend_allOnes hw (xlen_bits_pos xlen)]
    rfl
  · exact fun hb => mt (setWidth_eq_zero_iff hw _).mp hb

theorem remuOn_eq (hhost : HostMeans (fun _ rhs => rhs ≠ 0) host (· % ·)) :
    remuOn host xlen a b =
      some ((a.setWidth xlen.bits % b.setWidth xlen.bits).signExtend 64) := by
  have hw := xlen_bits_le xlen
  rw [← ite_umod, ← hostValue_eq (setWidth_eq_zero_iff hw) hhost (setWidth_umod hw)]
  · simp only [remuOn, zextXlen_eq_setWidth, sextXlen_eq_signExtend,
      funext (sextXlen_eq_signExtend xlen)]
  · exact fun hb => mt (setWidth_eq_zero_iff hw _).mp hb

theorem divwOn_eq (hhost : HostMeans HostDivides host BitVec.sdiv) :
    divwOn host a b = some ((if b.setWidth 32 = 0 then BitVec.allOnes 32
      else (a.setWidth 32).sdiv (b.setWidth 32)).signExtend 64) := by
  have hw : 32 ≤ 64 := by decide
  rw [← hostValue_eq (signExtend_eq_zero_iff hw) hhost (setWidth_sdiv hw)]
  · rfl
  · exact fun hb => ⟨mt (signExtend_eq_zero_iff hw _).mp hb,
      fun h => signExtend_ne_intMin (by decide) _ h.1⟩

theorem remwOn_eq (hhost : HostMeans HostDivides host BitVec.srem) :
    remwOn host a b = some (((a.setWidth 32).srem (b.setWidth 32)).signExtend 64) := by
  have hw : 32 ≤ 64 := by decide
  rw [← ite_srem, ← hostValue_eq (signExtend_eq_zero_iff hw) hhost (setWidth_srem hw)]
  · rfl
  · exact fun hb => ⟨mt (signExtend_eq_zero_iff hw _).mp hb,
      fun h => signExtend_ne_intMin (by decide) _ h.1⟩

theorem divuwOn_eq (hhost : HostMeans (fun _ rhs => rhs ≠ 0) host (· / ·)) :
    divuwOn host a b = some ((if b.setWidth 32 = 0 then BitVec.allOnes 32
      else a.setWidth 32 / b.setWidth 32).signExtend 64) := by
  have hw : 32 ≤ 64 := by decide
  rw [← hostValue_eq (setWidth_eq_zero_iff hw) hhost (setWidth_udiv hw)]
  · rfl
  · exact fun hb => mt (setWidth_eq_zero_iff hw _).mp hb

theorem remuwOn_eq (hhost : HostMeans (fun _ rhs => rhs ≠ 0) host (· % ·)) :
    remuwOn host a b = some ((a.setWidth 32 % b.setWidth 32).signExtend 64) := by
  have hw : 32 ≤ 64 := by decide
  rw [← ite_umod, ← hostValue_eq (setWidth_eq_zero_iff hw) hhost (setWidth_umod hw)]
  · rw [remuwOn, zext32_eq, zext32_eq, sext32_eq, setWidth_setWidth_self hw]
    rfl
  · exact fun hb => mt (setWidth_eq_zero_iff hw _).mp hb

end Handlers

/-! ## Division -/

/-- The two handlers write a quotient and a remainder of the low `w` bits of their
operands, sign-extended, and evaluate no division that the host leaves undefined. -/
def DividesAs (P : Platform β) (w : Nat) (spec : BitVec w → BitVec w → BitVec w → BitVec w → Prop)
    (quot rem : Ctx → Handler Reg) (quotOn remOn : Reg → Reg → Option Reg) (c : Ctx)
    (m : Machine β) : Prop :=
  ∃ q r : BitVec w,
    spec ((Insns.rs1 c m.hart).setWidth w) ((Insns.rs2 c m.hart).setWidth w) q r ∧
    (quot c).run (Act.exec P) m =
      .ok c.npc { m with hart := m.hart.writeXpr c.insn.rd (q.signExtend 64) } ∧
    (rem c).run (Act.exec P) m =
      .ok c.npc { m with hart := m.hart.writeXpr c.insn.rd (r.signExtend 64) } ∧
    quotOn (Insns.rs1 c m.hart) (Insns.rs2 c m.hart) = some (q.signExtend 64) ∧
    remOn (Insns.rs1 c m.hart) (Insns.rs2 c m.hart) = some (r.signExtend 64)

/-- A handler that writes what it would write over a host division. -/
theorem run_compute_eq {P : Platform β} {c : Ctx} {needs : List Need} {f : Ctx → Hart → Reg}
    {m : Machine β} {value : Reg} {on : Option Reg}
    (h : ∀ need ∈ needs, need.holds c m.hart = true) (hf : some (f c m.hart) = on)
    (hon : on = some value) :
    (compute needs Insns.rd f c).run (Act.exec P) m =
      .ok c.npc { m with hart := m.hart.writeXpr c.insn.rd value } := by
  rw [run_compute_of_holds h, Option.some.inj (hf.trans hon)]
  rfl

/-- A host division that is total. -/
theorem hostTotal_means (defined : Reg → Reg → Prop) (op : Reg → Reg → Reg) :
    HostMeans defined (fun lhs rhs => some (op lhs rhs)) op :=
  fun _ _ _ => rfl

/-- **The division handlers compute quotients and remainders at both widths, without an
undefined division of the host.** -/
theorem division (P : Platform β) (c : Ctx) (m : Machine β)
    (hext : m.hart.supportsExtension 'M' = true) :
    DividesAs P c.xlen.bits SignedDivision Insns.div Insns.rem
        (divOn (hostSigned BitVec.sdiv) c.xlen) (remOn (hostSigned BitVec.srem) c.xlen) c m ∧
      DividesAs P c.xlen.bits UnsignedDivision Insns.divu Insns.remu
        (divuOn (hostUnsigned (· / ·)) c.xlen) (remuOn (hostUnsigned (· % ·)) c.xlen) c m ∧
      (c.xlen = .rv64 →
        DividesAs P 32 SignedDivision Insns.divw Insns.remw
            (divwOn (hostSigned BitVec.sdiv)) (remwOn (hostSigned BitVec.srem)) c m ∧
          DividesAs P 32 UnsignedDivision Insns.divuw Insns.remuw
            (divuwOn (hostUnsigned (· / ·))) (remuwOn (hostUnsigned (· % ·))) c m) := by
  have hneeds : ∀ need ∈ [Need.extension 'M'], need.holds c m.hart = true := by
    simpa [Need.holds] using hext
  refine ⟨?_, ?_, fun hxlen => ?_⟩
  · refine ⟨_, _, signedDivision_sdiv _ _, ?_, ?_, divOn_eq _ _ _ (hostSigned_means _),
      remOn_eq _ _ _ (hostSigned_means _)⟩
    · apply run_compute_eq hneeds _ (divOn_eq _ _ _ (hostTotal_means _ BitVec.sdiv))
      simp only [divOn, apply_ite some, Option.map_some]
    · apply run_compute_eq hneeds _ (remOn_eq _ _ _ (hostTotal_means _ BitVec.srem))
      simp only [remOn, apply_ite some, Option.map_some]
  · refine ⟨_, _, unsignedDivision_udiv _ _, ?_, ?_, divuOn_eq _ _ _ (hostUnsigned_means _),
      remuOn_eq _ _ _ (hostUnsigned_means _)⟩
    · apply run_compute_eq hneeds _ (divuOn_eq _ _ _ (hostTotal_means _ (· / ·)))
      simp only [divuOn, apply_ite some, Option.map_some]
    · apply run_compute_eq hneeds _ (remuOn_eq _ _ _ (hostTotal_means _ (· % ·)))
      simp only [remuOn, apply_ite some, Option.map_some]
  · have hneeds : ∀ need ∈ [Need.extension 'M', .rv64], need.holds c m.hart = true := by
      simpa [Need.holds, hxlen] using hext
    constructor
    · refine ⟨_, _, signedDivision_sdiv _ _, ?_, ?_, divwOn_eq _ _ (hostSigned_means _),
        remwOn_eq _ _ (hostSigned_means _)⟩
      · apply run_compute_eq hneeds _ (divwOn_eq _ _ (hostTotal_means _ BitVec.sdiv))
        simp only [divwOn, apply_ite some, Option.map_some]
      · apply run_compute_eq hneeds _ (remwOn_eq _ _ (hostTotal_means _ BitVec.srem))
        simp only [remwOn, apply_ite some, Option.map_some]
    · refine ⟨_, _, unsignedDivision_udiv _ _, ?_, ?_, divuwOn_eq _ _ (hostUnsigned_means _),
        remuwOn_eq _ _ (hostUnsigned_means _)⟩
      · apply run_compute_eq hneeds _ (divuwOn_eq _ _ (hostTotal_means _ (· / ·)))
        simp only [divuwOn, apply_ite some, Option.map_some]
      · apply run_compute_eq hneeds _ (remuwOn_eq _ _ (hostTotal_means _ (· % ·)))
        simp only [remuwOn, apply_ite some, Option.map_some]

/-- On a hart with M, `div` and `rem` of zero by zero. -/
theorem division_after_reset :
    let m : Machine Unit :=
      Machine.reset .rv64 (1 <<< 12) false (Decode.freshDecoder false) (fun _ => 0) ()
    DividesAs Platform.bare 64 SignedDivision Insns.div Insns.rem
      (divOn (hostSigned BitVec.sdiv) .rv64) (remOn (hostSigned BitVec.srem) .rv64)
      ⟨.rv64, ⟨0⟩, 0x1000, 0x1004⟩ m :=
  (division Platform.bare ⟨.rv64, ⟨0⟩, 0x1000, 0x1004⟩ _ (by decide)).1

/-! ## High multiplication -/

section High

variable (a b : Reg)

/-- No sum in `mulhu` exceeds 64 bits, and neither do the products of halves. -/
def MulhuFits : Prop :=
  let a0 := zext32 a
  let a1 := a >>> 32
  let b0 := zext32 b
  let b1 := b >>> 32
  let t := a1 * b0 + ((a0 * b0) >>> 32)
  let y1 := zext32 t
  let y2 := zext32 (t >>> 32)
  let t' := a0 * b1 + y1
  a1.toNat * b0.toNat + ((a0 * b0) >>> 32).toNat < 2 ^ 64 ∧ a0.toNat * b0.toNat < 2 ^ 64 ∧
    a0.toNat * b1.toNat + y1.toNat < 2 ^ 64 ∧
    a1.toNat * b1.toNat + y2.toNat + (t' >>> 32).toNat < 2 ^ 64

theorem toNat_zext32 (v : Reg) : (zext32 v).toNat = v.toNat % 2 ^ 32 := by
  rw [zext32, BitVec.toNat_setWidth_of_le (by decide), BitVec.toNat_setWidth]

theorem toNat_high (v : Reg) : (v >>> 32).toNat = v.toNat / 2 ^ 32 := by
  rw [BitVec.toNat_ushiftRight, Nat.shiftRight_eq_div_pow]

theorem toNat_halves (v : Reg) :
    (zext32 v).toNat < 2 ^ 32 ∧ (v >>> 32).toNat < 2 ^ 32 ∧
      v.toNat = (v >>> 32).toNat * 2 ^ 32 + (zext32 v).toNat := by
  rw [toNat_zext32, toNat_high]
  omega

theorem toNat_join (hi lo : Reg) (hhi : hi.toNat < 2 ^ 32) (hlo : lo.toNat < 2 ^ 32) :
    ((hi <<< 32) ||| lo).toNat = hi.toNat * 2 ^ 32 + lo.toNat := by
  rw [BitVec.toNat_or, BitVec.toNat_shiftLeft, Nat.shiftLeft_eq, Nat.mod_eq_of_lt (by omega),
    Nat.mul_comm, Nat.two_pow_add_eq_or_of_lt hlo]

/-- The halves of the schoolbook product. -/
theorem half_mul_lt {x y : Nat} (hx : x < 2 ^ 32) (hy : y < 2 ^ 32) :
    x * y ≤ (2 ^ 32 - 1) * (2 ^ 32 - 1) :=
  Nat.mul_le_mul (Nat.le_sub_one_of_lt hx) (Nat.le_sub_one_of_lt hy)

/-- The schoolbook steps: the product of two numbers from the products of their halves. -/
theorem schoolbook (a0 a1 b0 b1 : Nat) :
    let t := a1 * b0 + a0 * b0 / 2 ^ 32
    a1 * b1 + t / 2 ^ 32 + (a0 * b1 + t % 2 ^ 32) / 2 ^ 32 =
      (a1 * 2 ^ 32 + a0) * (b1 * 2 ^ 32 + b0) / 2 ^ 64 := by
  have hprod : (a1 * 2 ^ 32 + a0) * (b1 * 2 ^ 32 + b0) =
      a1 * b1 * 2 ^ 64 + (a1 * b0 + a0 * b1) * 2 ^ 32 + a0 * b0 := by
    ring
  rw [hprod]
  generalize a1 * b1 = p11, a1 * b0 = p10, a0 * b1 = p01, a0 * b0 = p00
  dsimp only
  omega

/-- **`mulhu` is the high half of the unsigned product, and no step of it overflows.** -/
theorem mulhu_spec : (mulhu a b).toNat = a.toNat * b.toNat / 2 ^ 64 ∧ MulhuFits a b := by
  obtain ⟨ha0, ha1, ha⟩ := toNat_halves a
  obtain ⟨hb0, hb1, hb⟩ := toNat_halves b
  have hsteps := schoolbook (zext32 a).toNat (a >>> 32).toNat (zext32 b).toNat (b >>> 32).toNat
  rw [← ha, ← hb] at hsteps
  rw [mulhu, MulhuFits]
  generalize a >>> 32 = a1 at *
  generalize zext32 a = a0 at *
  generalize b >>> 32 = b1 at *
  generalize zext32 b = b0 at *
  have h00 := half_mul_lt ha0 hb0
  have h10 := half_mul_lt ha1 hb0
  have h01 := half_mul_lt ha0 hb1
  have h11 := half_mul_lt ha1 hb1
  have hp00 : (a0 * b0).toNat = a0.toNat * b0.toNat := BitVec.toNat_mul_of_lt (by omega)
  have hp10 : (a1 * b0).toNat = a1.toNat * b0.toNat := BitVec.toNat_mul_of_lt (by omega)
  have hp01 : (a0 * b1).toNat = a0.toNat * b1.toNat := BitVec.toNat_mul_of_lt (by omega)
  have hp11 : (a1 * b1).toNat = a1.toNat * b1.toNat := BitVec.toNat_mul_of_lt (by omega)
  have ht : (a1 * b0 + (a0 * b0) >>> 32).toNat =
      a1.toNat * b0.toNat + a0.toNat * b0.toNat / 2 ^ 32 := by
    rw [BitVec.toNat_add_of_lt, hp10, toNat_high, hp00]
    rw [hp10, toNat_high, hp00]
    omega
  generalize a1 * b0 + (a0 * b0) >>> 32 = t at *
  have hy1 := toNat_zext32 t
  have hy2 := (toNat_zext32 (t >>> 32)).trans (congrArg (· % 2 ^ 32) (toNat_high t))
  have ht' : (a0 * b1 + zext32 t).toNat = a0.toNat * b1.toNat + t.toNat % 2 ^ 32 := by
    rw [BitVec.toNat_add_of_lt, hp01, hy1]
    rw [hp01, hy1]
    omega
  generalize a0 * b1 + zext32 t = t' at *
  have hsum : (a1 * b1 + zext32 (t >>> 32)).toNat =
      a1.toNat * b1.toNat + t.toNat / 2 ^ 32 % 2 ^ 32 := by
    rw [BitVec.toNat_add_of_lt, hp11, hy2]
    rw [hp11, hy2]
    omega
  have ht'' : (a1 * b1 + zext32 (t >>> 32) + t' >>> 32).toNat =
      a1.toNat * b1.toNat + t.toNat / 2 ^ 32 % 2 ^ 32 + t'.toNat / 2 ^ 32 := by
    rw [BitVec.toNat_add_of_lt, hsum, toNat_high]
    rw [hsum, toNat_high]
    omega
  constructor
  · rw [toNat_join _ _ (by rw [toNat_zext32]; omega) (by rw [toNat_zext32]; omega),
      toNat_zext32, toNat_zext32, toNat_high, ht'', ← hsteps, ht']
    omega
  · rw [toNat_high, toNat_high, hp00, hy1, hy2, ht']
    omega

theorem mulhu_eq : mulhu a b = BitVec.ofNat 64 (a.toNat * b.toNat / 2 ^ 64) := by
  apply BitVec.eq_of_toNat_eq
  rw [(mulhu_spec a b).1, BitVec.toNat_ofNat, Nat.mod_eq_of_lt]
  rw [Nat.div_lt_iff_lt_mul (by decide)]
  exact Nat.mul_lt_mul'' a.isLt b.isLt

/-- The unsigned number that `mulh` passes on for a signed one. -/
theorem toNat_magnitude : (if a.slt 0 then -a else a).toNat = a.toInt.natAbs := by
  have hcond := BitVec.toInt_eq_toNat_cond a
  have hlt := a.isLt
  by_cases hneg : a.toInt < 0
  · rw [if_pos (by simpa [BitVec.slt] using hneg), BitVec.toNat_neg]
    omega
  · rw [if_neg (by simpa [BitVec.slt] using hneg)]
    omega

/-- The high half of a negative product: the complement, and one more if the low half of
the product is zero. -/
theorem not_add_carry (n : Nat) :
    ~~~BitVec.ofNat 64 (n / 2 ^ 64) + boolReg (BitVec.ofInt 64 (-(n : Int)) == 0) =
      BitVec.ofInt 64 (-(n : Int) / 2 ^ 64) := by
  have hlow : (BitVec.ofInt 64 (-(n : Int)) == 0) = decide (n % 2 ^ 64 = 0) := by
    rw [Bool.eq_iff_iff, beq_iff_eq, decide_eq_true_iff, ← BitVec.toNat_inj, BitVec.toNat_ofInt]
    change (-(n : Int) % (2 ^ 64 : Nat)).toNat = 0 ↔ _
    omega
  rw [hlow]
  by_cases hzero : n % 2 ^ 64 = 0
  · have hquot : -(n : Int) / 2 ^ 64 = -((n / 2 ^ 64 : Nat) : Int) := by omega
    rw [hquot, BitVec.ofInt_neg, BitVec.ofInt_natCast, BitVec.neg_eq_not_add, decide_eq_true hzero]
    rfl
  · have hquot : -(n : Int) / 2 ^ 64 = Int.negSucc (n / 2 ^ 64) := by omega
    rw [hquot, BitVec.ofInt_negSucc_eq_not_ofNat, decide_eq_false hzero]
    exact BitVec.add_zero _

/-- The high half of a product from that of the magnitudes. -/
theorem highHalf_eq (x : Int) {negate : Bool} (hneg : negate = true → x ≤ 0)
    (hpos : negate = false → 0 ≤ x) :
    (if negate then ~~~BitVec.ofNat 64 (x.natAbs / 2 ^ 64) + boolReg (BitVec.ofInt 64 x == 0)
      else BitVec.ofNat 64 (x.natAbs / 2 ^ 64)) = BitVec.ofInt 64 (x / 2 ^ 64) := by
  cases negate with
  | true =>
      rw [if_pos rfl, Int.eq_neg_natAbs_of_nonpos (hneg rfl), Int.natAbs_neg, Int.natAbs_natCast]
      exact not_add_carry x.natAbs
  | false =>
      rw [if_neg Bool.false_ne_true, ← BitVec.ofInt_natCast, Int.natCast_ediv,
        Int.natAbs_of_nonneg (hpos rfl)]
      rfl

theorem slt_zero_eq : a.slt 0 = decide (a.toInt < 0) := rfl

/-- **`mulh` is the high half of the signed product.** -/
theorem mulh_eq : mulh a b = BitVec.ofInt 64 (a.toInt * b.toInt / 2 ^ 64) := by
  have hres := mulhu_eq (if a.slt 0 then -a else a) (if b.slt 0 then -b else b)
  rw [toNat_magnitude, toNat_magnitude, ← Int.natAbs_mul] at hres
  have hlow : a * b = BitVec.ofInt 64 (a.toInt * b.toInt) := by
    rw [BitVec.ofInt_mul, BitVec.ofInt_toInt, BitVec.ofInt_toInt]
  rw [mulh, hres, hlow]
  apply highHalf_eq
  · intro hnegate
    rw [slt_zero_eq, slt_zero_eq, bne_iff_ne, ne_eq, decide_eq_decide] at hnegate
    rcases lt_or_ge a.toInt 0 with ha | ha
    · have hb : 0 ≤ b.toInt := not_lt.mp fun hb => hnegate (iff_of_true ha hb)
      exact mul_nonpos_of_nonpos_of_nonneg ha.le hb
    · have hb : b.toInt < 0 := by_contra fun hb => hnegate (iff_of_false (not_lt.mpr ha) hb)
      exact mul_nonpos_of_nonneg_of_nonpos ha hb.le
  · intro hsame
    rw [slt_zero_eq, slt_zero_eq, bne_eq_false_iff_eq, decide_eq_decide] at hsame
    rcases lt_or_ge a.toInt 0 with ha | ha
    · exact mul_nonneg_of_nonpos_of_nonpos ha.le (hsame.mp ha).le
    · exact mul_nonneg ha (not_lt.mp (mt hsame.mpr (not_lt.mpr ha)))

/-- **`mulhsu` is the high half of the product of a signed and an unsigned number.** -/
theorem mulhsu_eq : mulhsu a b = BitVec.ofInt 64 (a.toInt * b.toNat / 2 ^ 64) := by
  have hres := mulhu_eq (if a.slt 0 then -a else a) b
  have habs : a.toInt.natAbs * b.toNat = (a.toInt * b.toNat).natAbs := by
    rw [Int.natAbs_mul, Int.natAbs_natCast]
  rw [toNat_magnitude, habs] at hres
  have hlow : a * b = BitVec.ofInt 64 (a.toInt * b.toNat) := by
    rw [BitVec.ofInt_mul, BitVec.ofInt_toInt, BitVec.ofInt_natCast, BitVec.ofNat_toNat,
      BitVec.setWidth_eq]
  rw [mulhsu, hres, hlow]
  apply highHalf_eq
  · intro hneg
    exact mul_nonpos_of_nonpos_of_nonneg (of_decide_eq_true hneg).le (Int.natCast_nonneg _)
  · intro hpos
    exact mul_nonneg (not_lt.mp (of_decide_eq_false hpos)) (Int.natCast_nonneg _)

end High

/-! ## The handlers -/

/-- The upper half of a 64-bit product of 32-bit numbers, however it is shifted down. -/
theorem setWidth_high (n : Int) (v : Reg) (hv : v = BitVec.ofInt 64 n) :
    (v >>> 32).setWidth 32 = BitVec.ofInt 32 (n / 2 ^ 32) ∧
      (v.sshiftRight 32).setWidth 32 = BitVec.ofInt 32 (n / 2 ^ 32) := by
  have hlogical : (v >>> 32).setWidth 32 = BitVec.ofInt 32 (n / 2 ^ 32) := by
    apply BitVec.eq_of_toNat_eq
    rw [BitVec.toNat_setWidth, toNat_high, hv, BitVec.toNat_ofInt, BitVec.toNat_ofInt]
    omega
  refine ⟨hlogical, hlogical ▸ BitVec.eq_of_getLsbD_eq fun i hi => ?_⟩
  rw [BitVec.getLsbD_setWidth, BitVec.getLsbD_setWidth, BitVec.getLsbD_sshiftRight,
    BitVec.getLsbD_ushiftRight]
  simp [hi, show 32 + i < 64 by omega, show i < 64 by omega]

/-- The handler writes the upper half of the product, sign-extended. -/
def WritesHigh (P : Platform β) (handler : Ctx → Handler Reg) (c : Ctx) (m : Machine β)
    (product : Int) : Prop :=
  let high := (BitVec.ofInt c.xlen.bits (product / 2 ^ c.xlen.bits)).signExtend 64
  (handler c).run (Act.exec P) m = .ok c.npc { m with hart := m.hart.writeXpr c.insn.rd high }

theorem writesHigh_of_value {P : Platform β} {c : Ctx} {m : Machine β} {f : Ctx → Hart → Reg}
    {product : Int} (hext : m.hart.supportsExtension 'M' = true)
    (hf : f c m.hart = (BitVec.ofInt c.xlen.bits (product / 2 ^ c.xlen.bits)).signExtend 64) :
    WritesHigh P (compute [.extension 'M'] Insns.rd f) c m product := by
  have hneeds : ∀ need ∈ [Need.extension 'M'], need.holds c m.hart = true := by
    simpa [Need.holds] using hext
  rw [WritesHigh, run_compute_of_holds hneeds, hf]
  rfl

theorem sext32_eq_ofInt (v : Reg) : sext32 v = BitVec.ofInt 64 (v.setWidth 32).toInt := by
  rw [← BitVec.toInt_signExtend_of_le (show 32 ≤ 64 by decide), BitVec.ofInt_toInt, sext32]

theorem zext32_eq_ofInt (v : Reg) : zext32 v = BitVec.ofInt 64 (v.setWidth 32).toNat := by
  rw [BitVec.ofInt_natCast, BitVec.ofNat_toNat, zext32]

/-- **High multiplication is exact, on 64 bits and in the handlers of both widths.** -/
theorem high_multiplication (P : Platform β) :
    (∀ a b : Reg, (mulhu a b).toNat = a.toNat * b.toNat / 2 ^ 64 ∧ MulhuFits a b ∧
      mulh a b = BitVec.ofInt 64 (a.toInt * b.toInt / 2 ^ 64) ∧
      mulhsu a b = BitVec.ofInt 64 (a.toInt * b.toNat / 2 ^ 64)) ∧
    ∀ (c : Ctx) (m : Machine β), m.hart.supportsExtension 'M' = true →
      let a := (Insns.rs1 c m.hart).setWidth c.xlen.bits
      let b := (Insns.rs2 c m.hart).setWidth c.xlen.bits
      WritesHigh P Insns.mulh c m (a.toInt * b.toInt) ∧
        WritesHigh P Insns.mulhsu c m (a.toInt * b.toNat) ∧
        WritesHigh P Insns.mulhu c m (a.toNat * b.toNat) := by
  refine ⟨fun a b => ⟨(mulhu_spec a b).1, (mulhu_spec a b).2, mulh_eq a b, mulhsu_eq a b⟩, ?_⟩
  rintro ⟨xlen, insn, pc, npc⟩ m hext
  cases xlen with
  | rv64 =>
      refine ⟨writesHigh_of_value hext ?_, writesHigh_of_value hext ?_, writesHigh_of_value hext ?_⟩
      · simp only [if_true, mulh_eq, Xlen.bits, BitVec.setWidth_eq, BitVec.signExtend_eq]
      · simp only [if_true, mulhsu_eq, Xlen.bits, BitVec.setWidth_eq, BitVec.signExtend_eq]
      · simp only [if_true, mulhu_eq, Xlen.bits, BitVec.setWidth_eq, BitVec.signExtend_eq]
        rw [← BitVec.ofInt_natCast]
        rfl
  | rv32 =>
      refine ⟨writesHigh_of_value hext ?_, writesHigh_of_value hext ?_, writesHigh_of_value hext ?_⟩
      · simp only [reduceCtorEq, if_false, Xlen.bits]
        rw [sext32_eq, (setWidth_high _ _ _).2]
        rw [BitVec.ofInt_mul, sext32_eq_ofInt, sext32_eq_ofInt]
      · simp only [reduceCtorEq, if_false, Xlen.bits]
        rw [sext32_eq, (setWidth_high _ _ _).1]
        rw [BitVec.ofInt_mul, sext32_eq_ofInt, zext32_eq_ofInt]
      · simp only [reduceCtorEq, if_false, Xlen.bits]
        rw [sext32_eq, (setWidth_high _ _ _).1]
        rw [BitVec.ofInt_mul, zext32_eq_ofInt, zext32_eq_ofInt]

/-- On RV32, `mulhu` of two registers that hold the least number. -/
theorem high_multiplication_least :
    let m : Machine Unit :=
      Machine.reset .rv32 (1 <<< 12) false (Decode.freshDecoder false) (fun _ => 0) ()
    let m := { m with hart := { m.hart with xpr := fun _ => 0xffffffff80000000 } }
    WritesHigh Platform.bare Insns.mulhu ⟨.rv32, ⟨0⟩, 0x1000, 0x1004⟩ m
      (((0x80000000 : Nat) : Int) * ((0x80000000 : Nat) : Int)) :=
  ((high_multiplication Platform.bare).2 ⟨.rv32, ⟨0⟩, 0x1000, 0x1004⟩ _ (by decide)).2.2

end SpikeSim.Riscv
