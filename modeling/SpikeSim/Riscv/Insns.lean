/-
# The instructions

One definition for each file under `insns/`, and the function that selects it.
The names are those of the files.  Floating-point arithmetic is the `softfloat`
library, which is a parameter: each operation returns a value and the exception
flags that it raises.
-/

import SpikeSim.Riscv.Handler

namespace SpikeSim.Riscv

/-! ## The floating-point library -/

/-- Single and double precision. -/
inductive Fmt
  | f32 | f64
  deriving DecidableEq, Repr

def Fmt.bits : Fmt → Nat
  | .f32 => 32
  | .f64 => 64

/-- The functions of `softfloat` that the handlers call. -/
structure SoftFloat where
  add : (fmt : Fmt) → (rm : Reg) → BitVec fmt.bits → BitVec fmt.bits → BitVec fmt.bits × BitVec 32
  sub : (fmt : Fmt) → (rm : Reg) → BitVec fmt.bits → BitVec fmt.bits → BitVec fmt.bits × BitVec 32
  mul : (fmt : Fmt) → (rm : Reg) → BitVec fmt.bits → BitVec fmt.bits → BitVec fmt.bits × BitVec 32
  div : (fmt : Fmt) → (rm : Reg) → BitVec fmt.bits → BitVec fmt.bits → BitVec fmt.bits × BitVec 32
  sqrt : (fmt : Fmt) → (rm : Reg) → BitVec fmt.bits → BitVec fmt.bits × BitVec 32
  mulAdd : (fmt : Fmt) → (rm : Reg) → BitVec fmt.bits → BitVec fmt.bits → BitVec fmt.bits →
    BitVec fmt.bits × BitVec 32
  eq : (fmt : Fmt) → BitVec fmt.bits → BitVec fmt.bits → Bool × BitVec 32
  le : (fmt : Fmt) → BitVec fmt.bits → BitVec fmt.bits → Bool × BitVec 32
  lt : (fmt : Fmt) → BitVec fmt.bits → BitVec fmt.bits → Bool × BitVec 32
  leQuiet : (fmt : Fmt) → BitVec fmt.bits → BitVec fmt.bits → Bool × BitVec 32
  ltQuiet : (fmt : Fmt) → BitVec fmt.bits → BitVec fmt.bits → Bool × BitVec 32
  toI32 : (fmt : Fmt) → (rm : Reg) → BitVec fmt.bits → BitVec 32 × BitVec 32
  toUi32 : (fmt : Fmt) → (rm : Reg) → BitVec fmt.bits → BitVec 32 × BitVec 32
  toI64 : (fmt : Fmt) → (rm : Reg) → BitVec fmt.bits → BitVec 64 × BitVec 32
  toUi64 : (fmt : Fmt) → (rm : Reg) → BitVec fmt.bits → BitVec 64 × BitVec 32
  ofI32 : (fmt : Fmt) → (rm : Reg) → BitVec 32 → BitVec fmt.bits × BitVec 32
  ofUi32 : (fmt : Fmt) → (rm : Reg) → BitVec 32 → BitVec fmt.bits × BitVec 32
  ofI64 : (fmt : Fmt) → (rm : Reg) → BitVec 64 → BitVec fmt.bits × BitVec 32
  ofUi64 : (fmt : Fmt) → (rm : Reg) → BitVec 64 → BitVec fmt.bits × BitVec 32
  f32ToF64 : (rm : Reg) → BitVec 32 → BitVec 64 × BitVec 32
  f64ToF32 : (rm : Reg) → BitVec 64 → BitVec 32 × BitVec 32

/-- A library that answers with zeros, for instructions that do not call it. -/
def SoftFloat.zeros : SoftFloat where
  add _ _ _ _ := (0, 0)
  sub _ _ _ _ := (0, 0)
  mul _ _ _ _ := (0, 0)
  div _ _ _ _ := (0, 0)
  sqrt _ _ _ := (0, 0)
  mulAdd _ _ _ _ _ := (0, 0)
  eq _ _ _ := (false, 0)
  le _ _ _ := (false, 0)
  lt _ _ _ := (false, 0)
  leQuiet _ _ _ := (false, 0)
  ltQuiet _ _ _ := (false, 0)
  toI32 _ _ _ := (0, 0)
  toUi32 _ _ _ := (0, 0)
  toI64 _ _ _ := (0, 0)
  toUi64 _ _ _ := (0, 0)
  ofI32 _ _ _ := (0, 0)
  ofUi32 _ _ _ := (0, 0)
  ofI64 _ _ _ := (0, 0)
  ofUi64 _ _ _ := (0, 0)
  f32ToF64 _ _ := (0, 0)
  f64ToF32 _ _ := (0, 0)

/-- `isNaNF32UI` and `isNaNF64UI`. -/
def isNaNUI : Fmt → Reg → Bool
  | .f32, a => a &&& 0x7F800000 == 0x7F800000 && a &&& 0x007FFFFF != 0
  | .f64, a => a &&& 0x7FF0000000000000 == 0x7FF0000000000000 && a &&& 0x000FFFFFFFFFFFFF != 0

/-- `softfloat_isSigNaNF32UI` and `softfloat_isSigNaNF64UI`. -/
def isSigNaNUI : Fmt → Reg → Bool
  | .f32, a => a &&& 0x7FC00000 == 0x7F800000 && a &&& 0x003FFFFF != 0
  | .f64, a => a &&& 0x7FF8000000000000 == 0x7FF0000000000000 && a &&& 0x0007FFFFFFFFFFFF != 0

def signUI : Fmt → Reg → Bool
  | .f32, a => (a.setWidth 32 >>> 31) != 0
  | .f64, a => (a >>> 63) != 0

def expUI : Fmt → Reg → Reg
  | .f32, a => (a >>> 23) &&& 0xFF
  | .f64, a => (a >>> 52) &&& 0x7FF

def fracUI : Fmt → Reg → Reg
  | .f32, a => a &&& 0x007FFFFF
  | .f64, a => a &&& 0x000FFFFFFFFFFFFF

/-- `f32_classify` and `f64_classify`. -/
def classify (fmt : Fmt) (a : BitVec fmt.bits) : Reg :=
  let uiA := a.setWidth 64
  let infOrNaN := expUI fmt uiA == match fmt with | .f32 => 0xFF | .f64 => 0x7FF
  let subnormalOrZero := expUI fmt uiA == 0
  let sign := signUI fmt uiA
  let fracZero := fracUI fmt uiA == 0
  (boolReg (sign && infOrNaN && fracZero) <<< 0) |||
  (boolReg (sign && !infOrNaN && !subnormalOrZero) <<< 1) |||
  (boolReg (sign && subnormalOrZero && !fracZero) <<< 2) |||
  (boolReg (sign && subnormalOrZero && fracZero) <<< 3) |||
  (boolReg (!sign && infOrNaN && fracZero) <<< 7) |||
  (boolReg (!sign && !infOrNaN && !subnormalOrZero) <<< 6) |||
  (boolReg (!sign && subnormalOrZero && !fracZero) <<< 5) |||
  (boolReg (!sign && subnormalOrZero && fracZero) <<< 4) |||
  (boolReg (isNaNUI fmt uiA && isSigNaNUI fmt uiA) <<< 8) |||
  (boolReg (isNaNUI fmt uiA && !isSigNaNUI fmt uiA) <<< 9)

/-- The sign bit of a format, in a register. -/
def Fmt.signBit : Fmt → Reg
  | .f32 => 0x80000000
  | .f64 => 0x8000000000000000

/-- All bits but the sign.  The complement is taken in the unsigned type of the
format, so the single-precision mask clears the upper half of a register. -/
def Fmt.magnitude : Fmt → Reg
  | .f32 => 0x7FFFFFFF
  | .f64 => 0x7FFFFFFFFFFFFFFF

/-! ## High multiplication -/

def mulhu (a b : Reg) : Reg :=
  let a0 := zext32 a
  let a1 := a >>> 32
  let b0 := zext32 b
  let b1 := b >>> 32
  let t := a1 * b0 + ((a0 * b0) >>> 32)
  let y1 := zext32 t
  let y2 := zext32 (t >>> 32)
  let t := a0 * b1 + y1
  let t := a1 * b1 + y2 + (t >>> 32)
  let y2 := zext32 t
  let y3 := zext32 (t >>> 32)
  (y3 <<< 32) ||| y2

def mulh (a b : Reg) : Reg :=
  let negate := a.slt 0 != b.slt 0
  let res := mulhu (if a.slt 0 then -a else a) (if b.slt 0 then -b else b)
  if negate then ~~~res + boolReg (a * b == 0) else res

def mulhsu (a b : Reg) : Reg :=
  let negate := a.slt 0
  let res := mulhu (if a.slt 0 then -a else a) b
  if negate then ~~~res + boolReg (a * b == 0) else res

namespace Insns

open Handler

/-! ## Operands -/

def rd (c : Ctx) : Fin 32 := c.insn.rd
def rs1 (c : Ctx) (h : Hart) : Reg := h.xpr c.insn.rs1
def rs2 (c : Ctx) (h : Hart) : Reg := h.xpr c.insn.rs2
def rvcRs1 (c : Ctx) (h : Hart) : Reg := h.xpr (regIndex c.insn.rvcRs1)
def rvcRs2 (c : Ctx) (h : Hart) : Reg := h.xpr (regIndex c.insn.rvcRs2)
def rvcRs1s (c : Ctx) (h : Hart) : Reg := h.xpr c.insn.rvcRs1s
def rvcRs2s (c : Ctx) (h : Hart) : Reg := h.xpr c.insn.rvcRs2s
def rvcSp (h : Hart) : Reg := h.xpr 2
def rvcFrs2 (c : Ctx) (h : Hart) : Reg := h.fpr (regIndex c.insn.rvcRs2)
def rvcFrs2s (c : Ctx) (h : Hart) : Reg := h.fpr c.insn.rvcRs2s
def shamt (c : Ctx) : Reg := c.insn.iImm &&& 0x3F
def xlenReg (c : Ctx) : Reg := BitVec.ofNat 64 c.xlen.bits

/-! ## Integer arithmetic -/

def add := compute [] rd fun c h => sextXlen c.xlen (rs1 c h + rs2 c h)
def addi := compute [] rd fun c h => sextXlen c.xlen (rs1 c h + c.insn.iImm)
def addiw := compute [.rv64] rd fun c h => sext32 (c.insn.iImm + rs1 c h)
def addw := compute [.rv64] rd fun c h => sext32 (rs1 c h + rs2 c h)
def and := compute [] rd fun c h => rs1 c h &&& rs2 c h
def andi := compute [] rd fun c h => c.insn.iImm &&& rs1 c h
def auipc := compute [] rd fun c _ => sextXlen c.xlen (c.insn.uImm + c.pc)
def lui := compute [] rd fun c _ => c.insn.uImm
def or := compute [] rd fun c h => rs1 c h ||| rs2 c h
def ori := compute [] rd fun c h => c.insn.iImm ||| rs1 c h
def sll := compute [] rd fun c h =>
  sextXlen c.xlen (rs1 c h <<< (rs2 c h &&& (xlenReg c - 1)))
def slli (c : Ctx) := compute [.that (shamt c < xlenReg c)] rd
  (fun c h => sextXlen c.xlen (rs1 c h <<< shamt c)) c
def slliw := compute [.rv64] rd fun c h => sext32 (rs1 c h <<< shamt c)
def sllw := compute [.rv64] rd fun c h => sext32 (rs1 c h <<< (rs2 c h &&& 0x1F))
def slt := compute [] rd fun c h => boolReg ((rs1 c h).slt (rs2 c h))
def slti := compute [] rd fun c h => boolReg ((rs1 c h).slt c.insn.iImm)
def sltiu := compute [] rd fun c h => boolReg (rs1 c h < c.insn.iImm)
def sltu := compute [] rd fun c h => boolReg (rs1 c h < rs2 c h)
def sra := compute [] rd fun c h => sextXlen c.xlen
  ((sextXlen c.xlen (rs1 c h)).sshiftRight (rs2 c h &&& (xlenReg c - 1)).toNat)
def srai (c : Ctx) := compute [.that (shamt c < xlenReg c)] rd
  (fun c h => sextXlen c.xlen ((sextXlen c.xlen (rs1 c h)).sshiftRight (shamt c).toNat)) c
/-- A shift of `int32_t`; the host takes the count modulo 32. -/
def sraiw := compute [.rv64] rd fun c h =>
  ((rs1 c h).setWidth 32 |>.sshiftRight ((shamt c).toNat % 32)).signExtend 64
def sraw := compute [.rv64] rd fun c h =>
  ((rs1 c h).setWidth 32 |>.sshiftRight (rs2 c h &&& 0x1F).toNat).signExtend 64
def srl := compute [] rd fun c h =>
  sextXlen c.xlen (zextXlen c.xlen (rs1 c h) >>> (rs2 c h &&& (xlenReg c - 1)))
def srli (c : Ctx) := compute [.that (shamt c < xlenReg c)] rd
  (fun c h => sextXlen c.xlen (zextXlen c.xlen (rs1 c h) >>> shamt c)) c
def srliw := compute [.rv64] rd fun c h =>
  ((rs1 c h).setWidth 32 >>> ((shamt c).toNat % 32)).signExtend 64
def srlw := compute [.rv64] rd fun c h =>
  ((rs1 c h).setWidth 32 >>> (rs2 c h &&& 0x1F).toNat).signExtend 64
def sub := compute [] rd fun c h => sextXlen c.xlen (rs1 c h - rs2 c h)
def subw := compute [.rv64] rd fun c h => sext32 (rs1 c h - rs2 c h)
def xor := compute [] rd fun c h => rs1 c h ^^^ rs2 c h
def xori := compute [] rd fun c h => c.insn.iImm ^^^ rs1 c h

def div := compute [.extension 'M'] rd fun c h =>
  let lhs := sextXlen c.xlen (rs1 c h)
  let rhs := sextXlen c.xlen (rs2 c h)
  if rhs = 0 then -1
  else if lhs = 0x8000000000000000 ∧ rhs = -1 then lhs
  else sextXlen c.xlen (lhs.sdiv rhs)
def divu := compute [.extension 'M'] rd fun c h =>
  let lhs := zextXlen c.xlen (rs1 c h)
  let rhs := zextXlen c.xlen (rs2 c h)
  if rhs = 0 then -1 else sextXlen c.xlen (lhs / rhs)
def divuw := compute [.extension 'M', .rv64] rd fun c h =>
  let lhs := zext32 (rs1 c h)
  let rhs := zext32 (rs2 c h)
  if rhs = 0 then -1 else sext32 (lhs / rhs)
def divw := compute [.extension 'M', .rv64] rd fun c h =>
  let lhs := sext32 (rs1 c h)
  let rhs := sext32 (rs2 c h)
  if rhs = 0 then -1 else sext32 (lhs.sdiv rhs)
def mul := compute [.extension 'M'] rd fun c h => sextXlen c.xlen (rs1 c h * rs2 c h)
def mulh := compute [.extension 'M'] rd fun c h =>
  if c.xlen = .rv64 then Riscv.mulh (rs1 c h) (rs2 c h)
  else sext32 ((sext32 (rs1 c h) * sext32 (rs2 c h)).sshiftRight 32)
def mulhsu := compute [.extension 'M'] rd fun c h =>
  if c.xlen = .rv64 then Riscv.mulhsu (rs1 c h) (rs2 c h)
  else sext32 ((sext32 (rs1 c h) * zext32 (rs2 c h)) >>> 32)
def mulhu := compute [.extension 'M'] rd fun c h =>
  if c.xlen = .rv64 then Riscv.mulhu (rs1 c h) (rs2 c h)
  else sext32 ((zext32 (rs1 c h) * zext32 (rs2 c h)) >>> 32)
def mulw := compute [.extension 'M', .rv64] rd fun c h => sext32 (rs1 c h * rs2 c h)
def rem := compute [.extension 'M'] rd fun c h =>
  let lhs := sextXlen c.xlen (rs1 c h)
  let rhs := sextXlen c.xlen (rs2 c h)
  if rhs = 0 then lhs
  else if lhs = 0x8000000000000000 ∧ rhs = -1 then 0
  else sextXlen c.xlen (lhs.srem rhs)
def remu := compute [.extension 'M'] rd fun c h =>
  let lhs := zextXlen c.xlen (rs1 c h)
  let rhs := zextXlen c.xlen (rs2 c h)
  if rhs = 0 then sextXlen c.xlen (rs1 c h) else sextXlen c.xlen (lhs % rhs)
def remuw := compute [.extension 'M', .rv64] rd fun c h =>
  let lhs := zext32 (rs1 c h)
  let rhs := zext32 (rs2 c h)
  if rhs = 0 then sext32 lhs else sext32 (lhs % rhs)
def remw := compute [.extension 'M', .rv64] rd fun c h =>
  let lhs := sext32 (rs1 c h)
  let rhs := sext32 (rs2 c h)
  if rhs = 0 then lhs else sext32 (lhs.srem rhs)

/-! ## Control flow -/

def branchTarget (c : Ctx) : Reg := c.pc + c.insn.sbImm

def beq := branch [] (fun c h => rs1 c h == rs2 c h) branchTarget
def bge := branch [] (fun c h => (rs2 c h).sle (rs1 c h)) branchTarget
def bgeu := branch [] (fun c h => rs2 c h ≤ rs1 c h) branchTarget
def blt := branch [] (fun c h => (rs1 c h).slt (rs2 c h)) branchTarget
def bltu := branch [] (fun c h => rs1 c h < rs2 c h) branchTarget
def bne := branch [] (fun c h => rs1 c h != rs2 c h) branchTarget
def jal := jump [] (fun c _ => c.pc + c.insn.ujImm) fun c => some (rd c)
def jalr := jump [] (fun c h => (rs1 c h + c.insn.iImm) &&& ~~~1) fun c => some (rd c)

/-! ## Memory -/

def loadAddr (c : Ctx) (h : Hart) : Reg := rs1 c h + c.insn.iImm
def storeAddr (c : Ctx) (h : Hart) : Reg := rs1 c h + c.insn.sImm
def toRd (c : Ctx) : Dest := .x (rd c)
def toFrd (c : Ctx) : Dest := .f c.insn.rd

def lb := loadTo [] int8 loadAddr toRd
def lbu := loadTo [] uint8 loadAddr toRd
def ld := loadTo [.rv64] int64 loadAddr toRd
def lh := loadTo [] int16 loadAddr toRd
def lhu := loadTo [] uint16 loadAddr toRd
def lw := loadTo [] int32 loadAddr toRd
def lwu := loadTo [.rv64] uint32 loadAddr toRd
def sb := storeFrom [] uint8 storeAddr rs2
def sd := storeFrom [.rv64] uint64 storeAddr rs2
def sh := storeFrom [] uint16 storeAddr rs2
def sw := storeFrom [] uint32 storeAddr rs2
def fld := loadTo [.extension 'D', .fp] int64 loadAddr toFrd
def flw := loadTo [.extension 'F', .fp] uint32 loadAddr toFrd
def fsd := storeFrom [.extension 'D', .fp] uint64 storeAddr fun c h => h.fpr c.insn.rs2
def fsw := storeFrom [.extension 'F', .fp] uint32 storeAddr fun c h => h.fpr c.insn.rs2

/-! ## Atomics -/

/-- `amo_uint32` and `amo_uint64`; the 32-bit result is sign-extended. -/
def amoW (f : Reg → Reg → Reg) := amoOp [.extension 'A'] uint32 f sext32
def amoD (f : Reg → Reg → Reg) := amoOp [.extension 'A', .rv64] uint64 f id

/-- `std::max` and `std::min`, signed and unsigned, on a value of the width. -/
def maxS (a b : Reg) : Reg := if a.slt b then b else a
def minS (a b : Reg) : Reg := if b.slt a then b else a
def maxU (a b : Reg) : Reg := if a < b then b else a
def minU (a b : Reg) : Reg := if b < a then b else a

def amoaddD := amoD fun lhs b => lhs + b
def amoaddW := amoW fun lhs b => lhs + b
def amoandD := amoD fun lhs b => lhs &&& b
def amoandW := amoW fun lhs b => lhs &&& b
def amomaxD := amoD maxS
def amomaxW := amoW fun lhs b => maxS (sext32 lhs) (sext32 b)
def amomaxuD := amoD maxU
def amomaxuW := amoW fun lhs b => maxU lhs (zext32 b)
def amominD := amoD minS
def amominW := amoW fun lhs b => minS (sext32 lhs) (sext32 b)
def amominuD := amoD minU
def amominuW := amoW fun lhs b => minU lhs (zext32 b)
def amoorD := amoD fun lhs b => lhs ||| b
def amoorW := amoW fun lhs b => lhs ||| b
def amoswapD := amoD fun _ b => b
def amoswapW := amoW fun _ b => b
def amoxorD := amoD fun lhs b => lhs ^^^ b
def amoxorW := amoW fun lhs b => lhs ^^^ b
def lrD := loadReserved [.extension 'A', .rv64] int64
def lrW := loadReserved [.extension 'A'] int32
def scD := storeConditional [.extension 'A', .rv64] uint64
def scW := storeConditional [.extension 'A'] uint32

/-! ## System -/

/-- The CSR instructions that read and then set or clear write nothing if their
operand field is zero. -/
def operandGiven (c : Ctx) : Bool := c.insn.rs1Bits != 0

def csrrw := csrOp (fun _ => true) fun c h _ => rs1 c h
def csrrwi := csrOp (fun _ => true) fun c _ _ => c.insn.rs1Bits
def csrrs := csrOp operandGiven fun c h old => old ||| rs1 c h
def csrrsi := csrOp operandGiven fun c _ old => old ||| c.insn.rs1Bits
def csrrc := csrOp operandGiven fun c h old => old &&& ~~~rs1 c h
def csrrci := csrOp operandGiven fun c _ old => old &&& ~~~c.insn.rs1Bits

def dret (c : Ctx) : Handler Reg := do
  requireAll c [.privilege prvM]
  let h ← readHart
  let npc ← setPcAndSerialize c h.dpc
  act (.setPrivilege h.dcsr.prv)
  act .leaveDebugMode
  pure npc

def ebreak (_ : Ctx) : Handler Reg := .raise (.trap .breakpoint)

def ecall (_ : Ctx) : Handler Reg := do
  let h ← readHart
  .raise (.trap (
    if h.prv = prvU then .userEcall
    else if h.prv = prvS then .supervisorEcall
    else if h.prv = prvH then .hypervisorEcall
    else .machineEcall))

def fence (c : Ctx) : Handler Reg := pure c.npc
def wfi (c : Ctx) : Handler Reg := pure c.npc

def fenceI (c : Ctx) : Handler Reg := do
  act .flushIcache
  pure c.npc

def sfenceVm (c : Ctx) : Handler Reg := do
  requireAll c [.privilege prvS]
  act .flushTlb
  pure c.npc

def mret := trapReturn prvM Hart.mepc mstatusMpp mstatusMpie
def sret := trapReturn prvS Hart.sepc mstatusSpp mstatusSpie

/-! ## Compressed instructions -/

def cAdd (c : Ctx) := compute [.extension 'C', .that (c.insn.rvcRs2 != 0)] rd
  (fun c h => sextXlen c.xlen (rvcRs1 c h + rvcRs2 c h)) c
def cAddi := compute [.extension 'C'] rd fun c h => sextXlen c.xlen (rvcRs1 c h + c.insn.rvcImm)
def cAddi4spn (c : Ctx) := compute [.extension 'C', .that (c.insn.rvcAddi4spnImm != 0)]
  (fun c => c.insn.rvcRs2s) (fun c h => sextXlen c.xlen (rvcSp h + c.insn.rvcAddi4spnImm)) c
def cAddw := compute [.extension 'C', .rv64] (fun c => c.insn.rvcRs1s) fun c h =>
  sext32 (rvcRs1s c h + rvcRs2s c h)
def cAnd := compute [.extension 'C'] (fun c => c.insn.rvcRs1s) fun c h => rvcRs1s c h &&& rvcRs2s c h
def cAndi := compute [.extension 'C'] (fun c => c.insn.rvcRs1s) fun c h =>
  rvcRs1s c h &&& c.insn.rvcImm
def cBeqz := branch [.extension 'C'] (fun c h => rvcRs1s c h == 0) fun c => c.pc + c.insn.rvcBImm
def cBnez := branch [.extension 'C'] (fun c h => rvcRs1s c h != 0) fun c => c.pc + c.insn.rvcBImm
def cEbreak (c : Ctx) : Handler Reg := do
  requireAll c [.extension 'C']
  .raise (.trap .breakpoint)
def cFld := loadTo [.extension 'C', .extension 'D', .fp] int64
  (fun c h => rvcRs1s c h + c.insn.rvcLdImm) fun c => .f c.insn.rvcRs2s
def cFldsp := loadTo [.extension 'C', .extension 'D', .fp] int64
  (fun c h => rvcSp h + c.insn.rvcLdspImm) toFrd
/-- `c.flw` on RV32, `c.ld` on RV64. -/
def cFlw (c : Ctx) : Handler Reg :=
  match c.xlen with
  | .rv32 => loadTo [.extension 'C', .extension 'F', .fp] int32
      (fun c h => rvcRs1s c h + c.insn.rvcLwImm) (fun c => .f c.insn.rvcRs2s) c
  | .rv64 => loadTo [.extension 'C'] int64
      (fun c h => rvcRs1s c h + c.insn.rvcLdImm) (fun c => .x c.insn.rvcRs2s) c
/-- `c.flwsp` on RV32, `c.ldsp` on RV64. -/
def cFlwsp (c : Ctx) : Handler Reg :=
  match c.xlen with
  | .rv32 => loadTo [.extension 'C', .extension 'F', .fp] int32
      (fun c h => rvcSp h + c.insn.rvcLwspImm) toFrd c
  | .rv64 => loadTo [.extension 'C', .that (c.insn.rvcRd != 0)] int64
      (fun c h => rvcSp h + c.insn.rvcLdspImm) toRd c
def cFsd := storeFrom [.extension 'C', .extension 'D', .fp] uint64
  (fun c h => rvcRs1s c h + c.insn.rvcLdImm) rvcFrs2s
def cFsdsp := storeFrom [.extension 'C', .extension 'D', .fp] uint64
  (fun c h => rvcSp h + c.insn.rvcSdspImm) rvcFrs2
/-- `c.fsw` on RV32, `c.sd` on RV64. -/
def cFsw (c : Ctx) : Handler Reg :=
  match c.xlen with
  | .rv32 => storeFrom [.extension 'C', .extension 'F', .fp] uint32
      (fun c h => rvcRs1s c h + c.insn.rvcLwImm) rvcFrs2s c
  | .rv64 => storeFrom [.extension 'C'] uint64
      (fun c h => rvcRs1s c h + c.insn.rvcLdImm) rvcRs2s c
/-- `c.fswsp` on RV32, `c.sdsp` on RV64. -/
def cFswsp (c : Ctx) : Handler Reg :=
  match c.xlen with
  | .rv32 => storeFrom [.extension 'C', .extension 'F', .fp] uint32
      (fun c h => rvcSp h + c.insn.rvcSwspImm) rvcFrs2 c
  | .rv64 => storeFrom [.extension 'C'] uint64
      (fun c h => rvcSp h + c.insn.rvcSdspImm) rvcRs2 c
def cJ := jump [.extension 'C'] (fun c _ => c.pc + c.insn.rvcJImm) fun _ => none
/-- `c.jal` on RV32, `c.addiw` on RV64. -/
def cJal (c : Ctx) : Handler Reg :=
  match c.xlen with
  | .rv32 => jump [.extension 'C'] (fun c _ => c.pc + c.insn.rvcJImm) (fun _ => some 1) c
  | .rv64 => compute [.extension 'C', .that (c.insn.rvcRd != 0)] rd
      (fun c h => sext32 (rvcRs1 c h + c.insn.rvcImm)) c
def cJalr (c : Ctx) := jump [.extension 'C', .that (c.insn.rvcRs1 != 0)]
  (fun c h => rvcRs1 c h &&& ~~~1) (fun _ => some 1) c
def cJr (c : Ctx) := jump [.extension 'C', .that (c.insn.rvcRs1 != 0)]
  (fun c h => rvcRs1 c h &&& ~~~1) (fun _ => none) c
def cLi (c : Ctx) := compute [.extension 'C', .that (c.insn.rvcRd != 0)] rd
  (fun c _ => c.insn.rvcImm) c
/-- `c.lui`, or `c.addi16sp` when the register is `sp`. -/
def cLui (c : Ctx) : Handler Reg :=
  if c.insn.rvcRd = 2 then
    compute [.extension 'C', .that (c.insn.rvcAddi16spImm != 0)] (fun _ => 2)
      (fun c h => sextXlen c.xlen (rvcSp h + c.insn.rvcAddi16spImm)) c
  else
    compute [.extension 'C', .that (c.insn.rvcRd != 0)] rd (fun c _ => c.insn.rvcImm <<< 12) c
def cLw := loadTo [.extension 'C'] int32
  (fun c h => rvcRs1s c h + c.insn.rvcLwImm) fun c => .x c.insn.rvcRs2s
def cLwsp (c : Ctx) := loadTo [.extension 'C', .that (c.insn.rvcRd != 0)] int32
  (fun c h => rvcSp h + c.insn.rvcLwspImm) toRd c
def cMv (c : Ctx) := compute [.extension 'C', .that (c.insn.rvcRs2 != 0)] rd rvcRs2 c
def cOr := compute [.extension 'C'] (fun c => c.insn.rvcRs1s) fun c h => rvcRs1s c h ||| rvcRs2s c h
def cSlli (c : Ctx) := compute [.extension 'C', .that (c.insn.rvcZimm < xlenReg c)] rd
  (fun c h => sextXlen c.xlen (rvcRs1 c h <<< c.insn.rvcZimm)) c
def cSrai (c : Ctx) := compute [.extension 'C', .that (c.insn.rvcZimm < xlenReg c)]
  (fun c => c.insn.rvcRs1s)
  (fun c h => sextXlen c.xlen ((sextXlen c.xlen (rvcRs1s c h)).sshiftRight c.insn.rvcZimm.toNat)) c
def cSrli (c : Ctx) := compute [.extension 'C', .that (c.insn.rvcZimm < xlenReg c)]
  (fun c => c.insn.rvcRs1s)
  (fun c h => sextXlen c.xlen (zextXlen c.xlen (rvcRs1s c h) >>> c.insn.rvcZimm)) c
def cSub := compute [.extension 'C'] (fun c => c.insn.rvcRs1s) fun c h =>
  sextXlen c.xlen (rvcRs1s c h - rvcRs2s c h)
def cSubw := compute [.extension 'C', .rv64] (fun c => c.insn.rvcRs1s) fun c h =>
  sext32 (rvcRs1s c h - rvcRs2s c h)
def cSw := storeFrom [.extension 'C'] uint32 (fun c h => rvcRs1s c h + c.insn.rvcLwImm) rvcRs2s
def cSwsp := storeFrom [.extension 'C'] uint32 (fun c h => rvcSp h + c.insn.rvcSwspImm) rvcRs2
def cXor := compute [.extension 'C'] (fun c => c.insn.rvcRs1s) fun c h =>
  rvcRs1s c h ^^^ rvcRs2s c h

/-! ## Floating point -/

/-- `require_extension` for a format, and `require_fp`. -/
def fpNeeds : Fmt → List Need
  | .f32 => [.extension 'F', .fp]
  | .f64 => [.extension 'D', .fp]

/-- The checks of a conversion that RV32 does not have. -/
def fpLongNeeds : Fmt → List Need
  | .f32 => [.extension 'F', .rv64, .fp]
  | .f64 => [.extension 'D', .rv64, .fp]

/-- `f32(x)` and `f64(x)`. -/
def operand (fmt : Fmt) (x : Reg) : BitVec fmt.bits := x.setWidth fmt.bits

def frs1 (fmt : Fmt) (c : Ctx) (h : Hart) : BitVec fmt.bits := operand fmt (h.fpr c.insn.rs1)
def frs2 (fmt : Fmt) (c : Ctx) (h : Hart) : BitVec fmt.bits := operand fmt (h.fpr c.insn.rs2)
def frs3 (fmt : Fmt) (c : Ctx) (h : Hart) : BitVec fmt.bits := operand fmt (h.fpr c.insn.rs3)

/-- A result of the library as a register value. -/
def fpValue {n : Nat} (r : BitVec n × BitVec 32) : FpResult := ⟨r.1.setWidth 64, r.2⟩

/-- A 32-bit integer result, sign-extended. -/
def fpWord (r : BitVec 32 × BitVec 32) : FpResult := ⟨r.1.signExtend 64, r.2⟩

def fpTruth (r : Bool × BitVec 32) : FpResult := ⟨boolReg r.1, r.2⟩

variable (F : SoftFloat)

/-- `fadd`, `fsub`, `fmul` and `fdiv`. -/
def fpBinary (fmt : Fmt) (f : (rm : Reg) → BitVec fmt.bits → BitVec fmt.bits →
    BitVec fmt.bits × BitVec 32) :=
  fpRounded (fpNeeds fmt) toFrd fun c rm h => fpValue (f rm (frs1 fmt c h) (frs2 fmt c h))

/-- The fused operations; the flags negate the first and the third operand. -/
def fpFused (fmt : Fmt) (neg1 neg3 : Bool) :=
  fpRounded (fpNeeds fmt) toFrd fun c rm h =>
    let sign (neg : Bool) (x : Reg) : BitVec fmt.bits :=
      operand fmt (if neg then x ^^^ fmt.signBit else x)
    fpValue (F.mulAdd fmt rm (sign neg1 (h.fpr c.insn.rs1)) (frs2 fmt c h)
      (sign neg3 (h.fpr c.insn.rs3)))

def fpCompare (fmt : Fmt) (f : BitVec fmt.bits → BitVec fmt.bits → Bool × BitVec 32) :=
  fpExact (fpNeeds fmt) toRd fun c h => fpTruth (f (frs1 fmt c h) (frs2 fmt c h))

/-- `fmin` and `fmax`: the first operand if the second is a NaN or the quiet
comparison holds.  A NaN cuts the comparison short, with its flags. -/
def fpSelect (fmt : Fmt) (f : Ctx → Hart → Bool × BitVec 32) :=
  fpExact (fpNeeds fmt) toFrd fun c h =>
    if isNaNUI fmt (h.fpr c.insn.rs2) then ⟨h.fpr c.insn.rs1, 0⟩
    else ⟨if (f c h).1 then h.fpr c.insn.rs1 else h.fpr c.insn.rs2, (f c h).2⟩

/-- The sign-injection instructions. -/
def fpSign (fmt : Fmt) (f : (a b : Reg) → Reg) :=
  computeFp (fpNeeds fmt) fun c h => f (h.fpr c.insn.rs1) (h.fpr c.insn.rs2)

def faddD := fpBinary .f64 (F.add .f64)
def faddS := fpBinary .f32 (F.add .f32)
def fclassD := compute (fpNeeds .f64) rd fun c h => classify .f64 (frs1 .f64 c h)
def fclassS := compute (fpNeeds .f32) rd fun c h => classify .f32 (frs1 .f32 c h)
def fcvtDL := fpRounded (fpLongNeeds .f64) toFrd fun c rm h => fpValue (F.ofI64 .f64 rm (rs1 c h))
def fcvtDLu := fpRounded (fpLongNeeds .f64) toFrd fun c rm h =>
  fpValue (F.ofUi64 .f64 rm (rs1 c h))
def fcvtDS := fpRounded (fpNeeds .f64) toFrd fun c rm h => fpValue (F.f32ToF64 rm (frs1 .f32 c h))
def fcvtDW := fpRounded (fpNeeds .f64) toFrd fun c rm h =>
  fpValue (F.ofI32 .f64 rm ((rs1 c h).setWidth 32))
def fcvtDWu := fpRounded (fpNeeds .f64) toFrd fun c rm h =>
  fpValue (F.ofUi32 .f64 rm ((rs1 c h).setWidth 32))
def fcvtLD := fpRounded (fpLongNeeds .f64) toRd fun c rm h =>
  fpValue (F.toI64 .f64 rm (frs1 .f64 c h))
def fcvtLS := fpRounded (fpLongNeeds .f32) toRd fun c rm h =>
  fpValue (F.toI64 .f32 rm (frs1 .f32 c h))
def fcvtLuD := fpRounded (fpLongNeeds .f64) toRd fun c rm h =>
  fpValue (F.toUi64 .f64 rm (frs1 .f64 c h))
def fcvtLuS := fpRounded (fpLongNeeds .f32) toRd fun c rm h =>
  fpValue (F.toUi64 .f32 rm (frs1 .f32 c h))
def fcvtSD := fpRounded (fpNeeds .f64) toFrd fun c rm h => fpValue (F.f64ToF32 rm (frs1 .f64 c h))
def fcvtSL := fpRounded (fpLongNeeds .f32) toFrd fun c rm h => fpValue (F.ofI64 .f32 rm (rs1 c h))
def fcvtSLu := fpRounded (fpLongNeeds .f32) toFrd fun c rm h =>
  fpValue (F.ofUi64 .f32 rm (rs1 c h))
def fcvtSW := fpRounded (fpNeeds .f32) toFrd fun c rm h =>
  fpValue (F.ofI32 .f32 rm ((rs1 c h).setWidth 32))
def fcvtSWu := fpRounded (fpNeeds .f32) toFrd fun c rm h =>
  fpValue (F.ofUi32 .f32 rm ((rs1 c h).setWidth 32))
def fcvtWD := fpRounded (fpNeeds .f64) toRd fun c rm h => fpWord (F.toI32 .f64 rm (frs1 .f64 c h))
def fcvtWS := fpRounded (fpNeeds .f32) toRd fun c rm h => fpWord (F.toI32 .f32 rm (frs1 .f32 c h))
def fcvtWuD := fpRounded (fpNeeds .f64) toRd fun c rm h =>
  fpWord (F.toUi32 .f64 rm (frs1 .f64 c h))
def fcvtWuS := fpRounded (fpNeeds .f32) toRd fun c rm h =>
  fpWord (F.toUi32 .f32 rm (frs1 .f32 c h))
def fdivD := fpBinary .f64 (F.div .f64)
def fdivS := fpBinary .f32 (F.div .f32)
def feqD := fpCompare .f64 (F.eq .f64)
def feqS := fpCompare .f32 (F.eq .f32)
def fleD := fpCompare .f64 (F.le .f64)
def fleS := fpCompare .f32 (F.le .f32)
def fltD := fpCompare .f64 (F.lt .f64)
def fltS := fpCompare .f32 (F.lt .f32)
def fmaddD := fpFused F .f64 false false
def fmaddS := fpFused F .f32 false false
def fmaxD := fpSelect .f64 fun c h => F.leQuiet .f64 (frs2 .f64 c h) (frs1 .f64 c h)
def fmaxS := fpSelect .f32 fun c h => F.leQuiet .f32 (frs2 .f32 c h) (frs1 .f32 c h)
def fminD := fpSelect .f64 fun c h => F.ltQuiet .f64 (frs1 .f64 c h) (frs2 .f64 c h)
def fminS := fpSelect .f32 fun c h => F.ltQuiet .f32 (frs1 .f32 c h) (frs2 .f32 c h)
def fmsubD := fpFused F .f64 false true
def fmsubS := fpFused F .f32 false true
def fmulD := fpBinary .f64 (F.mul .f64)
def fmulS := fpBinary .f32 (F.mul .f32)
def fmvDX := computeFp (fpLongNeeds .f64) rs1
def fmvSX := computeFp (fpNeeds .f32) fun c h => zext32 (rs1 c h)
def fmvXD := compute (fpLongNeeds .f64) rd fun c h => h.fpr c.insn.rs1
def fmvXS := compute (fpNeeds .f32) rd fun c h => sext32 (h.fpr c.insn.rs1)
def fnmaddD := fpFused F .f64 true true
def fnmaddS := fpFused F .f32 true true
def fnmsubD := fpFused F .f64 true false
def fnmsubS := fpFused F .f32 true false
def fsgnjD := fpSign .f64 fun a b =>
  (a &&& Fmt.f64.magnitude) ||| (b &&& Fmt.f64.signBit)
def fsgnjS := fpSign .f32 fun a b =>
  (a &&& Fmt.f32.magnitude) ||| (b &&& Fmt.f32.signBit)
def fsgnjnD := fpSign .f64 fun a b =>
  (a &&& Fmt.f64.magnitude) ||| (~~~b &&& Fmt.f64.signBit)
def fsgnjnS := fpSign .f32 fun a b =>
  (a &&& Fmt.f32.magnitude) ||| (~~~b &&& Fmt.f32.signBit)
def fsgnjxD := fpSign .f64 fun a b => a ^^^ (b &&& Fmt.f64.signBit)
def fsgnjxS := fpSign .f32 fun a b => a ^^^ (b &&& Fmt.f32.signBit)
def fsqrtD := fpRounded (fpNeeds .f64) toFrd fun c rm h => fpValue (F.sqrt .f64 rm (frs1 .f64 c h))
def fsqrtS := fpRounded (fpNeeds .f32) toFrd fun c rm h => fpValue (F.sqrt .f32 rm (frs1 .f32 c h))
def fsubD := fpBinary .f64 (F.sub .f64)
def fsubS := fpBinary .f32 (F.sub .f32)

end Insns

/-- The handler `insns/NAME.h`. -/
def handler (F : SoftFloat) : InsnName → Ctx → Handler Reg
  | .add => Insns.add
  | .addi => Insns.addi
  | .addiw => Insns.addiw
  | .addw => Insns.addw
  | .amoaddD => Insns.amoaddD
  | .amoaddW => Insns.amoaddW
  | .amoandD => Insns.amoandD
  | .amoandW => Insns.amoandW
  | .amomaxD => Insns.amomaxD
  | .amomaxuD => Insns.amomaxuD
  | .amomaxuW => Insns.amomaxuW
  | .amomaxW => Insns.amomaxW
  | .amominD => Insns.amominD
  | .amominuD => Insns.amominuD
  | .amominuW => Insns.amominuW
  | .amominW => Insns.amominW
  | .amoorD => Insns.amoorD
  | .amoorW => Insns.amoorW
  | .amoswapD => Insns.amoswapD
  | .amoswapW => Insns.amoswapW
  | .amoxorD => Insns.amoxorD
  | .amoxorW => Insns.amoxorW
  | .and => Insns.and
  | .andi => Insns.andi
  | .auipc => Insns.auipc
  | .beq => Insns.beq
  | .bge => Insns.bge
  | .bgeu => Insns.bgeu
  | .blt => Insns.blt
  | .bltu => Insns.bltu
  | .bne => Insns.bne
  | .cAdd => Insns.cAdd
  | .cAddi4spn => Insns.cAddi4spn
  | .cAddi => Insns.cAddi
  | .cAddw => Insns.cAddw
  | .cAnd => Insns.cAnd
  | .cAndi => Insns.cAndi
  | .cBeqz => Insns.cBeqz
  | .cBnez => Insns.cBnez
  | .cEbreak => Insns.cEbreak
  | .cFld => Insns.cFld
  | .cFldsp => Insns.cFldsp
  | .cFlw => Insns.cFlw
  | .cFlwsp => Insns.cFlwsp
  | .cFsd => Insns.cFsd
  | .cFsdsp => Insns.cFsdsp
  | .cFsw => Insns.cFsw
  | .cFswsp => Insns.cFswsp
  | .cJal => Insns.cJal
  | .cJalr => Insns.cJalr
  | .cJ => Insns.cJ
  | .cJr => Insns.cJr
  | .cLi => Insns.cLi
  | .cLui => Insns.cLui
  | .cLw => Insns.cLw
  | .cLwsp => Insns.cLwsp
  | .cMv => Insns.cMv
  | .cOr => Insns.cOr
  | .cSlli => Insns.cSlli
  | .cSrai => Insns.cSrai
  | .cSrli => Insns.cSrli
  | .cSub => Insns.cSub
  | .cSubw => Insns.cSubw
  | .cXor => Insns.cXor
  | .csrrc => Insns.csrrc
  | .csrrci => Insns.csrrci
  | .csrrs => Insns.csrrs
  | .csrrsi => Insns.csrrsi
  | .csrrw => Insns.csrrw
  | .csrrwi => Insns.csrrwi
  | .cSw => Insns.cSw
  | .cSwsp => Insns.cSwsp
  | .div => Insns.div
  | .divu => Insns.divu
  | .divuw => Insns.divuw
  | .divw => Insns.divw
  | .dret => Insns.dret
  | .ebreak => Insns.ebreak
  | .ecall => Insns.ecall
  | .faddD => Insns.faddD F
  | .faddS => Insns.faddS F
  | .fclassD => Insns.fclassD
  | .fclassS => Insns.fclassS
  | .fcvtDL => Insns.fcvtDL F
  | .fcvtDLu => Insns.fcvtDLu F
  | .fcvtDS => Insns.fcvtDS F
  | .fcvtDW => Insns.fcvtDW F
  | .fcvtDWu => Insns.fcvtDWu F
  | .fcvtLD => Insns.fcvtLD F
  | .fcvtLS => Insns.fcvtLS F
  | .fcvtLuD => Insns.fcvtLuD F
  | .fcvtLuS => Insns.fcvtLuS F
  | .fcvtSD => Insns.fcvtSD F
  | .fcvtSL => Insns.fcvtSL F
  | .fcvtSLu => Insns.fcvtSLu F
  | .fcvtSW => Insns.fcvtSW F
  | .fcvtSWu => Insns.fcvtSWu F
  | .fcvtWD => Insns.fcvtWD F
  | .fcvtWS => Insns.fcvtWS F
  | .fcvtWuD => Insns.fcvtWuD F
  | .fcvtWuS => Insns.fcvtWuS F
  | .fdivD => Insns.fdivD F
  | .fdivS => Insns.fdivS F
  | .fence => Insns.fence
  | .fenceI => Insns.fenceI
  | .feqD => Insns.feqD F
  | .feqS => Insns.feqS F
  | .fld => Insns.fld
  | .fleD => Insns.fleD F
  | .fleS => Insns.fleS F
  | .fltD => Insns.fltD F
  | .fltS => Insns.fltS F
  | .flw => Insns.flw
  | .fmaddD => Insns.fmaddD F
  | .fmaddS => Insns.fmaddS F
  | .fmaxD => Insns.fmaxD F
  | .fmaxS => Insns.fmaxS F
  | .fminD => Insns.fminD F
  | .fminS => Insns.fminS F
  | .fmsubD => Insns.fmsubD F
  | .fmsubS => Insns.fmsubS F
  | .fmulD => Insns.fmulD F
  | .fmulS => Insns.fmulS F
  | .fmvDX => Insns.fmvDX
  | .fmvSX => Insns.fmvSX
  | .fmvXD => Insns.fmvXD
  | .fmvXS => Insns.fmvXS
  | .fnmaddD => Insns.fnmaddD F
  | .fnmaddS => Insns.fnmaddS F
  | .fnmsubD => Insns.fnmsubD F
  | .fnmsubS => Insns.fnmsubS F
  | .fsd => Insns.fsd
  | .fsgnjD => Insns.fsgnjD
  | .fsgnjnD => Insns.fsgnjnD
  | .fsgnjnS => Insns.fsgnjnS
  | .fsgnjS => Insns.fsgnjS
  | .fsgnjxD => Insns.fsgnjxD
  | .fsgnjxS => Insns.fsgnjxS
  | .fsqrtD => Insns.fsqrtD F
  | .fsqrtS => Insns.fsqrtS F
  | .fsubD => Insns.fsubD F
  | .fsubS => Insns.fsubS F
  | .fsw => Insns.fsw
  | .jal => Insns.jal
  | .jalr => Insns.jalr
  | .lb => Insns.lb
  | .lbu => Insns.lbu
  | .ld => Insns.ld
  | .lh => Insns.lh
  | .lhu => Insns.lhu
  | .lrD => Insns.lrD
  | .lrW => Insns.lrW
  | .lui => Insns.lui
  | .lw => Insns.lw
  | .lwu => Insns.lwu
  | .mret => Insns.mret
  | .mul => Insns.mul
  | .mulh => Insns.mulh
  | .mulhsu => Insns.mulhsu
  | .mulhu => Insns.mulhu
  | .mulw => Insns.mulw
  | .or => Insns.or
  | .ori => Insns.ori
  | .rem => Insns.rem
  | .remu => Insns.remu
  | .remuw => Insns.remuw
  | .remw => Insns.remw
  | .sb => Insns.sb
  | .scD => Insns.scD
  | .scW => Insns.scW
  | .sd => Insns.sd
  | .sfenceVm => Insns.sfenceVm
  | .sh => Insns.sh
  | .sll => Insns.sll
  | .slli => Insns.slli
  | .slliw => Insns.slliw
  | .sllw => Insns.sllw
  | .slt => Insns.slt
  | .slti => Insns.slti
  | .sltiu => Insns.sltiu
  | .sltu => Insns.sltu
  | .sra => Insns.sra
  | .srai => Insns.srai
  | .sraiw => Insns.sraiw
  | .sraw => Insns.sraw
  | .sret => Insns.sret
  | .srl => Insns.srl
  | .srli => Insns.srli
  | .srliw => Insns.srliw
  | .srlw => Insns.srlw
  | .sub => Insns.sub
  | .subw => Insns.subw
  | .sw => Insns.sw
  | .wfi => Insns.wfi
  | .xor => Insns.xor
  | .xori => Insns.xori

/-- `rv32_NAME` and `rv64_NAME`: the length of the encoding decides where the
next instruction is. -/
def insnProgram (F : SoftFloat) (name : InsnName) (xlen : Xlen) (insn : Insn) (pc : Reg) :
    Handler Reg :=
  handler F name
    { xlen, insn, pc, npc := sextXlen xlen (pc + BitVec.ofNat 64 (insnLength name.encoding.1)) }

/-- The call of a handler.  The `custom` functions of a bare `rocc_t` raise an
illegal instruction. -/
def callFunc {β : Type} (P : Platform β) (F : SoftFloat) (func : Decode.InsnFunc) (insn : Insn)
    (pc : Reg) : M β Reg :=
  match func with
  | .rv32 name => (insnProgram F name .rv32 insn pc).run (Act.exec P)
  | .rv64 name => (insnProgram F name .rv64 insn pc).run (Act.exec P)
  | .custom _ | .illegalInstruction => throwTrap .illegalInstruction

end SpikeSim.Riscv
