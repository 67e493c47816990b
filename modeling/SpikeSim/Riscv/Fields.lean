/-
# Registers, fields and instruction words

The 64-bit arithmetic of the simulator: the field macros and width conversions of
`decode.h`, the operand accessors of `insn_t`, and the constants of `encoding.h`
that the hart uses.
-/

import SpikeSim.Decode.Encoding

namespace SpikeSim

/-- `reg_t`. -/
abbrev Reg := BitVec 64

/-- The number of bits of a register. -/
def Xlen.bits : Xlen → Nat
  | .rv32 => 32
  | .rv64 => 64

/-! ## Field macros and width conversions -/

def getField (reg mask : Reg) : Reg := (reg &&& mask) / (mask &&& ~~~(mask <<< 1))

def setField (reg mask val : Reg) : Reg :=
  (reg &&& ~~~mask) ||| ((val * (mask &&& ~~~(mask <<< 1))) &&& mask)

/-- `get_field` of a one-bit field, used as a truth value. -/
def hasField (reg mask : Reg) : Bool := getField reg mask != 0

def sext32 (x : Reg) : Reg := (x.setWidth 32).signExtend 64

def zext32 (x : Reg) : Reg := (x.setWidth 32).setWidth 64

def sextXlen (xlen : Xlen) (x : Reg) : Reg :=
  (x <<< (64 - xlen.bits)).sshiftRight (64 - xlen.bits)

def zextXlen (xlen : Xlen) (x : Reg) : Reg := (x <<< (64 - xlen.bits)) >>> (64 - xlen.bits)

/-- The value of a C++ comparison in an integer context. -/
def boolReg (b : Bool) : Reg := if b then 1 else 0

/-! ## Instruction words -/

/-- `insn_t`. -/
structure Insn where
  bits : InsnBits
  deriving DecidableEq, Repr

/-- A register number; the fields it is taken from are narrow enough. -/
def regIndex (v : Reg) : Fin 32 := Fin.ofNat 32 v.toNat

namespace Insn

variable (insn : Insn)

def x (lo len : Nat) : Reg := (insn.bits >>> lo) &&& ((1 <<< len) - 1)

def xs (lo len : Nat) : Reg := (insn.bits <<< (64 - lo - len)).sshiftRight (64 - len)

def immSign : Reg := insn.xs 63 1

def iImm : Reg := insn.bits.sshiftRight 20
def sImm : Reg := insn.x 7 5 + (insn.xs 25 7 <<< 5)
def sbImm : Reg :=
  (insn.x 8 4 <<< 1) + (insn.x 25 6 <<< 5) + (insn.x 7 1 <<< 11) + (insn.immSign <<< 12)
def uImm : Reg := insn.bits.sshiftRight 12 <<< 12
def ujImm : Reg :=
  (insn.x 21 10 <<< 1) + (insn.x 20 1 <<< 11) + (insn.x 12 8 <<< 12) + (insn.immSign <<< 20)

def rdBits : Reg := insn.x 7 5
def rs1Bits : Reg := insn.x 15 5
def rd : Fin 32 := regIndex insn.rdBits
def rs1 : Fin 32 := regIndex insn.rs1Bits
def rs2 : Fin 32 := regIndex (insn.x 20 5)
def rs3 : Fin 32 := regIndex (insn.x 27 5)
def rm : Reg := insn.x 12 3
def csr : Reg := insn.x 20 12

def rvcImm : Reg := insn.x 2 5 + (insn.xs 12 1 <<< 5)
def rvcZimm : Reg := insn.x 2 5 + (insn.x 12 1 <<< 5)
def rvcAddi4spnImm : Reg :=
  (insn.x 6 1 <<< 2) + (insn.x 5 1 <<< 3) + (insn.x 11 2 <<< 4) + (insn.x 7 4 <<< 6)
def rvcAddi16spImm : Reg :=
  (insn.x 6 1 <<< 4) + (insn.x 2 1 <<< 5) + (insn.x 5 1 <<< 6) + (insn.x 3 2 <<< 7) +
    (insn.xs 12 1 <<< 9)
def rvcLwspImm : Reg := (insn.x 4 3 <<< 2) + (insn.x 12 1 <<< 5) + (insn.x 2 2 <<< 6)
def rvcLdspImm : Reg := (insn.x 5 2 <<< 3) + (insn.x 12 1 <<< 5) + (insn.x 2 3 <<< 6)
def rvcSwspImm : Reg := (insn.x 9 4 <<< 2) + (insn.x 7 2 <<< 6)
def rvcSdspImm : Reg := (insn.x 10 3 <<< 3) + (insn.x 7 3 <<< 6)
def rvcLwImm : Reg := (insn.x 6 1 <<< 2) + (insn.x 10 3 <<< 3) + (insn.x 5 1 <<< 6)
def rvcLdImm : Reg := (insn.x 10 3 <<< 3) + (insn.x 5 2 <<< 6)
def rvcJImm : Reg :=
  (insn.x 3 3 <<< 1) + (insn.x 11 1 <<< 4) + (insn.x 2 1 <<< 5) + (insn.x 7 1 <<< 6) +
    (insn.x 6 1 <<< 7) + (insn.x 9 2 <<< 8) + (insn.x 8 1 <<< 10) + (insn.xs 12 1 <<< 11)
def rvcBImm : Reg :=
  (insn.x 3 2 <<< 1) + (insn.x 10 2 <<< 3) + (insn.x 2 1 <<< 5) + (insn.x 5 2 <<< 6) +
    (insn.xs 12 1 <<< 8)
def rvcRd : Reg := insn.rdBits
def rvcRs1 : Reg := insn.rdBits
def rvcRs2 : Reg := insn.x 2 5
def rvcRs1s : Fin 32 := regIndex (8 + insn.x 7 3)
def rvcRs2s : Fin 32 := regIndex (8 + insn.x 2 3)

end Insn

/-! ## Constants -/

def mstatusUie : Reg := 0x00000001
def mstatusSie : Reg := 0x00000002
def mstatusMie : Reg := 0x00000008
def mstatusSpie : Reg := 0x00000020
def mstatusMpie : Reg := 0x00000080
def mstatusSpp : Reg := 0x00000100
def mstatusMpp : Reg := 0x00001800
def mstatusFs : Reg := 0x00006000
def mstatusXs : Reg := 0x00018000
def mstatusMprv : Reg := 0x00020000
def mstatusPum : Reg := 0x00040000
def mstatusMxr : Reg := 0x00080000
def mstatusVm : Reg := 0x1F000000
def mstatus32Sd : Reg := 0x80000000
def mstatus64Sd : Reg := 0x8000000000000000

/-- The bits of `mstatus` that `sstatus` shows and lets write. -/
def sstatusMask : Reg :=
  mstatusSie ||| mstatusSpie ||| mstatusSpp ||| mstatusFs ||| mstatusXs ||| mstatusPum

def mipSsip : Reg := 1 <<< 1
def mipMsip : Reg := 1 <<< 3
def mipStip : Reg := 1 <<< 5
def mipMtip : Reg := 1 <<< 7
def mipSeip : Reg := 1 <<< 9

def delegableInts : Reg := mipSsip ||| mipStip ||| mipSeip ||| (1 <<< 12)

def allInts : Reg := delegableInts ||| mipMsip ||| mipMtip

/-- The privilege levels, `PRV_U` to `PRV_M`. -/
abbrev Prv := Fin 4

def prvU : Prv := 0
def prvS : Prv := 1
def prvH : Prv := 2
def prvM : Prv := 3

/-- A two-bit field as a privilege level. -/
def Prv.ofReg (v : Reg) : Prv := Fin.ofNat 4 v.toNat

def Prv.toReg (prv : Prv) : Reg := BitVec.ofNat 64 prv.val

def vmMbare : Reg := 0
def vmSv32 : Reg := 8
def vmSv39 : Reg := 9
def vmSv48 : Reg := 10

def pteV : Reg := 0x001
def pteR : Reg := 0x002
def pteW : Reg := 0x004
def pteX : Reg := 0x008
def pteU : Reg := 0x010
def pteA : Reg := 0x040
def pteD : Reg := 0x080

def dramBase : Reg := 0x80000000
def debugRomStart : Reg := 0x800
def debugRomException : Reg := debugRomStart + 8

/-- The sentinels that a handler returns instead of a next pc. -/
def pcSerializeBefore : Reg := 3
def pcSerializeAfter : Reg := 5

def invalidPc (pc : Reg) : Bool := pc &&& 1 != 0

end SpikeSim
