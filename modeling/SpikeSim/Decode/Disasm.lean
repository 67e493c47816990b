/-
# The disassembler

`disassembler_t` keeps its patterns in 257 chains: a pattern whose mask covers the low byte
goes to the chain of its low byte, any other to the last chain.  An instruction word is looked
up in the chain of its own low byte and then in the last one.

The patterns of `disassembler_t(xlen)` are those written out for the instructions and their
aliases, then one for each entry of `DECLARE_INSN`, which has no operands.  The macros of the
source are the functions from names of entries to patterns.
-/

import SpikeSim.Lib.HashChains
import SpikeSim.Riscv.Fields

namespace SpikeSim.Decode

/-! ## Patterns -/

/-- `disasm_insn_t`.  An operand is the function that prints it. -/
structure DisasmInsn where
  name : String
  matchBits : BitVec 32
  mask : BitVec 32
  args : List (Insn → String)

def hashSize : Nat := 256

namespace DisasmInsn

variable (p : DisasmInsn)

/-- `operator ==`. -/
def accepts (insn : Insn) : Bool := insn.bits &&& p.mask.setWidth 64 == p.matchBits.setWidth 64

def mnemonic : String := String.ofList (p.name.toList.map fun c => if c = '_' then '.' else c)

/-- `to_string`. -/
def toText (insn : Insn) : String :=
  match p.args with
  | [] => p.mnemonic
  | args => p.mnemonic ++ String.ofList (List.replicate (max 1 (8 - p.name.length)) ' ') ++
      ", ".intercalate (args.map fun arg => arg insn)

/-- The chain to which `add_insn` adds the pattern. -/
def home : Fin (hashSize + 1) :=
  if p.mask.toNat % hashSize = hashSize - 1 then
    ⟨p.matchBits.toNat % hashSize, (Nat.mod_lt _ (by decide)).trans (Nat.lt_succ_self _)⟩
  else Fin.last hashSize

end DisasmInsn

/-- `disassembler_t`. -/
structure Disassembler where
  chain : Fin (hashSize + 1) → List DisasmInsn

namespace Disassembler

def empty : Disassembler := ⟨fun _ => []⟩

def addInsn (d : Disassembler) (p : DisasmInsn) : Disassembler :=
  ⟨HashChains.push DisasmInsn.home d.chain p⟩

def lookup (d : Disassembler) (insn : Insn) : Option DisasmInsn :=
  let idx : Fin (hashSize + 1) :=
    ⟨insn.bits.toNat % hashSize, (Nat.mod_lt _ (by decide)).trans (Nat.lt_succ_self _)⟩
  HashChains.search (fun p => p.accepts insn) d.chain idx (Fin.last hashSize)

def disassemble (d : Disassembler) (insn : Insn) : String :=
  match d.lookup insn with
  | some p => p.toText insn
  | none => "unknown"

/-- A sequence of calls of `add_insn`. -/
def addAll (d : Disassembler) (ps : List DisasmInsn) : Disassembler := ps.foldl addInsn d

end Disassembler

/-! ## Operands -/

def xprName : List String :=
  ["zero", "ra", "sp", "gp", "tp", "t0", "t1", "t2", "s0", "s1", "a0", "a1", "a2", "a3", "a4",
   "a5", "a6", "a7", "s2", "s3", "s4", "s5", "s6", "s7", "s8", "s9", "s10", "s11", "t3", "t4",
   "t5", "t6"]

def fprName : List String :=
  ["ft0", "ft1", "ft2", "ft3", "ft4", "ft5", "ft6", "ft7", "fs0", "fs1", "fa0", "fa1", "fa2",
   "fa3", "fa4", "fa5", "fa6", "fa7", "fs2", "fs3", "fs4", "fs5", "fs6", "fs7", "fs8", "fs9",
   "fs10", "fs11", "ft8", "ft9", "ft10", "ft11"]

/-- `DECLARE_CSR`. -/
def declaredCsrs : List (Nat × String) :=
  [(0x001, "fflags"), (0x002, "frm"), (0x003, "fcsr"), (0xc00, "cycle"), (0xc01, "time"),
   (0xc02, "instret"), (0xc03, "hpmcounter3"), (0xc04, "hpmcounter4"), (0xc05, "hpmcounter5"),
   (0xc06, "hpmcounter6"), (0xc07, "hpmcounter7"), (0xc08, "hpmcounter8"), (0xc09, "hpmcounter9"),
   (0xc0a, "hpmcounter10"), (0xc0b, "hpmcounter11"), (0xc0c, "hpmcounter12"),
   (0xc0d, "hpmcounter13"), (0xc0e, "hpmcounter14"), (0xc0f, "hpmcounter15"),
   (0xc10, "hpmcounter16"), (0xc11, "hpmcounter17"), (0xc12, "hpmcounter18"),
   (0xc13, "hpmcounter19"), (0xc14, "hpmcounter20"), (0xc15, "hpmcounter21"),
   (0xc16, "hpmcounter22"), (0xc17, "hpmcounter23"), (0xc18, "hpmcounter24"),
   (0xc19, "hpmcounter25"), (0xc1a, "hpmcounter26"), (0xc1b, "hpmcounter27"),
   (0xc1c, "hpmcounter28"), (0xc1d, "hpmcounter29"), (0xc1e, "hpmcounter30"),
   (0xc1f, "hpmcounter31"), (0x100, "sstatus"), (0x104, "sie"), (0x105, "stvec"),
   (0x140, "sscratch"), (0x141, "sepc"), (0x142, "scause"), (0x143, "sbadaddr"), (0x144, "sip"),
   (0x180, "sptbr"), (0x300, "mstatus"), (0x301, "misa"), (0x302, "medeleg"), (0x303, "mideleg"),
   (0x304, "mie"), (0x305, "mtvec"), (0x340, "mscratch"), (0x341, "mepc"), (0x342, "mcause"),
   (0x343, "mbadaddr"), (0x344, "mip"), (0x7a0, "tselect"), (0x7a1, "tdata1"), (0x7a2, "tdata2"),
   (0x7a3, "tdata3"), (0x7b0, "dcsr"), (0x7b1, "dpc"), (0x7b2, "dscratch"), (0xb00, "mcycle"),
   (0xb02, "minstret"), (0xb03, "mhpmcounter3"), (0xb04, "mhpmcounter4"), (0xb05, "mhpmcounter5"),
   (0xb06, "mhpmcounter6"), (0xb07, "mhpmcounter7"), (0xb08, "mhpmcounter8"),
   (0xb09, "mhpmcounter9"), (0xb0a, "mhpmcounter10"), (0xb0b, "mhpmcounter11"),
   (0xb0c, "mhpmcounter12"), (0xb0d, "mhpmcounter13"), (0xb0e, "mhpmcounter14"),
   (0xb0f, "mhpmcounter15"), (0xb10, "mhpmcounter16"), (0xb11, "mhpmcounter17"),
   (0xb12, "mhpmcounter18"), (0xb13, "mhpmcounter19"), (0xb14, "mhpmcounter20"),
   (0xb15, "mhpmcounter21"), (0xb16, "mhpmcounter22"), (0xb17, "mhpmcounter23"),
   (0xb18, "mhpmcounter24"), (0xb19, "mhpmcounter25"), (0xb1a, "mhpmcounter26"),
   (0xb1b, "mhpmcounter27"), (0xb1c, "mhpmcounter28"), (0xb1d, "mhpmcounter29"),
   (0xb1e, "mhpmcounter30"), (0xb1f, "mhpmcounter31"), (0x320, "mucounteren"),
   (0x321, "mscounteren"), (0x323, "mhpmevent3"), (0x324, "mhpmevent4"), (0x325, "mhpmevent5"),
   (0x326, "mhpmevent6"), (0x327, "mhpmevent7"), (0x328, "mhpmevent8"), (0x329, "mhpmevent9"),
   (0x32a, "mhpmevent10"), (0x32b, "mhpmevent11"), (0x32c, "mhpmevent12"), (0x32d, "mhpmevent13"),
   (0x32e, "mhpmevent14"), (0x32f, "mhpmevent15"), (0x330, "mhpmevent16"), (0x331, "mhpmevent17"),
   (0x332, "mhpmevent18"), (0x333, "mhpmevent19"), (0x334, "mhpmevent20"), (0x335, "mhpmevent21"),
   (0x336, "mhpmevent22"), (0x337, "mhpmevent23"), (0x338, "mhpmevent24"), (0x339, "mhpmevent25"),
   (0x33a, "mhpmevent26"), (0x33b, "mhpmevent27"), (0x33c, "mhpmevent28"), (0x33d, "mhpmevent29"),
   (0x33e, "mhpmevent30"), (0x33f, "mhpmevent31"), (0xf11, "mvendorid"), (0xf12, "marchid"),
   (0xf13, "mimpid"), (0xf14, "mhartid"), (0xc80, "cycleh"), (0xc81, "timeh"), (0xc82, "instreth"),
   (0xc83, "hpmcounter3h"), (0xc84, "hpmcounter4h"), (0xc85, "hpmcounter5h"),
   (0xc86, "hpmcounter6h"), (0xc87, "hpmcounter7h"), (0xc88, "hpmcounter8h"),
   (0xc89, "hpmcounter9h"), (0xc8a, "hpmcounter10h"), (0xc8b, "hpmcounter11h"),
   (0xc8c, "hpmcounter12h"), (0xc8d, "hpmcounter13h"), (0xc8e, "hpmcounter14h"),
   (0xc8f, "hpmcounter15h"), (0xc90, "hpmcounter16h"), (0xc91, "hpmcounter17h"),
   (0xc92, "hpmcounter18h"), (0xc93, "hpmcounter19h"), (0xc94, "hpmcounter20h"),
   (0xc95, "hpmcounter21h"), (0xc96, "hpmcounter22h"), (0xc97, "hpmcounter23h"),
   (0xc98, "hpmcounter24h"), (0xc99, "hpmcounter25h"), (0xc9a, "hpmcounter26h"),
   (0xc9b, "hpmcounter27h"), (0xc9c, "hpmcounter28h"), (0xc9d, "hpmcounter29h"),
   (0xc9e, "hpmcounter30h"), (0xc9f, "hpmcounter31h"), (0xb80, "mcycleh"), (0xb82, "minstreth"),
   (0xb83, "mhpmcounter3h"), (0xb84, "mhpmcounter4h"), (0xb85, "mhpmcounter5h"),
   (0xb86, "mhpmcounter6h"), (0xb87, "mhpmcounter7h"), (0xb88, "mhpmcounter8h"),
   (0xb89, "mhpmcounter9h"), (0xb8a, "mhpmcounter10h"), (0xb8b, "mhpmcounter11h"),
   (0xb8c, "mhpmcounter12h"), (0xb8d, "mhpmcounter13h"), (0xb8e, "mhpmcounter14h"),
   (0xb8f, "mhpmcounter15h"), (0xb90, "mhpmcounter16h"), (0xb91, "mhpmcounter17h"),
   (0xb92, "mhpmcounter18h"), (0xb93, "mhpmcounter19h"), (0xb94, "mhpmcounter20h"),
   (0xb95, "mhpmcounter21h"), (0xb96, "mhpmcounter22h"), (0xb97, "mhpmcounter23h"),
   (0xb98, "mhpmcounter24h"), (0xb99, "mhpmcounter25h"), (0xb9a, "mhpmcounter26h"),
   (0xb9b, "mhpmcounter27h"), (0xb9c, "mhpmcounter28h"), (0xb9d, "mhpmcounter29h"),
   (0xb9e, "mhpmcounter30h"), (0xb9f, "mhpmcounter31h")]

namespace Arg

def xpr (reg : Fin 32) : String := xprName.getD reg ""

def fpr (reg : Fin 32) : String := fprName.getD reg ""

/-- `std::to_string((int)v)`. -/
def int (v : Reg) : String := toString (v.setWidth 32).toInt

def hex (n : Nat) : String := String.ofList (Nat.toDigits 16 n)

/-- An immediate and the register in brackets behind it. -/
def offset (imm : Reg) (reg : Fin 32) : String := int imm ++ "(" ++ xpr reg ++ ")"

/-- A target relative to the pc, printed in decimal. -/
def target (imm : Reg) : String :=
  let target := (imm.setWidth 32).toInt
  "pc " ++ (if 0 ≤ target then "+" else "-") ++ " " ++ toString target.natAbs

def loadAddress (insn : Insn) : String := offset insn.iImm insn.rs1
def storeAddress (insn : Insn) : String := offset insn.sImm insn.rs1
def amoAddress (insn : Insn) : String := "(" ++ xpr insn.rs1 ++ ")"
def xrd (insn : Insn) : String := xpr insn.rd
def xrs1 (insn : Insn) : String := xpr insn.rs1
def xrs2 (insn : Insn) : String := xpr insn.rs2
def frd (insn : Insn) : String := fpr insn.rd
def frs1 (insn : Insn) : String := fpr insn.rs1
def frs2 (insn : Insn) : String := fpr insn.rs2
def frs3 (insn : Insn) : String := fpr insn.rs3

def csr (insn : Insn) : String :=
  match declaredCsrs.lookup insn.csr.toNat with
  | some name => name
  | none =>
      let digits := Nat.toDigits 16 insn.csr.toNat
      "unknown_" ++ String.ofList (List.replicate (3 - digits.length) '0' ++ digits)

def imm (insn : Insn) : String := int insn.iImm
def bigimm (insn : Insn) : String := "0x" ++ hex ((insn.uImm.setWidth 32) >>> 12).toNat
def zimm5 (insn : Insn) : String := toString insn.rs1.val
def branchTarget (insn : Insn) : String := target insn.sbImm

def jumpTarget (insn : Insn) : String :=
  let target := (insn.ujImm.setWidth 32).toInt
  "pc " ++ (if 0 ≤ target then "+" else "-") ++ " 0x" ++ hex target.natAbs

def rvcRs1 (insn : Insn) : String := xpr (regIndex insn.rvcRs1)
def rvcRs2 (insn : Insn) : String := xpr (regIndex insn.rvcRs2)
def rvcRs1s (insn : Insn) : String := xpr insn.rvcRs1s
def rvcRs2s (insn : Insn) : String := xpr insn.rvcRs2s
def rvcSp (_ : Insn) : String := xpr 2
def rvcImm (insn : Insn) : String := int insn.rvcImm
def rvcAddi4spnImm (insn : Insn) : String := int insn.rvcAddi4spnImm
def rvcAddi16spImm (insn : Insn) : String := int insn.rvcAddi16spImm
def rvcShamt (insn : Insn) : String := int (insn.rvcImm &&& 0x3f)
def rvcUimm (insn : Insn) : String := "0x" ++ hex (insn.rvcImm.setWidth 32).toNat
def rvcLwspAddress (insn : Insn) : String := offset insn.rvcLwspImm 2
def rvcLdspAddress (insn : Insn) : String := offset insn.rvcLdspImm 2
def rvcSwspAddress (insn : Insn) : String := offset insn.rvcSwspImm 2
def rvcSdspAddress (insn : Insn) : String := offset insn.rvcSdspImm 2
def rvcLwAddress (insn : Insn) : String := offset insn.rvcLwImm insn.rvcRs1s
def rvcLdAddress (insn : Insn) : String := offset insn.rvcLdImm insn.rvcRs1s
def rvcBranchTarget (insn : Insn) : String := target insn.rvcBImm
def rvcJumpTarget (insn : Insn) : String := target insn.rvcJImm

end Arg

/-! ## The patterns of the constructor -/

/-- `DECLARE_INSN`: the name, the match word and the mask. -/
def declaredInsns : List (String × BitVec 32 × BitVec 32) :=
  [("beq", 0x63, 0x707f), ("bne", 0x1063, 0x707f), ("blt", 0x4063, 0x707f),
   ("bge", 0x5063, 0x707f), ("bltu", 0x6063, 0x707f), ("bgeu", 0x7063, 0x707f),
   ("jalr", 0x67, 0x707f), ("jal", 0x6f, 0x7f), ("lui", 0x37, 0x7f), ("auipc", 0x17, 0x7f),
   ("addi", 0x13, 0x707f), ("slli", 0x1013, 0xfc00707f), ("slti", 0x2013, 0x707f),
   ("sltiu", 0x3013, 0x707f), ("xori", 0x4013, 0x707f), ("srli", 0x5013, 0xfc00707f),
   ("srai", 0x40005013, 0xfc00707f), ("ori", 0x6013, 0x707f), ("andi", 0x7013, 0x707f),
   ("add", 0x33, 0xfe00707f), ("sub", 0x40000033, 0xfe00707f), ("sll", 0x1033, 0xfe00707f),
   ("slt", 0x2033, 0xfe00707f), ("sltu", 0x3033, 0xfe00707f), ("xor", 0x4033, 0xfe00707f),
   ("srl", 0x5033, 0xfe00707f), ("sra", 0x40005033, 0xfe00707f), ("or", 0x6033, 0xfe00707f),
   ("and", 0x7033, 0xfe00707f), ("addiw", 0x1b, 0x707f), ("slliw", 0x101b, 0xfe00707f),
   ("srliw", 0x501b, 0xfe00707f), ("sraiw", 0x4000501b, 0xfe00707f), ("addw", 0x3b, 0xfe00707f),
   ("subw", 0x4000003b, 0xfe00707f), ("sllw", 0x103b, 0xfe00707f), ("srlw", 0x503b, 0xfe00707f),
   ("sraw", 0x4000503b, 0xfe00707f), ("lb", 0x3, 0x707f), ("lh", 0x1003, 0x707f),
   ("lw", 0x2003, 0x707f), ("ld", 0x3003, 0x707f), ("lbu", 0x4003, 0x707f),
   ("lhu", 0x5003, 0x707f), ("lwu", 0x6003, 0x707f), ("sb", 0x23, 0x707f), ("sh", 0x1023, 0x707f),
   ("sw", 0x2023, 0x707f), ("sd", 0x3023, 0x707f), ("fence", 0xf, 0x707f),
   ("fence_i", 0x100f, 0x707f), ("mul", 0x2000033, 0xfe00707f), ("mulh", 0x2001033, 0xfe00707f),
   ("mulhsu", 0x2002033, 0xfe00707f), ("mulhu", 0x2003033, 0xfe00707f),
   ("div", 0x2004033, 0xfe00707f), ("divu", 0x2005033, 0xfe00707f), ("rem", 0x2006033, 0xfe00707f),
   ("remu", 0x2007033, 0xfe00707f), ("mulw", 0x200003b, 0xfe00707f),
   ("divw", 0x200403b, 0xfe00707f), ("divuw", 0x200503b, 0xfe00707f),
   ("remw", 0x200603b, 0xfe00707f), ("remuw", 0x200703b, 0xfe00707f),
   ("amoadd_w", 0x202f, 0xf800707f), ("amoxor_w", 0x2000202f, 0xf800707f),
   ("amoor_w", 0x4000202f, 0xf800707f), ("amoand_w", 0x6000202f, 0xf800707f),
   ("amomin_w", 0x8000202f, 0xf800707f), ("amomax_w", 0xa000202f, 0xf800707f),
   ("amominu_w", 0xc000202f, 0xf800707f), ("amomaxu_w", 0xe000202f, 0xf800707f),
   ("amoswap_w", 0x800202f, 0xf800707f), ("lr_w", 0x1000202f, 0xf9f0707f),
   ("sc_w", 0x1800202f, 0xf800707f), ("amoadd_d", 0x302f, 0xf800707f),
   ("amoxor_d", 0x2000302f, 0xf800707f), ("amoor_d", 0x4000302f, 0xf800707f),
   ("amoand_d", 0x6000302f, 0xf800707f), ("amomin_d", 0x8000302f, 0xf800707f),
   ("amomax_d", 0xa000302f, 0xf800707f), ("amominu_d", 0xc000302f, 0xf800707f),
   ("amomaxu_d", 0xe000302f, 0xf800707f), ("amoswap_d", 0x800302f, 0xf800707f),
   ("lr_d", 0x1000302f, 0xf9f0707f), ("sc_d", 0x1800302f, 0xf800707f), ("ecall", 0x73, 0xffffffff),
   ("ebreak", 0x100073, 0xffffffff), ("uret", 0x200073, 0xffffffff),
   ("sret", 0x10200073, 0xffffffff), ("hret", 0x20200073, 0xffffffff),
   ("mret", 0x30200073, 0xffffffff), ("dret", 0x7b200073, 0xffffffff),
   ("sfence_vm", 0x10400073, 0xfff07fff), ("wfi", 0x10500073, 0xffffffff),
   ("csrrw", 0x1073, 0x707f), ("csrrs", 0x2073, 0x707f), ("csrrc", 0x3073, 0x707f),
   ("csrrwi", 0x5073, 0x707f), ("csrrsi", 0x6073, 0x707f), ("csrrci", 0x7073, 0x707f),
   ("fadd_s", 0x53, 0xfe00007f), ("fsub_s", 0x8000053, 0xfe00007f),
   ("fmul_s", 0x10000053, 0xfe00007f), ("fdiv_s", 0x18000053, 0xfe00007f),
   ("fsgnj_s", 0x20000053, 0xfe00707f), ("fsgnjn_s", 0x20001053, 0xfe00707f),
   ("fsgnjx_s", 0x20002053, 0xfe00707f), ("fmin_s", 0x28000053, 0xfe00707f),
   ("fmax_s", 0x28001053, 0xfe00707f), ("fsqrt_s", 0x58000053, 0xfff0007f),
   ("fadd_d", 0x2000053, 0xfe00007f), ("fsub_d", 0xa000053, 0xfe00007f),
   ("fmul_d", 0x12000053, 0xfe00007f), ("fdiv_d", 0x1a000053, 0xfe00007f),
   ("fsgnj_d", 0x22000053, 0xfe00707f), ("fsgnjn_d", 0x22001053, 0xfe00707f),
   ("fsgnjx_d", 0x22002053, 0xfe00707f), ("fmin_d", 0x2a000053, 0xfe00707f),
   ("fmax_d", 0x2a001053, 0xfe00707f), ("fcvt_s_d", 0x40100053, 0xfff0007f),
   ("fcvt_d_s", 0x42000053, 0xfff0007f), ("fsqrt_d", 0x5a000053, 0xfff0007f),
   ("fle_s", 0xa0000053, 0xfe00707f), ("flt_s", 0xa0001053, 0xfe00707f),
   ("feq_s", 0xa0002053, 0xfe00707f), ("fle_d", 0xa2000053, 0xfe00707f),
   ("flt_d", 0xa2001053, 0xfe00707f), ("feq_d", 0xa2002053, 0xfe00707f),
   ("fcvt_w_s", 0xc0000053, 0xfff0007f), ("fcvt_wu_s", 0xc0100053, 0xfff0007f),
   ("fcvt_l_s", 0xc0200053, 0xfff0007f), ("fcvt_lu_s", 0xc0300053, 0xfff0007f),
   ("fmv_x_s", 0xe0000053, 0xfff0707f), ("fclass_s", 0xe0001053, 0xfff0707f),
   ("fcvt_w_d", 0xc2000053, 0xfff0007f), ("fcvt_wu_d", 0xc2100053, 0xfff0007f),
   ("fcvt_l_d", 0xc2200053, 0xfff0007f), ("fcvt_lu_d", 0xc2300053, 0xfff0007f),
   ("fmv_x_d", 0xe2000053, 0xfff0707f), ("fclass_d", 0xe2001053, 0xfff0707f),
   ("fcvt_s_w", 0xd0000053, 0xfff0007f), ("fcvt_s_wu", 0xd0100053, 0xfff0007f),
   ("fcvt_s_l", 0xd0200053, 0xfff0007f), ("fcvt_s_lu", 0xd0300053, 0xfff0007f),
   ("fmv_s_x", 0xf0000053, 0xfff0707f), ("fcvt_d_w", 0xd2000053, 0xfff0007f),
   ("fcvt_d_wu", 0xd2100053, 0xfff0007f), ("fcvt_d_l", 0xd2200053, 0xfff0007f),
   ("fcvt_d_lu", 0xd2300053, 0xfff0007f), ("fmv_d_x", 0xf2000053, 0xfff0707f),
   ("flw", 0x2007, 0x707f), ("fld", 0x3007, 0x707f), ("fsw", 0x2027, 0x707f),
   ("fsd", 0x3027, 0x707f), ("fmadd_s", 0x43, 0x600007f), ("fmsub_s", 0x47, 0x600007f),
   ("fnmsub_s", 0x4b, 0x600007f), ("fnmadd_s", 0x4f, 0x600007f), ("fmadd_d", 0x2000043, 0x600007f),
   ("fmsub_d", 0x2000047, 0x600007f), ("fnmsub_d", 0x200004b, 0x600007f),
   ("fnmadd_d", 0x200004f, 0x600007f), ("c_nop", 0x1, 0xffff), ("c_addi16sp", 0x6101, 0xef83),
   ("c_jr", 0x8002, 0xf07f), ("c_jalr", 0x9002, 0xf07f), ("c_ebreak", 0x9002, 0xffff),
   ("c_ld", 0x6000, 0xe003), ("c_sd", 0xe000, 0xe003), ("c_addiw", 0x2001, 0xe003),
   ("c_ldsp", 0x6002, 0xe003), ("c_sdsp", 0xe002, 0xe003), ("c_addi4spn", 0x0, 0xe003),
   ("c_fld", 0x2000, 0xe003), ("c_lw", 0x4000, 0xe003), ("c_flw", 0x6000, 0xe003),
   ("c_fsd", 0xa000, 0xe003), ("c_sw", 0xc000, 0xe003), ("c_fsw", 0xe000, 0xe003),
   ("c_addi", 0x1, 0xe003), ("c_jal", 0x2001, 0xe003), ("c_li", 0x4001, 0xe003),
   ("c_lui", 0x6001, 0xe003), ("c_srli", 0x8001, 0xec03), ("c_srai", 0x8401, 0xec03),
   ("c_andi", 0x8801, 0xec03), ("c_sub", 0x8c01, 0xfc63), ("c_xor", 0x8c21, 0xfc63),
   ("c_or", 0x8c41, 0xfc63), ("c_and", 0x8c61, 0xfc63), ("c_subw", 0x9c01, 0xfc63),
   ("c_addw", 0x9c21, 0xfc63), ("c_j", 0xa001, 0xe003), ("c_beqz", 0xc001, 0xe003),
   ("c_bnez", 0xe001, 0xe003), ("c_slli", 0x2, 0xe003), ("c_fldsp", 0x2002, 0xe003),
   ("c_lwsp", 0x4002, 0xe003), ("c_flwsp", 0x6002, 0xe003), ("c_mv", 0x8002, 0xf003),
   ("c_add", 0x9002, 0xf003), ("c_fsdsp", 0xa002, 0xe003), ("c_swsp", 0xc002, 0xe003),
   ("c_fswsp", 0xe002, 0xe003), ("custom0", 0xb, 0x707f), ("custom0_rs1", 0x200b, 0x707f),
   ("custom0_rs1_rs2", 0x300b, 0x707f), ("custom0_rd", 0x400b, 0x707f),
   ("custom0_rd_rs1", 0x600b, 0x707f), ("custom0_rd_rs1_rs2", 0x700b, 0x707f),
   ("custom1", 0x2b, 0x707f), ("custom1_rs1", 0x202b, 0x707f), ("custom1_rs1_rs2", 0x302b, 0x707f),
   ("custom1_rd", 0x402b, 0x707f), ("custom1_rd_rs1", 0x602b, 0x707f),
   ("custom1_rd_rs1_rs2", 0x702b, 0x707f), ("custom2", 0x5b, 0x707f),
   ("custom2_rs1", 0x205b, 0x707f), ("custom2_rs1_rs2", 0x305b, 0x707f),
   ("custom2_rd", 0x405b, 0x707f), ("custom2_rd_rs1", 0x605b, 0x707f),
   ("custom2_rd_rs1_rs2", 0x705b, 0x707f), ("custom3", 0x7b, 0x707f),
   ("custom3_rs1", 0x207b, 0x707f), ("custom3_rs1_rs2", 0x307b, 0x707f),
   ("custom3_rd", 0x407b, 0x707f), ("custom3_rd_rs1", 0x607b, 0x707f),
   ("custom3_rd_rs1_rs2", 0x707b, 0x707f)]

def matchOf (code : String) : BitVec 32 := ((declaredInsns.lookup code).getD (0, 0)).1
def maskOf (code : String) : BitVec 32 := ((declaredInsns.lookup code).getD (0, 0)).2

def maskRd : BitVec 32 := 0x1f <<< 7
def matchRdRa : BitVec 32 := 1 <<< 7
def maskRs1 : BitVec 32 := 0x1f <<< 15
def matchRs1Ra : BitVec 32 := 1 <<< 15
def maskRs2 : BitVec 32 := 0x1f <<< 20
def maskImm : BitVec 32 := 0xfff <<< 20
def matchImm1 : BitVec 32 := 1 <<< 20
def maskRvcRs2 : BitVec 32 := 0x1f <<< 2
def maskRvcImm : BitVec 32 := maskRvcRs2 ||| 0x1000

/-- `DISASM_INSN`. -/
def disasmInsn (name code : String) (extra : BitVec 32) (args : List (Insn → String)) :
    DisasmInsn :=
  ⟨name, matchOf code, maskOf code ||| extra, args⟩

section Macros

open Arg

def noarg (code : String) : DisasmInsn := disasmInsn code code 0 []
def rtype (code : String) : DisasmInsn := disasmInsn code code 0 [xrd, xrs1, xrs2]
def itype (code : String) : DisasmInsn := disasmInsn code code 0 [xrd, xrs1, imm]
def i0type (name code : String) : DisasmInsn := disasmInsn name code maskRs1 [xrd, imm]
def i1type (name code : String) : DisasmInsn := disasmInsn name code maskImm [xrd, xrs1]
def i2type (name code : String) : DisasmInsn := disasmInsn name code (maskRd ||| maskImm) [xrs1]
def ltype (code : String) : DisasmInsn := disasmInsn code code 0 [xrd, bigimm]
def btype (code : String) : DisasmInsn := disasmInsn code code 0 [xrs1, xrs2, branchTarget]
def b1type (name code : String) : DisasmInsn :=
  disasmInsn name code maskRs2 [xrs1, branchTarget]
def xload (code : String) : DisasmInsn := disasmInsn code code 0 [xrd, loadAddress]
def xstore (code : String) : DisasmInsn := disasmInsn code code 0 [xrs2, storeAddress]
def xamo (code : String) : DisasmInsn := disasmInsn code code 0 [xrd, xrs2, amoAddress]
def fload (code : String) : DisasmInsn := disasmInsn code code 0 [frd, loadAddress]
def fstore (code : String) : DisasmInsn := disasmInsn code code 0 [frs2, storeAddress]
def frtype (code : String) : DisasmInsn := disasmInsn code code 0 [frd, frs1, frs2]
def fr1type (code : String) : DisasmInsn := disasmInsn code code 0 [frd, frs1]
def fr3type (code : String) : DisasmInsn := disasmInsn code code 0 [frd, frs1, frs2, frs3]
def fxtype (code : String) : DisasmInsn := disasmInsn code code 0 [xrd, frs1]
def xftype (code : String) : DisasmInsn := disasmInsn code code 0 [frd, xrs1]

/-- The disassembly of single instructions. -/
def explicitInsns : List DisasmInsn :=
  [xload "lb", xload "lbu", xload "lh", xload "lhu", xload "lw", xload "lwu", xload "ld",
   xstore "sb", xstore "sh", xstore "sw", xstore "sd", xamo "amoadd_w", xamo "amoswap_w",
   xamo "amoand_w", xamo "amoor_w", xamo "amoxor_w", xamo "amomin_w", xamo "amomax_w",
   xamo "amominu_w", xamo "amomaxu_w", xamo "amoadd_d", xamo "amoswap_d", xamo "amoand_d",
   xamo "amoor_d", xamo "amoxor_d", xamo "amomin_d", xamo "amomax_d", xamo "amominu_d",
   xamo "amomaxu_d", xamo "lr_w", xamo "sc_w", xamo "lr_d", xamo "sc_d", fload "flw", fload "fld",
   fstore "fsw", fstore "fsd", ⟨"j", matchOf "jal", maskOf "jal" ||| maskRd, [jumpTarget]⟩,
   ⟨"jal", matchOf "jal" ||| matchRdRa, maskOf "jal" ||| maskRd, [jumpTarget]⟩,
   ⟨"jal", matchOf "jal", maskOf "jal", [xrd, jumpTarget]⟩, b1type "beqz" "beq",
   b1type "bnez" "bne", b1type "bltz" "blt", b1type "bgez" "bge", btype "beq", btype "bne",
   btype "blt", btype "bge", btype "bltu", btype "bgeu", ltype "lui", ltype "auipc",
   ⟨"ret", matchOf "jalr" ||| matchRs1Ra, maskOf "jalr" ||| maskRd ||| maskRs1 ||| maskImm, []⟩,
   i2type "jr" "jalr",
   ⟨"jalr", matchOf "jalr" ||| matchRdRa, maskOf "jalr" ||| maskRd ||| maskImm, [xrs1]⟩,
   itype "jalr", ⟨"nop", matchOf "addi", maskOf "addi" ||| maskRd ||| maskRs1 ||| maskImm, []⟩,
   ⟨" - ", matchOf "xor", maskOf "xor" ||| maskRd ||| maskRs1 ||| maskRs2, []⟩, i0type "li" "addi",
   i1type "mv" "addi", itype "addi", itype "slli", itype "slti",
   ⟨"seqz", matchOf "sltiu" ||| matchImm1, maskOf "sltiu" ||| maskImm, [xrd, xrs1]⟩, itype "sltiu",
   ⟨"not", matchOf "xori" ||| maskImm, maskOf "xori" ||| maskImm, [xrd, xrs1]⟩, itype "xori",
   itype "srli", itype "srai", itype "ori", itype "andi", i1type "sext.w" "addiw", itype "addiw",
   itype "slliw", itype "srliw", itype "sraiw", rtype "add", rtype "sub", rtype "sll", rtype "slt",
   ⟨"snez", matchOf "sltu", maskOf "sltu" ||| maskRs1, [xrd, xrs2]⟩, rtype "sltu", rtype "xor",
   rtype "srl", rtype "sra", rtype "or", rtype "and", rtype "mul", rtype "mulh", rtype "mulhu",
   rtype "mulhsu", rtype "div", rtype "divu", rtype "rem", rtype "remu", rtype "addw",
   rtype "subw", rtype "sllw", rtype "srlw", rtype "sraw", rtype "mulw", rtype "divw",
   rtype "divuw", rtype "remw", rtype "remuw", noarg "ecall", noarg "ebreak", noarg "uret",
   noarg "sret", noarg "hret", noarg "mret", noarg "fence", noarg "fence_i",
   ⟨"csrr", matchOf "csrrs", maskOf "csrrs" ||| maskRs1, [xrd, csr]⟩,
   ⟨"csrw", matchOf "csrrw", maskOf "csrrw" ||| maskRd, [csr, xrs1]⟩,
   ⟨"csrs", matchOf "csrrs", maskOf "csrrs" ||| maskRd, [csr, xrs1]⟩,
   ⟨"csrc", matchOf "csrrc", maskOf "csrrc" ||| maskRd, [csr, xrs1]⟩,
   ⟨"csrwi", matchOf "csrrwi", maskOf "csrrwi" ||| maskRd, [csr, zimm5]⟩,
   ⟨"csrsi", matchOf "csrrsi", maskOf "csrrsi" ||| maskRd, [csr, zimm5]⟩,
   ⟨"csrci", matchOf "csrrci", maskOf "csrrci" ||| maskRd, [csr, zimm5]⟩,
   ⟨"csrrw", matchOf "csrrw", maskOf "csrrw", [xrd, csr, xrs1]⟩,
   ⟨"csrrs", matchOf "csrrs", maskOf "csrrs", [xrd, csr, xrs1]⟩,
   ⟨"csrrc", matchOf "csrrc", maskOf "csrrc", [xrd, csr, xrs1]⟩,
   ⟨"csrrwi", matchOf "csrrwi", maskOf "csrrwi", [xrd, csr, zimm5]⟩,
   ⟨"csrrsi", matchOf "csrrsi", maskOf "csrrsi", [xrd, csr, zimm5]⟩,
   ⟨"csrrci", matchOf "csrrci", maskOf "csrrci", [xrd, csr, zimm5]⟩, frtype "fadd_s",
   frtype "fsub_s", frtype "fmul_s", frtype "fdiv_s", fr1type "fsqrt_s", frtype "fmin_s",
   frtype "fmax_s", fr3type "fmadd_s", fr3type "fmsub_s", fr3type "fnmadd_s", fr3type "fnmsub_s",
   frtype "fsgnj_s", frtype "fsgnjn_s", frtype "fsgnjx_s", fr1type "fcvt_s_d", xftype "fcvt_s_l",
   xftype "fcvt_s_lu", xftype "fcvt_s_w", xftype "fcvt_s_wu", xftype "fcvt_s_wu", xftype "fmv_s_x",
   fxtype "fcvt_l_s", fxtype "fcvt_lu_s", fxtype "fcvt_w_s", fxtype "fcvt_wu_s", fxtype "fclass_s",
   fxtype "fmv_x_s", fxtype "feq_s", fxtype "flt_s", fxtype "fle_s", frtype "fadd_d",
   frtype "fsub_d", frtype "fmul_d", frtype "fdiv_d", fr1type "fsqrt_d", frtype "fmin_d",
   frtype "fmax_d", fr3type "fmadd_d", fr3type "fmsub_d", fr3type "fnmadd_d", fr3type "fnmsub_d",
   frtype "fsgnj_d", frtype "fsgnjn_d", frtype "fsgnjx_d", fr1type "fcvt_d_s", xftype "fcvt_d_l",
   xftype "fcvt_d_lu", xftype "fcvt_d_w", xftype "fcvt_d_wu", xftype "fcvt_d_wu", xftype "fmv_d_x",
   fxtype "fcvt_l_d", fxtype "fcvt_lu_d", fxtype "fcvt_w_d", fxtype "fcvt_wu_d", fxtype "fclass_d",
   fxtype "fmv_x_d", fxtype "feq_d", fxtype "flt_d", fxtype "fle_d",
   disasmInsn "ebreak" "c_add" (maskRd ||| maskRvcRs2) [],
   ⟨"ret", matchOf "c_li" ||| matchRdRa, maskOf "c_li" ||| maskRd ||| maskRvcImm, []⟩,
   disasmInsn "jr" "c_li" maskRvcImm [rvcRs1], disasmInsn "jalr" "c_lui" maskRvcImm [rvcRs1],
   disasmInsn "nop" "c_addi" (maskRd ||| maskRvcImm) [],
   disasmInsn "addi" "c_addi16sp" maskRd [rvcSp, rvcSp, rvcAddi16spImm],
   disasmInsn "addi" "c_addi4spn" 0 [rvcRs1s, rvcSp, rvcAddi4spnImm],
   disasmInsn "li" "c_li" 0 [xrd, rvcImm], disasmInsn "lui" "c_lui" 0 [xrd, rvcUimm],
   disasmInsn "addi" "c_addi" 0 [xrd, xrd, rvcImm], disasmInsn "slli" "c_slli" 0 [xrd, rvcShamt],
   disasmInsn "mv" "c_mv" 0 [xrd, rvcRs2], disasmInsn "add" "c_add" 0 [xrd, xrd, rvcRs2],
   disasmInsn "addw" "c_addw" 0 [rvcRs1s, rvcRs1s, rvcRs2s],
   disasmInsn "sub" "c_sub" 0 [rvcRs1s, rvcRs1s, rvcRs2s],
   disasmInsn "subw" "c_subw" 0 [rvcRs1s, rvcRs1s, rvcRs2s],
   disasmInsn "and" "c_and" 0 [rvcRs1s, rvcRs1s, rvcRs2s],
   disasmInsn "or" "c_or" 0 [rvcRs1s, rvcRs1s, rvcRs2s],
   disasmInsn "xor" "c_xor" 0 [rvcRs1s, rvcRs1s, rvcRs2s],
   disasmInsn "lw" "c_lwsp" 0 [xrd, rvcLwspAddress],
   disasmInsn "fld" "c_fld" 0 [rvcRs2s, rvcLdAddress],
   disasmInsn "sw" "c_swsp" 0 [rvcRs2, rvcSwspAddress],
   disasmInsn "lw" "c_lw" 0 [rvcRs2s, rvcLwAddress],
   disasmInsn "sw" "c_sw" 0 [rvcRs2s, rvcLwAddress],
   disasmInsn "beqz" "c_beqz" 0 [rvcRs1s, rvcBranchTarget],
   disasmInsn "bnez" "c_bnez" 0 [rvcRs1s, rvcBranchTarget], disasmInsn "j" "c_j" 0 [rvcJumpTarget]]

/-- The compressed instructions that depend on the width. -/
def explicitInsnsXlen (xlen : Int) : List DisasmInsn :=
  if xlen = 32 then
    [disasmInsn "flw" "c_flw" 0 [rvcRs2s, rvcLwAddress],
     disasmInsn "flw" "c_flwsp" 0 [xrd, rvcLwspAddress],
     disasmInsn "fsw" "c_fsw" 0 [rvcRs2s, rvcLwAddress],
     disasmInsn "fsw" "c_fswsp" 0 [rvcRs2, rvcSwspAddress],
     disasmInsn "jal" "c_jal" 0 [rvcJumpTarget]]
  else
    [disasmInsn "ld" "c_ld" 0 [rvcRs2s, rvcLdAddress],
     disasmInsn "ld" "c_ldsp" 0 [xrd, rvcLdspAddress],
     disasmInsn "sd" "c_sd" 0 [rvcRs2s, rvcLdAddress],
     disasmInsn "sd" "c_sdsp" 0 [rvcRs2, rvcSdspAddress],
     disasmInsn "addiw" "c_addiw" 0 [xrd, xrd, rvcImm]]

end Macros

/-- A default for every instruction. -/
def fallbackInsns : List DisasmInsn :=
  declaredInsns.map fun (code, matchBits, mask) => ⟨code ++ " (args unknown)", matchBits, mask, []⟩

/-- `disassembler_t(xlen)`. -/
def disassembler (xlen : Int) : Disassembler :=
  Disassembler.empty.addAll (explicitInsns ++ explicitInsnsXlen xlen ++ fallbackInsns)

/-! ## What is found -/

namespace DisasmInsn

variable {p : DisasmInsn} {insn : Insn}

/-- The mask covers the low 8 bits. -/
def CoversLow (p : DisasmInsn) : Prop := p.mask &&& 0xff = 0xff

instance (p : DisasmInsn) : Decidable p.CoversLow := inferInstanceAs (Decidable (_ = _))

theorem mod_eq_low {w : Nat} (v : BitVec w) : v.toNat % hashSize = (v.setWidth 8).toNat := by
  rw [BitVec.toNat_setWidth]
  rfl

/-- Such a pattern does not go to the last chain. -/
theorem coversLow_iff : p.CoversLow ↔ p.home ≠ Fin.last hashSize := by
  have hmask : p.CoversLow ↔ p.mask.toNat % hashSize = hashSize - 1 := by
    rw [CoversLow, ← BitVec.toNat_inj, BitVec.toNat_and,
      show (0xff : BitVec 32).toNat = 2 ^ 8 - 1 from rfl, Nat.and_two_pow_sub_one_eq_mod]
    rfl
  rw [hmask, home]
  split_ifs with h
  · refine iff_of_true h fun heq => ?_
    have hval := congrArg Fin.val heq
    have hlt := Nat.mod_lt p.matchBits.toNat (show 0 < hashSize by decide)
    rw [Fin.val_last] at hval
    exact absurd hval hlt.ne
  · exact iff_of_false h fun hne => hne rfl

/-- A word that is accepted is looked for in the chain of the pattern. -/
theorem home_of_accepts (h : p.accepts insn = true) :
    p.home.val = insn.bits.toNat % hashSize ∨ p.home = Fin.last hashSize := by
  rw [home]
  split_ifs with hmask
  · left
    have hall : p.mask.setWidth 8 = BitVec.allOnes 8 := by
      apply BitVec.eq_of_toNat_eq
      rw [BitVec.toNat_setWidth]
      exact hmask
    have hbits : insn.bits &&& p.mask.setWidth 64 = p.matchBits.setWidth 64 := by
      simpa [accepts] using h
    have hlow := congrArg (BitVec.setWidth 8) hbits
    rw [BitVec.setWidth_and, BitVec.setWidth_setWidth_of_le _ (by decide), hall,
      BitVec.setWidth_setWidth_of_le _ (by decide), BitVec.and_allOnes] at hlow
    change p.matchBits.toNat % hashSize = _
    rw [mod_eq_low, mod_eq_low, hlow]
  · exact .inr rfl

/-- Only the mnemonic of a pattern without operands could be mistaken. -/
theorem toText_ne_unknown (h : p.mnemonic ≠ "unknown") : p.toText insn ≠ "unknown" := by
  rw [toText]
  cases hargs : p.args with
  | nil => exact h
  | cons arg args =>
      intro heq
      have hspace : ' ' ∈ "unknown".toList := by
        rw [← heq, String.toList_append, String.toList_append, String.toList_ofList]
        apply List.mem_append_left
        apply List.mem_append_right
        rw [List.mem_replicate]
        exact ⟨(Nat.lt_of_lt_of_le Nat.one_pos (Nat.le_max_left 1 _)).ne', rfl⟩
      exact absurd hspace (by decide)

end DisasmInsn

namespace Disassembler

/-- **What `lookup` returns after a sequence of calls of `add_insn`.** -/
theorem lookup_addAll (ps : List DisasmInsn) (insn : Insn) :
    (empty.addAll ps).lookup insn =
      (ps.find? fun p => decide p.CoversLow && p.accepts insn).or
        (ps.find? fun p => p.accepts insn) := by
  have hchains : (empty.addAll ps).chain =
      ps.foldl (HashChains.push DisasmInsn.home) fun _ => [] := by
    have hfrom (d : Disassembler) : (d.addAll ps).chain =
        ps.foldl (HashChains.push DisasmInsn.home) d.chain := by
      induction ps generalizing d with
      | nil => rfl
      | cons p ps ih => exact ih (d.addInsn p)
    exact hfrom empty
  have hlt := Nat.mod_lt insn.bits.toNat (show 0 < hashSize by decide)
  have hne : (⟨insn.bits.toNat % hashSize, hlt.trans (Nat.lt_succ_self _)⟩ : Fin (hashSize + 1)) ≠
      Fin.last hashSize := by
    intro heq
    exact absurd (congrArg Fin.val heq) hlt.ne
  have hcovers : (fun p : DisasmInsn => decide (p.home ≠ Fin.last hashSize) && p.accepts insn) =
      fun p => decide p.CoversLow && p.accepts insn := by
    funext p
    rw [decide_eq_decide.mpr DisasmInsn.coversLow_iff]
  rw [lookup, hchains, HashChains.search_eq hne, hcovers]
  intro p _ hp
  exact (DisasmInsn.home_of_accepts hp).imp_left fun h => Fin.ext h

theorem exists_of_lookup {ps : List DisasmInsn} {insn : Insn} {p : DisasmInsn}
    (h : (empty.addAll ps).lookup insn = some p) : p ∈ ps ∧ p.accepts insn = true := by
  rw [lookup_addAll, Option.or_eq_some_iff] at h
  rcases h with h | ⟨-, h⟩
  · have hp := List.find?_some h
    rw [Bool.and_eq_true] at hp
    exact ⟨List.mem_of_find?_eq_some h, hp.2⟩
  · exact ⟨List.mem_of_find?_eq_some h, (List.find?_eq_some_iff_append.mp h).1⟩

theorem lookup_isSome {ps : List DisasmInsn} {insn : Insn} {p : DisasmInsn} (hp : p ∈ ps)
    (h : p.accepts insn = true) : ∃ q, (empty.addAll ps).lookup insn = some q := by
  rw [← Option.isSome_iff_exists, lookup_addAll, Option.isSome_or, Bool.or_eq_true]
  exact .inr (List.find?_isSome.mpr ⟨p, hp, h⟩)

end Disassembler

/-- No pattern of the constructor is called "unknown". -/
theorem mnemonic_ne_unknown (xlen : Int) :
    ∀ p ∈ explicitInsns ++ explicitInsnsXlen xlen ++ fallbackInsns, p.mnemonic ≠ "unknown" := by
  have hexplicit : ∀ p ∈ explicitInsns, p.mnemonic ≠ "unknown" := by decide +kernel
  have hxlen : ∀ p ∈ explicitInsnsXlen xlen, p.mnemonic ≠ "unknown" := by
    rw [explicitInsnsXlen]
    split_ifs
    · decide +kernel
    · decide +kernel
  have hfallback : ∀ p ∈ fallbackInsns, p.mnemonic ≠ "unknown" := by decide +kernel
  intro p hp
  rw [List.mem_append, List.mem_append] at hp
  rcases hp with (hp | hp) | hp
  · exact hexplicit p hp
  · exact hxlen p hp
  · exact hfallback p hp

/-- **Lookup is complete and sound.**  It returns a pattern exactly when some added pattern
matches, the earliest whose mask covers the low 8 bits or else the earliest; and a word that
matches an entry of `DECLARE_INSN` is never printed as "unknown". -/
theorem disassembler_lookup :
    (∀ (ps : List DisasmInsn) (insn : Insn),
      (Disassembler.empty.addAll ps).lookup insn =
        (ps.find? fun p => decide p.CoversLow && p.accepts insn).or
          (ps.find? fun p => p.accepts insn)) ∧
    (∀ (ps : List DisasmInsn) (insn : Insn),
      ((Disassembler.empty.addAll ps).lookup insn = none ↔ ∀ p ∈ ps, p.accepts insn = false) ∧
        ∀ p, (Disassembler.empty.addAll ps).lookup insn = some p →
          p ∈ ps ∧ p.accepts insn = true) ∧
    ∀ (xlen : Int) (insn : Insn), ∀ entry ∈ declaredInsns,
      insn.bits &&& entry.2.2.setWidth 64 = entry.2.1.setWidth 64 →
        (disassembler xlen).disassemble insn ≠ "unknown" := by
  refine ⟨Disassembler.lookup_addAll, fun ps insn => ⟨?_, fun p => ?_⟩, ?_⟩
  · constructor
    · intro hnone p hp
      rw [Bool.eq_false_iff]
      intro haccepts
      obtain ⟨q, hq⟩ := Disassembler.lookup_isSome hp haccepts
      rw [hnone] at hq
      cases hq
    · intro hall
      cases hfound : (Disassembler.empty.addAll ps).lookup insn with
      | none => rfl
      | some p =>
          obtain ⟨hp, haccepts⟩ := Disassembler.exists_of_lookup hfound
          rw [hall p hp] at haccepts
          cases haccepts
  · exact Disassembler.exists_of_lookup
  · intro xlen insn entry hentry hmatch
    let fallback : DisasmInsn := ⟨entry.1 ++ " (args unknown)", entry.2.1, entry.2.2, []⟩
    have hmem : fallback ∈ explicitInsns ++ explicitInsnsXlen xlen ++ fallbackInsns :=
      List.mem_append_right _ (List.mem_map.mpr ⟨entry, hentry, rfl⟩)
    obtain ⟨q, hq⟩ := Disassembler.lookup_isSome hmem
      (show fallback.accepts insn = true from beq_iff_eq.mpr hmatch)
    obtain ⟨hqmem, -⟩ := Disassembler.exists_of_lookup hq
    rw [Disassembler.disassemble, disassembler, hq]
    exact DisasmInsn.toText_ne_unknown (mnemonic_ne_unknown xlen q hqmem)

theorem disassembler_lookup_add : (disassembler 64).disassemble ⟨0x00b50533⟩ ≠ "unknown" :=
  disassembler_lookup.2.2 64 ⟨0x00b50533⟩ ("add", 0x33, 0xfe00707f)
    (List.mem_of_getElem? (i := 19) (by decide +kernel)) (by decide)

end SpikeSim.Decode
