/-
# Instruction encodings

The instructions of `riscv_insn_list` and, for each, the match and mask words of
`encoding.h`.  The words are kept as the 64-bit `insn_bits_t` of the simulator.
-/

import Mathlib

namespace SpikeSim

-- The numbers of the custom opcodes, of the privilege levels and triggers, and of the registers.
instance neZeroFour : NeZero 4 := ⟨by decide⟩
instance neZeroThirtyTwo : NeZero 32 := ⟨by decide⟩

/-- `insn_bits_t`. -/
abbrev InsnBits := BitVec 64

/-- The register width that a handler is compiled for. -/
inductive Xlen
  | rv32 | rv64
  deriving DecidableEq, Repr

/-- The instructions that have a handler `insns/NAME.h`. -/
inductive InsnName
  | add | addi | addiw | addw | amoaddD | amoaddW | amoandD | amoandW | amomaxD | amomaxuD
  | amomaxuW | amomaxW | amominD | amominuD | amominuW | amominW | amoorD | amoorW | amoswapD
  | amoswapW | amoxorD | amoxorW | and | andi | auipc | beq | bge | bgeu | blt | bltu | bne
  | cAdd | cAddi4spn | cAddi | cAddw | cAnd | cAndi | cBeqz | cBnez | cEbreak | cFld | cFldsp
  | cFlw | cFlwsp | cFsd | cFsdsp | cFsw | cFswsp | cJal | cJalr | cJ | cJr | cLi | cLui | cLw
  | cLwsp | cMv | cOr | cSlli | cSrai | cSrli | cSub | cSubw | cXor | csrrc | csrrci | csrrs
  | csrrsi | csrrw | csrrwi | cSw | cSwsp | div | divu | divuw | divw | dret | ebreak | ecall
  | faddD | faddS | fclassD | fclassS | fcvtDL | fcvtDLu | fcvtDS | fcvtDW | fcvtDWu | fcvtLD
  | fcvtLS | fcvtLuD | fcvtLuS | fcvtSD | fcvtSL | fcvtSLu | fcvtSW | fcvtSWu | fcvtWD | fcvtWS
  | fcvtWuD | fcvtWuS | fdivD | fdivS | fence | fenceI | feqD | feqS | fld | fleD | fleS | fltD
  | fltS | flw | fmaddD | fmaddS | fmaxD | fmaxS | fminD | fminS | fmsubD | fmsubS | fmulD
  | fmulS | fmvDX | fmvSX | fmvXD | fmvXS | fnmaddD | fnmaddS | fnmsubD | fnmsubS | fsd | fsgnjD
  | fsgnjnD | fsgnjnS | fsgnjS | fsgnjxD | fsgnjxS | fsqrtD | fsqrtS | fsubD | fsubS | fsw | jal
  | jalr | lb | lbu | ld | lh | lhu | lrD | lrW | lui | lw | lwu | mret | mul | mulh | mulhsu
  | mulhu | mulw | or | ori | rem | remu | remuw | remw | sb | scD | scW | sd | sfenceVm | sh
  | sll | slli | slliw | sllw | slt | slti | sltiu | sltu | sra | srai | sraiw | sraw | sret
  | srl | srli | srliw | srlw | sub | subw | sw | wfi | xor | xori
  deriving DecidableEq, Repr

/-- `riscv_insn_list`, in the order of the makefile fragment. -/
def riscvInsnList : List InsnName :=
  [.add, .addi, .addiw, .addw, .amoaddD, .amoaddW, .amoandD, .amoandW, .amomaxD, .amomaxuD,
   .amomaxuW, .amomaxW, .amominD, .amominuD, .amominuW, .amominW, .amoorD, .amoorW, .amoswapD,
   .amoswapW, .amoxorD, .amoxorW, .and, .andi, .auipc, .beq, .bge, .bgeu, .blt, .bltu, .bne,
   .cAdd, .cAddi4spn, .cAddi, .cAddw, .cAnd, .cAndi, .cBeqz, .cBnez, .cEbreak, .cFld, .cFldsp,
   .cFlw, .cFlwsp, .cFsd, .cFsdsp, .cFsw, .cFswsp, .cJal, .cJalr, .cJ, .cJr, .cLi, .cLui, .cLw,
   .cLwsp, .cMv, .cOr, .cSlli, .cSrai, .cSrli, .cSub, .cSubw, .cXor, .csrrc, .csrrci, .csrrs,
   .csrrsi, .csrrw, .csrrwi, .cSw, .cSwsp, .div, .divu, .divuw, .divw, .dret, .ebreak, .ecall,
   .faddD, .faddS, .fclassD, .fclassS, .fcvtDL, .fcvtDLu, .fcvtDS, .fcvtDW, .fcvtDWu, .fcvtLD,
   .fcvtLS, .fcvtLuD, .fcvtLuS, .fcvtSD, .fcvtSL, .fcvtSLu, .fcvtSW, .fcvtSWu, .fcvtWD, .fcvtWS,
   .fcvtWuD, .fcvtWuS, .fdivD, .fdivS, .fence, .fenceI, .feqD, .feqS, .fld, .fleD, .fleS, .fltD,
   .fltS, .flw, .fmaddD, .fmaddS, .fmaxD, .fmaxS, .fminD, .fminS, .fmsubD, .fmsubS, .fmulD,
   .fmulS, .fmvDX, .fmvSX, .fmvXD, .fmvXS, .fnmaddD, .fnmaddS, .fnmsubD, .fnmsubS, .fsd, .fsgnjD,
   .fsgnjnD, .fsgnjnS, .fsgnjS, .fsgnjxD, .fsgnjxS, .fsqrtD, .fsqrtS, .fsubD, .fsubS, .fsw, .jal,
   .jalr, .lb, .lbu, .ld, .lh, .lhu, .lrD, .lrW, .lui, .lw, .lwu, .mret, .mul, .mulh, .mulhsu,
   .mulhu, .mulw, .or, .ori, .rem, .remu, .remuw, .remw, .sb, .scD, .scW, .sd, .sfenceVm, .sh,
   .sll, .slli, .slliw, .sllw, .slt, .slti, .sltiu, .sltu, .sra, .srai, .sraiw, .sraw, .sret,
   .srl, .srli, .srliw, .srlw, .sub, .subw, .sw, .wfi, .xor, .xori]

/-- The `MATCH_*` and `MASK_*` words of `encoding.h`. -/
def InsnName.encoding : InsnName → InsnBits × InsnBits
  | .add => (0x33, 0xfe00707f)
  | .addi => (0x13, 0x707f)
  | .addiw => (0x1b, 0x707f)
  | .addw => (0x3b, 0xfe00707f)
  | .amoaddD => (0x302f, 0xf800707f)
  | .amoaddW => (0x202f, 0xf800707f)
  | .amoandD => (0x6000302f, 0xf800707f)
  | .amoandW => (0x6000202f, 0xf800707f)
  | .amomaxD => (0xa000302f, 0xf800707f)
  | .amomaxuD => (0xe000302f, 0xf800707f)
  | .amomaxuW => (0xe000202f, 0xf800707f)
  | .amomaxW => (0xa000202f, 0xf800707f)
  | .amominD => (0x8000302f, 0xf800707f)
  | .amominuD => (0xc000302f, 0xf800707f)
  | .amominuW => (0xc000202f, 0xf800707f)
  | .amominW => (0x8000202f, 0xf800707f)
  | .amoorD => (0x4000302f, 0xf800707f)
  | .amoorW => (0x4000202f, 0xf800707f)
  | .amoswapD => (0x800302f, 0xf800707f)
  | .amoswapW => (0x800202f, 0xf800707f)
  | .amoxorD => (0x2000302f, 0xf800707f)
  | .amoxorW => (0x2000202f, 0xf800707f)
  | .and => (0x7033, 0xfe00707f)
  | .andi => (0x7013, 0x707f)
  | .auipc => (0x17, 0x7f)
  | .beq => (0x63, 0x707f)
  | .bge => (0x5063, 0x707f)
  | .bgeu => (0x7063, 0x707f)
  | .blt => (0x4063, 0x707f)
  | .bltu => (0x6063, 0x707f)
  | .bne => (0x1063, 0x707f)
  | .cAdd => (0x9002, 0xf003)
  | .cAddi4spn => (0x0, 0xe003)
  | .cAddi => (0x1, 0xe003)
  | .cAddw => (0x9c21, 0xfc63)
  | .cAnd => (0x8c61, 0xfc63)
  | .cAndi => (0x8801, 0xec03)
  | .cBeqz => (0xc001, 0xe003)
  | .cBnez => (0xe001, 0xe003)
  | .cEbreak => (0x9002, 0xffff)
  | .cFld => (0x2000, 0xe003)
  | .cFldsp => (0x2002, 0xe003)
  | .cFlw => (0x6000, 0xe003)
  | .cFlwsp => (0x6002, 0xe003)
  | .cFsd => (0xa000, 0xe003)
  | .cFsdsp => (0xa002, 0xe003)
  | .cFsw => (0xe000, 0xe003)
  | .cFswsp => (0xe002, 0xe003)
  | .cJal => (0x2001, 0xe003)
  | .cJalr => (0x9002, 0xf07f)
  | .cJ => (0xa001, 0xe003)
  | .cJr => (0x8002, 0xf07f)
  | .cLi => (0x4001, 0xe003)
  | .cLui => (0x6001, 0xe003)
  | .cLw => (0x4000, 0xe003)
  | .cLwsp => (0x4002, 0xe003)
  | .cMv => (0x8002, 0xf003)
  | .cOr => (0x8c41, 0xfc63)
  | .cSlli => (0x2, 0xe003)
  | .cSrai => (0x8401, 0xec03)
  | .cSrli => (0x8001, 0xec03)
  | .cSub => (0x8c01, 0xfc63)
  | .cSubw => (0x9c01, 0xfc63)
  | .cXor => (0x8c21, 0xfc63)
  | .csrrc => (0x3073, 0x707f)
  | .csrrci => (0x7073, 0x707f)
  | .csrrs => (0x2073, 0x707f)
  | .csrrsi => (0x6073, 0x707f)
  | .csrrw => (0x1073, 0x707f)
  | .csrrwi => (0x5073, 0x707f)
  | .cSw => (0xc000, 0xe003)
  | .cSwsp => (0xc002, 0xe003)
  | .div => (0x2004033, 0xfe00707f)
  | .divu => (0x2005033, 0xfe00707f)
  | .divuw => (0x200503b, 0xfe00707f)
  | .divw => (0x200403b, 0xfe00707f)
  | .dret => (0x7b200073, 0xffffffff)
  | .ebreak => (0x100073, 0xffffffff)
  | .ecall => (0x73, 0xffffffff)
  | .faddD => (0x2000053, 0xfe00007f)
  | .faddS => (0x53, 0xfe00007f)
  | .fclassD => (0xe2001053, 0xfff0707f)
  | .fclassS => (0xe0001053, 0xfff0707f)
  | .fcvtDL => (0xd2200053, 0xfff0007f)
  | .fcvtDLu => (0xd2300053, 0xfff0007f)
  | .fcvtDS => (0x42000053, 0xfff0007f)
  | .fcvtDW => (0xd2000053, 0xfff0007f)
  | .fcvtDWu => (0xd2100053, 0xfff0007f)
  | .fcvtLD => (0xc2200053, 0xfff0007f)
  | .fcvtLS => (0xc0200053, 0xfff0007f)
  | .fcvtLuD => (0xc2300053, 0xfff0007f)
  | .fcvtLuS => (0xc0300053, 0xfff0007f)
  | .fcvtSD => (0x40100053, 0xfff0007f)
  | .fcvtSL => (0xd0200053, 0xfff0007f)
  | .fcvtSLu => (0xd0300053, 0xfff0007f)
  | .fcvtSW => (0xd0000053, 0xfff0007f)
  | .fcvtSWu => (0xd0100053, 0xfff0007f)
  | .fcvtWD => (0xc2000053, 0xfff0007f)
  | .fcvtWS => (0xc0000053, 0xfff0007f)
  | .fcvtWuD => (0xc2100053, 0xfff0007f)
  | .fcvtWuS => (0xc0100053, 0xfff0007f)
  | .fdivD => (0x1a000053, 0xfe00007f)
  | .fdivS => (0x18000053, 0xfe00007f)
  | .fence => (0xf, 0x707f)
  | .fenceI => (0x100f, 0x707f)
  | .feqD => (0xa2002053, 0xfe00707f)
  | .feqS => (0xa0002053, 0xfe00707f)
  | .fld => (0x3007, 0x707f)
  | .fleD => (0xa2000053, 0xfe00707f)
  | .fleS => (0xa0000053, 0xfe00707f)
  | .fltD => (0xa2001053, 0xfe00707f)
  | .fltS => (0xa0001053, 0xfe00707f)
  | .flw => (0x2007, 0x707f)
  | .fmaddD => (0x2000043, 0x600007f)
  | .fmaddS => (0x43, 0x600007f)
  | .fmaxD => (0x2a001053, 0xfe00707f)
  | .fmaxS => (0x28001053, 0xfe00707f)
  | .fminD => (0x2a000053, 0xfe00707f)
  | .fminS => (0x28000053, 0xfe00707f)
  | .fmsubD => (0x2000047, 0x600007f)
  | .fmsubS => (0x47, 0x600007f)
  | .fmulD => (0x12000053, 0xfe00007f)
  | .fmulS => (0x10000053, 0xfe00007f)
  | .fmvDX => (0xf2000053, 0xfff0707f)
  | .fmvSX => (0xf0000053, 0xfff0707f)
  | .fmvXD => (0xe2000053, 0xfff0707f)
  | .fmvXS => (0xe0000053, 0xfff0707f)
  | .fnmaddD => (0x200004f, 0x600007f)
  | .fnmaddS => (0x4f, 0x600007f)
  | .fnmsubD => (0x200004b, 0x600007f)
  | .fnmsubS => (0x4b, 0x600007f)
  | .fsd => (0x3027, 0x707f)
  | .fsgnjD => (0x22000053, 0xfe00707f)
  | .fsgnjnD => (0x22001053, 0xfe00707f)
  | .fsgnjnS => (0x20001053, 0xfe00707f)
  | .fsgnjS => (0x20000053, 0xfe00707f)
  | .fsgnjxD => (0x22002053, 0xfe00707f)
  | .fsgnjxS => (0x20002053, 0xfe00707f)
  | .fsqrtD => (0x5a000053, 0xfff0007f)
  | .fsqrtS => (0x58000053, 0xfff0007f)
  | .fsubD => (0xa000053, 0xfe00007f)
  | .fsubS => (0x8000053, 0xfe00007f)
  | .fsw => (0x2027, 0x707f)
  | .jal => (0x6f, 0x7f)
  | .jalr => (0x67, 0x707f)
  | .lb => (0x3, 0x707f)
  | .lbu => (0x4003, 0x707f)
  | .ld => (0x3003, 0x707f)
  | .lh => (0x1003, 0x707f)
  | .lhu => (0x5003, 0x707f)
  | .lrD => (0x1000302f, 0xf9f0707f)
  | .lrW => (0x1000202f, 0xf9f0707f)
  | .lui => (0x37, 0x7f)
  | .lw => (0x2003, 0x707f)
  | .lwu => (0x6003, 0x707f)
  | .mret => (0x30200073, 0xffffffff)
  | .mul => (0x2000033, 0xfe00707f)
  | .mulh => (0x2001033, 0xfe00707f)
  | .mulhsu => (0x2002033, 0xfe00707f)
  | .mulhu => (0x2003033, 0xfe00707f)
  | .mulw => (0x200003b, 0xfe00707f)
  | .or => (0x6033, 0xfe00707f)
  | .ori => (0x6013, 0x707f)
  | .rem => (0x2006033, 0xfe00707f)
  | .remu => (0x2007033, 0xfe00707f)
  | .remuw => (0x200703b, 0xfe00707f)
  | .remw => (0x200603b, 0xfe00707f)
  | .sb => (0x23, 0x707f)
  | .scD => (0x1800302f, 0xf800707f)
  | .scW => (0x1800202f, 0xf800707f)
  | .sd => (0x3023, 0x707f)
  | .sfenceVm => (0x10400073, 0xfff07fff)
  | .sh => (0x1023, 0x707f)
  | .sll => (0x1033, 0xfe00707f)
  | .slli => (0x1013, 0xfc00707f)
  | .slliw => (0x101b, 0xfe00707f)
  | .sllw => (0x103b, 0xfe00707f)
  | .slt => (0x2033, 0xfe00707f)
  | .slti => (0x2013, 0x707f)
  | .sltiu => (0x3013, 0x707f)
  | .sltu => (0x3033, 0xfe00707f)
  | .sra => (0x40005033, 0xfe00707f)
  | .srai => (0x40005013, 0xfc00707f)
  | .sraiw => (0x4000501b, 0xfe00707f)
  | .sraw => (0x4000503b, 0xfe00707f)
  | .sret => (0x10200073, 0xffffffff)
  | .srl => (0x5033, 0xfe00707f)
  | .srli => (0x5013, 0xfc00707f)
  | .srliw => (0x501b, 0xfe00707f)
  | .srlw => (0x503b, 0xfe00707f)
  | .sub => (0x40000033, 0xfe00707f)
  | .subw => (0x4000003b, 0xfe00707f)
  | .sw => (0x2023, 0x707f)
  | .wfi => (0x10500073, 0xffffffff)
  | .xor => (0x4033, 0xfe00707f)
  | .xori => (0x4013, 0x707f)

/-- `insn_length`, the length in bytes that the low bits of a word announce. -/
def insnLength (bits : InsnBits) : Nat :=
  if bits &&& 0x03 < 0x03 then 2
  else if bits &&& 0x1f < 0x1f then 4
  else if bits &&& 0x3f < 0x3f then 6
  else 8

end SpikeSim
