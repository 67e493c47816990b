/-
# Instruction handlers

A handler `insns/NAME.h` is a program over the operations that the macros of
`decode.h` and the methods of `mmu_t` and `processor_t` offer it.  `Act` lists
them and `Act.exec` gives their meaning; this module also has the macros that
handlers are written in.
-/

import SpikeSim.Lib.Program
import SpikeSim.Riscv.Csr

namespace SpikeSim.Riscv

/-- What a handler can do. -/
inductive Act
  /-- Read `STATE`, and `isa` of the processor. -/
  | hart
  | writeXpr (reg : Fin 32) (value : Reg)
  /-- `DO_WRITE_FREG`, which marks the FP state as dirty. -/
  | writeFpr (xlen : Xlen) (reg : Fin 32) (value : Reg)
  /-- `set_fp_exceptions`, with the flags that the operation raised. -/
  | setFpExceptions (xlen : Xlen) (flags : BitVec 32)
  | setSerialized (b : Bool)
  | setLoadReservation (addr : Reg)
  | setStatePc (pc : Reg)
  | setPrivilege (prv : Prv)
  /-- The end of `dret`: no longer in debug mode, and stepping if `dcsr.step`. -/
  | leaveDebugMode
  | load (ty : MemType) (addr : Reg)
  | store (ty : MemType) (addr value : Reg)
  | amo (ty : MemType) (addr : Reg) (f : Reg → Reg)
  | getCsr (which : Reg)
  | setCsr (which value : Reg)
  | flushTlb
  | flushIcache

/-- What an act returns. -/
def Act.Result : Act → Type
  | .hart => Hart
  | .load .. | .amo .. | .getCsr .. => Reg
  | _ => Unit

/-- `regfile_t::write` of the integer registers, where `x0` is wired to zero. -/
def Hart.writeXpr (h : Hart) (reg : Fin 32) (value : Reg) : Hart :=
  if reg = 0 then h else { h with xpr := Function.update h.xpr reg value }

def Hart.setFpExceptions (h : Hart) (xlen : Xlen) (flags : BitVec 32) : Hart :=
  if flags = 0 then h else { dirtyFpState xlen h with fflags := h.fflags ||| flags }

def Hart.leaveDebugMode (h : Hart) : Hart :=
  { h with
    dcsr := { h.dcsr with cause := .none }
    singleStep := if h.dcsr.step then .stepping else h.singleStep }

variable {β : Type}

/-- The meaning of the acts. -/
def Act.exec (P : Platform β) : (a : Act) → M β a.Result
  | .hart => getHart
  | .writeXpr reg value => modifyHart fun h => h.writeXpr reg value
  | .writeFpr xlen reg value => modifyHart fun h =>
      dirtyFpState xlen { h with fpr := Function.update h.fpr reg value }
  | .setFpExceptions xlen flags => modifyHart fun h => h.setFpExceptions xlen flags
  | .setSerialized b => modifyHart fun h => { h with serialized := b }
  | .setLoadReservation addr => modifyHart fun h => { h with loadReservation := addr }
  | .setStatePc pc => modifyHart fun h => { h with pc := pc }
  | .setPrivilege prv => Riscv.setPrivilege prv
  | .leaveDebugMode => modifyHart fun h => h.leaveDebugMode
  | .load ty addr => Riscv.load P ty addr
  | .store ty addr value => Riscv.store P ty addr value
  | .amo ty addr f => Riscv.amo P ty addr f
  | .getCsr which => Riscv.getCsr P which
  | .setCsr which value => Riscv.setCsr which value
  | .flushTlb => Riscv.flushTlb
  | .flushIcache => Riscv.flushIcache

abbrev Handler := Program Act Act.Result Exn

/-- The arguments of a handler and the `npc` it starts with. -/
structure Ctx where
  xlen : Xlen
  insn : Insn
  pc : Reg
  npc : Reg

/-! ## Macros -/

namespace Handler

/-- The handler that does one thing. -/
def act (a : Act) : Handler a.Result := Program.perform a

def readHart : Handler Hart := act .hart

def illegal {α : Type} : Handler α := .raise (.trap .illegalInstruction)

def require (b : Bool) : Handler Unit := if b then pure () else illegal

/-- A check at the start of a handler. -/
inductive Need
  | extension (ext : Char)
  | rv64
  | fp
  | privilege (prv : Prv)
  /-- Any other condition on the instruction word. -/
  | that (b : Bool)

def Need.holds (c : Ctx) (h : Hart) : Need → Bool
  | .extension ext => h.supportsExtension ext
  | .rv64 => c.xlen == .rv64
  | .fp => h.mstatus &&& mstatusFs != 0
  | .privilege prv => prv ≤ h.prv
  | .that b => b

/-- The `require` lines of a handler, in order.  All of them raise the same trap
and none changes the state. -/
def requireAll (c : Ctx) : List Need → Handler Unit
  | [] => pure ()
  | need :: rest => do
    let h ← readHart
    require (need.holds c h)
    requireAll c rest

/-- `set_pc`; the result is the new `npc`. -/
def setPc (c : Ctx) (target : Reg) : Handler Reg := do
  let h ← readHart
  if target &&& 2 != 0 && !h.supportsExtension 'C' then
    .raise (.trap (.instructionAddressMisaligned target))
  else pure (sextXlen c.xlen target)

def setPcAndSerialize (c : Ctx) (target : Reg) : Handler Reg := do
  let _ ← setPc c target
  act (.setStatePc target)
  pure pcSerializeAfter

/-- `RM`: the rounding mode of the instruction. -/
def roundingMode (c : Ctx) : Handler Reg := do
  let h ← readHart
  let rm := if c.insn.rm = 7 then h.frm.setWidth 64 else c.insn.rm
  if 4 < rm then illegal else pure rm

/-! ## Families of handlers -/

/-- Write an integer register with a value computed from the state. -/
def compute (needs : List Need) (dest : Ctx → Fin 32) (f : Ctx → Hart → Reg) (c : Ctx) :
    Handler Reg := do
  requireAll c needs
  let h ← readHart
  act (.writeXpr (dest c) (f c h))
  pure c.npc

/-- Write an FP register with a value computed from the state. -/
def computeFp (needs : List Need) (f : Ctx → Hart → Reg) (c : Ctx) : Handler Reg := do
  requireAll c needs
  let h ← readHart
  act (.writeFpr c.xlen c.insn.rd (f c h))
  pure c.npc

/-- An operation of the FP library: a result and the flags it raises. -/
structure FpResult where
  value : Reg
  flags : BitVec 32

/-- A register that a result goes to. -/
inductive Dest
  | x (reg : Fin 32)
  | f (reg : Fin 32)

def writeDest (c : Ctx) (value : Reg) : Dest → Handler Unit
  | .x reg => act (.writeXpr reg value)
  | .f reg => act (.writeFpr c.xlen reg value)

/-- An FP operation that rounds. -/
def fpRounded (needs : List Need) (dest : Ctx → Dest) (f : Ctx → Reg → Hart → FpResult)
    (c : Ctx) : Handler Reg := do
  requireAll c needs
  let rm ← roundingMode c
  let h ← readHart
  writeDest c (f c rm h).value (dest c)
  act (.setFpExceptions c.xlen (f c rm h).flags)
  pure c.npc

/-- An FP operation that does not round. -/
def fpExact (needs : List Need) (dest : Ctx → Dest) (f : Ctx → Hart → FpResult) (c : Ctx) :
    Handler Reg := do
  requireAll c needs
  let h ← readHart
  writeDest c (f c h).value (dest c)
  act (.setFpExceptions c.xlen (f c h).flags)
  pure c.npc

def loadTo (needs : List Need) (ty : MemType) (addr : Ctx → Hart → Reg) (dest : Ctx → Dest)
    (c : Ctx) : Handler Reg := do
  requireAll c needs
  let h ← readHart
  let value : Reg ← act (.load ty (addr c h))
  writeDest c value (dest c)
  pure c.npc

def storeFrom (needs : List Need) (ty : MemType) (addr value : Ctx → Hart → Reg) (c : Ctx) :
    Handler Reg := do
  requireAll c needs
  let h ← readHart
  act (.store ty (addr c h) (value c h))
  pure c.npc

/-- An AMO; `f` takes the old value and the second operand. -/
def amoOp (needs : List Need) (ty : MemType) (f : Reg → Reg → Reg) (result : Reg → Reg)
    (c : Ctx) : Handler Reg := do
  requireAll c needs
  let h ← readHart
  let old : Reg ← act (.amo ty (h.xpr c.insn.rs1) fun lhs => f lhs (h.xpr c.insn.rs2))
  act (.writeXpr c.insn.rd (result old))
  pure c.npc

def loadReserved (needs : List Need) (ty : MemType) (c : Ctx) : Handler Reg := do
  requireAll c needs
  let h ← readHart
  act (.setLoadReservation (h.xpr c.insn.rs1))
  let value : Reg ← act (.load ty (h.xpr c.insn.rs1))
  act (.writeXpr c.insn.rd value)
  pure c.npc

def storeConditional (needs : List Need) (ty : MemType) (c : Ctx) : Handler Reg := do
  requireAll c needs
  let h ← readHart
  if h.xpr c.insn.rs1 = h.loadReservation then
    act (.store ty (h.xpr c.insn.rs1) (h.xpr c.insn.rs2))
    act (.writeXpr c.insn.rd 0)
  else act (.writeXpr c.insn.rd 1)
  pure c.npc

/-- A conditional jump. -/
def branch (needs : List Need) (taken : Ctx → Hart → Bool) (target : Ctx → Reg) (c : Ctx) :
    Handler Reg := do
  requireAll c needs
  let h ← readHart
  if taken c h then setPc c (target c) else pure c.npc

/-- A jump that leaves the old `npc` in a register, if one is given. -/
def jump (needs : List Need) (target : Ctx → Hart → Reg) (link : Ctx → Option (Fin 32))
    (c : Ctx) : Handler Reg := do
  requireAll c needs
  let h ← readHart
  let npc ← setPc c (target c h)
  match link c with
  | some reg => act (.writeXpr reg c.npc)
  | none => pure ()
  pure npc

/-- A CSR instruction.  `validate_csr` first sends the instruction back to have
the pipeline serialized; the second time it checks the access. -/
def csrOp (write : Ctx → Bool) (new : Ctx → Hart → (old : Reg) → Reg) (c : Ctx) :
    Handler Reg := do
  let h ← readHart
  if !h.serialized then pure pcSerializeBefore
  else
    act (.setSerialized false)
    let which := c.insn.csr
    let csrPriv := Prv.ofReg (getField which 0x300)
    let csrReadOnly := getField which 0xC00 = 3
    if (write c && csrReadOnly) || h.prv < csrPriv then illegal
    else
      let old : Reg ← act (.getCsr which)
      if write c then act (.setCsr which (new c h old))
      act (.writeXpr c.insn.rd (sextXlen c.xlen old))
      pure c.npc

/-- `mret` and `sret`. -/
def trapReturn (prv : Prv) (epc : Hart → Reg) (ppMask pieMask : Reg) (c : Ctx) :
    Handler Reg := do
  requireAll c [.privilege prv]
  let h ← readHart
  let npc ← setPcAndSerialize c (epc h)
  let s := h.mstatus
  let prevPrv := Prv.ofReg (getField s ppMask)
  let s := setField s (mstatusUie <<< prevPrv.val) (getField s pieMask)
  let s := setField s pieMask 0
  let s := setField s ppMask prvU.toReg
  act (.setPrivilege prevPrv)
  act (.setCsr Csr.mstatus.num s)
  pure npc

end Handler

end SpikeSim.Riscv
