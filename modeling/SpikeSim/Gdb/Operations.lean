/-
# The operations of the debug server

Each operation of `gdbserver.cc` is a state machine of which `performStep` takes one step.
A step returns the operation as it goes on, or nothing when it is complete.
-/

import SpikeSim.Gdb.Server

namespace SpikeSim.Gdb

open Riscv (Csr VmShape pgshift pteTable)

/-- The number of a CSR in an instruction. -/
def csrWord (csr : Csr) : Word := csr.num.setWidth 32

/-! ## Translation -/

/-- `privilege_mode`. -/
def GdbServer.privilegeMode (s : GdbServer) : Reg :=
  if hasField s.mstatus mstatusMprv then getField s.mstatus mstatusMpp else getField s.dcsr 3

/-- `virtual_memory`. -/
def GdbServer.virtualMemory (s : GdbServer) : Reg :=
  if s.privilegeMode = prvM.toReg then vmMbare else getField s.mstatus mstatusVm

/-- The page tables of the modes that the server knows; none in bare mode. -/
def tableShape (vm : Reg) : Option (Option VmShape) :=
  if vm = vmMbare then some none
  else if vm = vmSv32 then some (some ⟨2, 10, 4⟩)
  else if vm = vmSv39 then some (some ⟨3, 9, 8⟩)
  else if vm = vmSv48 then some (some ⟨4, 9, 8⟩)
  else none

/-- The page tables that are in use.  The server dies in a mode that it does not know. -/
def currentTables : GdbM (Option VmShape) := do
  match tableShape (← get).virtualMemory with
  | none => die
  | some tables => return tables

/-- How a walk through the entries that are known ends. -/
inductive CacheWalk
  | missing (pteAddr : Reg)
  | leaf (pte : Reg) (ptshift : Nat)
  | exhausted
  deriving DecidableEq, Repr

/-- The loop that `translate` and `collect_translation_info_op_t` share, with `levels` to go. -/
def walkCache (pteCache : Reg → Option Reg) (ptidxbits ptesize : Nat) (vaddr : Reg) :
    (levels : Nat) → (base : Reg) → CacheWalk
  | 0, _ => .exhausted
  | level + 1, base =>
      let ptshift := level * ptidxbits
      let idx := (vaddr >>> (pgshift + ptshift)) &&& ((1 <<< ptidxbits) - 1)
      let pteAddr := base + idx * BitVec.ofNat 64 ptesize
      match pteCache pteAddr with
      | none => .missing pteAddr
      | some pte =>
          let ppn := pte >>> 10
          if pteTable pte then walkCache pteCache ptidxbits ptesize vaddr level (ppn <<< pgshift)
          else .leaf pte ptshift

/-- The address that a leaf entry gives. -/
def leafAddr (vaddr pte : Reg) (ptshift : Nat) : Reg :=
  let ppn := pte >>> 10
  let vpn := vaddr >>> pgshift
  ((ppn ||| (vpn &&& ((1 <<< ptshift) - 1))) <<< pgshift) + (vaddr &&& 0xfff)

def translate (vaddr : Reg) : GdbM Reg := do
  match ← currentTables with
  | none => return vaddr
  | some shape =>
      let s ← get
      match walkCache s.pteCache shape.ptidxbits shape.ptesize vaddr shape.levels
          (s.sptbr <<< pgshift) with
      | .missing _ => die
      | .leaf pte ptshift => return leafAddr vaddr pte ptshift
      | .exhausted => return -1

def findAccessSize (xlen : Nat) (address : Reg) (length : Word) : Nat :=
  let composite := address ||| length.signExtend 64
  if composite &&& 7 = 0 ∧ 64 ≤ xlen then 8
  else if composite &&& 3 = 0 then 4
  else 1

/-! ## Halting and resuming -/

def writeDpcProgram : GdbM Unit := do
  drWrite32 0 (csrsi (csrWord .dcsr) (1 <<< 3))
  drWrite32 1 (csrr s0 (csrWord .dpc))
  drWriteStore 2 s0 .data0
  drWriteJump 3
  setInterrupt

/-- What gdb is told about a halt, by `dcsr.cause`. -/
def sendStatusPacket (cause : Reg) : GdbM Unit :=
  if cause = 0 then die
  else if cause = 3 then sendPacket "S02"
  else if cause = 2 ∨ cause = 4 ∨ cause = 5 then sendPacket "T05"
  else if cause = 1 then sendPacket "T05swbreak:;"
  else return

/-- `halt_op_t`.  The assignment to `tselect_valid` before the first case is never reached. -/
def stepHalt (sendStatus : Bool) : HaltState → GdbM (Option Operation)
  | .enter => do
      if (← get).xlen = 0 then
        drWrite32 0 (xori s1 0 (-1))
        drWrite32 1 (srli s1 s1 31)
        drWrite32 2 (sw s1 0 debugRamStart)
        drWrite32 3 (srli s1 s1 31)
        drWrite32 4 (sw s1 0 (debugRamStart + 4))
        drWriteJump 5
        setInterrupt
        return some (.halt sendStatus .xlen)
      else
        writeDpcProgram
        return some (.halt sendStatus .dpc)
  | .xlen => do
      let word0 ← drRead32 0
      let word1 ← drRead32 1
      if word0 = 1 ∧ word1 = 0 then modify fun s => { s with xlen := 32 }
      else if word0 = -1 ∧ word1 = 3 then modify fun s => { s with xlen := 64 }
      else if word0 = -1 ∧ word1 = -1 then modify fun s => { s with xlen := 128 }
      writeDpcProgram
      return some (.halt sendStatus .dpc)
  | .dpc => do
      let dpc ← drRead .data0
      modify fun s => { s with dpc := dpc }
      drWrite32 0 (csrr s0 (csrWord .mstatus))
      drWriteStore 1 s0 .data0
      drWriteJump 2
      setInterrupt
      return some (.halt sendStatus .mstatus)
  | .mstatus => do
      let mstatus ← drRead .data0
      modify fun s => { s with mstatus := mstatus, mstatusDirty := false }
      drWrite32 0 (csrr s0 (csrWord .dcsr))
      drWrite32 1 (sw s0 0 (ramAddr 4))
      drWriteJump 2
      setInterrupt
      return some (.halt sendStatus .dcsr)
  | .dcsr => do
      let dcsr ← drRead32 4
      modify fun s => { s with
        dcsr := dcsr.setWidth 64
        sptbrValid := false
        pteCache := fun _ => none }
      if sendStatus then sendStatusPacket (getField (dcsr.setWidth 64) (7 <<< 6))
      return none

/-- `dcsr` as the hart resumes with it. -/
def resumeDcsr (dcsr : Reg) (singleStep : Bool) : Reg :=
  let dcsr := setField dcsr (1 <<< 3) 0
  let dcsr := setField dcsr (1 <<< 2) (boolReg singleStep)
  let dcsr := setField dcsr (1 <<< 15) 1
  let dcsr := setField dcsr (1 <<< 14) 1
  let dcsr := setField dcsr (1 <<< 13) 1
  setField dcsr (1 <<< 12) 1

/-- `continue_op_t`. -/
def stepResume (singleStep : Bool) : (step : Nat) → GdbM (Option Operation)
  | 0 => do
      drWriteLoad 0 s0 .data0
      drWrite32 1 (csrw s0 (csrWord .dpc))
      if (← get).fenceIRequired then
        drWrite32 2 fenceI
        drWriteJump 3
        modify fun s => { s with fenceIRequired := false }
      else
        drWriteJump 2
      drWrite .data0 (← get).dpc
      setInterrupt
      return some (.resume singleStep)
  | 1 => do
      drWriteLoad 0 s0 .data0
      drWrite32 1 (csrw s0 (csrWord .mstatus))
      drWriteJump 2
      drWrite .data0 (← get).mstatus
      setInterrupt
      return some (.resume singleStep)
  | 2 => do
      drWrite32 0 (lw s0 0 (ramAddr 4))
      drWrite32 1 (csrw s0 (csrWord .dcsr))
      drWriteJump 2
      drWrite32 4 ((resumeDcsr (← get).dcsr singleStep).setWidth 32)
      setInterrupt
      return none
  | _ => return some (.resume singleStep)

/-! ## Registers -/

/-- `general_registers_read_op_t`. -/
def stepGeneralRegistersRead (step : Nat) : GdbM (Option Operation) := do
  if step = 0 then
    startPacket
    sendXlen 0
    drWriteStore 0 1 .data0
    drWriteStore 1 2 .data1
    drWriteJump 2
    setInterrupt
    return some .generalRegistersRead
  sendXlen (← drRead .data0)
  if 16 ≤ step then
    endPacket
    return none
  sendXlen (← drRead .data1)
  let currentReg : Word := BitVec.ofNat 32 (2 * step + 1)
  -- The hart keeps `s1` in the last slot and `s0` in `dscratch`.
  if currentReg = s1 then
    drWriteLoad 0 s1 .dataLast
    drWriteStore 1 currentReg .data0
    drWriteStore 2 (currentReg + 1) .data1
    drWriteJump 3
  else if currentReg + 1 = s0 then
    drWriteStore 0 currentReg .data0
    drWrite32 1 (csrr s0 (csrWord .dscratch))
    drWriteStore 2 (currentReg + 1) .data1
    drWriteJump 3
  else
    drWriteStore 0 currentReg .data0
    if step < 15 then
      drWriteStore 1 (currentReg + 1) .data1
      drWriteJump 2
    else
      drWriteJump 1
  setInterrupt
  return some .generalRegistersRead

def regPc : Word := 32
def regFpr0 : Word := 33
def regFpr31 : Word := 64
def regCsr0 : Word := 65
def regMstatus : Word := 65 + 0x300
def regCsr4095 : Word := 4160
def regPriv : Word := 4161

/-- The floating-point unit is switched on in `mstatus`, by way of the slot `data1`. -/
def switchFpOn : GdbM Unit := do
  drWriteLoad 0 s0 .data1
  drWrite .data1 (setField (← get).mstatus mstatusFs 1)
  drWrite32 1 (csrw s0 (csrWord .mstatus))
  modify fun s => { s with mstatusDirty := true }

/-- A reply with one value. -/
def replyXlen (value : Reg) : GdbM Unit := do
  startPacket
  sendXlen value
  endPacket

/-- A reply with `dcsr.prv`. -/
def replyPriv : GdbM Unit := do
  startPacket
  send (hexByte ((getField (← get).dcsr 3).setWidth 8))
  endPacket

/-- `register_read_op_t`. -/
def stepRegisterRead (reg : Word) : (step : Nat) → GdbM (Option Operation)
  | 0 => do
      let xlen := (← get).xlen
      if reg ≤ 31 then
        drWrite32 0 (if xlen = 32 then sw reg 0 (ramAddr 4) else sd reg 0 (ramAddr 4))
        drWriteJump 1
      else if reg = regPc then
        replyXlen (← get).dpc
        return none
      else if regFpr0 ≤ reg ∧ reg ≤ regFpr31 then
        switchFpOn
        drWrite32 2 (if xlen = 32 then fsw (reg - regFpr0) 0 (ramAddr 4)
          else fsd (reg - regFpr0) 0 (ramAddr 4))
        drWriteJump 3
      else if reg = regMstatus then
        replyXlen (← get).mstatus
        return none
      else if regCsr0 ≤ reg ∧ reg ≤ regCsr4095 then
        drWrite32 0 (csrr s0 (reg - regCsr0))
        drWriteStore 1 s0 .data0
        drWriteJump 2
        drWrite .data0 (-1)
      else if reg = regPriv then
        replyPriv
        return none
      else
        sendPacket "E02"
        return none
      setInterrupt
      return some (.registerRead reg)
  | 1 => do
      if ← exceptionHit then
        sendPacket "E03"
        return none
      if (← get).xlen = 32 then replyXlen ((← drRead32 4).setWidth 64)
      else replyXlen (← drRead .data0)
      return none
  | _ => return some (.registerRead reg)

/-- `register_write_op_t`. -/
def stepRegisterWrite (reg : Word) (value : Reg) : (step : Nat) → GdbM (Option Operation)
  | 0 => do
      drWriteLoad 0 s0 .data0
      drWrite .data0 value
      if reg = s0 then
        drWrite32 1 (csrw s0 (csrWord .dscratch))
        drWriteJump 2
      else if reg = s1 then
        drWriteStore 1 s0 .dataLast
        drWriteJump 2
      else if reg ≤ 31 then
        drWrite32 1 (addi reg s0 0)
        drWriteJump 2
      else if reg = regPc then
        modify fun s => { s with dpc := value }
        return none
      else if regFpr0 ≤ reg ∧ reg ≤ regFpr31 then
        switchFpOn
        drWrite32 2 (if (← get).xlen = 32 then flw (reg - regFpr0) 0 (ramAddr 4)
          else fld (reg - regFpr0) 0 (ramAddr 4))
        drWriteJump 3
      else if reg = regMstatus then
        modify fun s => { s with mstatus := value, mstatusDirty := true }
        return none
      else if regCsr0 ≤ reg ∧ reg ≤ regCsr4095 then
        drWrite32 1 (csrw s0 (reg - regCsr0))
        drWriteJump 2
        if reg = regCsr0 + csrWord .sptbr then
          modify fun s => { s with sptbr := value, sptbrValid := true }
      else if reg = regPriv then
        modify fun s => { s with dcsr := setField s.dcsr 3 value }
        return none
      else
        sendPacket "E02"
        return none
      setInterrupt
      return some (.registerWrite reg value)
  | 1 => do
      if ← exceptionHit then
        sendPacket "E03"
        return none
      sendPacket "OK"
      return none
  | _ => die

/-! ## Memory -/

/-- The load of `size` bytes to `s1` from the address in `s0`. -/
def loadBySize (size : Nat) : Word :=
  match size with
  | 1 => lb s1 s0 0
  | 2 => lh s1 s0 0
  | 4 => lw s1 s0 0
  | _ => ld s1 s0 0

/-- A byte that was read goes where it belongs. -/
def putByte (b : Byte) (op : MemoryRead) : GdbM MemoryRead := do
  match op.data with
  | some (key, place) =>
      match (← get).softwareBreakpoints key with
      | none => throw .undefined
      | some bp =>
          if place < 4 then
            let bp := { bp with instruction := bp.instruction.set place b }
            modify fun s => { s with
              softwareBreakpoints := Function.update s.softwareBreakpoints key (some bp) }
            return { op with data := some (key, place + 1) }
          else throw .undefined
  | none =>
      if op.buf.length < op.size then return { op with buf := op.buf ++ [b] }
      else throw .undefined

def putBytes : List Byte → MemoryRead → GdbM MemoryRead
  | [], op => return op
  | b :: bs, op => do putBytes bs (← putByte b op)

/-- `memory_read_op_t`. -/
def stepMemoryRead (op : MemoryRead) (step : Nat) : GdbM (Option Operation) := do
  if step = 0 then
    let paddr ← translate op.vaddr
    let accessSize := findAccessSize (← get).xlen paddr op.length
    drWriteLoad 0 s0 .data0
    drWrite32 1 (loadBySize accessSize)
    drWriteStore 2 s1 .data1
    drWriteJump 3
    drWrite .data0 paddr
    setInterrupt
    return some (.memoryRead { op with paddr := paddr, accessSize := accessSize })
  if ← exceptionHit then
    sendPacket "E99"
    return none
  let op ← putBytes (lowBytes op.accessSize (← drRead .data1)) op
  let op := { op with
    length := op.length - BitVec.ofNat 32 op.accessSize
    paddr := op.paddr + BitVec.ofNat 64 op.accessSize }
  if op.length = 0 then
    if op.data.isNone then
      startPacket
      op.buf.forM fun b => send (hexByte b)
      endPacket
    return none
  else
    drWrite .data0 op.paddr
    setInterrupt
    return some (.memoryRead op)

/-- The word of debug RAM that holds the data of a write. -/
def writeDataOffset : GdbM Nat := do
  match (← get).xlen with
  | 32 => return slotOffset32 .data1
  | 64 => return slotOffset64 .data1
  -- The slot of 128 bits is there, but `dr_write_load` is not.
  | _ => die

/-- Byte `i` of an array. -/
def byteAt (data : List Byte) (i : Nat) : GdbM Word :=
  match data[i]? with
  | some b => return b.setWidth 32
  | none => throw .undefined

/-- Four bytes of an array. -/
def wordAt (data : List Byte) (i : Nat) : GdbM Word := do
  return (← byteAt data i) ||| (← byteAt data (i + 1)) <<< 8 ||| (← byteAt data (i + 2)) <<< 16 |||
    (← byteAt data (i + 3)) <<< 24

/-- The data of the next access go to the debug RAM.  There is no access of another size. -/
def writeData (dataOffset size : Nat) (data : List Byte) (i : Nat) : GdbM Unit := do
  match size with
  | 1 => drWrite32 dataOffset (← byteAt data i)
  | 2 => drWrite32 dataOffset ((← byteAt data i) ||| (← byteAt data (i + 1)) <<< 8)
  | 4 => drWrite32 dataOffset (← wordAt data i)
  | _ =>
      drWrite32 dataOffset (← wordAt data i)
      drWrite32 (dataOffset + 1) (← wordAt data (i + 4))

/-- The load of the data to `s1`, and the store to the address in `s0`. -/
def storeBySize (size : Nat) (dataAddr : Word) : Word × Word :=
  match size with
  | 1 => (lb s1 0 dataAddr, sb s1 s0 0)
  | 2 => (lh s1 0 dataAddr, sh s1 s0 0)
  | 4 => (lw s1 0 dataAddr, sw s1 s0 0)
  | _ => (ld s1 0 dataAddr, sd s1 s0 0)

/-- `memory_write_op_t`. -/
def stepMemoryWrite (op : MemoryWrite) (step : Nat) : GdbM (Option Operation) := do
  let paddr ← translate op.vaddr
  let dataOffset ← writeDataOffset
  if step = 0 then
    let accessSize := findAccessSize (← get).xlen paddr op.length
    drWriteLoad 0 s0 .data0
    drWrite32 1 (storeBySize accessSize (ramAddr dataOffset)).1
    drWrite32 2 (storeBySize accessSize (ramAddr dataOffset)).2
    writeData dataOffset accessSize op.data 0
    drWriteJump 3
    drWrite .data0 paddr
    setInterrupt
    return some (.memoryWrite { op with accessSize := accessSize })
  if ← exceptionHit then
    sendPacket "E98"
    return none
  let op := { op with offset := op.offset + BitVec.ofNat 32 op.accessSize }
  if op.length ≤ op.offset then
    sendPacket "OK"
    return none
  else
    writeData dataOffset op.accessSize op.data op.offset.toNat
    drWrite .data0 (paddr + op.offset.setWidth 64)
    setInterrupt
    return some (.memoryWrite op)

/-! ## Page-table entries -/

/-- The entry that the hart read. -/
def readPte (ptesize : Nat) : GdbM Reg := do
  if ptesize = 4 then return (← drRead32 4).setWidth 64
  return ((← drRead32 5).setWidth 64 <<< 32) ||| (← drRead32 4).setWidth 64

/-- What the step before asked the hart for is stored. -/
def storeTranslationInfo (op : CollectTranslationInfo) : GdbM Unit := do
  match op.state with
  | .start => return
  | .readSptbr =>
      let sptbr ← drRead .data0
      modify fun s => { s with sptbr := sptbr, sptbrValid := true }
  | .readPte =>
      let pte ← readPte op.ptesize
      modify fun s => { s with pteCache := Function.update s.pteCache op.pteAddr (some pte) }

/-- The rest of a step, in which the next entry is asked for. -/
def askTranslationInfo (op : CollectTranslationInfo) : GdbM (Option Operation) := do
  let s ← get
  if !s.sptbrValid then
    drWrite32 0 (csrr s0 (csrWord .sptbr))
    drWriteStore 1 s0 .data0
    drWriteJump 2
    setInterrupt
    return some (.collectTranslationInfo { op with state := .readSptbr })
  match walkCache s.pteCache op.ptidxbits op.ptesize op.vaddr op.levels (s.sptbr <<< pgshift) with
  | .missing pteAddr =>
      if op.ptesize = 4 then
        drWrite32 0 (lw s0 0 (ramAddr 4))
        drWrite32 1 (lw s1 s0 0)
        drWrite32 2 (sw s1 0 (ramAddr 4))
      else
        if s.xlen < 64 then die
        drWrite32 0 (ld s0 0 (ramAddr 4))
        drWrite32 1 (ld s1 s0 0)
        drWrite32 2 (sd s1 0 (ramAddr 4))
      drWriteJump 3
      drWrite32 4 (pteAddr.setWidth 32)
      drWrite32 5 ((pteAddr >>> 32).setWidth 32)
      setInterrupt
      return some (.collectTranslationInfo { op with state := .readPte, pteAddr := pteAddr })
  | .leaf _ _ => return none
  | .exhausted => return none

/-- `collect_translation_info_op_t`. -/
def stepCollectTranslationInfo (op : CollectTranslationInfo) (step : Nat) :
    GdbM (Option Operation) := do
  if step = 0 then
    match ← currentTables with
    | none => return none
    | some shape =>
        let op := { op with
          levels := shape.levels, ptidxbits := shape.ptidxbits, ptesize := shape.ptesize }
        storeTranslationInfo op
        askTranslationInfo op
  else
    storeTranslationInfo op
    askTranslationInfo op

/-! ## Hardware breakpoints -/

def writeNewIndexProgram (index : Word) : GdbM Unit := do
  drWriteLoad 0 s0 .data1
  drWrite32 1 (csrw s0 (csrWord .tselect))
  drWrite32 2 (csrr s0 (csrWord .tselect))
  drWriteStore 3 s0 .data1
  drWriteJump 4
  drWrite .data1 (index.setWidth 64)

/-- `tdata1` of a breakpoint. -/
def breakpointMcontrol (xlen : Nat) (bp : HardwareBreakpoint) : Reg :=
  let mcontrol := setField 0 (0x3f <<< 12) 1
  let mcontrol := setField mcontrol (1 <<< (xlen - 5)) 1
  let mcontrol := setField mcontrol (0xf <<< 7) 0
  let mcontrol := setField mcontrol (1 <<< 6) 1
  let mcontrol := setField mcontrol (1 <<< 5) 1
  let mcontrol := setField mcontrol (1 <<< 4) 1
  let mcontrol := setField mcontrol (1 <<< 3) 1
  let mcontrol := setField mcontrol (1 <<< 2) (boolReg bp.execute)
  let mcontrol := setField mcontrol (1 <<< 0) (boolReg bp.load)
  let mcontrol := setField mcontrol (1 <<< 1) (boolReg bp.store)
  if bp.load || bp.store then setField mcontrol (1 <<< 18) 1 else mcontrol

/-- `std::set::insert`: the breakpoint that is there stays. -/
def insertBreakpoint (bps : Reg → Word → Option HardwareBreakpoint) (bp : HardwareBreakpoint) :
    Reg → Word → Option HardwareBreakpoint := fun vaddr size =>
  if vaddr = bp.vaddr ∧ size = bp.size then some ((bps vaddr size).getD bp) else bps vaddr size

/-- `hardware_breakpoint_insert_op_t`. -/
def stepHardwareBreakpointInsert (bp : HardwareBreakpoint) :
    InsertState → GdbM (Option Operation)
  | .start => do
      let bp := { bp with index := 0 }
      writeNewIndexProgram bp.index
      setInterrupt
      return some (.hardwareBreakpointInsert .checkIndex bp)
  | .checkIndex => do
      if (← drRead .data1) ≠ bp.index.setWidth 64 then
        sendPacket "E58"
        return none
      drWrite32 0 (csrr s0 (csrWord .tdata1))
      drWriteStore 1 s0 .data0
      drWriteJump 2
      setInterrupt
      return some (.hardwareBreakpointInsert .checkMcontrol bp)
  | .checkMcontrol => do
      let mcontrol ← drRead .data0
      let xlen := (← get).xlen
      let type : Word := (mcontrol >>> (xlen - 4)).setWidth 32
      if type = 0 then
        sendPacket "E58"
        return none
      if type = 2 ∧ !hasField mcontrol (1 <<< 2) ∧ !hasField mcontrol (1 <<< 0) ∧
          !hasField mcontrol (1 <<< 1) then
        drWriteLoad 0 s0 .data1
        drWrite32 1 (csrw s0 (csrWord .tdata1))
        drWriteJump 2
        drWrite .data1 (breakpointMcontrol xlen bp)
        setInterrupt
        return some (.hardwareBreakpointInsert .writeAddress bp)
      else
        let bp := { bp with index := bp.index + 1 }
        writeNewIndexProgram bp.index
        setInterrupt
        return some (.hardwareBreakpointInsert .checkIndex bp)
  | .writeAddress => do
      drWriteLoad 0 s0 .data1
      drWrite32 1 (csrw s0 (csrWord .tdata2))
      drWriteJump 2
      drWrite .data1 bp.vaddr
      setInterrupt
      sendPacket "OK"
      modify fun s => { s with hardwareBreakpoints := insertBreakpoint s.hardwareBreakpoints bp }
      return none

/-- `maybe_save_tselect_op_t`.  It reads `tdata1`. -/
def stepMaybeSaveTselect (step : Nat) : GdbM (Option Operation) := do
  if (← get).tselectValid then return none
  match step with
  | 0 =>
      drWrite32 0 (csrr s0 (csrWord .tdata1))
      drWriteStore 1 s0 .data0
      drWriteJump 2
      setInterrupt
      return some .maybeSaveTselect
  | 1 =>
      let tselect ← drRead .data0
      modify fun s => { s with tselect := tselect, tselectValid := true }
      return none
  | _ => return none

/-- `maybe_restore_tselect_op_t`.  The hart is not interrupted. -/
def stepMaybeRestoreTselect : GdbM (Option Operation) := do
  if (← get).tselectValid then
    drWriteLoad 0 s0 .data1
    drWrite32 1 (csrw s0 (csrWord .tselect))
    drWriteJump 2
    drWrite .data1 (← get).tselect
  return none

/-- `maybe_restore_mstatus_op_t`.  The hart is not interrupted. -/
def stepMaybeRestoreMstatus : GdbM (Option Operation) := do
  if (← get).mstatusDirty then
    drWriteLoad 0 s0 .data1
    drWrite32 1 (csrw s0 (csrWord .mstatus))
    drWriteJump 2
    drWrite .data1 (← get).mstatus
  return none

/-- `hardware_breakpoint_remove_op_t`. -/
def stepHardwareBreakpointRemove (bp : HardwareBreakpoint) : GdbM (Option Operation) := do
  drWrite32 0 (addi s0 0 bp.index)
  drWrite32 1 (csrw s0 (csrWord .tselect))
  drWrite32 2 (csrw 0 (csrWord .tdata1))
  drWriteJump 3
  setInterrupt
  return none

/-! ## Steps -/

/-- `perform_step`. -/
def performStep (step : Nat) : Operation → GdbM (Option Operation)
  | .halt sendStatus state => stepHalt sendStatus state
  | .resume singleStep => stepResume singleStep step
  | .generalRegistersRead => stepGeneralRegistersRead step
  | .registerRead reg => stepRegisterRead reg step
  | .registerWrite reg value => stepRegisterWrite reg value step
  | .memoryRead op => stepMemoryRead op step
  | .memoryWrite op => stepMemoryWrite op step
  | .collectTranslationInfo op => stepCollectTranslationInfo op step
  | .hardwareBreakpointInsert state bp => stepHardwareBreakpointInsert bp state
  | .maybeSaveTselect => stepMaybeSaveTselect step
  | .maybeRestoreTselect => stepMaybeRestoreTselect
  | .maybeRestoreMstatus => stepMaybeRestoreMstatus
  | .hardwareBreakpointRemove bp => stepHardwareBreakpointRemove bp

/-- One step of the operation at the front of the queue. -/
def stepQueue : GdbM Unit := do
  match (← get).operationQueue with
  | [] => return
  | (op, step) :: _ =>
      match ← performStep step op with
      | none => modify fun s => { s with operationQueue := s.operationQueue.tail }
      | some op =>
          modify fun s => { s with operationQueue := (op, step + 1) :: s.operationQueue.tail }

end SpikeSim.Gdb
