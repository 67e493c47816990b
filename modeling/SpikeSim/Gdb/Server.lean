/-
# The debug server

`gdbserver_t` turns the packets of gdb into operations on the hart.  An operation writes
a few instructions into the debug RAM and interrupts the hart; when the hart has cleared
the interrupt, the operation goes on from what it finds in the debug RAM.  The operations
wait in a queue, and no packet is handled before the queue is empty.

The hart is on the other side of the debug module, which is part of the state here.  A call
of `abort` and behaviour that the language leaves undefined are the two faults.
-/

import SpikeSim.Gdb.Encode
import SpikeSim.Gdb.Framing
import SpikeSim.Riscv.Soc

namespace SpikeSim.Gdb

open Riscv (DebugModule readLE writeLE)

/-! ## State -/

inductive Fault
  | abort
  | undefined
  deriving DecidableEq, Repr

structure SoftwareBreakpoint where
  vaddr : Reg
  size : Word
  instruction : List Byte

structure HardwareBreakpoint where
  vaddr : Reg
  size : Word
  index : Word
  load : Bool
  store : Bool
  execute : Bool
  deriving DecidableEq, Repr

/-- The states of `halt_op_t`. -/
inductive HaltState
  | enter | xlen | dpc | mstatus | dcsr
  deriving DecidableEq, Repr

/-- `memory_read_op_t`.  `data` is where the bytes go: into the instruction of a software
breakpoint, from a place on, or into `buf`, which has room for `size` bytes. -/
structure MemoryRead where
  vaddr : Reg
  length : Word
  data : Option (Reg × Nat)
  paddr : Reg
  accessSize : Nat
  buf : List Byte
  size : Nat

/-- `memory_write_op_t`. -/
structure MemoryWrite where
  vaddr : Reg
  offset : Word
  length : Word
  accessSize : Nat
  data : List Byte

inductive TranslationState
  | start | readSptbr | readPte
  deriving DecidableEq, Repr

/-- `collect_translation_info_op_t`. -/
structure CollectTranslationInfo where
  state : TranslationState
  vaddr : Reg
  levels : Nat
  ptidxbits : Nat
  ptesize : Nat
  pteAddr : Reg

inductive InsertState
  | start | checkIndex | checkMcontrol | writeAddress
  deriving DecidableEq, Repr

/-- The operations, with what they keep from one step to the next. -/
inductive Operation
  | halt (sendStatus : Bool) (state : HaltState)
  | resume (singleStep : Bool)
  | generalRegistersRead
  | registerRead (reg : Word)
  | registerWrite (reg : Word) (value : Reg)
  | memoryRead (op : MemoryRead)
  | memoryWrite (op : MemoryWrite)
  | collectTranslationInfo (op : CollectTranslationInfo)
  | hardwareBreakpointInsert (state : InsertState) (bp : HardwareBreakpoint)
  | maybeSaveTselect
  | maybeRestoreTselect
  | maybeRestoreMstatus
  | hardwareBreakpointRemove (bp : HardwareBreakpoint)

/-- The fields of `gdbserver_t`, and the debug module.  `sent` records what was put into
`sendBuf` and is read by no function. -/
structure GdbServer where
  dpc : Reg
  dcsr : Reg
  mstatus : Reg
  mstatusDirty : Bool
  sptbr : Reg
  sptbrValid : Bool
  tselect : Reg
  tselectValid : Bool
  fenceIRequired : Bool
  pteCache : Reg → Option Reg
  xlen : Nat
  hardwareBreakpoints : Reg → Word → Option HardwareBreakpoint
  softwareBreakpoints : Reg → Option SoftwareBreakpoint
  runningChecksum : Byte
  sendBuf : RingBuffer Byte
  sent : List Byte
  expectAck : Bool
  extendedMode : Bool
  /-- The operations and the number of steps that each has taken. -/
  operationQueue : List (Operation × Nat)
  debugModule : DebugModule

abbrev GdbM := EStateM Fault GdbServer

def die {α : Type} : GdbM α := throw .abort

/-! ## Sending -/

def text (s : String) : List Byte := s.toList.map ascii

def hexDigit (n : Byte) : Byte := if n < 10 then ascii '0' + n else ascii 'a' + (n - 10)

/-- `"%02x"`. -/
def hexByte (b : Byte) : List Byte := [hexDigit (b >>> 4), hexDigit (b &&& 0xf)]

/-- `send(const char*)`. -/
def send (msg : List Byte) : GdbM Unit := do
  let s ← get
  match s.sendBuf.append msg with
  | none => die
  | some sendBuf =>
      set { s with
        sendBuf := sendBuf
        runningChecksum := msg.foldl (· + ·) s.runningChecksum
        sent := s.sent ++ msg }

/-- The bytes of a number, the lowest first. -/
def lowBytes : Nat → Reg → List Byte
  | 0, _ => []
  | n + 1, value => value.setWidth 8 :: lowBytes n (value >>> 8)

/-- `send(uint64_t)` and `send(uint32_t)`, for 8 and 4 bytes. -/
def sendNumber (bytes : Nat) (value : Reg) : GdbM Unit :=
  (lowBytes bytes value).forM fun b => send (hexByte b)

def startPacket : GdbM Unit := do
  send (text "$")
  modify fun s => { s with runningChecksum := 0 }

def endPacket : GdbM Unit := do
  send (ascii '#' :: hexByte (← get).runningChecksum)
  modify fun s => { s with expectAck := true }

def sendPacket (data : String) : GdbM Unit := do
  startPacket
  send (text data)
  endPacket
  modify fun s => { s with expectAck := true }

/-! ## The debug RAM -/

inductive Slot
  | inst0 | data0 | data1 | dataLast
  deriving DecidableEq, Repr

def slotOffset32 : Slot → Nat
  | .inst0 => 0 | .data0 => 4 | .data1 => 5 | .dataLast => 15

def slotOffset64 : Slot → Nat
  | .inst0 => 0 | .data0 => 4 | .data1 => 6 | .dataLast => 14

def debugRomResume : Word := 0x804
def debugRamStart : Word := 0x400

/-- The index of the last word. -/
def lastWord : Nat := 15

/-- `ram_write32`. -/
def ramWrite32 (d : DebugModule) (index : Nat) (value : Word) : DebugModule :=
  { d with ram := writeLE d.ram (BitVec.ofNat 64 (4 * index)) 4 (value.setWidth 64) }

/-- `ram_read32`. -/
def ramRead32 (d : DebugModule) (index : Nat) : Word :=
  (readLE d.ram (BitVec.ofNat 64 (4 * index)) 4).setWidth 32

def drWrite32 (index : Nat) (value : Word) : GdbM Unit :=
  modify fun s => { s with debugModule := ramWrite32 s.debugModule index value }

def drWrite64 (index : Nat) (value : Reg) : GdbM Unit := do
  drWrite32 index (value.setWidth 32)
  drWrite32 (index + 1) ((value >>> 32).setWidth 32)

def drWrite (slot : Slot) (value : Reg) : GdbM Unit := do
  match (← get).xlen with
  | 32 => drWrite32 (slotOffset32 slot) (value.setWidth 32)
  | 64 => drWrite64 (slotOffset64 slot) value
  | _ => die

def drWriteJump (index : Nat) : GdbM Unit :=
  drWrite32 index (jal 0 (debugRomResume - (debugRamStart + 4 * BitVec.ofNat 32 index)))

/-- The address of a word of the debug RAM. -/
def ramAddr (index : Nat) : Word := debugRamStart + 4 * BitVec.ofNat 32 index

/-- The assertions of `dr_write_store`. -/
def storable (index : Nat) : Slot → Bool
  | .inst0 => 2 < index
  | .data0 => index < 4 || 6 < index
  | .data1 => index < 5 || 10 < index
  | .dataLast => index < 6 || 14 < index

def drWriteStore (index : Nat) (reg : Word) (slot : Slot) : GdbM Unit := do
  if !storable index slot then die
  match (← get).xlen with
  | 32 => drWrite32 index (sw reg 0 (ramAddr (slotOffset32 slot)))
  | 64 => drWrite32 index (sd reg 0 (ramAddr (slotOffset64 slot)))
  | _ => die

def drWriteLoad (index : Nat) (reg : Word) (slot : Slot) : GdbM Unit := do
  match (← get).xlen with
  | 32 => drWrite32 index (lw reg 0 (ramAddr (slotOffset32 slot)))
  | 64 => drWrite32 index (ld reg 0 (ramAddr (slotOffset64 slot)))
  | _ => die

def drRead32 (index : Nat) : GdbM Word := do return ramRead32 (← get).debugModule index

def drRead64 (index : Nat) : GdbM Reg := do
  return ((← drRead32 (index + 1)).setWidth 64 <<< 32) ||| (← drRead32 index).setWidth 64

def drRead (slot : Slot) : GdbM Reg := do
  match (← get).xlen with
  | 32 => return (← drRead32 (slotOffset32 slot)).setWidth 64
  | 64 => drRead64 (slotOffset64 slot)
  | _ => die

/-- `set_interrupt(0)`. -/
def setInterrupt : GdbM Unit :=
  modify fun s => { s with
    debugModule := { s.debugModule with interrupt := s.debugModule.interrupt.insert 0 } }

/-- The last word of the debug RAM tells whether the hart hit an exception. -/
def exceptionHit : GdbM Bool := do return (← drRead32 lastWord) ≠ 0

/-- The value of `xlen` bits is sent. -/
def sendXlen (value : Reg) : GdbM Unit := do
  if (← get).xlen = 32 then sendNumber 4 value else sendNumber 8 value

/-! ## A server -/

/-- `send_buf` of a new server. -/
def emptySendBuf : RingBuffer Byte where
  data _ := 0
  start := 0
  stop := 0
  capacity := 65536
  capacity_lt := by decide
  start_lt := by decide
  stop_lt := by decide

/-- A debug module that the hart has not written to. -/
def blankDebugModule : DebugModule := ⟨fun _ => 0, [], []⟩

/-- The server after a halt in machine mode, on RV32. -/
def haltedServer : GdbServer where
  dpc := 0x80000000
  dcsr := 3
  mstatus := 0
  mstatusDirty := false
  sptbr := 0
  sptbrValid := false
  tselect := 0
  tselectValid := false
  fenceIRequired := false
  pteCache _ := none
  xlen := 32
  hardwareBreakpoints _ _ := none
  softwareBreakpoints _ := none
  runningChecksum := 0
  sendBuf := emptySendBuf
  sent := []
  expectAck := false
  extendedMode := false
  operationQueue := []
  debugModule := blankDebugModule

end SpikeSim.Gdb
