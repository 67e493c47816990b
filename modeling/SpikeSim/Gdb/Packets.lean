/-
# The packets of the debug server

`handle_packet` checks the checksum of a packet and hands it to the function for its
command, which answers at once or queues operations.  The iterators of the source are the
rests of the packet; reading at the end of the packet is undefined.  Storage never runs
out.
-/

import SpikeSim.Gdb.Operations

namespace SpikeSim.Gdb

/-! ## Numbers -/

def characterHexValue (c : Byte) : Byte :=
  if ascii '0' ≤ c ∧ c ≤ ascii '9' then c - ascii '0'
  else if ascii 'a' ≤ c ∧ c ≤ ascii 'f' then 10 + c - ascii 'a'
  else if ascii 'A' ≤ c ∧ c ≤ ascii 'F' then 10 + c - ascii 'A'
  else 0xff

/-- The loop of `consume_hex_number`. -/
def consumeHexFrom (value : Reg) : List Byte → Reg × List Byte
  | [] => (value, [])
  | c :: iter =>
      if 15 < characterHexValue c then (value, c :: iter)
      else consumeHexFrom ((value <<< 4) + (characterHexValue c).setWidth 64) iter

def consumeHexNumber (iter : List Byte) : Reg × List Byte := consumeHexFrom 0 iter

/-- The loop of `consume_hex_number_le`.  A shift by 64 or more is undefined. -/
def consumeHexLeFrom (value : Reg) (shift : Nat) : List Byte → Option (Reg × List Byte)
  | [] => some (value, [])
  | c :: iter =>
      if 15 < characterHexValue c then some (value, c :: iter)
      else if 64 ≤ shift then none
      else consumeHexLeFrom (value ||| (characterHexValue c).setWidth 64 <<< shift)
        (if shift % 8 = 0 then shift + 12 else shift - 4) iter

def consumeHexNumberLe (iter : List Byte) : Option (Reg × List Byte) := consumeHexLeFrom 0 4 iter

/-- `*iter`. -/
def peek : List Byte → GdbM Byte
  | [] => throw .undefined
  | c :: _ => return c

/-! ## Handlers -/

def addOperation (op : Operation) : GdbM Unit :=
  modify fun s => { s with operationQueue := s.operationQueue ++ [(op, 0)] }

def newCollectTranslationInfo (vaddr : Reg) : Operation :=
  .collectTranslationInfo ⟨.start, vaddr, 0, 0, 0, 0⟩

def newMemoryRead (vaddr : Reg) (length : Word) (data : Option (Reg × Nat)) : Operation :=
  .memoryRead ⟨vaddr, length, data, 0, 0, [], length.toNat⟩

def newMemoryWrite (vaddr : Reg) (length : Word) (data : List Byte) : Operation :=
  .memoryWrite ⟨vaddr, 0, length, 0, data⟩

def handleHaltReason : GdbM Unit := sendPacket "S00"

def handleGeneralRegistersRead : GdbM Unit := addOperation .generalRegistersRead

def handleRegisterRead (packet : List Byte) : GdbM Unit := do
  let (n, iter) := consumeHexNumber (packet.drop 2)
  if (← peek iter) ≠ ascii '#' then sendPacket "E01"
  else addOperation (.registerRead (n.setWidth 32))

def handleRegisterWrite (packet : List Byte) : GdbM Unit := do
  let (n, iter) := consumeHexNumber (packet.drop 2)
  if (← peek iter) ≠ ascii '=' then sendPacket "E05"
  else
    match consumeHexNumberLe (iter.drop 1) with
    | none => throw .undefined
    | some (value, iter) =>
        if (← peek iter) ≠ ascii '#' then sendPacket "E06"
        else
          addOperation (.registerWrite (n.setWidth 32) value)
          sendPacket "OK"

def handleMemoryRead (packet : List Byte) : GdbM Unit := do
  let (address, iter) := consumeHexNumber (packet.drop 2)
  if (← peek iter) ≠ ascii ',' then sendPacket "E10"
  else
    let (length, iter) := consumeHexNumber (iter.drop 1)
    if (← peek iter) ≠ ascii '#' then sendPacket "E11"
    else
      addOperation (newCollectTranslationInfo address)
      addOperation (newMemoryRead address (length.setWidth 32) none)

/-- The data of a binary write, or the error. -/
def unescape : (length : Nat) → List Byte → Except String (List Byte × List Byte)
  | 0, iter => .ok ([], iter)
  | _ + 1, [] => .error "E22"
  | length + 1, c :: iter =>
      if c = ascii '}' then
        match iter with
        | [] => .error "E23"
        | c :: iter => do
            let (data, iter) ← unescape length iter
            return ((c ^^^ 0x20) :: data, iter)
      else do
        let (data, iter) ← unescape length iter
        return (c :: data, iter)

def handleMemoryBinaryWrite (packet : List Byte) : GdbM Unit := do
  let (address, iter) := consumeHexNumber (packet.drop 2)
  if (← peek iter) ≠ ascii ',' then sendPacket "E20"
  else
    let (length, iter) := consumeHexNumber (iter.drop 1)
    if (← peek iter) ≠ ascii ':' then sendPacket "E21"
    else if length = 0 then sendPacket "OK"
    else
      match unescape length.toNat (iter.drop 1) with
      | .error e => sendPacket e
      | .ok (data, iter) =>
          if (← peek iter) ≠ ascii '#' then sendPacket "E4b"
          else
            addOperation (newCollectTranslationInfo address)
            addOperation (newMemoryWrite address (length.setWidth 32) data)

def handleContinue (packet : List Byte) : GdbM Unit := do
  let mut valid := true
  if (← peek (packet.drop 2)) ≠ ascii '#' then
    let (dpc, iter) := consumeHexNumber (packet.drop 2)
    modify fun s => { s with dpc := dpc }
    if (← peek iter) ≠ ascii '#' then valid := false
  if valid then
    addOperation .maybeRestoreTselect
    addOperation .maybeRestoreMstatus
    addOperation (.resume false)
  else sendPacket "E30"

def handleStep (packet : List Byte) : GdbM Unit := do
  if (← peek (packet.drop 2)) ≠ ascii '#' then die
  addOperation .maybeRestoreTselect
  addOperation (.resume true)

def handleExtended : GdbM Unit := do
  sendPacket "OK"
  modify fun s => { s with extendedMode := true }

/-! ## Breakpoints -/

/-- `ebreak` or `c.ebreak`. -/
def breakInstruction (size : Word) : List Byte :=
  if size = 2 then [0x02, 0x90] else [0x73, 0x00, 0x10, 0x00]

def softwareBreakpointInsert (vaddr : Reg) (size : Word) : GdbM Unit := do
  modify fun s => { s with fenceIRequired := true }
  addOperation (newCollectTranslationInfo vaddr)
  modify fun s => { s with
    softwareBreakpoints := Function.update s.softwareBreakpoints vaddr
      (some ⟨vaddr, size, [0, 0, 0, 0]⟩) }
  addOperation (newMemoryRead vaddr size (some (vaddr, 0)))
  addOperation (newMemoryWrite vaddr size (breakInstruction size))

/-- `software_breakpoint_remove`.  `operator[]` makes an entry of zeros if there is none. -/
def softwareBreakpointRemove (vaddr : Reg) : GdbM Unit := do
  modify fun s => { s with fenceIRequired := true }
  addOperation (newCollectTranslationInfo vaddr)
  let bp := ((← get).softwareBreakpoints vaddr).getD ⟨0, 0, [0, 0, 0, 0]⟩
  addOperation (newMemoryWrite bp.vaddr bp.size bp.instruction)
  modify fun s => { s with
    softwareBreakpoints := Function.update s.softwareBreakpoints vaddr none }

def hardwareBreakpointInsert (bp : HardwareBreakpoint) : GdbM Unit := do
  addOperation .maybeSaveTselect
  addOperation (.hardwareBreakpointInsert .start bp)

/-- `hardware_breakpoint_remove`.  What `find` does not find is read all the same. -/
def hardwareBreakpointRemove (bp : HardwareBreakpoint) : GdbM Unit := do
  addOperation .maybeSaveTselect
  match (← get).hardwareBreakpoints bp.vaddr bp.size with
  | none => throw .undefined
  | some found => addOperation (.hardwareBreakpointRemove found)

/-- The breakpoint of a request for one of the types 1 to 4. -/
def requestedBreakpoint (type : Word) (vaddr : Reg) (size : Word) : HardwareBreakpoint :=
  { vaddr := vaddr
    size := size
    index := 0
    load := type = 3 ∨ type = 4
    store := type = 2 ∨ type = 4
    execute := type = 1 ∨ type = 4 }

/-- The fields of a breakpoint request, or the error. -/
def parseBreakpoint (packet : List Byte) : GdbM (Except String (Word × Reg × Word)) := do
  let (type, iter) := consumeHexNumber (packet.drop 2)
  if (← peek iter) ≠ ascii ',' then return .error "E50"
  let (address, iter) := consumeHexNumber (iter.drop 1)
  if (← peek iter) ≠ ascii ',' then return .error "E51"
  let (size, iter) := consumeHexNumber (iter.drop 1)
  if (← peek iter) ≠ ascii '#' then return .error "E52"
  return .ok (type.setWidth 32, address, size.setWidth 32)

def handleBreakpoint (packet : List Byte) (insert : Bool) : GdbM Unit := do
  match ← parseBreakpoint packet with
  | .error e => sendPacket e
  | .ok (type, address, size) =>
      if type = 0 then
        if size ≠ 2 ∧ size ≠ 4 then sendPacket "E53"
        else
          if insert then softwareBreakpointInsert address size
          else softwareBreakpointRemove address
          sendPacket "OK"
      else if type ≤ 4 then
        -- The insert operation sends its own reply.
        if insert then hardwareBreakpointInsert (requestedBreakpoint type address size)
        else
          hardwareBreakpointRemove (requestedBreakpoint type address size)
          sendPacket "OK"
      else sendPacket "E56"

/-! ## Queries -/

/-- The strings that `consume_string` finds between semicolons. -/
def features : List Byte → List (List Byte)
  | [] => []
  | c :: cs =>
      (c :: cs).takeWhile (· ≠ ascii ';') :: features (((c :: cs).dropWhile (· ≠ ascii ';')).drop 1)
termination_by iter => iter.length
decreasing_by
  have := List.length_dropWhile_le (· ≠ ascii ';') (c :: cs)
  simp only [List.length_drop, List.length_cons] at this ⊢
  omega

def handleQuery (packet : List Byte) : GdbM Unit := do
  let iter := packet.drop 2
  let name := iter.takeWhile (· ≠ ascii ':')
  let iter := (iter.dropWhile (· ≠ ascii ':')).drop 1
  if name = text "Supported" then
    startPacket
    (features iter).forM fun feature => do
      if feature = text "swbreak+" then send (text "swbreak+;")
    send (text "PacketSize=131072;")
    endPacket
  else sendPacket ""

/-! ## Dispatch -/

def computeChecksum (packet : List Byte) : Byte :=
  ((packet.take (packet.length - 3)).drop 1).foldl (· + ·) 0

def extractChecksum (packet : List Byte) : Byte :=
  characterHexValue (packet.getD (packet.length - 1) 0) +
    16 * characterHexValue (packet.getD (packet.length - 2) 0)

/-- The switch of `handle_packet`. -/
def dispatch (packet : List Byte) : GdbM Unit := do
  let command ← peek (packet.drop 1)
  if command = ascii '!' then handleExtended
  else if command = ascii '?' then handleHaltReason
  else if command = ascii 'g' then handleGeneralRegistersRead
  else if command = ascii 'm' then handleMemoryRead packet
  else if command = ascii 'X' then handleMemoryBinaryWrite packet
  else if command = ascii 'p' then handleRegisterRead packet
  else if command = ascii 'P' then handleRegisterWrite packet
  else if command = ascii 'c' then handleContinue packet
  else if command = ascii 's' then handleStep packet
  else if command = ascii 'z' then handleBreakpoint packet false
  else if command = ascii 'Z' then handleBreakpoint packet true
  else if command = ascii 'q' ∨ command = ascii 'Q' then handleQuery packet
  else sendPacket ""

def handlePacket (packet : List Byte) : GdbM Unit := do
  if computeChecksum packet ≠ extractChecksum packet then send (text "-")
  else
    send (text "+")
    dispatch packet

def handleInterrupt : GdbM Unit := addOperation (.halt true .enter)

/-! ## The server as a whole -/

/-- What the requests do to the server. -/
def requestHandler : RequestHandler GdbServer where
  expectAck s := s.expectAck
  handleInterrupt s :=
    match handleInterrupt s with
    | .ok _ s => some s
    | .error _ _ => none
  handlePacket packet s :=
    match handlePacket packet s with
    | .ok _ s => some s
    | .error _ _ => none
  dropped _ s := s
  acknowledged s := s

/-- `write`, to a client that takes everything. -/
def write : GdbM Unit := modify fun s => { s with sendBuf := s.sendBuf.writeOut }

/-- `handle`, for a client that stays connected, while `pending` waits in the socket. -/
def handle (recvBuf : RingBuffer Byte) (pending : List Byte) :
    GdbM (RingBuffer Byte × List Byte) := do
  if 0 ∉ (← get).debugModule.interrupt then stepQueue
  if 0 ∈ (← get).debugModule.haltNotification then
    modify fun s => { s with debugModule := { s.debugModule with
      haltNotification := s.debugModule.haltNotification.filter (· ≠ 0) } }
    addOperation (.halt true .enter)
  match recvBuf.read pending with
  | none => die
  | some (recvBuf, pending) =>
      write
      let s ← get
      if s.operationQueue.isEmpty then
        match processRequests requestHandler recvBuf s with
        | none => die
        | some (recvBuf, s) =>
            set s
            return (recvBuf, pending)
      else return (recvBuf, pending)

end SpikeSim.Gdb
