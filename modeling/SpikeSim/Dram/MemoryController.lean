/-
# The memory controller

The controller keeps its own copy of the bank states, one step ahead of the ranks: what it puts
on the command bus reaches a rank `tCMD` cycles later.  In a cycle it moves the buses on, sends
the data of writes, asks for refreshes, issues one command, turns one transaction into commands,
powers ranks down and up, and returns one read.

Energy and latency counters and the data itself are left out.
-/

import SpikeSim.Lib.Effect
import SpikeSim.Dram.AddressMapping
import SpikeSim.Dram.CommandQueue

namespace SpikeSim.Dram

inductive TransactionType
  | dataRead | dataWrite
  deriving DecidableEq

structure Transaction where
  transactionType : TransactionType
  address : BitVec 64
  deriving DecidableEq

/-- With closed pages a column access precharges its bank itself. -/
def Transaction.getBusPacketType (cfg : Config) (t : Transaction) : BusPacketType :=
  match t.transactionType, cfg.rowBufferPolicy with
  | .dataRead, .closePage => .readP
  | .dataRead, .openPage => .read
  | .dataWrite, .closePage => .writeP
  | .dataWrite, .openPage => .write

/-- What is seen from outside: a command on the bus, and the callbacks for reads and writes. -/
inductive Event (cfg : Config)
  | command (cycle : ℕ) (packet : BusPacket cfg)
  | readDone (cycle : ℕ) (address : BitVec 64)
  | writeDone (cycle : ℕ) (address : BitVec 64)
  deriving DecidableEq

/-- `writeDataToSend` holds what the source keeps in it and in `writeDataCountdown`, and
`returnTransaction` the addresses of the data that have come back. -/
structure MemoryController (cfg : Config) where
  transactionQueue : List Transaction := []
  bankStates : Banks cfg := fun _ _ => {}
  commandQueue : CommandQueue cfg := {}
  refreshCountdown : Fin cfg.numRanks → ℕ := fun i => cfg.refreshStagger * (i.val + 1)
  writeDataToSend : List (BusPacket cfg × ℕ) := []
  returnTransaction : List (BitVec 64) := []
  pendingReadTransactions : List Transaction := []
  powerDown : Fin cfg.numRanks → Bool := fun _ => false
  outgoingCmdPacket : Option (BusPacket cfg) := none
  cmdCyclesLeft : ℕ := 0
  outgoingDataPacket : Option (BusPacket cfg) := none
  dataCyclesLeft : ℕ := 0
  refreshRank : Fin cfg.numRanks := 0

/-- One channel.  Its parts all count the same cycles.  `pendingTransactions` wait for room in
the transaction queue of the controller. -/
structure MemorySystem (cfg : Config) where
  currentClockCycle : ℕ := 0
  controller : MemoryController cfg := {}
  ranks : Fin cfg.numRanks → Rank cfg := fun _ => {}
  pendingTransactions : List Transaction := []
  events : List (Event cfg) := []

/-- A step of the simulated memory; it throws where the simulator ends itself. -/
abbrev DramM (cfg : Config) := EStateM Fault (MemorySystem cfg)

namespace MemoryController

variable {cfg : Config}

/-! ## Bank states -/

/-- A cycle of a bank: some commands change its state after a while. -/
def tickBank (cfg : Config) (b : BankState) : BankState :=
  if 0 < b.stateChangeCountdown then
    let b := { b with stateChangeCountdown := b.stateChangeCountdown - 1 }
    if b.stateChangeCountdown = 0 then
      match b.lastCommand with
      | .writeP | .readP =>
        { b with
          currentBankState := .precharging
          lastCommand := .precharge
          stateChangeCountdown := cfg.tRP }
      | .refresh | .precharge => { b with currentBankState := .idle }
      | .read | .write | .activate | .data => b
    else b
  else b

/-- The bank is not read or written until its own precharge is over. -/
def holdUntilActivate (b : BankState) : BankState :=
  { b with nextRead := b.nextActivate, nextWrite := b.nextActivate }

/-- The delays that a read imposes on a bank, of the same rank or of another. -/
def holdAfterRead (cfg : Config) (now : ℕ) (sameRank : Bool) (b : BankState) : BankState :=
  if sameRank then
    { b with
      nextRead := max (now + max cfg.tCCD (cfg.BL / 2)) b.nextRead
      nextWrite := max (now + cfg.readToWriteDelay) b.nextWrite }
  else if b.currentBankState = .rowActive then
    { b with
      nextRead := max (now + cfg.BL / 2 + cfg.tRTRS) b.nextRead
      nextWrite := max (now + cfg.readToWriteDelay) b.nextWrite }
  else b

def holdAfterWrite (cfg : Config) (now : ℕ) (sameRank : Bool) (b : BankState) : BankState :=
  if sameRank then
    { b with
      nextWrite := max (now + max (cfg.BL / 2) cfg.tCCD) b.nextWrite
      nextRead := max (now + cfg.writeToReadDelayB) b.nextRead }
  else if b.currentBankState = .rowActive then
    { b with
      nextWrite := max (now + cfg.BL / 2 + cfg.tRTRS) b.nextWrite
      nextRead := max (now + cfg.writeToReadDelayR) b.nextRead }
  else b

/-- The bank states after a command has been put on the bus. -/
def afterCommand (now : ℕ) (packet : BusPacket cfg) (banks : Banks cfg) : Banks cfg :=
  let own := updateAt packet.rank packet.bank
  match packet.busPacketType with
  | .readP =>
    let banks := own (fun b => { b with
      nextActivate := max (now + cfg.readAutopreDelay) b.nextActivate
      lastCommand := .readP
      stateChangeCountdown := cfg.readToPreDelay }) banks
    own holdUntilActivate fun i j => holdAfterRead cfg now (i = packet.rank) (banks i j)
  | .read =>
    let banks := own (fun b => { b with
      nextPrecharge := max (now + cfg.readToPreDelay) b.nextPrecharge
      lastCommand := .read }) banks
    fun i j => holdAfterRead cfg now (i = packet.rank) (banks i j)
  | .writeP =>
    let banks := own (fun b => { b with
      nextActivate := max (now + cfg.writeAutopreDelay) b.nextActivate
      lastCommand := .writeP
      stateChangeCountdown := cfg.writeToPreDelay }) banks
    own holdUntilActivate fun i j => holdAfterWrite cfg now (i = packet.rank) (banks i j)
  | .write =>
    let banks := own (fun b => { b with
      nextPrecharge := max (now + cfg.writeToPreDelay) b.nextPrecharge
      lastCommand := .write }) banks
    fun i j => holdAfterWrite cfg now (i = packet.rank) (banks i j)
  | .activate =>
    let banks := own (fun b => { b with
      currentBankState := .rowActive
      lastCommand := .activate
      openRowAddress := packet.row
      nextActivate := max (now + cfg.tRC) b.nextActivate
      nextPrecharge := max (now + cfg.tRAS) b.nextPrecharge
      nextRead := max (now + (cfg.tRCD - cfg.AL)) b.nextRead
      nextWrite := max (now + (cfg.tRCD - cfg.AL)) b.nextWrite }) banks
    fun i j =>
      if i = packet.rank ∧ j ≠ packet.bank then
        { banks i j with nextActivate := max (now + cfg.tRRD) (banks i j).nextActivate }
      else banks i j
  | .precharge =>
    own (fun b => { b with
      currentBankState := .precharging
      lastCommand := .precharge
      stateChangeCountdown := cfg.tRP
      nextActivate := max (now + cfg.tRP) b.nextActivate }) banks
  | .refresh => fun i j =>
    if i = packet.rank then
      { banks i j with
        nextActivate := now + cfg.tRFC
        currentBankState := .refreshing
        lastCommand := .refresh
        stateChangeCountdown := cfg.tRFC }
    else banks i j
  | .data => banks

end MemoryController

namespace MemorySystem

variable {cfg : Config}

/-! ## The steps of a cycle -/

def modifyController (f : MemoryController cfg → MemoryController cfg) : DramM cfg Unit :=
  modify fun s => { s with controller := f s.controller }

def setRank (i : Fin cfg.numRanks) (rank : Rank cfg) : DramM cfg Unit :=
  modify fun s => { s with ranks := Function.update s.ranks i rank }

def record (event : ℕ → Event cfg) : DramM cfg Unit :=
  modify fun s => { s with events := s.events ++ [event s.currentClockCycle] }

/-- A check of the source that ends the simulator. -/
def orFault {α : Type} : Except Fault α → DramM cfg α
  | .ok a => pure a
  | .error e => throw e

/-- The rank at the other end of a bus gets a packet. -/
def deliver (packet : BusPacket cfg) : DramM cfg Unit := do
  let s ← get
  let rank ← orFault ((s.ranks packet.rank).receiveFromBus s.currentClockCycle packet)
  setRank packet.rank rank

def updateBankStates : DramM cfg Unit :=
  modifyController fun c =>
    { c with bankStates := fun i j => MemoryController.tickBank cfg (c.bankStates i j) }

def moveCommandBus : DramM cfg Unit := do
  let c := (← get).controller
  match c.outgoingCmdPacket with
  | none => pure ()
  | some packet =>
    let left := decrement c.cmdCyclesLeft
    modifyController fun c => { c with cmdCyclesLeft := left }
    if left = 0 then
      deliver packet
      modifyController fun c => { c with outgoingCmdPacket := none }

def moveDataBus : DramM cfg Unit := do
  let c := (← get).controller
  match c.outgoingDataPacket with
  | none => pure ()
  | some packet =>
    let left := decrement c.dataCyclesLeft
    modifyController fun c => { c with dataCyclesLeft := left }
    if left = 0 then
      record fun cycle => .writeDone cycle packet.physicalAddress
      deliver packet
      modifyController fun c => { c with outgoingDataPacket := none }

/-- The data of a write goes on the bus WL cycles after the write. -/
def sendWriteData : DramM cfg Unit := do
  modifyController fun c =>
    { c with writeDataToSend := c.writeDataToSend.map fun entry => (entry.1, decrement entry.2) }
  let c := (← get).controller
  match c.writeDataToSend with
  | [] => pure ()
  | (packet, countdown) :: rest =>
    if countdown = 0 then
      if c.outgoingDataPacket.isSome then throw .dataBusCollision
      modifyController fun c =>
        { c with
          outgoingDataPacket := some packet
          dataCyclesLeft := cfg.BL / 2
          writeDataToSend := rest }

def setRefreshWaiting (i : Fin cfg.numRanks) : DramM cfg Unit :=
  modify fun s => { s with
    ranks := Function.update s.ranks i { s.ranks i with refreshWaiting := true } }

/-- A refresh that is due is asked for, and a rank without power is woken in time for it. -/
def checkRefresh : DramM cfg Unit := do
  let c := (← get).controller
  if c.refreshCountdown c.refreshRank = 0 then
    modifyController fun c => { c with commandQueue := c.commandQueue.needRefresh c.refreshRank }
    setRefreshWaiting c.refreshRank
    modifyController fun c =>
      { c with
        refreshCountdown := Function.update c.refreshCountdown c.refreshRank cfg.refreshPeriod
        refreshRank := c.refreshRank + 1 }
  else if c.powerDown c.refreshRank ∧ c.refreshCountdown c.refreshRank ≤ cfg.tXP then
    setRefreshWaiting c.refreshRank

/-- A command is taken from the queue and put on the bus. -/
def issueCommand : DramM cfg Unit := do
  let s ← get
  let c := s.controller
  let (popped, q) := c.commandQueue.pop s.currentClockCycle c.bankStates
  modifyController fun c => { c with commandQueue := q }
  match popped with
  | none => pure ()
  | some packet =>
    if packet.busPacketType = .write ∨ packet.busPacketType = .writeP then
      modifyController fun c =>
        { c with
          writeDataToSend :=
            c.writeDataToSend ++ [({ packet with busPacketType := .data }, cfg.WL)] }
    if packet.busPacketType = .data then throw .unexpectedCommand
    modifyController fun c =>
      { c with
        bankStates := MemoryController.afterCommand s.currentClockCycle packet c.bankStates }
    if c.outgoingCmdPacket.isSome then throw .commandBusCollision
    modifyController fun c => { c with outgoingCmdPacket := some packet, cmdCyclesLeft := cfg.tCMD }
    record fun cycle => .command cycle packet

/-- Where the block of a transaction is. -/
def location (cfg : Config) (t : Transaction) : Location :=
  addressMapping cfg.toGeometry cfg.addressMappingScheme t.address

def rankOf (cfg : Config) (t : Transaction) : Fin cfg.numRanks :=
  ⟨(location cfg t).rank.toNat, addressMapping_inRange _ _ _ .rank⟩

def bankOf (cfg : Config) (t : Transaction) : Fin cfg.numBanks :=
  ⟨(location cfg t).bank.toNat, addressMapping_inRange _ _ _ .bank⟩

/-- A command of a transaction. -/
def packetOf (cfg : Config) (type : BusPacketType) (t : Transaction) : BusPacket cfg where
  busPacketType := type
  physicalAddress := t.address
  column := (location cfg t).column
  row := (location cfg t).row
  rank := rankOf cfg t
  bank := bankOf cfg t

def enqueueCommand (packet : BusPacket cfg) : DramM cfg Unit := do
  let q ← orFault ((← get).controller.commandQueue.enqueue packet)
  modifyController fun c => { c with commandQueue := q }

/-- The first transaction for which there is room becomes an activate and a column access. -/
def scheduleTransaction : DramM cfg Unit := do
  let c := (← get).controller
  match pick (fun _ t => c.commandQueue.hasRoomFor 2 (rankOf cfg t) (bankOf cfg t))
      c.transactionQueue with
  | none => pure ()
  | some (before, t, after) =>
    modifyController fun c => { c with transactionQueue := before ++ after }
    enqueueCommand (packetOf cfg .activate t)
    enqueueCommand (packetOf cfg (t.getBusPacketType cfg) t)
    if t.transactionType = .dataRead then
      modifyController fun c =>
        { c with pendingReadTransactions := c.pendingReadTransactions ++ [t] }

/-- The banks of one rank, changed by the controller. -/
def modifyBanks (i : Fin cfg.numRanks) (f : BankState → BankState) : DramM cfg Unit :=
  modifyController fun c =>
    { c with bankStates := Function.update c.bankStates i fun j => f (c.bankStates i j) }

def setPowerDown (i : Fin cfg.numRanks) (off : Bool) : DramM cfg Unit :=
  modifyController fun c => { c with powerDown := Function.update c.powerDown i off }

/-- A rank with nothing to do loses power, and gets it back when there is something. -/
def managePower (i : Fin cfg.numRanks) : DramM cfg Unit := do
  let s ← get
  let now := s.currentClockCycle
  let c := s.controller
  if cfg.useLowPower then
    if c.commandQueue.isEmpty i ∧ (s.ranks i).refreshWaiting = false then
      if ∀ j, (c.bankStates i j).currentBankState = .idle then
        setPowerDown i true
        let rank ← orFault ((s.ranks i).powerDown now)
        setRank i rank
        modifyBanks i fun b =>
          { b with currentBankState := .powerDown, nextPowerUp := now + cfg.tCKE }
      else pure ()
    else if (c.bankStates i 0).nextPowerUp ≤ now ∧ c.powerDown i = true then
      setPowerDown i false
      let rank ← orFault ((s.ranks i).powerUp now)
      setRank i rank
      modifyBanks i fun b => { b with currentBankState := .idle, nextActivate := now + cfg.tXP }

/-- The data at the head go to the CPU. -/
def returnReadData : DramM cfg Unit := do
  let c := (← get).controller
  match c.returnTransaction with
  | [] => pure ()
  | address :: rest =>
    match pick (fun _ t => t.address = address) c.pendingReadTransactions with
    | none => throw .noMatchingTransaction
    | some (before, t, after) =>
      record fun cycle => .readDone cycle t.address
      modifyController fun c =>
        { c with pendingReadTransactions := before ++ after, returnTransaction := rest }

def countRefresh : DramM cfg Unit :=
  modifyController fun c =>
    { c with refreshCountdown := fun i => decrement (c.refreshCountdown i) }

/-- `MemoryController::update`. -/
def updateController : DramM cfg Unit := do
  updateBankStates
  moveCommandBus
  moveDataBus
  sendWriteData
  checkRefresh
  issueCommand
  scheduleTransaction
  (List.finRange cfg.numRanks).forM managePower
  returnReadData
  countRefresh

/-! ## A channel -/

/-- `MemoryController::receiveFromBus`. -/
def receiveData (packet : BusPacket cfg) : DramM cfg Unit := do
  if packet.busPacketType ≠ .data then throw .nonDataFromRank
  modifyController fun c =>
    { c with returnTransaction := c.returnTransaction ++ [packet.physicalAddress] }

def updateRank (i : Fin cfg.numRanks) : DramM cfg Unit := do
  let (sent, rank) := ((← get).ranks i).update
  setRank i rank
  match sent with
  | some packet => receiveData packet
  | none => pure ()

def willAcceptTransaction (s : MemorySystem cfg) : Bool :=
  s.controller.transactionQueue.length < cfg.transQueueDepth

def acceptTransaction (t : Transaction) : DramM cfg Unit :=
  modifyController fun c => { c with transactionQueue := c.transactionQueue ++ [t] }

def acceptPending : DramM cfg Unit := do
  let s ← get
  match s.pendingTransactions with
  | [] => pure ()
  | t :: rest =>
    if s.willAcceptTransaction then
      acceptTransaction t
      modify fun s => { s with pendingTransactions := rest }

/-- `MemorySystem::update`: a cycle of the channel. -/
def update : DramM cfg Unit := do
  (List.finRange cfg.numRanks).forM updateRank
  acceptPending
  updateController
  modify fun s => { s with currentClockCycle := s.currentClockCycle + 1 }

/-- `MemorySystem::addTransaction`; what does not fit waits. -/
def addTransaction (isWrite : Bool) (address : BitVec 64) : DramM cfg Unit := do
  let t : Transaction := ⟨if isWrite then .dataWrite else .dataRead, address⟩
  if (← get).willAcceptTransaction then acceptTransaction t
  else modify fun s => { s with pendingTransactions := s.pendingTransactions ++ [t] }

end MemorySystem

end SpikeSim.Dram
