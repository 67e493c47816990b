/-
# Ranks

The state of a bank, the packets on the buses, and a rank: it checks every command against its
own bank states and ends the simulator where a command is not allowed.  Stored data is left out,
as in a build with `NO_STORAGE`.
-/

import SpikeSim.Dram.Config

namespace SpikeSim.Dram

inductive BusPacketType
  | read | readP | write | writeP | activate | precharge | refresh | data
  deriving DecidableEq

@[ext]
structure BusPacket (cfg : Config) where
  busPacketType : BusPacketType
  physicalAddress : BitVec 64
  column : BitVec 32
  row : BitVec 32
  rank : Fin cfg.numRanks
  bank : Fin cfg.numBanks
  deriving DecidableEq

inductive CurrentBankState
  | idle | rowActive | precharging | refreshing | powerDown
  deriving DecidableEq

structure BankState where
  currentBankState : CurrentBankState := .idle
  openRowAddress : BitVec 32 := 0
  nextRead : ℕ := 0
  nextWrite : ℕ := 0
  nextActivate : ℕ := 0
  nextPrecharge : ℕ := 0
  nextPowerUp : ℕ := 0
  lastCommand : BusPacketType := .read
  stateChangeCountdown : ℕ := 0
  deriving DecidableEq

/-- Where the simulator ends itself. -/
inductive Fault
  | notAllowed (command : BusPacketType)
  | powerDownNotIdle
  | powerUpNotDown
  | powerUpTooEarly
  | nonDataFromRank
  | dataBusCollision
  | commandBusCollision
  | unexpectedCommand
  | queueOverflow
  | noMatchingTransaction
  | channelOutOfRange
  | endlessLoop
  deriving DecidableEq

/-- `--` on an `unsigned`. -/
def decrement (n : ℕ) : ℕ := if n = 0 then 2 ^ 32 - 1 else n - 1

theorem decrement_of_pos {n : ℕ} (h : 0 < n) : decrement n = n - 1 := if_neg h.ne'

/-- `readReturn` holds what `readReturnPacket` and `readReturnCountdown` hold side by side. -/
structure Rank (cfg : Config) where
  isPowerDown : Bool := false
  refreshWaiting : Bool := false
  outgoingDataPacket : Option (BusPacket cfg) := none
  dataCyclesLeft : ℕ := 0
  readReturn : List (BusPacket cfg × ℕ) := []
  bankStates : Fin cfg.numBanks → BankState := fun _ => {}

namespace Rank

variable {cfg : Config}

def updateBank (bank : Fin cfg.numBanks) (f : BankState → BankState)
    (banks : Fin cfg.numBanks → BankState) : Fin cfg.numBanks → BankState :=
  Function.update banks bank (f (banks bank))

/-- The delays after a read: for the reads and the writes of all banks. -/
def holdAfterRead (cfg : Config) (now : ℕ) (b : BankState) : BankState :=
  { b with
    nextRead := max b.nextRead (now + max cfg.tCCD (cfg.BL / 2))
    nextWrite := max b.nextWrite (now + cfg.readToWriteDelay) }

def holdAfterWrite (cfg : Config) (now : ℕ) (b : BankState) : BankState :=
  { b with
    nextRead := max b.nextRead (now + cfg.writeToReadDelayB)
    nextWrite := max b.nextWrite (now + max (cfg.BL / 2) cfg.tCCD) }

/-- The read packet waits for its time; it goes back as a data packet. -/
def returnLater (packet : BusPacket cfg) (rank : Rank cfg) : Rank cfg :=
  { rank with
    readReturn := rank.readReturn ++ [({ packet with busPacketType := .data }, cfg.RL)] }

def receiveFromBus (now : ℕ) (packet : BusPacket cfg) (rank : Rank cfg) :
    Except Fault (Rank cfg) :=
  let bank := rank.bankStates packet.bank
  match packet.busPacketType with
  | .read =>
    if bank.currentBankState ≠ .rowActive ∨ now < bank.nextRead ∨
        packet.row ≠ bank.openRowAddress then
      .error (.notAllowed .read)
    else
      let banks := updateBank packet.bank (fun b => { b with
        nextPrecharge := max b.nextPrecharge (now + cfg.readToPreDelay) }) rank.bankStates
      .ok (returnLater packet { rank with
        bankStates := fun i => holdAfterRead cfg now (banks i) })
  | .readP =>
    if bank.currentBankState ≠ .rowActive ∨ now < bank.nextRead ∨
        packet.row ≠ bank.openRowAddress then
      .error (.notAllowed .readP)
    else
      let banks := updateBank packet.bank (fun b => { b with
        currentBankState := .idle
        nextActivate := max b.nextActivate (now + cfg.readAutopreDelay) }) rank.bankStates
      .ok (returnLater packet { rank with
        bankStates := fun i => holdAfterRead cfg now (banks i) })
  | .write =>
    if bank.currentBankState ≠ .rowActive ∨ now < bank.nextWrite ∨
        packet.row ≠ bank.openRowAddress then
      .error (.notAllowed .write)
    else
      let banks := updateBank packet.bank (fun b => { b with
        nextPrecharge := max b.nextPrecharge (now + cfg.writeToPreDelay) }) rank.bankStates
      .ok { rank with bankStates := fun i => holdAfterWrite cfg now (banks i) }
  | .writeP =>
    if bank.currentBankState ≠ .rowActive ∨ now < bank.nextWrite ∨
        packet.row ≠ bank.openRowAddress then
      .error (.notAllowed .writeP)
    else
      let banks := updateBank packet.bank (fun b => { b with
        currentBankState := .idle
        nextActivate := max b.nextActivate (now + cfg.writeAutopreDelay) }) rank.bankStates
      .ok { rank with bankStates := fun i => holdAfterWrite cfg now (banks i) }
  | .activate =>
    if bank.currentBankState ≠ .idle ∨ now < bank.nextActivate then
      .error (.notAllowed .activate)
    else
      let banks := updateBank packet.bank (fun b => { b with
        currentBankState := .rowActive
        nextActivate := now + cfg.tRC
        openRowAddress := packet.row
        nextWrite := now + (cfg.tRCD - cfg.AL)
        nextRead := now + (cfg.tRCD - cfg.AL)
        nextPrecharge := now + cfg.tRAS }) rank.bankStates
      .ok { rank with
        bankStates := fun i =>
          if i ≠ packet.bank then
            { banks i with nextActivate := max (banks i).nextActivate (now + cfg.tRRD) }
          else banks i }
  | .precharge =>
    if bank.currentBankState ≠ .rowActive ∨ now < bank.nextPrecharge then
      .error (.notAllowed .precharge)
    else
      .ok { rank with
        bankStates := updateBank packet.bank (fun b => { b with
          currentBankState := .idle
          nextActivate := max b.nextActivate (now + cfg.tRP) }) rank.bankStates }
  | .refresh =>
    if ∃ i, (rank.bankStates i).currentBankState ≠ .idle then
      .error (.notAllowed .refresh)
    else
      .ok { rank with
        refreshWaiting := false
        bankStates := fun i => { rank.bankStates i with nextActivate := now + cfg.tRFC } }
  | .data => .ok rank

/-- All banks of the rank lose power. -/
def powerDown (now : ℕ) (rank : Rank cfg) : Except Fault (Rank cfg) :=
  if ∃ i, (rank.bankStates i).currentBankState ≠ .idle then
    .error .powerDownNotIdle
  else
    .ok { rank with
      isPowerDown := true
      bankStates := fun i => { rank.bankStates i with
        nextPowerUp := now + cfg.tCKE
        currentBankState := .powerDown } }

def powerUp (now : ℕ) (rank : Rank cfg) : Except Fault (Rank cfg) :=
  if rank.isPowerDown = false then
    .error .powerUpNotDown
  else if ∃ i, now < (rank.bankStates i).nextPowerUp then
    .error .powerUpTooEarly
  else
    .ok { rank with
      isPowerDown := false
      bankStates := fun i => { rank.bankStates i with
        nextActivate := now + cfg.tXP
        currentBankState := .idle } }

/-- A rank in a cycle: the packet that has left the bus, if any, and the rank afterwards. -/
def update (rank : Rank cfg) : Option (BusPacket cfg) × Rank cfg :=
  let (sent, rank) : Option (BusPacket cfg) × Rank cfg :=
    match rank.outgoingDataPacket with
    | none => (none, rank)
    | some packet =>
      let rank := { rank with dataCyclesLeft := decrement rank.dataCyclesLeft }
      if rank.dataCyclesLeft = 0 then (some packet, { rank with outgoingDataPacket := none })
      else (none, rank)
  let waiting := rank.readReturn.map fun entry => (entry.1, decrement entry.2)
  match waiting with
  | [] => (sent, { rank with readReturn := [] })
  | (packet, countdown) :: rest =>
    if countdown = 0 then
      -- RL cycles have passed since the read; it goes out on the data bus.
      (sent, { rank with
        outgoingDataPacket := some packet
        dataCyclesLeft := cfg.BL / 2
        readReturn := rest })
    else (sent, { rank with readReturn := waiting })

end Rank

end SpikeSim.Dram
