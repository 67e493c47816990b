/-
# The invariant of a channel

Between two cycles the controller and its ranks agree: a command on the bus is one that its
rank will accept, the copies of the bank states are right once it has arrived, the data lines
are kept apart, and the reads that the controller waits for are exactly those in flight.
-/

import SpikeSim.Dram.Ledger

namespace SpikeSim.Dram

open CommandQueue DelayLine

variable {cfg : Config}

/-- Whether a rank accepts a command depends on its banks alone, and the data of a read are put
in line. -/
theorem Rank.receiveFromBus_ok {now : ℕ} {packet : BusPacket cfg} {rank rank' other : Rank cfg}
    (h : rank.receiveFromBus now packet = .ok rank') (hbanks : other.bankStates = rank.bankStates) :
    ∃ other', other.receiveFromBus now packet = .ok other' ∧
      other'.bankStates = rank'.bankStates ∧ other'.isPowerDown = other.isPowerDown ∧
      other'.readLine = expect packet cfg.RL packet.rank other.readLine := by
  unfold receiveFromBus at h ⊢
  rw [hbanks]
  cases htype : packet.busPacketType with
  | data =>
      rw [htype] at h
      cases h
      exact ⟨other, rfl, hbanks, rfl, by simp [expect, htype, BusPacketType.IsRead]⟩
  | read | readP | write | writeP | activate | precharge | refresh =>
      all_goals
        rw [htype] at h
        dsimp only at h ⊢
        split at h
        · cases h
        · rename_i hok
          cases h
          rw [if_neg hok]
          exact ⟨_, rfl, rfl, rfl, by simp [expect, htype, BusPacketType.IsRead, readLine,
            returnLater, DelayLine.push, BusPacket.asData]⟩

namespace MemorySystem

/-- The banks of the ranks once the command on the bus has arrived, in the cycle `next`. -/
def Arrives (next : ℕ) (s : MemorySystem cfg) (banks : Banks cfg) : Prop :=
  match s.controller.outgoingCmdPacket with
  | none => banks = fun i => (s.ranks i).bankStates
  | some packet =>
    s.controller.cmdCyclesLeft = 1 ∧
      ∃ rank, (s.ranks packet.rank).receiveFromBus next packet = .ok rank ∧
        banks = Function.update (fun i => (s.ranks i).bankStates) packet.rank rank.bankStates

/-- The read data of the ranks, with those of a read that is on the bus. -/
def readLines (s : MemorySystem cfg) (i : Fin cfg.numRanks) : DelayLine (BusPacket cfg) :=
  match s.controller.outgoingCmdPacket with
  | none => (s.ranks i).readLine
  | some packet => expect packet (cfg.RL + 1) i (s.ranks i).readLine

/-- A rank and the controller agree on whether it has power. -/
def Powered (s : MemorySystem cfg) (i : Fin cfg.numRanks) : Prop :=
  (s.ranks i).isPowerDown = s.controller.powerDown i ∧
    if s.controller.powerDown i then
      ∃ up, ∀ j, (s.controller.bankStates i j).currentBankState = .powerDown ∧
        (s.controller.bankStates i j).nextPowerUp = up
    else ∀ j, (s.controller.bankStates i j).currentBankState ≠ .powerDown

/-- The addresses of the reads that have been turned into commands and not been answered. -/
def readsInFlight (s : MemorySystem cfg) : Multiset (BitVec 64) :=
  s.controller.returnTransaction + ∑ i, addresses (s.readLines i).items +
    queued BusPacketType.IsRead s.controller.commandQueue

def writesInFlight (s : MemorySystem cfg) : Multiset (BitVec 64) :=
  addresses s.controller.writeLine.items + queued BusPacketType.IsWrite s.controller.commandQueue

/-! ## Accepted transactions -/

/-- The addresses of the transactions of a type. -/
def ofType (type : TransactionType) (transactions : List Transaction) : Multiset (BitVec 64) :=
  (transactions.filter fun t => t.transactionType = type).map Transaction.address

def readAnswers (events : List (Event cfg)) : Multiset (BitVec 64) :=
  events.filterMap fun
    | .readDone _ address => some address
    | .command .. | .writeDone .. => none

def writeAnswers (events : List (Event cfg)) : Multiset (BitVec 64) :=
  events.filterMap fun
    | .writeDone _ address => some address
    | .command .. | .readDone .. => none

@[simp]
theorem readAnswers_append (first second : List (Event cfg)) :
    readAnswers (first ++ second) = readAnswers first + readAnswers second := by
  simp [readAnswers]

@[simp]
theorem writeAnswers_append (first second : List (Event cfg)) :
    writeAnswers (first ++ second) = writeAnswers first + writeAnswers second := by
  simp [writeAnswers]

@[simp]
theorem ofType_append (type : TransactionType) (first second : List Transaction) :
    ofType type (first ++ second) = ofType type first + ofType type second := by
  simp [ofType]

/-- The reads that have been accepted: they wait for their commands or for their data, or have
been answered. -/
def readsAccepted (s : MemorySystem cfg) : Multiset (BitVec 64) :=
  ofType .dataRead (s.controller.transactionQueue ++ s.pendingTransactions) +
    s.controller.pendingReadTransactions.map Transaction.address + readAnswers s.events

def writesAccepted (s : MemorySystem cfg) : Multiset (BitVec 64) :=
  ofType .dataWrite (s.controller.transactionQueue ++ s.pendingTransactions) +
    s.writesInFlight + writeAnswers s.events

/-- Nothing has been accepted, lost or duplicated. -/
structure Conserves (s s' : MemorySystem cfg) : Prop where
  reads : s'.readsAccepted = s.readsAccepted
  writes : s'.writesAccepted = s.writesAccepted

theorem Conserves.refl (s : MemorySystem cfg) : Conserves s s := ⟨rfl, rfl⟩

theorem Conserves.trans {s s' s'' : MemorySystem cfg} (h : Conserves s s')
    (h' : Conserves s' s'') : Conserves s s'' :=
  ⟨h'.reads.trans h.reads, h'.writes.trans h.writes⟩

/-! ## The invariant -/

/-- The controller and the ranks before the cycle `next`, or in the cycle before it. -/
structure Consistent (next longestWrite longestRead : ℕ) (s : MemorySystem cfg) : Prop where
  wellFormed : s.controller.commandQueue.WellFormed
  powered : ∀ i, s.Powered i
  busy : ∀ packet, s.controller.outgoingCmdPacket = some packet →
    (s.controller.bankStates packet.rank packet.bank).currentBankState ≠ .idle ∧
      (s.controller.bankStates packet.rank packet.bank).currentBankState ≠ .powerDown
  sees : ∃ banks, s.Arrives next banks ∧
    ∀ i j, Sees cfg next (s.controller.bankStates i j) (banks i j)
  timed : Timed next longestWrite longestRead s.controller.bankStates s.controller.writeLine
    s.readLines
  writeData : ∀ packet ∈ s.controller.writeLine.items, packet.busPacketType = .data
  readData : ∀ i, ∀ packet ∈ (s.readLines i).items, packet.busPacketType = .data
  pending : (s.controller.pendingReadTransactions.map Transaction.address : Multiset _) =
    s.readsInFlight

/-- Between two cycles. -/
def Inv (s : MemorySystem cfg) : Prop :=
  s.Consistent s.currentClockCycle cfg.WL (cfg.RL + 1)

theorem inv_initial (cfg : Config) : ({} : MemorySystem cfg).Inv where
  wellFormed := ⟨by simp, by simp⟩
  powered i := ⟨rfl, by simp⟩
  busy := by simp
  sees := ⟨_, rfl, fun _ _ => Sees.initial⟩
  timed := ⟨spaced_nil, fun _ _ _ => clear_nil, fun _ => spaced_nil, fun _ _ => clear_nil⟩
  writeData := by simp [MemoryController.writeLine, items]
  readData := by simp [readLines, Rank.readLine, items]
  pending := by simp [readsInFlight, readLines, Rank.readLine, items, queued]

variable {next longestWrite longestRead : ℕ} {s : MemorySystem cfg}

/-- A rank for which a command is on the bus has power. -/
theorem Consistent.on (h : s.Consistent next longestWrite longestRead) {packet : BusPacket cfg}
    (hbus : s.controller.outgoingCmdPacket = some packet) :
    s.controller.powerDown packet.rank = false := by
  obtain ⟨-, hcopies⟩ := h.powered packet.rank
  by_contra hoff
  rw [Bool.not_eq_false] at hoff
  rw [if_pos hoff] at hcopies
  obtain ⟨up, hcopies⟩ := hcopies
  exact (h.busy packet hbus).2 (hcopies packet.bank).1

/-- Only the banks of the ranks matter. -/
theorem Arrives.of_ranks {banks : Banks cfg} (h : s.Arrives next banks)
    {ranks : Fin cfg.numRanks → Rank cfg}
    (hbanks : ∀ i, (ranks i).bankStates = (s.ranks i).bankStates) :
    ({ s with ranks := ranks }).Arrives next banks := by
  unfold Arrives at h ⊢
  dsimp only
  cases hbus : s.controller.outgoingCmdPacket with
  | none =>
      rw [hbus] at h
      dsimp only at h ⊢
      rw [h]
      funext i
      exact (hbanks i).symm
  | some packet =>
      rw [hbus] at h
      obtain ⟨hleft, rank, hreceive, rfl⟩ := h
      obtain ⟨rank', hreceive', hsame, -⟩ := Rank.receiveFromBus_ok hreceive (hbanks packet.rank)
      refine ⟨hleft, rank', hreceive', ?_⟩
      rw [hsame]
      congr 1
      funext i
      exact (hbanks i).symm

/-- Only the banks, the power and the data of the ranks matter. -/
theorem Consistent.of_ranks (h : s.Consistent next longestWrite longestRead)
    {ranks : Fin cfg.numRanks → Rank cfg}
    (hbanks : ∀ i, (ranks i).bankStates = (s.ranks i).bankStates)
    (hpower : ∀ i, (ranks i).isPowerDown = (s.ranks i).isPowerDown)
    (hlines : ∀ i, (ranks i).readLine = (s.ranks i).readLine) :
    ({ s with ranks := ranks }).Consistent next longestWrite longestRead := by
  have hreads : ({ s with ranks := ranks }).readLines = s.readLines := by
    funext i
    unfold readLines
    rw [hlines i]
  refine ⟨h.wellFormed, fun i => ⟨?_, (h.powered i).2⟩, h.busy, ?_, ?_, h.writeData, ?_, ?_⟩
  · rw [hpower i]
    exact (h.powered i).1
  · obtain ⟨banks, harrives, hsees⟩ := h.sees
    exact ⟨banks, harrives.of_ranks hbanks, hsees⟩
  · rw [hreads]
    exact h.timed
  · rw [hreads]
    exact h.readData
  · rw [readsInFlight, hreads]
    exact h.pending

end MemorySystem

end SpikeSim.Dram
