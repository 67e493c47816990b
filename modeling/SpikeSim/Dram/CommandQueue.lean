/-
# The command queue

`pop` picks the command that goes on the bus next.  A refresh that is due goes first, once the
banks of its rank are closed; otherwise the queues are searched in turn for a packet that may
be issued, and with open pages a bank that nobody waits for is closed.
-/

import SpikeSim.Lib.Pick
import SpikeSim.Dram.Rank

namespace SpikeSim.Dram

/-- The banks as the controller sees them. -/
abbrev Banks (cfg : Config) := Fin cfg.numRanks → Fin cfg.numBanks → BankState

/-- A rank and one of its banks. -/
abbrev Position (cfg : Config) := Fin cfg.numRanks × Fin cfg.numBanks

/-- `refreshWaiting` holds `refreshRank` while the flag of the source is set. -/
structure CommandQueue (cfg : Config) where
  queues : Fin cfg.numRanks → Fin cfg.numBanks → List (BusPacket cfg) := fun _ _ => []
  nextRank : Fin cfg.numRanks := 0
  nextBank : Fin cfg.numBanks := 0
  nextRankPRE : Fin cfg.numRanks := 0
  nextBankPRE : Fin cfg.numBanks := 0
  refreshWaiting : Option (Fin cfg.numRanks) := none
  tFAWCountdown : Fin cfg.numRanks → List ℕ := fun _ => []
  rowAccessCounters : Fin cfg.numRanks → Fin cfg.numBanks → ℕ := fun _ _ => 0
  sendAct : Bool := true

/-- The function with another value at one rank and bank. -/
def updateAt {cfg : Config} {α : Type} (rank : Fin cfg.numRanks) (bank : Fin cfg.numBanks)
    (f : α → α) (table : Fin cfg.numRanks → Fin cfg.numBanks → α) :
    Fin cfg.numRanks → Fin cfg.numBanks → α :=
  Function.update table rank (Function.update (table rank) bank (f (table rank bank)))

namespace CommandQueue

variable {cfg : Config}

/-- The queue that the packets of a bank are in: the rank has one for all its banks, or one for
each. -/
def slot (cfg : Config) (bank : Fin cfg.numBanks) : Fin cfg.numBanks :=
  match cfg.queuingStructure with
  | .perRankPerBank => bank
  | .perRank => 0

def getCommandQueue (q : CommandQueue cfg) (rank : Fin cfg.numRanks) (bank : Fin cfg.numBanks) :
    List (BusPacket cfg) :=
  q.queues rank (slot cfg bank)

def setCommandQueue (rank : Fin cfg.numRanks) (bank : Fin cfg.numBanks)
    (queue : List (BusPacket cfg)) (q : CommandQueue cfg) : CommandQueue cfg :=
  { q with queues := updateAt rank (slot cfg bank) (fun _ => queue) q.queues }

def enqueue (packet : BusPacket cfg) (q : CommandQueue cfg) : Except Fault (CommandQueue cfg) :=
  let queue := q.getCommandQueue packet.rank packet.bank ++ [packet]
  if cfg.cmdQueueDepth < queue.length then .error .queueOverflow
  else .ok (q.setCommandQueue packet.rank packet.bank queue)

/-- `CMD_QUEUE_DEPTH - queue.size() >= numberToEnqueue` on a 64-bit `size_t`. -/
def hasRoomFor (q : CommandQueue cfg) (numberToEnqueue : ℕ) (rank : Fin cfg.numRanks)
    (bank : Fin cfg.numBanks) : Bool :=
  numberToEnqueue ≤
    (cfg.cmdQueueDepth + 2 ^ 64 - (q.getCommandQueue rank bank).length) % 2 ^ 64

def isEmpty (q : CommandQueue cfg) (rank : Fin cfg.numRanks) : Bool :=
  match cfg.queuingStructure with
  | .perRank => (q.queues rank 0).isEmpty
  | .perRankPerBank => ∀ bank, (q.queues rank bank).isEmpty

def needRefresh (rank : Fin cfg.numRanks) (q : CommandQueue cfg) : CommandQueue cfg :=
  { q with refreshWaiting := some rank }

def nextRankAndBank (cfg : Config) (pos : Position cfg) : Position cfg :=
  match cfg.schedulingPolicy with
  | .rankThenBankRoundRobin =>
    (pos.1 + 1, if pos.1.val + 1 = cfg.numRanks then pos.2 + 1 else pos.2)
  | .bankThenRankRoundRobin =>
    (if pos.2.val + 1 = cfg.numBanks then pos.1 + 1 else pos.1, pos.2 + 1)

/-- The next position in the search for a packet. -/
def nextQueue (cfg : Config) (pos : Position cfg) : Position cfg :=
  match cfg.queuingStructure with
  | .perRank => (pos.1 + 1, pos.2)
  | .perRankPerBank => nextRankAndBank cfg pos

section Pop

variable (now : ℕ) (banks : Banks cfg) (q : CommandQueue cfg)

/-- A data packet ends the simulator in the source; none is ever queued. -/
def isIssuable (packet : BusPacket cfg) : Bool :=
  let bank := banks packet.rank packet.bank
  match packet.busPacketType with
  | .activate =>
    (bank.currentBankState = .idle ∨ bank.currentBankState = .refreshing) ∧
      bank.nextActivate ≤ now ∧ (q.tFAWCountdown packet.rank).length < 4
  | .write | .writeP =>
    bank.currentBankState = .rowActive ∧ bank.nextWrite ≤ now ∧
      packet.row = bank.openRowAddress ∧
      q.rowAccessCounters packet.rank packet.bank < cfg.totalRowAccesses
  | .read | .readP =>
    bank.currentBankState = .rowActive ∧ bank.nextRead ≤ now ∧
      packet.row = bank.openRowAddress ∧
      q.rowAccessCounters packet.rank packet.bank < cfg.totalRowAccesses
  | .precharge => bank.currentBankState = .rowActive ∧ bank.nextPrecharge ≤ now
  | .refresh | .data => false

/-- The sliding window of four activates. -/
def stepWindow (counters : List ℕ) : List ℕ :=
  match counters.map decrement with
  | [] => []
  | counter :: rest => if counter = 0 then rest else counter :: rest

/-- What the loop over the banks of a rank that waits for a refresh finds: all banks are closed
and rested; or one is not, and there is nothing to do, a packet to send, or a row to close. -/
inductive RefreshScan (cfg : Config)
  | ready
  | blocked
  | send (bank : Fin cfg.numBanks) (packet : BusPacket cfg) (rest : List (BusPacket cfg))
  | close (bank : Fin cfg.numBanks)

/-- The packet is for the row that is open in the bank. -/
def toOpenRow (rank : Fin cfg.numRanks) (bank : Fin cfg.numBanks) (packet : BusPacket cfg) :
    Bool :=
  packet.row = (banks rank bank).openRowAddress ∧ packet.bank = bank

/-- The row is closed once it may be. -/
def closeRow (rank : Fin cfg.numRanks) (bank : Fin cfg.numBanks) : RefreshScan cfg :=
  if (banks rank bank).nextPrecharge ≤ now then .close bank else .blocked

/-- An open bank that is in the way of a refresh: what waits for the open row goes first. -/
def scanOpenBank (rank : Fin cfg.numRanks) (bank : Fin cfg.numBanks) : RefreshScan cfg :=
  match pick (fun _ packet => toOpenRow banks rank bank packet) (q.getCommandQueue rank bank) with
  | some (before, packet, after) =>
    if packet.busPacketType ≠ .activate then
      if isIssuable now banks q packet then .send bank packet (before ++ after) else .blocked
    else
      match cfg.rowBufferPolicy with
      | .closePage => .blocked
      | .openPage => closeRow now banks rank bank
  | none =>
    match cfg.rowBufferPolicy with
    | .closePage => .blocked
    | .openPage => closeRow now banks rank bank

def scanBanks (rank : Fin cfg.numRanks) : List (Fin cfg.numBanks) → RefreshScan cfg
  | [] => .ready
  | bank :: rest =>
    if (banks rank bank).currentBankState = .rowActive then scanOpenBank now banks q rank bank
    else if now < (banks rank bank).nextActivate then .blocked
    else scanBanks rank rest

def refreshPacket (rank : Fin cfg.numRanks) : BusPacket cfg := ⟨.refresh, 0, 0, 0, rank, 0⟩

def prechargePacket (rank : Fin cfg.numRanks) (bank : Fin cfg.numBanks) : BusPacket cfg :=
  ⟨.precharge, 0, 0, 0, rank, bank⟩

/-- The row of a bank is closed: its accesses are counted from zero again. -/
def resetRowAccesses (rank : Fin cfg.numRanks) (bank : Fin cfg.numBanks) : CommandQueue cfg :=
  { q with rowAccessCounters := updateAt rank bank (fun _ => 0) q.rowAccessCounters }

/-- The part of `pop` for a refresh that is due. -/
def popRefresh : Option (BusPacket cfg × CommandQueue cfg) :=
  match q.refreshWaiting with
  | none => none
  | some rank =>
    match scanBanks now banks q rank (List.finRange cfg.numBanks) with
    | .ready =>
      if (banks rank 0).currentBankState ≠ .powerDown then
        some (refreshPacket rank, { q with refreshWaiting := none })
      else none
    | .blocked => none
    | .send bank packet rest => some (packet, q.setCommandQueue rank bank rest)
    | .close bank => some (prechargePacket rank bank, q.resetRowAccesses rank bank)

/-- The first packet that may be issued and is not waiting for an activate of its own. -/
def findClosePage (rank : Fin cfg.numRanks) (bank : Fin cfg.numBanks) :
    Option (BusPacket cfg × CommandQueue cfg) :=
  match cfg.queuingStructure with
  | .perRank =>
    let paired (before : List (BusPacket cfg)) (packet : BusPacket cfg) : Bool :=
      before.getLast?.any fun previous => previous.busPacketType = .activate ∧
        previous.physicalAddress = packet.physicalAddress
    match pick (fun before packet => isIssuable now banks q packet && !paired before packet)
        (q.getCommandQueue rank bank) with
    | some (before, packet, after) => some (packet, q.setCommandQueue rank bank (before ++ after))
    | none => none
  | .perRankPerBank =>
    match q.getCommandQueue rank bank with
    | packet :: rest =>
      if isIssuable now banks q packet then some (packet, q.setCommandQueue rank bank rest)
      else none
    | [] => none

/-- The first packet that may be issued and depends on none before it.  If the activate of the
packet is still queued then the row is open already, and the activate is dropped. -/
def findOpenPage (rank : Fin cfg.numRanks) (bank : Fin cfg.numBanks) :
    Option (BusPacket cfg × CommandQueue cfg) :=
  let depends (before : List (BusPacket cfg)) (packet : BusPacket cfg) : Bool :=
    before.any fun previous => previous.busPacketType ≠ .activate ∧
      previous.bank = packet.bank ∧ previous.row = packet.row
  match pick (fun before packet => isIssuable now banks q packet && !depends before packet)
      (q.getCommandQueue rank bank) with
  | some (before, packet, after) =>
    if before.getLast?.any (fun previous => previous.busPacketType = .activate) then
      let counters := updateAt packet.rank packet.bank (· + 1) q.rowAccessCounters
      some (packet, { q with rowAccessCounters := counters }.setCommandQueue rank bank
        (before.dropLast ++ after))
    else some (packet, q.setCommandQueue rank bank (before ++ after))
  | none => none

/-- The packet from the queue at a position, unless the rank waits for a refresh. -/
def findPacket (pos : Position cfg) : Option (BusPacket cfg × CommandQueue cfg) :=
  if q.refreshWaiting = some pos.1 then none
  else
    match cfg.rowBufferPolicy with
    | .closePage => findClosePage now banks q pos.1 pos.2
    | .openPage => findOpenPage now banks q pos.1 pos.2

/-- The loop over the queues, from where the last search ended. -/
def popQueued : Option (BusPacket cfg × CommandQueue cfg) :=
  match roundRobin (nextQueue cfg) (findPacket now banks q) (Fintype.card (Position cfg))
      (q.nextRank, q.nextBank) with
  | some (pos, packet, q) => some (packet, { q with nextRank := pos.1, nextBank := pos.2 })
  | none => none

/-- An open bank is closed if no packet in its queue is for the open row, or if the row has been
used often enough. -/
def findUnused (pos : Position cfg) : Option Unit :=
  let bank := banks pos.1 pos.2
  if bank.currentBankState = .rowActive then
    let found := (q.getCommandQueue pos.1 pos.2).any (toOpenRow banks pos.1 pos.2)
    if (!found ∨ q.rowAccessCounters pos.1 pos.2 = cfg.totalRowAccesses) ∧
        bank.nextPrecharge ≤ now then
      some ()
    else none
  else none

/-- The loop over all banks for one to close. -/
def popPrecharge : Option (BusPacket cfg × CommandQueue cfg) :=
  match roundRobin (nextRankAndBank cfg) (findUnused now banks q)
      (Fintype.card (Position cfg)) (q.nextRankPRE, q.nextBankPRE) with
  | some (pos, _) =>
    some (prechargePacket pos.1 pos.2,
      { q.resetRowAccesses pos.1 pos.2 with nextRankPRE := pos.1, nextBankPRE := pos.2 })
  | none => none

/-- What is picked. -/
def popPacket : Option (BusPacket cfg × CommandQueue cfg) :=
  match popRefresh now banks q with
  | some popped => some popped
  | none =>
    match popQueued now banks q with
    | some popped => some popped
    | none =>
      match cfg.rowBufferPolicy with
      | .closePage => none
      | .openPage => popPrecharge now banks q

/-- What follows once a packet is picked: the search goes on behind it, with a posted CAS only
after its column access, and an activate opens a window. -/
def afterPop (packet : BusPacket cfg) : CommandQueue cfg :=
  let q :=
    if 0 < cfg.AL ∧ q.sendAct then { q with sendAct := false }
    else
      let pos := nextRankAndBank cfg (q.nextRank, q.nextBank)
      { q with sendAct := true, nextRank := pos.1, nextBank := pos.2 }
  if packet.busPacketType = .activate then
    let windows := q.tFAWCountdown packet.rank ++ [cfg.tFAW]
    { q with tFAWCountdown := Function.update q.tFAWCountdown packet.rank windows }
  else q

def pop : Option (BusPacket cfg) × CommandQueue cfg :=
  let q := { q with tFAWCountdown := fun rank => stepWindow (q.tFAWCountdown rank) }
  match popPacket now banks q with
  | some (packet, q) => (some packet, q.afterPop packet)
  | none => (none, q)

end Pop

end CommandQueue

end SpikeSim.Dram
