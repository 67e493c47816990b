/-
# The order of the accesses to a row

The controller reorders transactions, but never those to one row of a bank: their column
accesses are issued in the order in which they came.  With open pages an access waits for those
before it to its row.
-/

import SpikeSim.Dram.Quiet

namespace SpikeSim.Dram

open CommandQueue MemorySystem

variable {cfg : Config} {s s' : MemorySystem cfg}

/-- A row of a bank. -/
@[ext]
structure Place (cfg : Config) where
  rank : Fin cfg.numRanks
  bank : Fin cfg.numBanks
  row : BitVec 32
  deriving DecidableEq

def BusPacket.place (packet : BusPacket cfg) : Place cfg := ⟨packet.rank, packet.bank, packet.row⟩

/-- The transaction that a column access is for. -/
def BusPacket.access (packet : BusPacket cfg) : Option Transaction :=
  match packet.busPacketType with
  | .read | .readP => some ⟨.dataRead, packet.physicalAddress⟩
  | .write | .writeP => some ⟨.dataWrite, packet.physicalAddress⟩
  | .activate | .precharge | .refresh | .data => none

def placeOf (cfg : Config) (t : Transaction) : Place cfg :=
  ⟨rankOf cfg t, bankOf cfg t, (location cfg t).row⟩

/-- The accesses to a row among some packets. -/
def accesses (place : Place cfg) (packets : List (BusPacket cfg)) : List Transaction :=
  (packets.filter fun packet => packet.place = place).filterMap BusPacket.access

@[simp]
theorem accesses_append (place : Place cfg) (first second : List (BusPacket cfg)) :
    accesses place (first ++ second) = accesses place first ++ accesses place second := by
  simp [accesses]

theorem accesses_cons (place : Place cfg) (packet : BusPacket cfg)
    (packets : List (BusPacket cfg)) :
    accesses place (packet :: packets) = accesses place [packet] ++ accesses place packets :=
  accesses_append place [packet] packets

theorem accesses_of_none {place : Place cfg} {packet : BusPacket cfg}
    (h : packet.access = none) : accesses place [packet] = [] := by
  unfold accesses
  by_cases hplace : packet.place = place <;> simp [hplace, h]

theorem accesses_of_ne {place : Place cfg} {packet : BusPacket cfg} (h : packet.place ≠ place) :
    accesses place [packet] = [] := by
  simp [accesses, h]

/-- The transactions for a row. -/
def forPlace (place : Place cfg) (transactions : List Transaction) : List Transaction :=
  transactions.filter fun t => placeOf cfg t = place

theorem accesses_packetOf (place : Place cfg) (t : Transaction) :
    accesses place [packetOf cfg (t.getBusPacketType cfg) t] = forPlace place [t] := by
  have haccess : (packetOf cfg (t.getBusPacketType cfg) t).access = some t := by
    obtain ⟨type, address⟩ := t
    unfold BusPacket.access packetOf Transaction.getBusPacketType
    dsimp only
    cases type <;> cases cfg.rowBufferPolicy <;> rfl
  have hplace : (packetOf cfg (t.getBusPacketType cfg) t).place = placeOf cfg t := rfl
  unfold accesses forPlace
  by_cases hsame : placeOf cfg t = place <;> simp [hplace, hsame, haccess]

/-! ## The transactions of a row, in order -/

/-- The accesses to a row: those on the bus, those that are queued, and those that are not yet
commands. -/
def rowHistory (s : MemorySystem cfg) (place : Place cfg) : List Transaction :=
  accesses place ((commands s.events).map Prod.snd) ++
    accesses place (s.controller.commandQueue.queues place.rank (slot cfg place.bank)) ++
    forPlace place s.waiting

variable {place : Place cfg}

theorem rowHistory_quiet (h : Quiet s s') : rowHistory s' place = rowHistory s place := by
  rw [rowHistory, rowHistory, h.commands, h.queues, h.waiting]

/-- A command that is taken is the first access to its row in its queue. -/
theorem Taken.accesses {now : ℕ} {banks : Banks cfg} {q q' : CommandQueue cfg}
    {packet : BusPacket cfg} (h : Taken now banks q packet q') (hq : q.WellFormed)
    (hpolicy : cfg.rowBufferPolicy = .openPage) :
    accesses place [packet] ++ accesses place (q'.queues place.rank (slot cfg place.bank)) =
      accesses place (q.queues place.rank (slot cfg place.bank)) := by
  cases h with
  | refresh rank q' _ _ _ hqueues =>
      have hnone : (refreshPacket rank : BusPacket cfg).access = none := rfl
      rw [hqueues, accesses_of_none hnone, List.nil_append]
  | precharge rank bank q' _ _ _ hqueues =>
      have hnone : (prechargePacket rank bank).access = none := rfl
      rw [hqueues, accesses_of_none hnone, List.nil_append]
  | queued rank bank before packet after kept q' hqueue _ hkept hindependent hqueues =>
      have hold : q.queues rank (slot cfg bank) = before ++ packet :: after := hqueue
      have hhome := hq.home rank (slot cfg bank) packet (by rw [hold]; simp)
      have hsame : Dram.accesses place kept = Dram.accesses place before := by
        rcases hkept with rfl | ⟨-, act, rfl, hact⟩
        · rfl
        · have hnone : act.access = none := by
            unfold BusPacket.access
            rw [hact]
          rw [accesses_append, accesses_of_none hnone, List.append_nil]
      rw [hqueues, updateAt_apply]
      by_cases hslot : place.rank = rank ∧ slot cfg place.bank = slot cfg bank
      · rw [if_pos hslot, hslot.1, hslot.2, hold, accesses_append, accesses_append,
          accesses_cons place packet after, hsame]
        by_cases hplace : packet.place = place
        · have hnone : Dram.accesses place before = [] := by
            rw [Dram.accesses, List.filterMap_eq_nil_iff]
            intro previous hprevious
            obtain ⟨hmem, hat⟩ := List.mem_filter.mp hprevious
            rw [decide_eq_true_eq, ← hplace] at hat
            by_contra hsome
            have htype : previous.busPacketType ≠ .activate := by
              intro htype
              unfold BusPacket.access at hsome
              rw [htype] at hsome
              exact hsome rfl
            exact hindependent hpolicy previous hmem htype
              ⟨congrArg Place.bank hat, congrArg Place.row hat⟩
          rw [hnone, List.nil_append, List.nil_append]
        · rw [accesses_of_ne hplace, List.nil_append, List.nil_append]
      · rw [if_neg hslot]
        have hne : packet.place ≠ place := by
          rintro rfl
          exact hslot ⟨hhome.rank_eq, hhome.bank_eq⟩
        rw [accesses_of_ne hne]
        rfl

theorem rowHistory_issue (hq : s.controller.commandQueue.WellFormed)
    (hpolicy : cfg.rowBufferPolicy = .openPage) (hrun : issueCommand s = .ok () s') :
    rowHistory s' place = rowHistory s place := by
  obtain ⟨hqueue, hwaiting, -, -, hcommands⟩ := issueCommand_ok hrun
  unfold rowHistory
  rw [hwaiting, hqueue, hcommands]
  rcases pop_cases s.currentClockCycle s.controller.bankStates s.controller.commandQueue with
    hpop | ⟨packet, q, htaken, hpop⟩
  · rw [hpop]
    simp [stepWindows]
  · have htook : accesses place [packet] ++ accesses place (q.queues place.rank
        (slot cfg place.bank)) = accesses place (s.controller.commandQueue.queues place.rank
        (slot cfg place.bank)) := htaken.accesses ⟨hq.home, hq.short⟩ hpolicy
    rw [hpop, (afterPop_queues q packet).1]
    simp only [Option.map_some, Option.toList_some, List.map_append, List.map_cons, List.map_nil,
      accesses_append]
    rw [List.append_assoc (accesses _ _), htook]

/-- A transaction that is scheduled is the first for its bank. -/
theorem rowHistory_schedule (hrun : scheduleTransaction s = .ok () s') :
    rowHistory s' place = rowHistory s place := by
  obtain ⟨hcommands, -, -, hqueue⟩ := scheduleTransaction_ok hrun
  unfold rowHistory
  rw [hcommands]
  rcases hqueue with ⟨hqueue, hwaiting⟩ | ⟨before, t, after, q, hpick, hwaiting, hfirst, hsecond⟩
  · rw [hqueue, hwaiting]
  · have henqueue {packet : BusPacket cfg} {q q' : CommandQueue cfg}
        (h : q.enqueue packet = .ok q') :
        accesses place (q'.queues place.rank (slot cfg place.bank)) =
          accesses place (q.queues place.rank (slot cfg place.bank)) ++
            accesses place [packet] := by
      unfold enqueue at h
      dsimp only at h
      split at h
      · cases h
      · cases h
        simp only [setCommandQueue, updateAt_apply]
        by_cases hslot : place.rank = packet.rank ∧ slot cfg place.bank = slot cfg packet.bank
        · rw [if_pos hslot, accesses_append, getCommandQueue, hslot.1, hslot.2]
        · have hne : packet.place ≠ place := by
            rintro rfl
            exact hslot ⟨rfl, rfl⟩
          rw [if_neg hslot, accesses_of_ne hne, List.append_nil]
    obtain ⟨hsplit, hroom, hbefore⟩ := pick_eq_some hpick
    have hnone : placeOf cfg t = place → forPlace place before = [] := by
      rintro rfl
      rw [forPlace, List.filter_eq_nil_iff]
      intro other hmem hother
      rw [decide_eq_true_eq] at hother
      obtain ⟨pre, post, hpre⟩ := List.append_of_mem hmem
      have hfull := hbefore pre other post hpre
      rw [show rankOf cfg other = rankOf cfg t from congrArg Place.rank hother,
        show bankOf cfg other = bankOf cfg t from congrArg Place.bank hother, hroom] at hfull
      cases hfull
    have hactivate : (packetOf cfg .activate t).access = none := rfl
    rw [henqueue hsecond, henqueue hfirst, accesses_packetOf, accesses_of_none hactivate,
      List.append_nil, hwaiting, waiting, hsplit]
    by_cases hplace : placeOf cfg t = place
    · have hempty := hnone hplace
      unfold forPlace at hempty ⊢
      simp [hempty, hplace]
    · simp [forPlace, hplace]

/-! ## Runs -/

/-- The client asks the memory before it hands over a transaction. -/
def Polite : List Request → MemorySystem cfg → Prop
  | [], _ => True
  | .transaction isWrite address :: rest, s =>
    s.willAcceptTransaction = true ∧
      ∀ s', addTransaction isWrite address s = .ok () s' → Polite rest s'
  | .cycle :: rest, s => ∀ s', update s = .ok () s' → Polite rest s'

theorem Polite.head {request : Request} {requests : List Request}
    (h : Polite (request :: requests) s) (hrun : serve request s = .ok () s') :
    Polite requests s' := by
  cases request with
  | transaction isWrite address => exact h.2 s' hrun
  | cycle => exact h s' hrun

/-- A cycle keeps the accesses to a row as they are. -/
theorem rowHistory_update (hpolicy : cfg.rowBufferPolicy = .openPage) (h : s.Inv)
    (hrun : update s = .ok () s') : rowHistory s' place = rowHistory s place ∧
      (s.pendingTransactions = [] → s'.pendingTransactions = []) := by
  obtain ⟨s₁, s₂, s₃, s₄, h₁, h₂, h₃, h₄, rfl⟩ := update_ok hrun
  have hq : s₁.controller.commandQueue.WellFormed := by
    refine ⟨?_, ?_⟩
    · rw [h₁.queues]
      exact h.wellFormed.home
    · rw [h₁.queues]
      exact h.wellFormed.short
  constructor
  · calc rowHistory s₄ place
      _ = rowHistory s₃ place := rowHistory_quiet h₄
      _ = rowHistory s₂ place := rowHistory_schedule h₃
      _ = rowHistory s₁ place := rowHistory_issue hq hpolicy h₂
      _ = rowHistory s place := rowHistory_quiet h₁
  · intro hnone
    have hnone₂ := (issueCommand_ok h₂).2.2.1.trans (h₁.backlog hnone)
    exact h₄.backlog ((scheduleTransaction_ok h₃).2.2.1.trans hnone₂)

/-- A transaction that is accepted at once comes after all others to its row. -/
theorem rowHistory_add {isWrite : Bool} {address : BitVec 64}
    (hroom : s.willAcceptTransaction = true) (hnone : s.pendingTransactions = [])
    (hrun : addTransaction isWrite address s = .ok () s') :
    rowHistory s' place =
        rowHistory s place ++ forPlace place [transactionOf isWrite address] ∧
      s'.pendingTransactions = [] := by
  unfold addTransaction at hrun
  rw [run_bind, run_get] at hrun
  dsimp only at hrun
  rw [if_pos hroom] at hrun
  cases hrun
  refine ⟨?_, hnone⟩
  unfold rowHistory waiting forPlace
  dsimp only
  rw [hnone, List.append_nil, List.append_nil, List.filter_append, ← List.append_assoc]
  rfl

theorem rowHistory_run (hsound : cfg.Sound) (hpolicy : cfg.rowBufferPolicy = .openPage)
    (requests : List Request) (h : s.Inv) (hnone : s.pendingTransactions = [])
    (hpolite : Polite requests s) (hrun : requests.forM serve s = .ok () s') :
    rowHistory s' place = rowHistory s place ++ forPlace place (transactionsOf requests) := by
  induction requests generalizing s with
  | nil =>
      cases hrun
      exact (List.append_nil _).symm
  | cons request requests ih =>
      obtain ⟨_, mid, hfirst, hrest⟩ := bind_ok hrun
      obtain ⟨mid', hmid, hinv, -⟩ := serve_inv hsound h request
      obtain rfl : mid' = mid := by
        rw [hfirst] at hmid
        cases hmid
        rfl
      have hlater := hpolite.head hfirst
      cases request with
      | transaction isWrite address =>
          obtain ⟨hhistory, hnone'⟩ := rowHistory_add hpolite.1 hnone hfirst
          rw [ih hinv hnone' hlater hrest, hhistory, List.append_assoc, forPlace, forPlace,
            ← List.filter_append]
          rfl
      | cycle =>
          obtain ⟨hhistory, hnone'⟩ := rowHistory_update hpolicy h hfirst
          rw [ih hinv (hnone' hnone) hlater hrest, hhistory]
          rfl

end SpikeSim.Dram
