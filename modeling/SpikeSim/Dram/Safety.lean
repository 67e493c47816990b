/-
# Runs of a channel

Transactions come in at any time between the cycles.  Whatever comes, the simulated memory never
ends the simulator, and every transaction is waiting, on its way, or answered.
-/

import SpikeSim.Dram.Control

namespace SpikeSim.Dram.MemorySystem

open CommandQueue

variable {cfg : Config} {s : MemorySystem cfg}

/-! ## A cycle -/

/-- The part of a cycle in which the controller decides. -/
def control : DramM cfg Unit := do
  checkRefresh
  issueCommand
  scheduleTransaction
  (List.finRange cfg.numRanks).forM managePower
  returnReadData
  countRefresh

def nextCycle : DramM cfg Unit :=
  modify fun s => { s with currentClockCycle := s.currentClockCycle + 1 }

theorem update_eq (cfg : Config) :
    (update : DramM cfg Unit) = transfer >>= fun _ => control >>= fun _ => nextCycle := by
  simp only [update, updateController, transfer, control, nextCycle, bind_assoc]

/-- The decisions of a cycle, once the packets have moved on. -/
theorem control_proceeds (hsound : cfg.Sound)
    (h : s.Consistent (s.currentClockCycle + 1) (cfg.WL - 1) cfg.RL)
    (hbus : s.controller.outgoingCmdPacket = none) :
    Proceeds control s fun s' =>
      s'.Consistent (s.currentClockCycle + 1) cfg.WL (cfg.RL + 1) := by
  unfold control
  apply (checkRefresh_proceeds h hbus).bind
  rintro s₁ ⟨h₁, hbus₁⟩ hclock₁
  rw [← hclock₁] at h₁ ⊢
  apply (issueCommand_proceeds hsound h₁ hbus₁).bind
  intro s₂ h₂ hclock₂
  apply (scheduleTransaction_proceeds hsound h₂).bind
  intro s₃ h₃ hclock₃
  have hpower : Proceeds ((List.finRange cfg.numRanks).forM managePower) s₃ fun s' =>
      s'.Consistent (s₁.currentClockCycle + 1) cfg.WL (cfg.RL + 1) ∧
        s'.currentClockCycle = s₁.currentClockCycle := by
    apply Proceeds.forM
    · rintro i s' ⟨h', hclock'⟩
      rw [← hclock'] at h' ⊢
      obtain ⟨s'', hrun, h'', hclock'', hkept⟩ := managePower_proceeds i h'
      exact ⟨s'', hrun, ⟨h'', hclock''⟩, hclock'', hkept⟩
    · exact ⟨h₃, hclock₃.trans hclock₂⟩
  apply hpower.bind
  rintro s₄ ⟨h₄, -⟩ -
  exact (returnReadData_proceeds h₄).bind fun s₅ h₅ _ => countRefresh_proceeds h₅

/-- **A cycle** never fails, and loses nothing. -/
theorem update_inv (hsound : cfg.Sound) (h : s.Inv) :
    ∃ s', update s = .ok () s' ∧ s'.Inv ∧ Conserves s s' ∧
      s'.currentClockCycle = s.currentClockCycle + 1 := by
  obtain ⟨mid, hmid, hconsistent, hbus, hclock, hkept⟩ := transfer_ensures hsound h
  rw [← hclock] at hconsistent
  obtain ⟨s', hrun, hdone, hclock', hkept'⟩ := control_proceeds hsound hconsistent hbus
  refine ⟨{ s' with currentClockCycle := s'.currentClockCycle + 1 }, ?_, ?_, hkept.trans ?_,
    congrArg (· + 1) (hclock'.trans hclock)⟩
  · rw [update_eq, bind_eq_of_ok hmid, bind_eq_of_ok hrun]
    rfl
  · rw [← hclock'] at hdone
    exact ⟨hdone.wellFormed, hdone.powered, hdone.busy, hdone.sees, hdone.timed, hdone.writeData,
      hdone.readData, hdone.pending⟩
  · exact ⟨hkept'.reads, hkept'.writes⟩

/-! ## A new transaction -/

def transactionOf (isWrite : Bool) (address : BitVec 64) : Transaction :=
  ⟨if isWrite then .dataWrite else .dataRead, address⟩

/-- A transaction is accepted behind all those before it. -/
theorem addTransaction_eq (s : MemorySystem cfg) (isWrite : Bool) (address : BitVec 64) :
    ∃ queue pending, addTransaction isWrite address s = .ok () { s with
        pendingTransactions := pending
        controller := { s.controller with transactionQueue := queue } } ∧
      ∀ type, ofType type (queue ++ pending) =
        ofType type (s.controller.transactionQueue ++ s.pendingTransactions) +
          ofType type [transactionOf isWrite address] := by
  unfold addTransaction
  rw [run_bind, run_get]
  dsimp only
  by_cases hroom : s.willAcceptTransaction = true
  · rw [if_pos hroom]
    refine ⟨_, s.pendingTransactions, rfl, fun type => ?_⟩
    simp only [ofType_append, transactionOf]
    abel
  · rw [if_neg hroom]
    refine ⟨s.controller.transactionQueue, _, rfl, fun type => ?_⟩
    simp only [ofType_append, transactionOf]
    abel

theorem addTransaction_inv (h : s.Inv) (isWrite : Bool) (address : BitVec 64) :
    ∃ s', addTransaction isWrite address s = .ok () s' ∧ s'.Inv ∧
      s'.readsAccepted = s.readsAccepted + ofType .dataRead [transactionOf isWrite address] ∧
      s'.writesAccepted = s.writesAccepted + ofType .dataWrite [transactionOf isWrite address] := by
  obtain ⟨queue, pending, hrun, hkinds⟩ := addTransaction_eq s isWrite address
  refine ⟨_, hrun, ⟨h.wellFormed, h.powered, h.busy, h.sees, h.timed, h.writeData, h.readData,
    h.pending⟩, ?_, ?_⟩
  · rw [readsAccepted, readsAccepted]
    dsimp only
    rw [hkinds]
    abel
  · rw [writesAccepted, writesAccepted, writesInFlight, writesInFlight]
    change ofType .dataWrite (queue ++ pending) + (addresses s.controller.writeLine.items +
      queued _ s.controller.commandQueue) + writeAnswers s.events = _
    rw [hkinds]
    abel

/-! ## Runs -/

/-- What the processor asks of the memory: a transaction, or that a cycle passes. -/
inductive Request
  | transaction (isWrite : Bool) (address : BitVec 64)
  | cycle

def serve : Request → DramM cfg Unit
  | .transaction isWrite address => addTransaction isWrite address
  | .cycle => update

/-- The transactions that are asked for, in their order. -/
def transactionsOf (requests : List Request) : List Transaction :=
  requests.filterMap fun
    | .transaction isWrite address => some (transactionOf isWrite address)
    | .cycle => none

/-- The addresses of the reads or writes that are asked for. -/
def asked (type : TransactionType) (requests : List Request) : Multiset (BitVec 64) :=
  ofType type (transactionsOf requests)

theorem asked_cons (type : TransactionType) (request : Request) (requests : List Request) :
    asked type (request :: requests) = asked type [request] + asked type requests := by
  cases request with
  | transaction isWrite address => exact ofType_cons _ _ _
  | cycle => exact (zero_add _).symm

theorem serve_inv (hsound : cfg.Sound) (h : s.Inv) (request : Request) :
    ∃ s', serve request s = .ok () s' ∧ s'.Inv ∧
      s'.readsAccepted = s.readsAccepted + asked .dataRead [request] ∧
      s'.writesAccepted = s.writesAccepted + asked .dataWrite [request] := by
  cases request with
  | transaction isWrite address => exact addTransaction_inv h isWrite address
  | cycle =>
      obtain ⟨s', hrun, hinv, hkept, -⟩ := update_inv hsound h
      exact ⟨s', hrun, hinv, hkept.reads.trans (add_zero _).symm,
        hkept.writes.trans (add_zero _).symm⟩

theorem run_inv (hsound : cfg.Sound) (h : s.Inv) (requests : List Request) :
    ∃ s', requests.forM serve s = .ok () s' ∧ s'.Inv ∧
      s'.readsAccepted = s.readsAccepted + asked .dataRead requests ∧
      s'.writesAccepted = s.writesAccepted + asked .dataWrite requests := by
  induction requests generalizing s with
  | nil => exact ⟨s, rfl, h, (add_zero _).symm, (add_zero _).symm⟩
  | cons request requests ih =>
      obtain ⟨mid, hmid, hinv, hreads, hwrites⟩ := serve_inv hsound h request
      obtain ⟨s', hrun, hinv', hreads', hwrites'⟩ := ih hinv
      refine ⟨s', (bind_eq_of_ok hmid).trans hrun, hinv', ?_, ?_⟩
      · rw [hreads', hreads, asked_cons _ request requests, add_assoc]
      · rw [hwrites', hwrites, asked_cons _ request requests, add_assoc]

/-- **The memory never ends the simulator**: no command is refused by its rank, no two packets
meet on a bus, no queue overflows, no rank loses power while it is busy, and no data come back
that nobody waits for. -/
theorem channel_never_fails (hsound : cfg.Sound) (requests : List Request) :
    ∃ s, requests.forM serve ({} : MemorySystem cfg) = .ok () s := by
  obtain ⟨s, hrun, -⟩ := run_inv hsound (inv_initial cfg) requests
  exact ⟨s, hrun⟩

theorem ddr2_never_fails : ∃ s, [Request.transaction false 64, .transaction true 64, .cycle].forM
    serve ({} : MemorySystem Config.ddr2) = .ok () s :=
  channel_never_fails (by decide) _

/-- **Nothing is lost or duplicated**: every read and every write that was asked for waits for its
commands, is on its way, or has been answered. -/
theorem transactions_conserved (hsound : cfg.Sound) (requests : List Request)
    (hrun : requests.forM serve ({} : MemorySystem cfg) = .ok () s) :
    asked .dataRead requests =
        ofType .dataRead (s.controller.transactionQueue ++ s.pendingTransactions) +
          s.readsInFlight + readAnswers s.events ∧
      asked .dataWrite requests =
        ofType .dataWrite (s.controller.transactionQueue ++ s.pendingTransactions) +
          s.writesInFlight + writeAnswers s.events := by
  obtain ⟨s', hrun', hinv, hreads, hwrites⟩ := run_inv hsound (inv_initial cfg) requests
  rw [hrun] at hrun'
  cases hrun'
  constructor
  · have hnone : ({} : MemorySystem cfg).readsAccepted = 0 := rfl
    rw [hnone, zero_add, readsAccepted, hinv.pending] at hreads
    exact hreads.symm
  · have hnone : ({} : MemorySystem cfg).writesAccepted = 0 := by
      simp [writesAccepted, writesInFlight, MemoryController.writeLine, DelayLine.items, queued,
        ofType, writeAnswers]
    rw [hnone, zero_add] at hwrites
    exact hwrites.symm

theorem ddr2_conserved : ∃ s, [Request.transaction false 64, .cycle, .cycle].forM serve
    ({} : MemorySystem Config.ddr2) = .ok () s ∧
      {64} = ofType .dataRead (s.controller.transactionQueue ++ s.pendingTransactions) +
        s.readsInFlight + readAnswers s.events := by
  have hsound : Config.ddr2.Sound := by decide
  obtain ⟨s, hrun, -⟩ := run_inv hsound (inv_initial _)
    [Request.transaction false 64, .cycle, .cycle]
  exact ⟨s, hrun, (transactions_conserved hsound _ hrun).1⟩

end SpikeSim.Dram.MemorySystem
