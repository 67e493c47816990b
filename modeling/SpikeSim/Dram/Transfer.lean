/-
# The first half of a cycle

The ranks send what they have read, the command on the bus reaches its rank, and the data of
the writes move on.  Nothing is refused, and no two packets meet on a bus.
-/

import SpikeSim.Dram.Invariant

namespace SpikeSim.Dram.MemorySystem

open CommandQueue DelayLine

variable {cfg : Config} {s : MemorySystem cfg}

/-! ## The ranks -/

/-- What a rank sends goes to the controller. -/
theorem updateRank_eq (s : MemorySystem cfg) (i : Fin cfg.numRanks)
    (hdata : ∀ packet, (s.ranks i).update.1 = some packet → packet.busPacketType = .data) :
    updateRank i s = .ok () { s with
      ranks := Function.update s.ranks i (s.ranks i).update.2
      controller := { s.controller with
        returnTransaction := s.controller.returnTransaction ++
          ((s.ranks i).update.1.map BusPacket.physicalAddress).toList } } := by
  unfold updateRank
  rw [run_bind, run_get]
  dsimp only
  rw [run_bind]
  unfold setRank
  rw [run_modify]
  dsimp only
  cases hsent : (s.ranks i).update.1 with
  | none => simp
  | some packet =>
      dsimp only
      rw [receiveData, if_neg (by rw [hdata packet hsent]; simp)]
      rfl

/-- The loop over the ranks. -/
theorem forM_updateRank (list : List (Fin cfg.numRanks)) (hnodup : list.Nodup)
    (s : MemorySystem cfg) (hdata : ∀ i ∈ list, ∀ packet, (s.ranks i).update.1 = some packet →
      packet.busPacketType = .data) :
    list.forM updateRank s = .ok () { s with
      ranks := fun i => if i ∈ list then (s.ranks i).update.2 else s.ranks i
      controller := { s.controller with
        returnTransaction := s.controller.returnTransaction ++
          list.filterMap fun i => (s.ranks i).update.1.map BusPacket.physicalAddress } } := by
  induction list generalizing s with
  | nil =>
      change EStateM.Result.ok () s = _
      simp
  | cons i list ih =>
      rw [List.nodup_cons] at hnodup
      change (updateRank i >>= fun _ => list.forM updateRank) s = _
      rw [bind_eq_of_ok (updateRank_eq s i (hdata i List.mem_cons_self)), ih hnodup.2]
      · have hother (j : Fin cfg.numRanks) (hj : j ∈ list) :
            Function.update s.ranks i (s.ranks i).update.2 j = s.ranks j :=
          Function.update_of_ne (ne_of_mem_of_not_mem hj hnodup.1) _ _
        have hreturn : (list.filterMap fun j =>
              (Function.update s.ranks i (s.ranks i).update.2 j).update.1.map
                BusPacket.physicalAddress) =
            list.filterMap fun j => (s.ranks j).update.1.map BusPacket.physicalAddress :=
          List.filterMap_congr fun j hj => by rw [hother j hj]
        have hranks : (fun j => if j ∈ list then
              (Function.update s.ranks i (s.ranks i).update.2 j).update.2
              else Function.update s.ranks i (s.ranks i).update.2 j) =
            fun j => if j ∈ i :: list then (s.ranks j).update.2 else s.ranks j := by
          funext j
          by_cases hj : j ∈ list
          · rw [if_pos hj, if_pos (List.mem_cons_of_mem _ hj), hother j hj]
          · by_cases hi : j = i
            · subst hi
              simp [hj]
            · simp [hj, hi]
        dsimp only
        rw [hreturn, hranks, List.filterMap_cons]
        cases (s.ranks i).update.1 <;> simp
      · intro j hj packet hsent
        dsimp only at hsent
        rw [Function.update_of_ne (ne_of_mem_of_not_mem hj hnodup.1)] at hsent
        exact hdata j (List.mem_cons_of_mem _ hj) packet hsent

/-- Transactions are accepted in the order in which they came. -/
theorem acceptPending_eq (s : MemorySystem cfg) :
    ∃ queue pending, acceptPending s = .ok () { s with
        pendingTransactions := pending
        controller := { s.controller with transactionQueue := queue } } ∧
      queue ++ pending = s.controller.transactionQueue ++ s.pendingTransactions ∧
      (s.pendingTransactions = [] → pending = []) := by
  unfold acceptPending
  rw [run_bind, run_get]
  dsimp only
  cases hpending : s.pendingTransactions with
  | nil =>
      exact ⟨s.controller.transactionQueue, s.pendingTransactions, rfl, by rw [hpending],
        fun _ => hpending⟩
  | cons t rest =>
      dsimp only
      by_cases hroom : s.willAcceptTransaction = true
      · rw [if_pos hroom]
        exact ⟨s.controller.transactionQueue ++ [t], rest, rfl, by simp, by simp⟩
      · rw [if_neg hroom]
        exact ⟨s.controller.transactionQueue, s.pendingTransactions, rfl, by rw [hpending],
          by simp⟩

/-! ## The command bus -/

/-- The line of a rank once the command on the bus has arrived. -/
def arrivedLine (s : MemorySystem cfg) (i : Fin cfg.numRanks) : DelayLine (BusPacket cfg) :=
  match s.controller.outgoingCmdPacket with
  | none => (s.ranks i).readLine
  | some packet => expect packet cfg.RL i (s.ranks i).readLine

/-- The command on the bus reaches its rank, and is accepted. -/
theorem moveCommandBus_eq {banks : Banks cfg} (h : s.Arrives s.currentClockCycle banks) :
    ∃ ranks left, moveCommandBus s = .ok () { s with
        ranks := ranks
        controller := { s.controller with outgoingCmdPacket := none, cmdCyclesLeft := left } } ∧
      ∀ i, (ranks i).bankStates = banks i ∧ (ranks i).isPowerDown = (s.ranks i).isPowerDown ∧
        (ranks i).readLine = s.arrivedLine i := by
  unfold moveCommandBus arrivedLine
  rw [run_bind, run_get]
  dsimp only
  unfold Arrives at h
  cases hbus : s.controller.outgoingCmdPacket with
  | none =>
      rw [hbus] at h
      refine ⟨s.ranks, s.controller.cmdCyclesLeft, ?_, fun i => ⟨(congrFun h i).symm, rfl, rfl⟩⟩
      have hsame : { s.controller with outgoingCmdPacket := none } = s.controller := by
        rw [← hbus]
      change EStateM.Result.ok () s = .ok () { s with
        controller := { s.controller with outgoingCmdPacket := none } }
      rw [hsame]
  | some packet =>
      rw [hbus] at h
      obtain ⟨hleft, rank, hreceive, rfl⟩ := h
      obtain ⟨rank', hreceive', -, hpower, hline⟩ := Rank.receiveFromBus_ok hreceive rfl
      obtain rfl : rank' = rank := by
        rw [hreceive] at hreceive'
        cases hreceive'
        rfl
      refine ⟨Function.update s.ranks packet.rank rank', 0, ?_, fun i => ?_⟩
      · dsimp only
        rw [hleft, decrement_of_pos Nat.one_pos, if_pos rfl, modifyController, run_bind, run_modify]
        dsimp only
        rw [run_bind, deliver, run_bind, run_get]
        dsimp only
        rw [run_bind, hreceive]
        rfl
      · by_cases hi : i = packet.rank
        · subst hi
          rw [Function.update_self, Function.update_self]
          exact ⟨rfl, hpower, hline⟩
        · rw [Function.update_of_ne hi, Function.update_of_ne hi]
          refine ⟨rfl, rfl, ?_⟩
          change _ = expect packet cfg.RL i (s.ranks i).readLine
          unfold expect
          rw [if_neg fun hsame => hi hsame.2.symm]

/-! ## The data of writes -/

/-- The data on the bus move on; when they are through, the write is done. -/
theorem moveDataBus_eq {longest : ℕ} (h : Spaced (cfg.BL / 2) longest s.controller.writeLine)
    (hdata : ∀ packet ∈ s.controller.writeLine.items, packet.busPacketType = .data) :
    moveDataBus s = .ok () { s with
      controller := { s.controller with
        outgoingDataPacket := s.controller.writeLine.send.2.outgoing
        dataCyclesLeft := s.controller.writeLine.send.2.left }
      events := s.events ++ (s.controller.writeLine.send.1.map fun packet =>
        Event.writeDone s.currentClockCycle packet.physicalAddress).toList } := by
  unfold moveDataBus send
  rw [run_bind, run_get]
  dsimp only
  cases hout : s.controller.outgoingDataPacket with
  | none =>
      have hsame : { s.controller with outgoingDataPacket := none } = s.controller := by
        rw [← hout]
      simp [MemoryController.writeLine, hout, hsame]
  | some packet =>
      have hsome : s.controller.writeLine.outgoing = some packet := hout
      rw [hsome]
      dsimp only
      have hpos : 0 < s.controller.dataCyclesLeft := (h.sending (by rw [hsome]; rfl)).1
      rw [decrement_of_pos hpos, modifyController, run_bind, run_modify]
      dsimp only
      by_cases hleft : s.controller.dataCyclesLeft - 1 = 0
      · have hleft' : s.controller.writeLine.left - 1 = 0 := hleft
        have htype : packet.busPacketType = .data := by
          apply hdata
          rw [items, hsome]
          exact List.mem_append_left _ List.mem_cons_self
        rw [if_pos hleft, if_pos hleft', run_bind, record, run_modify]
        dsimp only
        rw [run_bind, deliver, run_bind, run_get]
        dsimp only
        rw [run_bind, Rank.receiveFromBus, htype]
        simp only [orFault, run_pure, setRank, run_modify, Function.update_eq_self, hleft]
        rfl
      · have hleft' : ¬s.controller.writeLine.left - 1 = 0 := hleft
        rw [if_neg hleft, if_neg hleft']
        simp [MemoryController.writeLine, hout]

/-- The data whose time has come find the bus free. -/
theorem sendWriteData_eq (hwait : ∀ entry ∈ s.controller.writeDataToSend, 0 < entry.2)
    (hfree : s.controller.outgoingDataPacket.isSome →
      ∀ entry ∈ s.controller.writeDataToSend, entry.2 - 1 ≠ 0) :
    sendWriteData s = .ok () { s with
      controller := { s.controller with
        writeDataToSend := (s.controller.writeLine.count.launch (cfg.BL / 2)).waiting
        outgoingDataPacket := (s.controller.writeLine.count.launch (cfg.BL / 2)).outgoing
        dataCyclesLeft := (s.controller.writeLine.count.launch (cfg.BL / 2)).left } } := by
  have hcount : s.controller.writeDataToSend.map (fun entry => (entry.1, decrement entry.2)) =
      s.controller.writeDataToSend.map fun entry => (entry.1, entry.2 - 1) :=
    List.map_congr_left fun entry hentry => by rw [decrement_of_pos (hwait entry hentry)]
  unfold sendWriteData count launch
  rw [modifyController, run_bind, run_modify]
  dsimp only [MemoryController.writeLine]
  rw [run_bind, run_get, hcount]
  dsimp only
  cases hwaiting : s.controller.writeDataToSend with
  | nil => rfl
  | cons entry rest =>
      rw [List.map_cons]
      dsimp only
      by_cases hready : entry.2 - 1 = 0
      · rw [if_pos hready, if_pos hready]
        have hnone : s.controller.outgoingDataPacket.isSome = false := by
          rw [Bool.eq_false_iff]
          exact fun hsome => hfree hsome entry (hwaiting ▸ List.mem_cons_self) hready
        rw [if_neg (by rw [hnone]; simp)]
        rfl
      · rw [if_neg hready, if_neg hready]
        rfl

/-! ## The transfers of a cycle -/

theorem coe_filterMap {α β : Type} (f : α → Option β) (list : List α) :
    (list.filterMap f : Multiset β) = (list.map fun a => ((f a).toList : Multiset β)).sum := by
  induction list with
  | nil => rfl
  | cons a list ih =>
      rw [List.filterMap_cons, List.map_cons, List.sum_cons, ← ih]
      cases f a <;> rfl

/-- What the ranks send in a cycle is what their lines lose. -/
theorem sent_add_items (s : MemorySystem cfg)
    (h : ∀ i, Spaced (cfg.BL / 2) (cfg.RL + 1) (s.readLines i)) :
    (((List.finRange cfg.numRanks).filterMap fun i =>
        ((s.readLines i).step (cfg.BL / 2)).1.map BusPacket.physicalAddress : List _) :
          Multiset (BitVec 64)) +
        ∑ i, addresses ((s.readLines i).step (cfg.BL / 2)).2.items =
      ∑ i, addresses (s.readLines i).items := by
  rw [coe_filterMap, ← Fin.sum_univ_def, ← Finset.sum_add_distrib]
  apply Finset.sum_congr rfl
  intro i _
  rw [(h i).items_step, addresses_append]
  cases ((s.readLines i).step (cfg.BL / 2)).1 <;> rfl

/-- A copy that a rank without power keeps does not change, and no other loses power. -/
theorem Powered.tick {i : Fin cfg.numRanks} {banks : Fin cfg.numBanks → BankState} {next : ℕ}
    (h : s.Powered i) (hsees : ∀ j, Sees cfg next (s.controller.bankStates i j) (banks j)) :
    if s.controller.powerDown i then
      ∃ up, ∀ j, (MemoryController.tickBank cfg (s.controller.bankStates i j)).currentBankState =
          .powerDown ∧
        (MemoryController.tickBank cfg (s.controller.bankStates i j)).nextPowerUp = up
    else ∀ j, (MemoryController.tickBank cfg (s.controller.bankStates i j)).currentBankState ≠
      .powerDown := by
  obtain ⟨-, hcopies⟩ := h
  by_cases hoff : s.controller.powerDown i = true
  · rw [if_pos hoff] at hcopies ⊢
    obtain ⟨up, hcopies⟩ := hcopies
    refine ⟨up, fun j => ?_⟩
    obtain ⟨-, -, hzero⟩ := (hsees j).powerDown (hcopies j).1
    rw [MemoryController.tickBank, if_neg (by omega)]
    exact hcopies j
  · rw [if_neg hoff] at hcopies ⊢
    intro j
    have hon := hcopies j
    unfold MemoryController.tickBank
    split
    · dsimp only
      split
      · cases (s.controller.bankStates i j).lastCommand <;> simp [hon]
      · exact hon
    · exact hon

theorem readAnswers_done (cycle : ℕ) (sent : Option (BusPacket cfg)) :
    readAnswers (sent.map fun packet =>
      (Event.writeDone cycle packet.physicalAddress : Event cfg)).toList = 0 := by
  cases sent <;> rfl

theorem writeAnswers_done (cycle : ℕ) (sent : Option (BusPacket cfg)) :
    writeAnswers (sent.map fun packet =>
        (Event.writeDone cycle packet.physicalAddress : Event cfg)).toList =
      addresses sent.toList := by
  cases sent <;> rfl

/-- The part of a cycle in which the packets that are under way move on. -/
def transfer : DramM cfg Unit := do
  (List.finRange cfg.numRanks).forM updateRank
  acceptPending
  updateBankStates
  moveCommandBus
  moveDataBus
  sendWriteData

/-- What a rank sends, and its line afterwards, are those of the line with the read on the bus. -/
theorem update_arrivedLine (hsound : cfg.Sound) (i : Fin cfg.numRanks)
    (h : Spaced (cfg.BL / 2) (cfg.RL + 1) (s.readLines i)) :
    (s.ranks i).update.1 = ((s.readLines i).step (cfg.BL / 2)).1 ∧
      ({ s with ranks := fun i => (s.ranks i).update.2 }).arrivedLine i =
        ((s.readLines i).step (cfg.BL / 2)).2 := by
  have hlatency : 0 < cfg.RL := by
    have := hsound.latency
    omega
  unfold readLines arrivedLine at *
  dsimp only
  cases hbus : s.controller.outgoingCmdPacket with
  | none =>
      rw [hbus] at h
      obtain ⟨hsent, hline, -⟩ := (s.ranks i).update_eq h
      exact ⟨hsent, hline⟩
  | some packet =>
      rw [hbus] at h
      dsimp only at h ⊢
      unfold expect at h ⊢
      by_cases hread : packet.busPacketType.IsRead = true ∧ packet.rank = i
      · rw [if_pos hread] at h
        rw [if_pos hread, if_pos hread, step_push hlatency]
        obtain ⟨hsent, hline, -⟩ := (s.ranks i).update_eq h.of_push
        exact ⟨hsent, by rw [hline]⟩
      · rw [if_neg hread] at h
        rw [if_neg hread, if_neg hread]
        obtain ⟨hsent, hline, -⟩ := (s.ranks i).update_eq h
        exact ⟨hsent, hline⟩

theorem readLine_spaced {longest : ℕ} {i : Fin cfg.numRanks}
    (h : Spaced (cfg.BL / 2) longest (s.readLines i)) :
    Spaced (cfg.BL / 2) longest (s.ranks i).readLine := by
  unfold readLines at h
  split at h
  · exact h
  · unfold expect at h
    split at h
    · exact h.of_push
    · exact h

/-- **The transfers of a cycle** succeed, and lose nothing. -/
theorem transfer_ensures (hsound : cfg.Sound) (h : s.Inv) :
    ∃ s', transfer s = .ok () s' ∧
      s'.Consistent (s.currentClockCycle + 1) (cfg.WL - 1) cfg.RL ∧
      s'.controller.outgoingCmdPacket = none ∧ s'.currentClockCycle = s.currentClockCycle ∧
      Conserves s s' := by
  have hline (i) := update_arrivedLine hsound i (h.timed.readsSpaced i)
  have hranks (i) := (s.ranks i).update_eq (readLine_spaced (h.timed.readsSpaced i))
  have hitems (i) := (h.timed.readsSpaced i).items_step
  have hsent (i : Fin cfg.numRanks) (packet : BusPacket cfg)
      (hsent : (s.ranks i).update.1 = some packet) : packet.busPacketType = .data := by
    apply h.readData i
    rw [hitems i, ← (hline i).1, hsent]
    exact List.mem_cons_self
  obtain ⟨banks, harrives, hsees⟩ := h.sees
  -- The ranks send, and the next transaction is accepted.
  let s₁ : MemorySystem cfg := { s with
    ranks := fun i => (s.ranks i).update.2
    controller := { s.controller with
      returnTransaction := s.controller.returnTransaction ++
        (List.finRange cfg.numRanks).filterMap fun i =>
          ((s.readLines i).step (cfg.BL / 2)).1.map BusPacket.physicalAddress } }
  have h₁ : (List.finRange cfg.numRanks).forM updateRank s = .ok () s₁ := by
    rw [forM_updateRank _ (List.nodup_finRange _) s fun i _ => hsent i]
    simp only [List.mem_finRange, if_true, s₁, (hline _).1]
  obtain ⟨queue, pending, h₂, haccepted, -⟩ := acceptPending_eq s₁
  -- The copies of the banks count, and the command reaches its rank.
  let s₃ : MemorySystem cfg := { s₁ with
    pendingTransactions := pending
    controller := { s₁.controller with
      transactionQueue := queue
      bankStates := fun i j => MemoryController.tickBank cfg (s.controller.bankStates i j) } }
  have harrives₃ : s₃.Arrives s₃.currentClockCycle banks :=
    harrives.of_ranks fun i => (hranks i).2.2.1
  obtain ⟨ranks, left, h₄, hranks₄⟩ := moveCommandBus_eq harrives₃
  let s₄ : MemorySystem cfg := { s₃ with
    ranks := ranks
    controller := { s₃.controller with outgoingCmdPacket := none, cmdCyclesLeft := left } }
  -- The data of the writes move on.
  have h₅ := moveDataBus_eq (s := s₄) h.timed.writesSpaced h.writeData
  let s₅ : MemorySystem cfg := { s₄ with
    controller := { s₄.controller with
      outgoingDataPacket := s.controller.writeLine.send.2.outgoing
      dataCyclesLeft := s.controller.writeLine.send.2.left }
    events := s.events ++ ((s.controller.writeLine.step (cfg.BL / 2)).1.map fun packet =>
      Event.writeDone s.currentClockCycle packet.physicalAddress).toList }
  have hwrites₅ : s₅.controller.writeLine = s.controller.writeLine.send.2 := by
    change DelayLine.mk s.controller.writeLine.waiting _ _ = _
    rw [← waiting_send]
  have h₆ := sendWriteData_eq (s := s₅) (fun entry he => (h.timed.writesSpaced.waits entry he).1)
    fun hout entry he => h.timed.writesSpaced.not_ready hout he
  let s₆ : MemorySystem cfg := { s₅ with
    controller := { s₅.controller with
      writeDataToSend := (s₅.controller.writeLine.count.launch (cfg.BL / 2)).waiting
      outgoingDataPacket := (s₅.controller.writeLine.count.launch (cfg.BL / 2)).outgoing
      dataCyclesLeft := (s₅.controller.writeLine.count.launch (cfg.BL / 2)).left } }
  have hwrites : s₆.controller.writeLine = (s.controller.writeLine.step (cfg.BL / 2)).2 := by
    change s₅.controller.writeLine.count.launch (cfg.BL / 2) = _
    rw [hwrites₅]
    rfl
  have hreads : s₆.readLines = fun i => ((s.readLines i).step (cfg.BL / 2)).2 := by
    funext i
    exact (hranks₄ i).2.2.trans (hline i).2
  have hflight : s₆.readsInFlight = s.readsInFlight := by
    unfold readsInFlight
    rw [hreads, ← sent_add_items s h.timed.readsSpaced, ← add_assoc]
    rfl
  refine ⟨s₆, ?_, ?_, rfl, rfl, ?_, ?_⟩
  · unfold transfer
    rw [bind_eq_of_ok h₁, bind_eq_of_ok h₂, updateBankStates, modifyController, run_bind,
      run_modify]
    dsimp only
    rw [bind_eq_of_ok h₄, bind_eq_of_ok h₅]
    exact h₆
  · refine ⟨h.wellFormed, fun i => ⟨?_, ?_⟩, ?_, ⟨_, rfl, fun i j => ?_⟩, ?_, ?_, fun i => ?_, ?_⟩
    · exact (hranks₄ i).2.1.trans ((hranks i).2.2.2.1.trans (h.powered i).1)
    · exact (h.powered i).tick (hsees i)
    · exact fun packet hbus => absurd hbus (by simp [s₆, s₅, s₄])
    · rw [show (s₆.ranks i).bankStates = banks i from (hranks₄ i).1]
      exact (hsees i j).tick
    · rw [hwrites, hreads]
      have hlatency : cfg.WL - 1 + 1 = cfg.WL := by
        have := hsound.latency
        unfold Config.WL
        omega
      exact Timed.step hsound (hlatency.symm ▸ h.timed)
    · intro packet hmem
      rw [hwrites] at hmem
      apply h.writeData
      rw [h.timed.writesSpaced.items_step]
      exact List.mem_append_right _ hmem
    · intro packet hmem
      rw [hreads] at hmem
      apply h.readData i
      rw [hitems i]
      exact List.mem_append_right _ hmem
    · rw [hflight]
      exact h.pending
  · unfold readsAccepted
    rw [show s₆.controller.transactionQueue ++ s₆.pendingTransactions = _ from haccepted]
    change _ + readAnswers (s.events ++ _) = _
    rw [readAnswers_append, readAnswers_done, add_zero]
  · unfold writesAccepted writesInFlight
    rw [hwrites, show s₆.controller.transactionQueue ++ s₆.pendingTransactions = _ from haccepted]
    change _ + writeAnswers (s.events ++ _) = _
    rw [h.timed.writesSpaced.items_step, writeAnswers_append, addresses_append]
    rw [writeAnswers_done]
    change ofType .dataWrite (s.controller.transactionQueue ++ s.pendingTransactions) +
      (_ + queued _ s.controller.commandQueue) + _ = _
    abel

end SpikeSim.Dram.MemorySystem
