/-
# What the steps of a cycle leave alone

Only `issueCommand` puts a command on the bus, and only it and `scheduleTransaction` change the
queues of commands.  `Quiet` relates the states before and after all other steps.
-/

import SpikeSim.Dram.Safety

namespace SpikeSim.Dram.MemorySystem

variable {cfg : Config}

/-- The commands that have been put on the bus, with their cycles. -/
def commands (events : List (Event cfg)) : List (ℕ × BusPacket cfg) :=
  events.filterMap fun
    | .command cycle packet => some (cycle, packet)
    | .readDone .. | .writeDone .. => none

@[simp]
theorem commands_append (first second : List (Event cfg)) :
    commands (first ++ second) = commands first ++ commands second :=
  List.filterMap_append

/-- The transactions that wait to be turned into commands, in their order. -/
def waiting (s : MemorySystem cfg) : List Transaction :=
  s.controller.transactionQueue ++ s.pendingTransactions

/-- No command is issued, and none is queued. -/
structure Quiet (s s' : MemorySystem cfg) : Prop where
  commands : commands s'.events = commands s.events
  queues : s'.controller.commandQueue.queues = s.controller.commandQueue.queues
  windows : s'.controller.commandQueue.tFAWCountdown = s.controller.commandQueue.tFAWCountdown
  waiting : s'.waiting = s.waiting
  backlog : s.pendingTransactions = [] → s'.pendingTransactions = []
  clock : s'.currentClockCycle = s.currentClockCycle

instance : Std.Refl (@Quiet cfg) := ⟨fun _ => ⟨rfl, rfl, rfl, rfl, id, rfl⟩⟩

instance : IsTrans (MemorySystem cfg) Quiet := ⟨fun _ _ _ h h' =>
  ⟨h'.commands.trans h.commands, h'.queues.trans h.queues, h'.windows.trans h.windows,
    h'.waiting.trans h.waiting, h'.backlog ∘ h.backlog, h'.clock.trans h.clock⟩⟩

/-! ## Primitives -/

theorem quiet_modifyController {f : MemoryController cfg → MemoryController cfg}
    (h : ∀ c, (f c).commandQueue.queues = c.commandQueue.queues ∧
      (f c).commandQueue.tFAWCountdown = c.commandQueue.tFAWCountdown ∧
      (f c).transactionQueue = c.transactionQueue) : Keeps Quiet (modifyController f) := by
  apply Keeps.modify
  intro s
  obtain ⟨hqueues, hwindows, hwaiting⟩ := h s.controller
  exact ⟨rfl, hqueues, hwindows, congrArg (· ++ s.pendingTransactions) hwaiting, id, rfl⟩

theorem quiet_setRank (i : Fin cfg.numRanks) (rank : Rank cfg) : Keeps Quiet (setRank i rank) :=
  Keeps.modify fun _ => ⟨rfl, rfl, rfl, rfl, id, rfl⟩

theorem quiet_record {event : ℕ → Event cfg} (h : ∀ cycle, commands [event cycle] = []) :
    Keeps Quiet (record event) := by
  apply Keeps.modify
  intro s
  refine ⟨?_, rfl, rfl, rfl, id, rfl⟩
  rw [commands_append, h, List.append_nil]

theorem quiet_orFault {α : Type} (x : Except Fault α) :
    Keeps Quiet (orFault x : DramM cfg α) := by
  cases x with
  | ok a => exact .pure a
  | error e => exact .throw e

theorem quiet_deliver (packet : BusPacket cfg) : Keeps Quiet (deliver packet) :=
  Keeps.get.bind fun _ => (quiet_orFault _).bind fun _ => quiet_setRank _ _

theorem quiet_setRefreshWaiting (i : Fin cfg.numRanks) : Keeps Quiet (setRefreshWaiting i) :=
  Keeps.modify fun _ => ⟨rfl, rfl, rfl, rfl, id, rfl⟩

theorem Keeps.forM {α : Type} {R : MemorySystem cfg → MemorySystem cfg → Prop} [Std.Refl R]
    [IsTrans _ R] {f : α → DramM cfg Unit} (h : ∀ a, Keeps R (f a)) (list : List α) :
    Keeps R (list.forM f) := by
  induction list with
  | nil => exact .pure ()
  | cons a list ih => exact (h a).bind fun _ => ih

/-! ## Steps -/

theorem quiet_updateRank (i : Fin cfg.numRanks) : Keeps Quiet (updateRank i) := by
  apply Keeps.get.bind
  intro s
  cases (s.ranks i).update with
  | mk sent rank =>
  apply (quiet_setRank i rank).bind
  intro _
  cases sent with
  | none => exact .pure ()
  | some packet =>
      dsimp only
      unfold receiveData
      exact .ite ((Keeps.throw _).bind fun _ => quiet_modifyController fun _ => ⟨rfl, rfl, rfl⟩)
        (quiet_modifyController fun _ => ⟨rfl, rfl, rfl⟩)

theorem quiet_acceptPending : Keeps Quiet (acceptPending : DramM cfg Unit) := by
  have hkeep (s : MemorySystem cfg) := acceptPending_eq s
  constructor
  · intro s a s' h
    obtain ⟨queue, pending, hrun, hwaiting, hbacklog⟩ := hkeep s
    rw [hrun] at h
    cases h
    exact ⟨rfl, rfl, rfl, hwaiting, hbacklog, rfl⟩
  · intro s e s' h
    obtain ⟨queue, pending, hrun, -⟩ := hkeep s
    rw [hrun] at h
    cases h

theorem quiet_moveCommandBus : Keeps Quiet (moveCommandBus : DramM cfg Unit) := by
  apply Keeps.get.bind
  intro s
  dsimp only
  cases s.controller.outgoingCmdPacket with
  | none => exact .pure ()
  | some packet =>
      dsimp only
      refine Keeps.bind (quiet_modifyController fun _ => ⟨rfl, rfl, rfl⟩) fun _ => ?_
      exact .ite ((quiet_deliver packet).bind fun _ =>
        quiet_modifyController fun _ => ⟨rfl, rfl, rfl⟩) (.pure ())

theorem quiet_moveDataBus : Keeps Quiet (moveDataBus : DramM cfg Unit) := by
  apply Keeps.get.bind
  intro s
  dsimp only
  cases s.controller.outgoingDataPacket with
  | none => exact .pure ()
  | some packet =>
      dsimp only
      refine Keeps.bind (quiet_modifyController fun _ => ⟨rfl, rfl, rfl⟩) fun _ => ?_
      exact .ite ((quiet_record fun _ => rfl).bind fun _ => (quiet_deliver packet).bind fun _ =>
        quiet_modifyController fun _ => ⟨rfl, rfl, rfl⟩) (.pure ())

theorem quiet_sendWriteData : Keeps Quiet (sendWriteData : DramM cfg Unit) := by
  refine Keeps.bind (quiet_modifyController fun _ => ⟨rfl, rfl, rfl⟩) fun _ => ?_
  apply Keeps.get.bind
  intro s
  dsimp only
  cases s.controller.writeDataToSend with
  | nil => exact .pure ()
  | cons entry rest =>
      dsimp only
      apply Keeps.ite
      · exact .ite ((Keeps.throw _).bind fun _ => quiet_modifyController fun _ => ⟨rfl, rfl, rfl⟩)
          (quiet_modifyController fun _ => ⟨rfl, rfl, rfl⟩)
      · exact .pure ()

theorem quiet_transfer : Keeps Quiet (transfer : DramM cfg Unit) :=
  (Keeps.forM quiet_updateRank _).bind fun _ => quiet_acceptPending.bind fun _ =>
    Keeps.bind (quiet_modifyController fun _ => ⟨rfl, rfl, rfl⟩) fun _ =>
      quiet_moveCommandBus.bind fun _ => quiet_moveDataBus.bind fun _ => quiet_sendWriteData

theorem quiet_checkRefresh : Keeps Quiet (checkRefresh : DramM cfg Unit) := by
  apply Keeps.get.bind
  intro s
  dsimp only
  apply Keeps.ite
  · refine Keeps.bind (quiet_modifyController fun _ => ⟨rfl, rfl, rfl⟩) fun _ => ?_
    exact Keeps.bind (quiet_setRefreshWaiting _) fun _ =>
      quiet_modifyController fun _ => ⟨rfl, rfl, rfl⟩
  · exact .ite (quiet_setRefreshWaiting _) (.pure ())

theorem quiet_managePower (i : Fin cfg.numRanks) : Keeps Quiet (managePower i) := by
  have hset (off : Bool) : Keeps Quiet (setPowerDown i off) :=
    quiet_modifyController fun _ => ⟨rfl, rfl, rfl⟩
  have hbanks (f : BankState → BankState) : Keeps Quiet (modifyBanks i f) :=
    quiet_modifyController fun _ => ⟨rfl, rfl, rfl⟩
  apply Keeps.get.bind
  intro s
  dsimp only
  apply Keeps.ite
  · apply Keeps.ite
    · exact .ite ((hset true).bind fun _ => (quiet_orFault _).bind fun _ =>
        (quiet_setRank _ _).bind fun _ => hbanks _) (.pure ())
    · exact .ite ((hset false).bind fun _ => (quiet_orFault _).bind fun _ =>
        (quiet_setRank _ _).bind fun _ => hbanks _) (.pure ())
  · exact .pure ()

theorem quiet_returnReadData : Keeps Quiet (returnReadData : DramM cfg Unit) := by
  apply Keeps.get.bind
  intro s
  dsimp only
  cases s.controller.returnTransaction with
  | nil => exact .pure ()
  | cons address rest =>
      dsimp only
      split
      · exact .throw _
      · exact (quiet_record fun _ => rfl).bind fun _ =>
          quiet_modifyController fun _ => ⟨rfl, rfl, rfl⟩

/-- What comes after a transaction has been scheduled. -/
def finish : DramM cfg Unit := do
  (List.finRange cfg.numRanks).forM managePower
  returnReadData
  countRefresh

theorem quiet_finish : Keeps Quiet (finish : DramM cfg Unit) :=
  (Keeps.forM quiet_managePower _).bind fun _ => quiet_returnReadData.bind fun _ =>
    quiet_modifyController fun _ => ⟨rfl, rfl, rfl⟩

/-! ## The steps that are not quiet -/

/-- The command that is issued, if any, is the one that is popped. -/
theorem issueCommand_ok {s s' : MemorySystem cfg} (h : issueCommand s = .ok () s') :
    let popped := s.controller.commandQueue.pop s.currentClockCycle s.controller.bankStates
    s'.controller.commandQueue = popped.2 ∧ s'.waiting = s.waiting ∧
      s'.pendingTransactions = s.pendingTransactions ∧ s'.currentClockCycle = s.currentClockCycle ∧
      commands s'.events =
        commands s.events ++ (popped.1.map fun packet => (s.currentClockCycle, packet)).toList := by
  have hrun := h
  unfold issueCommand at h
  rw [run_bind, run_get] at h
  dsimp only at h ⊢
  cases hpop : s.controller.commandQueue.pop s.currentClockCycle s.controller.bankStates with
  | mk popped q =>
  rw [hpop] at h
  dsimp only at h
  cases popped with
  | none =>
      cases h
      exact ⟨rfl, rfl, rfl, rfl, (List.append_nil _).symm⟩
  | some packet =>
      dsimp only at h
      rw [modifyController, run_bind, run_modify] at h
      dsimp only at h
      have htype : packet.busPacketType ≠ .data := by
        intro htype
        simp only [htype, reduceCtorEq, or_self, if_false, if_true] at h
        cases h
      have hbus : s.controller.outgoingCmdPacket = none := by
        cases hbus : s.controller.outgoingCmdPacket with
        | none => rfl
        | some other =>
            simp only [hbus, htype, Option.isSome_some, if_true, if_false] at h
            split at h <;> cases h
      rw [issueCommand_eq hbus htype hpop] at hrun
      cases hrun
      exact ⟨rfl, rfl, rfl, rfl, commands_append _ _⟩

/-- The transaction that is scheduled, if any, is the first for which there is room. -/
theorem scheduleTransaction_ok {s s' : MemorySystem cfg} (h : scheduleTransaction s = .ok () s') :
    commands s'.events = commands s.events ∧ s'.currentClockCycle = s.currentClockCycle ∧
      s'.pendingTransactions = s.pendingTransactions ∧
      (s'.controller.commandQueue = s.controller.commandQueue ∧ s'.waiting = s.waiting ∨
        ∃ before t after q, pick (fun _ t => s.controller.commandQueue.hasRoomFor 2 (rankOf cfg t)
            (bankOf cfg t)) s.controller.transactionQueue = some (before, t, after) ∧
          s'.waiting = before ++ after ++ s.pendingTransactions ∧
          s.controller.commandQueue.enqueue (packetOf cfg .activate t) = .ok q ∧
          q.enqueue (packetOf cfg (t.getBusPacketType cfg) t) =
            .ok s'.controller.commandQueue) := by
  unfold scheduleTransaction at h
  rw [run_bind, run_get] at h
  dsimp only at h
  cases hpick : pick (fun _ t => s.controller.commandQueue.hasRoomFor 2 (rankOf cfg t)
      (bankOf cfg t)) s.controller.transactionQueue with
  | none =>
      rw [hpick] at h
      cases h
      exact ⟨rfl, rfl, rfl, .inl ⟨rfl, rfl⟩⟩
  | some picked =>
      obtain ⟨before, t, after⟩ := picked
      rw [hpick] at h
      dsimp only at h
      rw [modifyController, run_bind, run_modify] at h
      dsimp only at h
      have henqueue {packet : BusPacket cfg} {s s' : MemorySystem cfg}
          (h : enqueueCommand packet s = .ok () s') : ∃ q,
          s.controller.commandQueue.enqueue packet = .ok q ∧
            s' = { s with controller := { s.controller with commandQueue := q } } := by
        cases hq : s.controller.commandQueue.enqueue packet with
        | ok q =>
            rw [enqueueCommand_eq hq] at h
            cases h
            exact ⟨q, rfl, rfl⟩
        | error e =>
            unfold enqueueCommand at h
            rw [run_bind, run_get] at h
            dsimp only at h
            rw [hq] at h
            cases h
      obtain ⟨_, s₁, h₁, h⟩ := bind_ok h
      obtain ⟨_, s₂, h₂, h⟩ := bind_ok h
      obtain ⟨q₁, hq₁, rfl⟩ := henqueue h₁
      obtain ⟨q₂, hq₂, rfl⟩ := henqueue h₂
      split at h
      all_goals
        cases h
        exact ⟨rfl, rfl, rfl, .inr ⟨before, t, after, q₁, rfl, rfl, hq₁, hq₂⟩⟩

theorem control_eq (cfg : Config) : (control : DramM cfg Unit) =
    checkRefresh >>= fun _ => issueCommand >>= fun _ => scheduleTransaction >>= fun _ => finish :=
  rfl

/-- The steps of a cycle. -/
theorem update_ok {s s' : MemorySystem cfg} (h : update s = .ok () s') :
    ∃ s₁ s₂ s₃ s₄, Quiet s s₁ ∧ issueCommand s₁ = .ok () s₂ ∧
      scheduleTransaction s₂ = .ok () s₃ ∧ Quiet s₃ s₄ ∧
      s' = { s₄ with currentClockCycle := s₄.currentClockCycle + 1 } := by
  rw [update_eq] at h
  obtain ⟨_, mid, hmid, h⟩ := bind_ok h
  obtain ⟨_, s₄, hcontrol, h⟩ := bind_ok h
  cases h
  rw [control_eq] at hcontrol
  obtain ⟨_, s₁, h₁, hcontrol⟩ := bind_ok hcontrol
  obtain ⟨_, s₂, h₂, hcontrol⟩ := bind_ok hcontrol
  obtain ⟨_, s₃, h₃, h₄⟩ := bind_ok hcontrol
  have htrans : Quiet s s₁ :=
    IsTrans.trans _ _ _ (quiet_transfer.ok hmid) (quiet_checkRefresh.ok h₁)
  exact ⟨s₁, s₂, s₃, s₄, htrans, h₂, h₃, quiet_finish.ok h₄, rfl⟩

end SpikeSim.Dram.MemorySystem
