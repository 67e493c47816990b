/-
# The second half of a cycle

A refresh is asked for, a command is issued, a transaction becomes two commands, ranks lose and
get power, and a read is answered.  Each of these succeeds and keeps the controller and its
ranks consistent, and none loses or duplicates a transaction.
-/

import SpikeSim.Dram.Transfer

namespace SpikeSim.Dram

open CommandQueue DelayLine

variable {cfg : Config}

/-! ## The copies after a command -/

section Command

variable {now : ℕ} {banks : Banks cfg} {packet : BusPacket cfg}

/-- The bank of a command that is allowed has power. -/
theorem Allowed.on (h : Allowed now banks packet) :
    (banks packet.rank packet.bank).currentBankState ≠ .powerDown := by
  unfold Allowed at h
  cases htype : packet.busPacketType with
  | read | readP | write | writeP | precharge =>
      all_goals
        rw [htype] at h
        rw [h.2.1]
        simp
  | activate =>
      rw [htype] at h
      rcases h.1 with hidle | hrefreshing
      · simp [hidle]
      · simp [hrefreshing]
  | refresh =>
      rw [htype] at h
      exact (h packet.bank).2.1
  | data =>
      rw [htype] at h
      exact h.elim

/-- A command leaves its bank busy. -/
theorem Allowed.busy (h : Allowed now banks packet) :
    (MemoryController.afterCommand now packet banks packet.rank packet.bank).currentBankState ≠
      .idle := by
  unfold Allowed at h
  unfold MemoryController.afterCommand
  cases htype : packet.busPacketType with
  | read | readP =>
      all_goals
        rw [htype] at h
        simp [MemoryController.holdAfterRead, MemoryController.holdUntilActivate, h.2.1]
  | write | writeP =>
      all_goals
        rw [htype] at h
        simp [MemoryController.holdAfterWrite, MemoryController.holdUntilActivate, h.2.1]
  | activate | precharge | refresh =>
      all_goals simp
  | data =>
      rw [htype] at h
      exact h.elim

/-- No command takes the power away. -/
theorem afterCommand_on {i : Fin cfg.numRanks} {j : Fin cfg.numBanks}
    (h : (banks i j).currentBankState ≠ .powerDown) :
    (MemoryController.afterCommand now packet banks i j).currentBankState ≠ .powerDown := by
  by_cases hi : i = packet.rank
  · subst hi
    unfold MemoryController.afterCommand
    cases packet.busPacketType with
    | read | readP =>
        all_goals
          simp only [updateAt_apply, true_and, MemoryController.holdAfterRead, decide_true, if_true,
            MemoryController.holdUntilActivate]
          split <;> exact h
    | write | writeP =>
        all_goals
          simp only [updateAt_apply, true_and, MemoryController.holdAfterWrite, decide_true,
            if_true, MemoryController.holdUntilActivate]
          split <;> exact h
    | activate =>
        by_cases hj : j = packet.bank
        · simp [hj]
        · simp [hj, h]
    | precharge =>
        by_cases hj : j = packet.bank
        · simp [hj]
        · simp [hj, h]
    | refresh => simp
    | data => exact h
  · rw [(prolonged_afterCommand hi j).state.1]
    exact h

end Command

namespace MemorySystem

variable {s : MemorySystem cfg} {next longestWrite longestRead : ℕ}

/-! ## Stages -/

/-- The code returns in a state that satisfies `Q`, in the same cycle, and loses nothing. -/
def Proceeds (x : DramM cfg Unit) (s : MemorySystem cfg) (Q : MemorySystem cfg → Prop) : Prop :=
  ∃ s', x s = .ok () s' ∧ Q s' ∧ s'.currentClockCycle = s.currentClockCycle ∧ Conserves s s'

theorem Proceeds.bind {x y : DramM cfg Unit} {P Q : MemorySystem cfg → Prop}
    (hx : Proceeds x s P)
    (hy : ∀ s', P s' → s'.currentClockCycle = s.currentClockCycle → Proceeds y s' Q) :
    Proceeds (x >>= fun _ => y) s Q := by
  obtain ⟨mid, hmid, hP, hclock, hkept⟩ := hx
  obtain ⟨s', hs', hQ, hclock', hkept'⟩ := hy mid hP hclock
  exact ⟨s', (bind_eq_of_ok hmid).trans hs', hQ, hclock'.trans hclock, hkept.trans hkept'⟩

/-- A loop of which each round keeps `Q`. -/
theorem Proceeds.forM {α : Type} {f : α → DramM cfg Unit} {Q : MemorySystem cfg → Prop}
    (hf : ∀ a s, Q s → Proceeds (f a) s Q) (list : List α) (hs : Q s) :
    Proceeds (list.forM f) s Q := by
  induction list generalizing s with
  | nil => exact ⟨s, rfl, hs, rfl, .refl s⟩
  | cons a list ih => exact (hf a s hs).bind fun s' hs' _ => ih hs'

theorem countRefresh_proceeds (h : s.Consistent next longestWrite longestRead) :
    Proceeds countRefresh s fun s' => s'.Consistent next longestWrite longestRead :=
  ⟨_, rfl, ⟨h.wellFormed, h.powered, h.busy, h.sees, h.timed, h.writeData, h.readData, h.pending⟩,
    rfl, rfl, rfl⟩

/-- A rank may wait for a refresh at any time. -/
theorem Consistent.wait (h : s.Consistent next longestWrite longestRead) (i : Fin cfg.numRanks) :
    ({ s with ranks := Function.update s.ranks i { s.ranks i with refreshWaiting := true } } :
      MemorySystem cfg).Consistent next longestWrite longestRead := by
  apply h.of_ranks
  all_goals
    intro j
    by_cases hj : j = i
    · subst hj
      rw [Function.update_self]
      try rfl
    · rw [Function.update_of_ne hj]

theorem checkRefresh_proceeds (h : s.Consistent next longestWrite longestRead)
    (hbus : s.controller.outgoingCmdPacket = none) :
    Proceeds checkRefresh s fun s' => s'.Consistent next longestWrite longestRead ∧
      s'.controller.outgoingCmdPacket = none := by
  have hwait := h.wait s.controller.refreshRank
  unfold checkRefresh Proceeds
  rw [run_bind, run_get]
  dsimp only
  by_cases hzero : s.controller.refreshCountdown s.controller.refreshRank = 0
  · rw [if_pos hzero]
    exact ⟨_, rfl, ⟨⟨⟨hwait.wellFormed.home, hwait.wellFormed.short⟩, hwait.powered, hwait.busy,
      hwait.sees, hwait.timed, hwait.writeData, hwait.readData, hwait.pending⟩, hbus⟩, rfl, rfl,
      rfl⟩
  · rw [if_neg hzero]
    by_cases hwake : s.controller.powerDown s.controller.refreshRank = true ∧
        s.controller.refreshCountdown s.controller.refreshRank ≤ cfg.tXP
    · rw [if_pos hwake]
      exact ⟨_, rfl, ⟨hwait, hbus⟩, rfl, rfl, rfl⟩
    · rw [if_neg hwake]
      exact ⟨s, rfl, ⟨h, hbus⟩, rfl, .refl s⟩

/-! ## Issuing a command -/

/-- The data that a command adds to the lines of the ranks. -/
theorem sum_expect (packet : BusPacket cfg) (delay : ℕ)
    (lines : Fin cfg.numRanks → DelayLine (BusPacket cfg)) :
    ∑ i, addresses (expect packet delay i (lines i)).items =
      ∑ i, addresses (lines i).items + ofKind BusPacketType.IsRead [packet] := by
  unfold expect
  by_cases hread : packet.busPacketType.IsRead = true
  · have heach (i : Fin cfg.numRanks) : addresses (if packet.busPacketType.IsRead = true ∧
        packet.rank = i then (lines i).push packet.asData delay else lines i).items =
        addresses (lines i).items + if packet.rank = i then {packet.physicalAddress} else 0 := by
      by_cases hi : packet.rank = i
      · rw [if_pos ⟨hread, hi⟩, if_pos hi, items_push, addresses_append]
        rfl
      · rw [if_neg fun h => hi h.2, if_neg hi, add_zero]
    simp only [heach]
    rw [Finset.sum_add_distrib, Finset.sum_ite_eq, if_pos (Finset.mem_univ _), ofKind_of hread]
  · rw [Bool.not_eq_true] at hread
    simp [hread, ofKind_of_not hread]

theorem items_expectWrite (packet : BusPacket cfg) (line : DelayLine (BusPacket cfg)) :
    addresses (expectWrite cfg packet line).items =
      addresses line.items + ofKind BusPacketType.IsWrite [packet] := by
  unfold expectWrite
  by_cases hwrite : packet.busPacketType.IsWrite = true
  · rw [if_pos hwrite, items_push, addresses_append, ofKind_of hwrite]
    rfl
  · rw [Bool.not_eq_true] at hwrite
    rw [hwrite, if_neg (by simp), ofKind_of_not hwrite, add_zero]

/-- The controller after a command has been put on the bus. -/
def issued (s : MemorySystem cfg) (packet : BusPacket cfg) (q : CommandQueue cfg) :
    MemorySystem cfg :=
  { s with
    controller := { s.controller with
      commandQueue := q
      writeDataToSend := (expectWrite cfg packet s.controller.writeLine).waiting
      bankStates := MemoryController.afterCommand s.currentClockCycle packet s.controller.bankStates
      outgoingCmdPacket := some packet
      cmdCyclesLeft := cfg.tCMD }
    events := s.events ++ [.command s.currentClockCycle packet] }

theorem issueCommand_eq (hbus : s.controller.outgoingCmdPacket = none) {packet : BusPacket cfg}
    {q : CommandQueue cfg} (htype : packet.busPacketType ≠ .data)
    (hpop : s.controller.commandQueue.pop s.currentClockCycle s.controller.bankStates =
      (some packet, q)) : issueCommand s = .ok () (s.issued packet q) := by
  unfold issueCommand issued
  rw [run_bind, run_get]
  dsimp only
  rw [hpop]
  dsimp only
  rw [modifyController, run_bind, run_modify]
  dsimp only
  unfold expectWrite
  cases hcase : packet.busPacketType with
  | write | writeP =>
      all_goals
        simp only [BusPacketType.IsWrite, if_true, reduceCtorEq, or_false, or_true, if_false,
          hbus, Option.isSome_none, Bool.false_eq_true]
        rfl
  | data => exact absurd hcase htype
  | read | readP | activate | precharge | refresh =>
      all_goals
        simp only [BusPacketType.IsWrite, reduceCtorEq, or_false, if_false, hbus,
          Option.isSome_none, Bool.false_eq_true]
        rfl

theorem issued_writeLine (s : MemorySystem cfg) (packet : BusPacket cfg) (q : CommandQueue cfg) :
    (s.issued packet q).controller.writeLine = expectWrite cfg packet s.controller.writeLine := by
  change DelayLine.mk (expectWrite cfg packet s.controller.writeLine).waiting
    s.controller.writeLine.outgoing s.controller.writeLine.left = _
  unfold expectWrite
  split <;> rfl

theorem Consistent.issued (hsound : cfg.Sound)
    (h : s.Consistent (s.currentClockCycle + 1) (cfg.WL - 1) cfg.RL)
    (hbus : s.controller.outgoingCmdPacket = none) {packet : BusPacket cfg} {q : CommandQueue cfg}
    (hq : q.WellFormed) (hallowed : Allowed s.currentClockCycle s.controller.bankStates packet)
    (hqueued : queued BusPacketType.IsRead q + ofKind BusPacketType.IsRead [packet] =
      queued BusPacketType.IsRead s.controller.commandQueue) :
    (s.issued packet q).Consistent (s.currentClockCycle + 1) cfg.WL (cfg.RL + 1) := by
  have hlines : s.readLines = fun i => (s.ranks i).readLine := by
    funext i
    rw [readLines, hbus]
  obtain ⟨banks, harrives, hsees⟩ := h.sees
  rw [Arrives, hbus] at harrives
  subst harrives
  obtain ⟨rank, haccepted, hown⟩ := issue_sees hsound hallowed (hsees packet.rank)
  have htimed := h.timed.issue hsound hallowed
  have hwrites := s.issued_writeLine packet q
  have hreads : (s.issued packet q).readLines =
      fun i => expect packet (cfg.RL + 1) i (s.readLines i) := by
    rw [hlines]
    rfl
  refine ⟨hq, fun i => ⟨(h.powered i).1, ?_⟩, ?_, ⟨_, ⟨hsound.tCMD_eq, rank, haccepted, rfl⟩, ?_⟩,
    ?_, ?_, ?_, ?_⟩
  · obtain ⟨-, hcopies⟩ := h.powered i
    change if s.controller.powerDown i = true then _ else _
    by_cases hoff : s.controller.powerDown i = true
    · rw [if_pos hoff] at hcopies ⊢
      obtain ⟨up, hcopies⟩ := hcopies
      have hi : i ≠ packet.rank := by
        rintro rfl
        exact hallowed.on (hcopies packet.bank).1
      refine ⟨up, fun j => ?_⟩
      have hlonger : Prolonged (s.controller.bankStates i j)
          (MemoryController.afterCommand s.currentClockCycle packet s.controller.bankStates i j) :=
        prolonged_afterCommand hi j
      obtain ⟨hstate, -, -, -, hup⟩ := hlonger.state
      exact ⟨hstate.trans (hcopies j).1, hup.trans (hcopies j).2⟩
    · rw [if_neg hoff] at hcopies ⊢
      exact fun j => afterCommand_on (hcopies j)
  · intro packet' hpacket
    obtain rfl : packet = packet' := Option.some.inj hpacket
    exact ⟨hallowed.busy, afterCommand_on hallowed.on⟩
  · intro i j
    by_cases hi : i = packet.rank
    · subst hi
      rw [Function.update_self]
      exact hown j
    · rw [Function.update_of_ne hi]
      exact (hsees i j).held ((prolonged_afterCommand hi j).held _)
  · rw [hwrites, hreads]
    exact htimed
  · rw [hwrites]
    intro packet' hmem
    unfold expectWrite at hmem
    split at hmem
    · rw [items_push] at hmem
      rcases List.mem_append.mp hmem with hold | hnew
      · exact h.writeData packet' hold
      · obtain rfl := List.mem_singleton.mp hnew
        rfl
    · exact h.writeData packet' hmem
  · rw [hreads]
    intro i packet' hmem
    dsimp only at hmem
    unfold expect at hmem
    split at hmem
    · rw [items_push] at hmem
      rcases List.mem_append.mp hmem with hold | hnew
      · exact h.readData i packet' hold
      · obtain rfl := List.mem_singleton.mp hnew
        rfl
    · exact h.readData i packet' hmem
  · rw [readsInFlight, hreads, sum_expect]
    change (s.controller.pendingReadTransactions.map Transaction.address : Multiset _) =
      (s.controller.returnTransaction : Multiset _) + _ + queued _ q
    rw [h.pending, readsInFlight, ← hqueued]
    abel

/-- A command is issued, and its rank will accept it. -/
theorem issueCommand_proceeds (hsound : cfg.Sound)
    (h : s.Consistent (s.currentClockCycle + 1) (cfg.WL - 1) cfg.RL)
    (hbus : s.controller.outgoingCmdPacket = none) :
    Proceeds issueCommand s fun s' =>
      s'.Consistent (s.currentClockCycle + 1) cfg.WL (cfg.RL + 1) := by
  have hmoved : s.controller.commandQueue.stepWindows.WellFormed :=
    ⟨h.wellFormed.home, h.wellFormed.short⟩
  have hpower (i : Fin cfg.numRanks) :
      (∀ j, (s.controller.bankStates i j).currentBankState = .powerDown) ∨
        ∀ j, (s.controller.bankStates i j).currentBankState ≠ .powerDown := by
    obtain ⟨-, hcopies⟩ := h.powered i
    split at hcopies
    · obtain ⟨up, hcopies⟩ := hcopies
      exact .inl fun j => (hcopies j).1
    · exact .inr hcopies
  rcases pop_cases s.currentClockCycle s.controller.bankStates s.controller.commandQueue with
    hpop | ⟨packet, q, htaken, hpop⟩
  · refine ⟨{ s with controller := { s.controller with
      commandQueue := s.controller.commandQueue.stepWindows } }, ?_, ?_, rfl, rfl, rfl⟩
    · unfold issueCommand
      rw [run_bind, run_get]
      dsimp only
      rw [hpop]
      rfl
    · exact ⟨hmoved, h.powered, h.busy, h.sees, h.timed.longer (Nat.sub_le _ _) (Nat.le_succ _),
        h.writeData, h.readData, h.pending⟩
  · have hallowed := htaken.allowed hmoved hpower
    have htype : packet.busPacketType ≠ .data := by
      intro htype
      unfold Allowed at hallowed
      rw [htype] at hallowed
      exact hallowed
    have hqueues := (afterPop_queues q packet).1
    have hq : (q.afterPop packet).WellFormed := by
      apply hmoved.sublist
      intro rank bank
      rw [hqueues]
      exact htaken.sublist rank bank
    have hqueued (kind : BusPacketType → Bool) (hactivate : kind .activate = false)
        (hprecharge : kind .precharge = false) (hrefresh : kind .refresh = false) :=
      (congrArg (· + ofKind kind [packet]) (queued_congr hqueues)).trans
        (htaken.queued_eq hactivate hprecharge hrefresh)
    refine ⟨_, issueCommand_eq hbus htype hpop, h.issued hsound hbus hq hallowed
      (hqueued _ rfl rfl rfl), rfl, ?_, ?_⟩
    · unfold readsAccepted issued
      simp [readAnswers]
    · have hwrites := hqueued BusPacketType.IsWrite rfl rfl rfl
      have hflight : (s.issued packet (q.afterPop packet)).writesInFlight = s.writesInFlight := by
        rw [writesInFlight, issued_writeLine, items_expectWrite]
        change _ + _ + queued _ (q.afterPop packet) = _ + queued _ s.controller.commandQueue
        rw [add_assoc, add_comm (ofKind _ _), hwrites]
        rfl
      unfold writesAccepted
      rw [hflight]
      simp [issued, writeAnswers]

/-! ## Scheduling a transaction -/

theorem ofType_cons (type : TransactionType) (t : Transaction) (transactions : List Transaction) :
    ofType type (t :: transactions) = ofType type [t] + ofType type transactions :=
  ofType_append type [t] transactions

/-- The type of a column access, and what kind it is. -/
theorem getBusPacketType_kind (cfg : Config) (t : Transaction) :
    (t.getBusPacketType cfg).Queued cfg ∧
      (t.getBusPacketType cfg).IsRead = decide (t.transactionType = .dataRead) ∧
      (t.getBusPacketType cfg).IsWrite = decide (t.transactionType = .dataWrite) := by
  unfold Transaction.getBusPacketType
  cases htype : t.transactionType with
  | dataRead | dataWrite =>
      all_goals
        cases hpolicy : cfg.rowBufferPolicy with
        | openPage | closePage =>
            all_goals simp [BusPacketType.Queued, BusPacketType.IsRead, BusPacketType.IsWrite,
              hpolicy]

theorem enqueueCommand_eq {packet : BusPacket cfg} {q : CommandQueue cfg}
    (h : s.controller.commandQueue.enqueue packet = .ok q) :
    enqueueCommand packet s = .ok () { s with
      controller := { s.controller with commandQueue := q } } := by
  unfold enqueueCommand
  rw [run_bind, run_get]
  dsimp only
  rw [run_bind, h]
  rfl

/-- The queue after a transaction has been turned into an activate and a column access. -/
theorem enqueue_transaction (hsound : cfg.Sound) {q : CommandQueue cfg} (hq : q.WellFormed)
    (t : Transaction) (hroom : q.hasRoomFor 2 (rankOf cfg t) (bankOf cfg t) = true) :
    ∃ q₁ q₂, q.enqueue (packetOf cfg .activate t) = .ok q₁ ∧
      q₁.enqueue (packetOf cfg (t.getBusPacketType cfg) t) = .ok q₂ ∧ q₂.WellFormed ∧
      queued BusPacketType.IsRead q₂ = queued BusPacketType.IsRead q + ofType .dataRead [t] ∧
      queued BusPacketType.IsWrite q₂ = queued BusPacketType.IsWrite q + ofType .dataWrite [t] := by
  obtain ⟨hqueued, hread, hwrite⟩ := getBusPacketType_kind cfg t
  have hshort : (q.getCommandQueue (rankOf cfg t) (bankOf cfg t)).length + 2 ≤ cfg.cmdQueueDepth :=
    length_of_hasRoomFor hsound hq hroom
  have hfirst : (q.getCommandQueue (packetOf cfg .activate t).rank
      (packetOf cfg .activate t).bank).length < cfg.cmdQueueDepth := by
    simp only [packetOf]
    omega
  have hactivate : (packetOf cfg .activate t).busPacketType.Queued cfg := trivial
  obtain ⟨q₁, h₁, hq₁, hlength, hkinds₁⟩ := enqueue_eq hq hactivate hfirst
  have hsecond : (q₁.getCommandQueue (packetOf cfg (t.getBusPacketType cfg) t).rank
      (packetOf cfg (t.getBusPacketType cfg) t).bank).length < cfg.cmdQueueDepth := by
    simp only [packetOf] at hlength ⊢
    omega
  obtain ⟨q₂, h₂, hq₂, -, hkinds₂⟩ := enqueue_eq hq₁ hqueued hsecond
  refine ⟨q₁, q₂, h₁, h₂, hq₂, ?_, ?_⟩
  · rw [hkinds₂, hkinds₁, ofKind_of_not (by rfl), add_zero]
    congr 1
    cases htype : t.transactionType <;> simp [ofKind, ofType, packetOf, hread, htype, addresses]
  · rw [hkinds₂, hkinds₁, ofKind_of_not (by rfl), add_zero]
    congr 1
    cases htype : t.transactionType <;> simp [ofKind, ofType, packetOf, hwrite, htype, addresses]

/-- The controller after a transaction has been taken from its queue. -/
def scheduled (s : MemorySystem cfg) (queue : List Transaction) (t : Transaction)
    (q : CommandQueue cfg) : MemorySystem cfg :=
  { s with
    controller := { s.controller with
      transactionQueue := queue
      commandQueue := q
      pendingReadTransactions :=
        if t.transactionType = .dataRead then s.controller.pendingReadTransactions ++ [t]
        else s.controller.pendingReadTransactions } }

theorem scheduled_pending (s : MemorySystem cfg) (queue : List Transaction) (t : Transaction)
    (q : CommandQueue cfg) :
    ((s.scheduled queue t q).controller.pendingReadTransactions.map Transaction.address :
        Multiset (BitVec 64)) =
      (s.controller.pendingReadTransactions.map Transaction.address : Multiset (BitVec 64)) +
        ofType .dataRead [t] := by
  unfold scheduled ofType
  by_cases hread : t.transactionType = .dataRead
  · simp [hread, ← Multiset.coe_add]
  · simp [hread]

theorem scheduleTransaction_proceeds (hsound : cfg.Sound)
    (h : s.Consistent next longestWrite longestRead) :
    Proceeds scheduleTransaction s fun s' => s'.Consistent next longestWrite longestRead := by
  unfold scheduleTransaction Proceeds
  rw [run_bind, run_get]
  dsimp only
  cases hpick : pick (fun _ t => s.controller.commandQueue.hasRoomFor 2 (rankOf cfg t)
      (bankOf cfg t)) s.controller.transactionQueue with
  | none => exact ⟨s, rfl, h, rfl, .refl s⟩
  | some picked =>
      obtain ⟨before, t, after⟩ := picked
      obtain ⟨hqueue, hroom, -⟩ := pick_eq_some hpick
      obtain ⟨q₁, q₂, h₁, h₂, hq₂, hreads, hwrites⟩ :=
        enqueue_transaction hsound h.wellFormed t hroom
      refine ⟨s.scheduled (before ++ after) t q₂, ?_, ⟨hq₂, h.powered, h.busy, h.sees, h.timed,
        h.writeData, h.readData, ?_⟩, rfl, ?_, ?_⟩
      · dsimp only
        rw [modifyController, run_bind, run_modify]
        let s₁ : MemorySystem cfg :=
          { s with controller := { s.controller with transactionQueue := before ++ after } }
        let s₂ : MemorySystem cfg :=
          { s₁ with controller := { s₁.controller with commandQueue := q₁ } }
        change (enqueueCommand _ >>= _) s₁ = _
        rw [bind_eq_of_ok (enqueueCommand_eq (s := s₁) h₁)]
        change (enqueueCommand _ >>= _) s₂ = _
        rw [bind_eq_of_ok (enqueueCommand_eq (s := s₂) h₂)]
        unfold scheduled
        by_cases hread : t.transactionType = .dataRead
        · rw [if_pos hread, if_pos hread]
          rfl
        · rw [if_neg hread, if_neg hread]
          rfl
      · rw [scheduled_pending, h.pending, readsInFlight, readsInFlight]
        change _ = _ + queued _ q₂
        rw [hreads, ← add_assoc]
        rfl
      · rw [readsAccepted, readsAccepted, scheduled_pending, hqueue]
        change ofType _ (before ++ after ++ s.pendingTransactions) + _ + readAnswers s.events = _
        simp only [ofType_append, ofType_cons _ t after]
        abel
      · rw [writesAccepted, writesAccepted, writesInFlight, writesInFlight, hqueue]
        change ofType _ (before ++ after ++ s.pendingTransactions) +
          (addresses s.controller.writeLine.items + queued _ q₂) + writeAnswers s.events = _
        rw [hwrites]
        simp only [ofType_append, ofType_cons _ t after]
        abel

/-! ## Power -/

/-- A rank that gets or loses power, with its copies. -/
def switched (s : MemorySystem cfg) (i : Fin cfg.numRanks) (off : Bool) (rank : Rank cfg)
    (copy : BankState → BankState) : MemorySystem cfg :=
  { s with
    ranks := Function.update s.ranks i rank
    controller := { s.controller with
      powerDown := Function.update s.controller.powerDown i off
      bankStates := Function.update s.controller.bankStates i fun j =>
        copy (s.controller.bankStates i j) } }

/-- The banks of a rank for which no command is on the bus. -/
theorem Arrives.quiet {banks : Banks cfg} (h : s.Arrives next banks) {i : Fin cfg.numRanks}
    (hi : ∀ packet, s.controller.outgoingCmdPacket = some packet → packet.rank ≠ i) :
    banks i = (s.ranks i).bankStates := by
  unfold Arrives at h
  cases hbus : s.controller.outgoingCmdPacket with
  | none =>
      rw [hbus] at h
      exact congrFun h i
  | some packet =>
      rw [hbus] at h
      obtain ⟨-, rank, -, rfl⟩ := h
      rw [Function.update_of_ne (hi packet hbus).symm]

/-- The other ranks still get their commands. -/
theorem Arrives.switched {banks : Banks cfg} (h : s.Arrives next banks) {i : Fin cfg.numRanks}
    (hi : ∀ packet, s.controller.outgoingCmdPacket = some packet → packet.rank ≠ i) (off : Bool)
    (rank : Rank cfg) (copy : BankState → BankState) :
    (s.switched i off rank copy).Arrives next (Function.update banks i rank.bankStates) := by
  have hranks : (fun j => (Function.update s.ranks i rank j).bankStates) =
      Function.update (fun j => (s.ranks j).bankStates) i rank.bankStates := by
    funext j
    by_cases hj : j = i
    · subst hj
      simp
    · simp [hj]
  unfold Arrives MemorySystem.switched at *
  dsimp only
  cases hbus : s.controller.outgoingCmdPacket with
  | none =>
      rw [hbus] at h
      dsimp only at h ⊢
      rw [h, hranks]
  | some packet =>
      rw [hbus] at h
      obtain ⟨hleft, rank', hreceive, rfl⟩ := h
      have hne := hi packet hbus
      refine ⟨hleft, rank', by rwa [Function.update_of_ne hne], ?_⟩
      rw [hranks, Function.update_comm hne]

theorem Consistent.switched (h : s.Consistent next longestWrite longestRead)
    {i : Fin cfg.numRanks} {off : Bool} {rank : Rank cfg} {copy : BankState → BankState}
    (hi : ∀ packet, s.controller.outgoingCmdPacket = some packet → packet.rank ≠ i)
    (hline : rank.readLine = (s.ranks i).readLine) (hoff : rank.isPowerDown = off)
    (hread : ∀ b, (copy b).nextRead = b.nextRead)
    (hstate : ∀ b, (copy b).currentBankState ≠ .rowActive)
    (hcopies : if off then ∃ up, ∀ b, (copy b).currentBankState = .powerDown ∧
      (copy b).nextPowerUp = up else ∀ b, (copy b).currentBankState ≠ .powerDown)
    (hsees : ∀ j, Sees cfg next (copy (s.controller.bankStates i j)) (rank.bankStates j)) :
    (s.switched i off rank copy).Consistent next longestWrite longestRead := by
  have hreads : (s.switched i off rank copy).readLines = s.readLines := by
    funext j
    unfold readLines MemorySystem.switched
    dsimp only
    by_cases hj : j = i
    · subst hj
      rw [Function.update_self, hline]
    · rw [Function.update_of_ne hj]
  obtain ⟨banks, harrives, hold⟩ := h.sees
  refine ⟨h.wellFormed, fun j => ?_, fun packet hbus => ?_,
    ⟨_, harrives.switched hi off rank copy, fun j k => ?_⟩, ?_, h.writeData, ?_, ?_⟩
  · unfold Powered MemorySystem.switched
    dsimp only
    by_cases hj : j = i
    · subst hj
      simp only [Function.update_self]
      refine ⟨hoff, ?_⟩
      cases off with
      | true =>
          obtain ⟨up, hcopies⟩ := hcopies
          exact ⟨up, fun k => hcopies _⟩
      | false => exact fun k => hcopies _
    · simp only [Function.update_of_ne hj]
      exact h.powered j
  · have hne := hi packet hbus
    unfold MemorySystem.switched
    dsimp only
    rw [Function.update_of_ne hne]
    exact h.busy packet hbus
  · unfold MemorySystem.switched
    dsimp only
    by_cases hj : j = i
    · subst hj
      rw [Function.update_self, Function.update_self]
      exact hsees k
    · rw [Function.update_of_ne hj, Function.update_of_ne hj]
      exact hold j k
  · rw [hreads]
    apply h.timed.of_banks
    · intro j k
      unfold MemorySystem.switched
      dsimp only
      by_cases hj : j = i
      · subst hj
        rw [Function.update_self, hread]
      · rw [Function.update_of_ne hj]
    · intro j k hactive
      unfold MemorySystem.switched at hactive ⊢
      dsimp only at hactive ⊢
      by_cases hj : j = i
      · subst hj
        rw [Function.update_self] at hactive
        exact absurd hactive (hstate _)
      · rw [Function.update_of_ne hj] at hactive ⊢
        exact ⟨hactive, le_rfl⟩
  · rw [hreads]
    exact h.readData
  · rw [readsInFlight, hreads]
    exact h.pending

/-- A rank may lose power when its copies are idle, and get it back in time. -/
theorem managePower_proceeds (i : Fin cfg.numRanks)
    (h : s.Consistent (s.currentClockCycle + 1) longestWrite longestRead) :
    Proceeds (managePower i) s fun s' =>
      s'.Consistent (s.currentClockCycle + 1) longestWrite longestRead := by
  obtain ⟨banks, harrives, hsees⟩ := h.sees
  unfold managePower Proceeds
  rw [run_bind, run_get]
  dsimp only
  by_cases hlow : cfg.useLowPower = true
  · rw [if_pos hlow]
    by_cases hempty : s.controller.commandQueue.isEmpty i = true ∧
        (s.ranks i).refreshWaiting = false
    · rw [if_pos hempty]
      by_cases hidle : ∀ j, (s.controller.bankStates i j).currentBankState = .idle
      · rw [if_pos hidle]
        have hquiet : ∀ packet, s.controller.outgoingCmdPacket = some packet →
            packet.rank ≠ i := by
          rintro packet hbus rfl
          exact (h.busy packet hbus).1 (hidle packet.bank)
        have hown (j) : ((s.ranks i).bankStates j).currentBankState = .idle ∧
            (s.controller.bankStates i j).stateChangeCountdown = 0 := by
          rw [← harrives.quiet hquiet]
          exact (hsees i j).idle (hidle j)
        let rank : Rank cfg := { s.ranks i with
          isPowerDown := true
          bankStates := fun j => { (s.ranks i).bankStates j with
            nextPowerUp := s.currentClockCycle + cfg.tCKE
            currentBankState := .powerDown } }
        have hrank : (s.ranks i).powerDown s.currentClockCycle = .ok rank := by
          rw [Rank.powerDown, if_neg (by simp [hown])]
        refine ⟨s.switched i true rank fun b => { b with
            currentBankState := .powerDown
            nextPowerUp := s.currentClockCycle + cfg.tCKE }, ?_,
          h.switched hquiet rfl rfl (fun _ => rfl) (by simp) ⟨_, fun _ => ⟨rfl, rfl⟩⟩ ?_, rfl, rfl,
          rfl⟩
        · rw [setPowerDown, modifyController, run_bind, run_modify]
          dsimp only
          rw [run_bind, hrank]
          rfl
        · intro j
          have hactivate := (hsees i j).activate
          rw [harrives.quiet hquiet] at hactivate
          exact ⟨hactivate, rfl, rfl, (hown j).2⟩
      · rw [if_neg hidle]
        exact ⟨s, rfl, h, rfl, .refl s⟩
    · rw [if_neg hempty]
      by_cases hwake : (s.controller.bankStates i 0).nextPowerUp ≤ s.currentClockCycle ∧
          s.controller.powerDown i = true
      · rw [if_pos hwake]
        obtain ⟨hdown, hcopies⟩ := h.powered i
        rw [if_pos hwake.2] at hcopies
        obtain ⟨up, hcopies⟩ := hcopies
        have hquiet : ∀ packet, s.controller.outgoingCmdPacket = some packet →
            packet.rank ≠ i := by
          rintro packet hbus rfl
          exact (h.busy packet hbus).2 (hcopies packet.bank).1
        have hown (j) : ((s.ranks i).bankStates j).nextPowerUp ≤ s.currentClockCycle ∧
            (s.controller.bankStates i j).stateChangeCountdown = 0 := by
          obtain ⟨-, hup, hzero⟩ := (hsees i j).powerDown (hcopies j).1
          rw [harrives.quiet hquiet, (hcopies j).2, ← (hcopies 0).2] at hup
          exact ⟨hup ▸ hwake.1, hzero⟩
        let rank : Rank cfg := { s.ranks i with
          isPowerDown := false
          bankStates := fun j => { (s.ranks i).bankStates j with
            nextActivate := s.currentClockCycle + cfg.tXP
            currentBankState := .idle } }
        have hrank : (s.ranks i).powerUp s.currentClockCycle = .ok rank := by
          rw [Rank.powerUp, if_neg (by rw [hdown, hwake.2]; simp), if_neg]
          rintro ⟨j, hearly⟩
          exact absurd (hown j).1 (not_le.mpr hearly)
        refine ⟨s.switched i false rank fun b => { b with
            currentBankState := .idle
            nextActivate := s.currentClockCycle + cfg.tXP }, ?_,
          h.switched hquiet rfl rfl (fun _ => rfl) (by simp) (by simp) ?_, rfl, rfl, rfl⟩
        · rw [setPowerDown, modifyController, run_bind, run_modify]
          dsimp only
          rw [run_bind, hrank]
          rfl
        · exact fun j => ⟨Nat.le_succ _, rfl, (hown j).2⟩
      · rw [if_neg hwake]
        exact ⟨s, rfl, h, rfl, .refl s⟩
  · rw [if_neg hlow]
    exact ⟨s, rfl, h, rfl, .refl s⟩

/-! ## Answering a read -/

/-- The controller after the data at the head have gone to the CPU. -/
def returned (s : MemorySystem cfg) (address : BitVec 64) (rest : List (BitVec 64))
    (pending : List Transaction) : MemorySystem cfg :=
  { s with
    controller := { s.controller with
      pendingReadTransactions := pending
      returnTransaction := rest }
    events := s.events ++ [.readDone s.currentClockCycle address] }

/-- Data that come back belong to a read that the controller waits for. -/
theorem returnReadData_proceeds (h : s.Consistent next longestWrite longestRead) :
    Proceeds returnReadData s fun s' => s'.Consistent next longestWrite longestRead := by
  have hpending := h.pending
  unfold returnReadData Proceeds
  rw [run_bind, run_get]
  dsimp only
  cases hreturn : s.controller.returnTransaction with
  | nil => exact ⟨s, rfl, h, rfl, .refl s⟩
  | cons address rest =>
      have hflight : s.readsInFlight = {address} + (s.returned address rest []).readsInFlight := by
        unfold readsInFlight returned
        rw [hreturn, ← List.singleton_append, ← Multiset.coe_add, add_assoc, add_assoc, add_assoc]
        rfl
      dsimp only
      cases hpick : pick (fun _ t => decide (t.address = address))
          s.controller.pendingReadTransactions with
      | none =>
          have hmem : address ∈ (s.controller.pendingReadTransactions.map Transaction.address :
              Multiset (BitVec 64)) := by
            rw [hpending, hflight]
            exact Multiset.mem_add.mpr (.inl (Multiset.mem_singleton_self _))
          obtain ⟨t, ht, haddress⟩ := List.mem_map.mp (Multiset.mem_coe.mp hmem)
          obtain ⟨pre, post, hqueue⟩ := List.append_of_mem ht
          have hnone := pick_eq_none hpick hqueue
          rw [decide_eq_false_iff_not] at hnone
          exact absurd haddress hnone
      | some picked =>
          obtain ⟨before, t, after⟩ := picked
          obtain ⟨hqueue, haddress, -⟩ := pick_eq_some hpick
          rw [decide_eq_true_eq] at haddress
          have hsplit : (s.controller.pendingReadTransactions.map Transaction.address :
                Multiset (BitVec 64)) =
              {address} + ((before ++ after).map Transaction.address : Multiset (BitVec 64)) := by
            rw [hqueue, ← haddress]
            simp only [List.map_append, List.map_cons, ← Multiset.coe_add, ← Multiset.cons_coe,
              ← Multiset.singleton_add]
            abel
          refine ⟨s.returned address rest (before ++ after), ?_, ⟨h.wellFormed, h.powered, h.busy,
            h.sees, h.timed, h.writeData, h.readData, ?_⟩, rfl, ?_, ?_⟩
          · rw [← haddress]
            rfl
          · rw [hsplit, hflight] at hpending
            exact add_left_cancel hpending
          · unfold readsAccepted
            rw [hsplit]
            change _ + _ + readAnswers (s.events ++ _) = _
            rw [readAnswers_append]
            have hanswer : readAnswers [(Event.readDone s.currentClockCycle address : Event cfg)] =
                {address} := rfl
            rw [hanswer]
            unfold returned
            dsimp only
            abel
          · unfold writesAccepted
            change _ + _ + writeAnswers (s.events ++ _) = _
            rw [writeAnswers_append]
            exact congrArg _ (add_zero _)

end MemorySystem

end SpikeSim.Dram
