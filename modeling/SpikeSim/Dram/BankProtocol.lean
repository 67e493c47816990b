/-
# The banks of the controller and of the ranks

The controller keeps a copy of every bank state and issues a command only if its copy allows
it.  `Sees` relates a copy to the bank of the rank, which gets the command one cycle later:
whatever the copy allows, the rank accepts, and they are related again afterwards.
-/

import SpikeSim.Dram.MemoryController

namespace SpikeSim.Dram

variable {cfg : Config}

/-- What the delays of a device must satisfy for the controller to keep up with its ranks. -/
structure Config.Sound (cfg : Config) : Prop where
  /-- A command reaches its rank in the next cycle, before the next command is issued. -/
  tCMD_eq : cfg.tCMD = 1
  burst : 2 ≤ cfg.BL
  latency : 2 ≤ cfg.RL
  AL_le : cfg.AL ≤ cfg.tRCD
  /-- A bank that precharges itself after a read is closed before it may be read again. -/
  autopre : cfg.readToPreDelay ≤ cfg.readAutopreDelay
  /-- A row that is opened behind a write is written after the data of that write. -/
  activateToWrite : cfg.BL / 2 ≤ cfg.tRCD - cfg.AL + 1
  queueDepth : cfg.cmdQueueDepth < 2 ^ 64

instance (cfg : Config) : Decidable cfg.Sound :=
  decidable_of_iff (cfg.tCMD = 1 ∧ 2 ≤ cfg.BL ∧ 2 ≤ cfg.RL ∧ cfg.AL ≤ cfg.tRCD ∧
      cfg.readToPreDelay ≤ cfg.readAutopreDelay ∧ cfg.BL / 2 ≤ cfg.tRCD - cfg.AL + 1 ∧
      cfg.cmdQueueDepth < 2 ^ 64)
    ⟨fun ⟨h1, h2, h3, h4, h5, h6, h7⟩ => ⟨h1, h2, h3, h4, h5, h6, h7⟩,
      fun ⟨h1, h2, h3, h4, h5, h6, h7⟩ => ⟨h1, h2, h3, h4, h5, h6, h7⟩⟩

namespace Config.Sound

variable (h : cfg.Sound)
include h

theorem burst_pos : 0 < cfg.BL / 2 := by
  have := h.burst
  omega

theorem readToPre_pos : 0 < cfg.readToPreDelay := by
  have := h.burst_pos
  have := le_max_right cfg.tRTP cfg.tCCD
  unfold readToPreDelay
  omega

theorem burst_le_autopre : cfg.BL / 2 ≤ cfg.tRTP + cfg.tRP := by
  have hautopre := h.autopre
  have := le_max_right cfg.tRTP cfg.tCCD
  unfold readToPreDelay readAutopreDelay at hautopre
  omega

end Config.Sound

/-! ## Related banks -/

/-- The row that is open in the copy is open in the rank. -/
structure OpenRow (mc rk : BankState) : Prop where
  settled : mc.stateChangeCountdown = 0
  active : rk.currentBankState = .rowActive
  row : rk.openRowAddress = mc.openRowAddress
  read : rk.nextRead ≤ mc.nextRead + 1
  write : rk.nextWrite ≤ mc.nextWrite + 1
  precharge : rk.nextPrecharge ≤ mc.nextPrecharge + 1

/-- The bank precharges itself; the copy follows when its countdown is over, and allows no
access until then. -/
structure ClosingRow (cfg : Config) (next : ℕ) (mc rk : BankState) : Prop where
  policy : cfg.rowBufferPolicy = .closePage
  command : mc.lastCommand = .readP ∨ mc.lastCommand = .writeP
  pending : 0 < mc.stateChangeCountdown
  idle : rk.currentBankState = .idle
  read : next + mc.stateChangeCountdown ≤ mc.nextRead + 1
  write : next + mc.stateChangeCountdown ≤ mc.nextWrite + 1

/-- The states of a copy and of the bank, before the cycle `next`. -/
def SeesState (cfg : Config) (next : ℕ) (mc rk : BankState) : Prop :=
  match mc.currentBankState with
  | .rowActive => OpenRow mc rk ∨ ClosingRow cfg next mc rk
  | .idle => rk.currentBankState = .idle ∧ mc.stateChangeCountdown = 0
  | .precharging => rk.currentBankState = .idle ∧ mc.lastCommand = .precharge
  | .refreshing => rk.currentBankState = .idle ∧ (0 < mc.stateChangeCountdown →
    mc.lastCommand = .refresh ∧ next + mc.stateChangeCountdown ≤ mc.nextActivate + 1)
  | .powerDown => rk.currentBankState = .powerDown ∧ rk.nextPowerUp = mc.nextPowerUp ∧
    mc.stateChangeCountdown = 0

structure Sees (cfg : Config) (next : ℕ) (mc rk : BankState) : Prop where
  activate : rk.nextActivate ≤ mc.nextActivate + 1
  state : SeesState cfg next mc rk

variable {now next : ℕ} {mc mc' rk rk' : BankState}

namespace Sees

theorem initial : Sees cfg 0 {} {} := ⟨Nat.zero_le _, rfl, rfl⟩

/-- What the copy shows as idle is idle. -/
theorem idle (h : Sees cfg next mc rk) (hstate : mc.currentBankState = .idle) :
    rk.currentBankState = .idle ∧ mc.stateChangeCountdown = 0 := by
  have hsees := h.state
  rw [SeesState, hstate] at hsees
  exact hsees

theorem powerDown (h : Sees cfg next mc rk) (hstate : mc.currentBankState = .powerDown) :
    rk.currentBankState = .powerDown ∧ rk.nextPowerUp = mc.nextPowerUp ∧
      mc.stateChangeCountdown = 0 := by
  have hsees := h.state
  rw [SeesState, hstate] at hsees
  exact hsees

/-- A row that may be accessed is open. -/
theorem openRow (h : Sees cfg (now + 1) mc rk) (hstate : mc.currentBankState = .rowActive)
    (hnow : mc.nextRead ≤ now ∨ mc.nextWrite ≤ now ∨ cfg.rowBufferPolicy = .openPage) :
    OpenRow mc rk := by
  have hsees := h.state
  rw [SeesState, hstate] at hsees
  rcases hsees with hopen | hclosing
  · exact hopen
  · have := hclosing.read
    have := hclosing.write
    have := hclosing.pending
    rcases hnow with hread | hwrite | hpolicy
    · omega
    · omega
    · rw [hclosing.policy] at hpolicy
      cases hpolicy

/-- A bank that is neither open nor without power is idle in the rank. -/
theorem closed (h : Sees cfg next mc rk) (hrow : mc.currentBankState ≠ .rowActive)
    (hpower : mc.currentBankState ≠ .powerDown) : rk.currentBankState = .idle := by
  have hsees := h.state
  unfold SeesState at hsees
  cases hstate : mc.currentBankState with
  | rowActive => exact absurd hstate hrow
  | powerDown => exact absurd hstate hpower
  | idle | precharging | refreshing =>
      all_goals
        rw [hstate] at hsees
        exact hsees.1

/-- A cycle of the copy. -/
theorem tick (h : Sees cfg next mc rk) :
    Sees cfg (next + 1) (MemoryController.tickBank cfg mc) rk := by
  by_cases hcount : 0 < mc.stateChangeCountdown
  · have hsees := h.state
    unfold SeesState at hsees
    unfold MemoryController.tickBank
    rw [if_pos hcount]
    dsimp only
    by_cases hlast : mc.stateChangeCountdown - 1 = 0
    · rw [if_pos hlast]
      cases hstate : mc.currentBankState with
      | rowActive =>
          rw [hstate] at hsees
          rcases hsees with hopen | hclosing
          · exact absurd hopen.settled hcount.ne'
          · rcases hclosing.command with hcommand | hcommand
            all_goals
              rw [hcommand]
              exact ⟨h.activate, hclosing.idle, rfl⟩
      | idle =>
          rw [hstate] at hsees
          exact absurd hsees.2 hcount.ne'
      | precharging =>
          rw [hstate] at hsees
          rw [hsees.2]
          exact ⟨h.activate, hsees.1, hlast⟩
      | refreshing =>
          rw [hstate] at hsees
          rw [(hsees.2 hcount).1]
          exact ⟨h.activate, hsees.1, hlast⟩
      | powerDown =>
          rw [hstate] at hsees
          exact absurd hsees.2.2 hcount.ne'
    · rw [if_neg hlast]
      refine ⟨h.activate, ?_⟩
      unfold SeesState
      dsimp only
      cases hstate : mc.currentBankState with
      | rowActive =>
          rw [hstate] at hsees
          rcases hsees with hopen | hclosing
          · exact absurd hopen.settled hcount.ne'
          · have := hclosing.read
            have := hclosing.write
            refine .inr ⟨hclosing.policy, hclosing.command, ?_, hclosing.idle, ?_, ?_⟩
            all_goals
              dsimp only
              omega
      | idle =>
          rw [hstate] at hsees
          exact absurd hsees.2 hcount.ne'
      | precharging =>
          rw [hstate] at hsees
          exact hsees
      | refreshing =>
          rw [hstate] at hsees
          have := (hsees.2 hcount).2
          exact ⟨hsees.1, fun _ => ⟨(hsees.2 hcount).1, by omega⟩⟩
      | powerDown =>
          rw [hstate] at hsees
          exact absurd hsees.2.2 hcount.ne'
  · have hzero : mc.stateChangeCountdown = 0 := Nat.eq_zero_of_not_pos hcount
    unfold MemoryController.tickBank
    rw [if_neg hcount]
    refine ⟨h.activate, ?_⟩
    have hsees := h.state
    unfold SeesState at hsees ⊢
    cases hstate : mc.currentBankState with
    | rowActive =>
        rw [hstate] at hsees
        rcases hsees with hopen | hclosing
        · exact .inl hopen
        · exact absurd hclosing.pending hcount
    | refreshing =>
        rw [hstate] at hsees
        exact ⟨hsees.1, fun hpos => absurd hpos hcount⟩
    | idle | precharging | powerDown =>
        all_goals
          rw [hstate] at hsees
          exact hsees

end Sees

/-- The delays of a copy and of its bank grow, and nothing else changes. -/
structure Held (mc mc' rk rk' : BankState) : Prop where
  state : mc'.currentBankState = mc.currentBankState ∧
    mc'.stateChangeCountdown = mc.stateChangeCountdown ∧ mc'.lastCommand = mc.lastCommand ∧
    mc'.openRowAddress = mc.openRowAddress ∧ mc'.nextPowerUp = mc.nextPowerUp
  bank : rk'.currentBankState = rk.currentBankState ∧ rk'.openRowAddress = rk.openRowAddress ∧
    rk'.nextPowerUp = rk.nextPowerUp
  read : mc.nextRead ≤ mc'.nextRead ∧ rk'.nextRead ≤ max rk.nextRead (mc'.nextRead + 1)
  write : mc.nextWrite ≤ mc'.nextWrite ∧ rk'.nextWrite ≤ max rk.nextWrite (mc'.nextWrite + 1)
  activate : mc.nextActivate ≤ mc'.nextActivate ∧
    rk'.nextActivate ≤ max rk.nextActivate (mc'.nextActivate + 1)
  precharge : mc.nextPrecharge ≤ mc'.nextPrecharge ∧
    rk'.nextPrecharge ≤ max rk.nextPrecharge (mc'.nextPrecharge + 1)

theorem Sees.held (h : Sees cfg next mc rk) (hheld : Held mc mc' rk rk') :
    Sees cfg next mc' rk' := by
  obtain ⟨hstate, hcount, hlast, hrow, hup⟩ := hheld.state
  obtain ⟨hstate', hrow', hup'⟩ := hheld.bank
  have hread := hheld.read
  have hwrite := hheld.write
  have hactivate := hheld.activate
  have hprecharge := hheld.precharge
  have hbefore := h.activate
  refine ⟨by omega, ?_⟩
  have hsees := h.state
  unfold SeesState at hsees ⊢
  rw [hstate]
  cases hcase : mc.currentBankState with
  | rowActive =>
      rw [hcase] at hsees
      rcases hsees with hopen | hclosing
      · have := hopen.read
        have := hopen.write
        have := hopen.precharge
        refine .inl ⟨hcount.trans hopen.settled, hstate'.trans hopen.active, ?_, ?_, ?_, ?_⟩
        · rw [hrow', hrow, hopen.row]
        · omega
        · omega
        · omega
      · have := hclosing.read
        have := hclosing.write
        refine .inr ⟨hclosing.policy, hlast ▸ hclosing.command, hcount ▸ hclosing.pending,
          hstate'.trans hclosing.idle, ?_, ?_⟩
        · omega
        · omega
  | idle =>
      rw [hcase] at hsees
      exact ⟨hstate'.trans hsees.1, hcount.trans hsees.2⟩
  | precharging =>
      rw [hcase] at hsees
      exact ⟨hstate'.trans hsees.1, hlast.trans hsees.2⟩
  | refreshing =>
      rw [hcase] at hsees
      refine ⟨hstate'.trans hsees.1, fun hpos => ?_⟩
      rw [hcount] at hpos ⊢
      have := hsees.2 hpos
      exact ⟨hlast.trans this.1, by omega⟩
  | powerDown =>
      rw [hcase] at hsees
      exact ⟨hstate'.trans hsees.1, by rw [hup', hup, hsees.2.1], hcount.trans hsees.2.2⟩

/-! ## Commands -/

/-- The copies of the controller allow the command. -/
def Allowed (now : ℕ) (banks : Banks cfg) (packet : BusPacket cfg) : Prop :=
  let bank := banks packet.rank packet.bank
  match packet.busPacketType with
  | .read => cfg.rowBufferPolicy = .openPage ∧ bank.currentBankState = .rowActive ∧
    bank.nextRead ≤ now ∧ packet.row = bank.openRowAddress
  | .readP => cfg.rowBufferPolicy = .closePage ∧ bank.currentBankState = .rowActive ∧
    bank.nextRead ≤ now ∧ packet.row = bank.openRowAddress
  | .write => cfg.rowBufferPolicy = .openPage ∧ bank.currentBankState = .rowActive ∧
    bank.nextWrite ≤ now ∧ packet.row = bank.openRowAddress
  | .writeP => cfg.rowBufferPolicy = .closePage ∧ bank.currentBankState = .rowActive ∧
    bank.nextWrite ≤ now ∧ packet.row = bank.openRowAddress
  | .activate => (bank.currentBankState = .idle ∨ bank.currentBankState = .refreshing) ∧
    bank.nextActivate ≤ now
  | .precharge => cfg.rowBufferPolicy = .openPage ∧ bank.currentBankState = .rowActive ∧
    bank.nextPrecharge ≤ now
  | .refresh => ∀ j, (banks packet.rank j).currentBankState ≠ .rowActive ∧
    (banks packet.rank j).currentBankState ≠ .powerDown ∧ (banks packet.rank j).nextActivate ≤ now
  | .data => False

@[simp]
theorem updateAt_apply {α : Type} (rank i : Fin cfg.numRanks) (bank j : Fin cfg.numBanks)
    (f : α → α) (table : Fin cfg.numRanks → Fin cfg.numBanks → α) :
    updateAt rank bank f table i j = if i = rank ∧ j = bank then f (table i j) else table i j := by
  unfold updateAt
  by_cases hi : i = rank
  · subst hi
    rw [Function.update_self]
    by_cases hj : j = bank
    · subst hj
      simp
    · simp [hj]
  · simp [hi]

@[simp]
theorem Rank.updateBank_apply (bank j : Fin cfg.numBanks) (f : BankState → BankState)
    (banks : Fin cfg.numBanks → BankState) :
    Rank.updateBank bank f banks j = if j = bank then f (banks j) else banks j := by
  unfold Rank.updateBank
  by_cases hj : j = bank
  · subst hj
    simp
  · simp [hj]

/-! ## What a command does to a bank -/

theorem held_afterRead (cfg : Config) (now : ℕ) (mc rk : BankState) :
    Held mc (MemoryController.holdAfterRead cfg now true mc) rk
      (Rank.holdAfterRead cfg (now + 1) rk) := by
  rw [MemoryController.holdAfterRead, if_pos rfl, Rank.holdAfterRead]
  exact {
    state := ⟨rfl, rfl, rfl, rfl, rfl⟩
    bank := ⟨rfl, rfl, rfl⟩
    read := ⟨le_max_right _ _, by dsimp only; omega⟩
    write := ⟨le_max_right _ _, by dsimp only; omega⟩
    activate := ⟨le_rfl, le_max_left _ _⟩
    precharge := ⟨le_rfl, le_max_left _ _⟩ }

theorem held_afterWrite (cfg : Config) (now : ℕ) (mc rk : BankState) :
    Held mc (MemoryController.holdAfterWrite cfg now true mc) rk
      (Rank.holdAfterWrite cfg (now + 1) rk) := by
  rw [MemoryController.holdAfterWrite, if_pos rfl, Rank.holdAfterWrite]
  exact {
    state := ⟨rfl, rfl, rfl, rfl, rfl⟩
    bank := ⟨rfl, rfl, rfl⟩
    read := ⟨le_max_right _ _, by dsimp only; omega⟩
    write := ⟨le_max_right _ _, by dsimp only; omega⟩
    activate := ⟨le_rfl, le_max_left _ _⟩
    precharge := ⟨le_rfl, le_max_left _ _⟩ }

/-- The copies of another rank can only be held for longer. -/
structure Prolonged (mc mc' : BankState) : Prop where
  state : mc'.currentBankState = mc.currentBankState ∧
    mc'.stateChangeCountdown = mc.stateChangeCountdown ∧ mc'.lastCommand = mc.lastCommand ∧
    mc'.openRowAddress = mc.openRowAddress ∧ mc'.nextPowerUp = mc.nextPowerUp
  read : mc.nextRead ≤ mc'.nextRead
  write : mc.nextWrite ≤ mc'.nextWrite
  activate : mc.nextActivate ≤ mc'.nextActivate
  precharge : mc.nextPrecharge ≤ mc'.nextPrecharge

theorem Prolonged.refl (mc : BankState) : Prolonged mc mc :=
  ⟨⟨rfl, rfl, rfl, rfl, rfl⟩, le_rfl, le_rfl, le_rfl, le_rfl⟩

theorem Prolonged.held (h : Prolonged mc mc') (rk : BankState) : Held mc mc' rk rk :=
  ⟨h.state, ⟨rfl, rfl, rfl⟩, ⟨h.read, le_max_left _ _⟩, ⟨h.write, le_max_left _ _⟩,
    ⟨h.activate, le_max_left _ _⟩, ⟨h.precharge, le_max_left _ _⟩⟩

theorem prolonged_afterRead (cfg : Config) (now : ℕ) (sameRank : Bool) (mc : BankState) :
    Prolonged mc (MemoryController.holdAfterRead cfg now sameRank mc) := by
  unfold MemoryController.holdAfterRead
  split
  · exact ⟨⟨rfl, rfl, rfl, rfl, rfl⟩, le_max_right _ _, le_max_right _ _, le_rfl, le_rfl⟩
  · split
    · exact ⟨⟨rfl, rfl, rfl, rfl, rfl⟩, le_max_right _ _, le_max_right _ _, le_rfl, le_rfl⟩
    · exact .refl mc

theorem prolonged_afterWrite (cfg : Config) (now : ℕ) (sameRank : Bool) (mc : BankState) :
    Prolonged mc (MemoryController.holdAfterWrite cfg now sameRank mc) := by
  unfold MemoryController.holdAfterWrite
  split
  · exact ⟨⟨rfl, rfl, rfl, rfl, rfl⟩, le_max_right _ _, le_max_right _ _, le_rfl, le_rfl⟩
  · split
    · exact ⟨⟨rfl, rfl, rfl, rfl, rfl⟩, le_max_right _ _, le_max_right _ _, le_rfl, le_rfl⟩
    · exact .refl mc

section Issue

variable {packet : BusPacket cfg} {banks : Banks cfg} {rank : Rank cfg}

/-- A command changes the other ranks' copies only by holding them for longer. -/
theorem prolonged_afterCommand {i : Fin cfg.numRanks} (hi : i ≠ packet.rank)
    (j : Fin cfg.numBanks) :
    Prolonged (banks i j) (MemoryController.afterCommand now packet banks i j) := by
  unfold MemoryController.afterCommand
  cases packet.busPacketType with
  | read | readP =>
      all_goals
        simp only [updateAt_apply, hi, false_and, if_false]
        exact prolonged_afterRead cfg now _ _
  | write | writeP =>
      all_goals
        simp only [updateAt_apply, hi, false_and, if_false]
        exact prolonged_afterWrite cfg now _ _
  | activate | precharge | refresh =>
      all_goals
        simp only [updateAt_apply, hi, false_and, if_false]
        exact .refl _
  | data => exact .refl _

/-- A read of an open row, or a read that closes it. -/
theorem issue_read (hsound : cfg.Sound) (hallowed : Allowed now banks packet)
    (hsees : ∀ j, Sees cfg (now + 1) (banks packet.rank j) (rank.bankStates j))
    (htype : packet.busPacketType = .read ∨ packet.busPacketType = .readP) :
    ∃ rank', rank.receiveFromBus (now + 1) packet = .ok rank' ∧
      ∀ j, Sees cfg (now + 1) (MemoryController.afterCommand now packet banks packet.rank j)
        (rank'.bankStates j) := by
  have hown := hsees packet.bank
  have hactivate := hown.activate
  unfold Allowed at hallowed
  unfold Rank.receiveFromBus MemoryController.afterCommand
  rcases htype with htype | htype
  · rw [htype] at hallowed ⊢
    obtain ⟨-, hstate, hnow, hrow⟩ := hallowed
    have hopen := hown.openRow hstate (.inl hnow)
    have hread := hopen.read
    have hwrite := hopen.write
    have hprecharge := hopen.precharge
    dsimp only
    rw [if_neg (by
      rw [hopen.active, hopen.row, ← hrow]
      simp only [ne_eq, not_true_eq_false, or_false, false_or, not_lt]
      omega)]
    refine ⟨_, rfl, fun j => ?_⟩
    have hheld := held_afterRead cfg now
    simp only [updateAt_apply, Rank.updateBank_apply, Rank.returnLater, true_and, decide_true]
    by_cases hj : j = packet.bank
    · subst hj
      rw [if_pos rfl, if_pos rfl]
      have hbank : Sees cfg (now + 1)
          { banks packet.rank packet.bank with
            nextPrecharge := max (now + cfg.readToPreDelay)
              (banks packet.rank packet.bank).nextPrecharge
            lastCommand := .read }
          { rank.bankStates packet.bank with
            nextPrecharge := max (rank.bankStates packet.bank).nextPrecharge
              (now + 1 + cfg.readToPreDelay) } := by
        refine ⟨hactivate, ?_⟩
        unfold SeesState
        dsimp only
        rw [hstate]
        exact .inl ⟨hopen.settled, hopen.active, hopen.row, hread, hwrite, by dsimp only; omega⟩
      exact hbank.held (hheld _ _)
    · rw [if_neg hj, if_neg hj]
      exact (hsees j).held (hheld _ _)
  · rw [htype] at hallowed ⊢
    obtain ⟨hpolicy, hstate, hnow, hrow⟩ := hallowed
    have hopen := hown.openRow hstate (.inl hnow)
    have hread := hopen.read
    dsimp only
    rw [if_neg (by
      rw [hopen.active, hopen.row, ← hrow]
      simp only [ne_eq, not_true_eq_false, or_false, false_or, not_lt]
      omega)]
    refine ⟨_, rfl, fun j => ?_⟩
    have hheld := held_afterRead cfg now
    simp only [updateAt_apply, Rank.updateBank_apply, Rank.returnLater, true_and, decide_true]
    by_cases hj : j = packet.bank
    · subst hj
      rw [if_pos rfl, if_pos rfl, if_pos rfl]
      have hpos := hsound.readToPre_pos
      have hautopre := hsound.autopre
      rw [MemoryController.holdAfterRead, if_pos rfl]
      unfold MemoryController.holdUntilActivate Rank.holdAfterRead
      refine ⟨by dsimp only; omega, ?_⟩
      unfold SeesState
      dsimp only
      rw [hstate]
      refine .inr ⟨hpolicy, .inl rfl, hpos, rfl, ?_, ?_⟩
      all_goals
        dsimp only
        omega
    · rw [if_neg hj, if_neg hj, if_neg hj]
      exact (hsees j).held (hheld _ _)

theorem issue_write (hsound : cfg.Sound) (hallowed : Allowed now banks packet)
    (hsees : ∀ j, Sees cfg (now + 1) (banks packet.rank j) (rank.bankStates j))
    (htype : packet.busPacketType = .write ∨ packet.busPacketType = .writeP) :
    ∃ rank', rank.receiveFromBus (now + 1) packet = .ok rank' ∧
      ∀ j, Sees cfg (now + 1) (MemoryController.afterCommand now packet banks packet.rank j)
        (rank'.bankStates j) := by
  have hown := hsees packet.bank
  have hactivate := hown.activate
  unfold Allowed at hallowed
  unfold Rank.receiveFromBus MemoryController.afterCommand
  rcases htype with htype | htype
  · rw [htype] at hallowed ⊢
    obtain ⟨-, hstate, hnow, hrow⟩ := hallowed
    have hopen := hown.openRow hstate (.inr (.inl hnow))
    have hread := hopen.read
    have hwrite := hopen.write
    have hprecharge := hopen.precharge
    dsimp only
    rw [if_neg (by
      rw [hopen.active, hopen.row, ← hrow]
      simp only [ne_eq, not_true_eq_false, or_false, false_or, not_lt]
      omega)]
    refine ⟨_, rfl, fun j => ?_⟩
    have hheld := held_afterWrite cfg now
    simp only [updateAt_apply, Rank.updateBank_apply, true_and, decide_true]
    by_cases hj : j = packet.bank
    · subst hj
      rw [if_pos rfl, if_pos rfl]
      have hbank : Sees cfg (now + 1)
          { banks packet.rank packet.bank with
            nextPrecharge := max (now + cfg.writeToPreDelay)
              (banks packet.rank packet.bank).nextPrecharge
            lastCommand := .write }
          { rank.bankStates packet.bank with
            nextPrecharge := max (rank.bankStates packet.bank).nextPrecharge
              (now + 1 + cfg.writeToPreDelay) } := by
        refine ⟨hactivate, ?_⟩
        unfold SeesState
        dsimp only
        rw [hstate]
        exact .inl ⟨hopen.settled, hopen.active, hopen.row, hread, hwrite, by dsimp only; omega⟩
      exact hbank.held (hheld _ _)
    · rw [if_neg hj, if_neg hj]
      exact (hsees j).held (hheld _ _)
  · rw [htype] at hallowed ⊢
    obtain ⟨hpolicy, hstate, hnow, hrow⟩ := hallowed
    have hopen := hown.openRow hstate (.inr (.inl hnow))
    have hwrite := hopen.write
    dsimp only
    rw [if_neg (by
      rw [hopen.active, hopen.row, ← hrow]
      simp only [ne_eq, not_true_eq_false, or_false, false_or, not_lt]
      omega)]
    refine ⟨_, rfl, fun j => ?_⟩
    have hheld := held_afterWrite cfg now
    simp only [updateAt_apply, Rank.updateBank_apply, true_and, decide_true]
    by_cases hj : j = packet.bank
    · subst hj
      rw [if_pos rfl, if_pos rfl, if_pos rfl]
      have hpos := hsound.burst_pos
      have hautopre : cfg.writeAutopreDelay = cfg.writeToPreDelay + cfg.tRP := rfl
      have hpre : 0 < cfg.writeToPreDelay := by
        unfold Config.writeToPreDelay
        omega
      rw [MemoryController.holdAfterWrite, if_pos rfl]
      unfold MemoryController.holdUntilActivate Rank.holdAfterWrite
      refine ⟨by dsimp only; omega, ?_⟩
      unfold SeesState
      dsimp only
      rw [hstate]
      refine .inr ⟨hpolicy, .inr rfl, hpre, rfl, ?_, ?_⟩
      all_goals
        dsimp only
        omega
    · rw [if_neg hj, if_neg hj, if_neg hj]
      exact (hsees j).held (hheld _ _)

theorem issue_activate (hallowed : Allowed now banks packet)
    (hsees : ∀ j, Sees cfg (now + 1) (banks packet.rank j) (rank.bankStates j))
    (htype : packet.busPacketType = .activate) :
    ∃ rank', rank.receiveFromBus (now + 1) packet = .ok rank' ∧
      ∀ j, Sees cfg (now + 1) (MemoryController.afterCommand now packet banks packet.rank j)
        (rank'.bankStates j) := by
  have hown := hsees packet.bank
  have hactivate := hown.activate
  unfold Allowed at hallowed
  unfold Rank.receiveFromBus MemoryController.afterCommand
  rw [htype] at hallowed ⊢
  obtain ⟨hstate, hnow⟩ := hallowed
  have hrest : (rank.bankStates packet.bank).currentBankState = .idle ∧
      (banks packet.rank packet.bank).stateChangeCountdown = 0 := by
    rcases hstate with hidle | hrefreshing
    · exact hown.idle hidle
    · have hseen := hown.state
      rw [SeesState, hrefreshing] at hseen
      refine ⟨hseen.1, Nat.eq_zero_of_not_pos fun hpos => ?_⟩
      have := (hseen.2 hpos).2
      omega
  dsimp only
  rw [if_neg (by
    rw [hrest.1]
    simp only [ne_eq, not_true_eq_false, false_or, not_lt]
    omega)]
  refine ⟨_, rfl, fun j => ?_⟩
  simp only [updateAt_apply, Rank.updateBank_apply, true_and]
  by_cases hj : j = packet.bank
  · subst hj
    simp only [ne_eq, not_true_eq_false, if_false, if_true]
    refine ⟨by dsimp only; omega, .inl ⟨hrest.2, rfl, rfl, ?_, ?_, ?_⟩⟩
    all_goals
      dsimp only
      omega
  · simp only [ne_eq, hj, not_false_eq_true, if_false, if_true]
    apply (hsees j).held
    exact {
      state := ⟨rfl, rfl, rfl, rfl, rfl⟩
      bank := ⟨rfl, rfl, rfl⟩
      read := ⟨le_rfl, le_max_left _ _⟩
      write := ⟨le_rfl, le_max_left _ _⟩
      activate := ⟨le_max_right _ _, by dsimp only; omega⟩
      precharge := ⟨le_rfl, le_max_left _ _⟩ }

theorem issue_precharge (hallowed : Allowed now banks packet)
    (hsees : ∀ j, Sees cfg (now + 1) (banks packet.rank j) (rank.bankStates j))
    (htype : packet.busPacketType = .precharge) :
    ∃ rank', rank.receiveFromBus (now + 1) packet = .ok rank' ∧
      ∀ j, Sees cfg (now + 1) (MemoryController.afterCommand now packet banks packet.rank j)
        (rank'.bankStates j) := by
  have hown := hsees packet.bank
  have hactivate := hown.activate
  unfold Allowed at hallowed
  unfold Rank.receiveFromBus MemoryController.afterCommand
  rw [htype] at hallowed ⊢
  obtain ⟨hpolicy, hstate, hnow⟩ := hallowed
  have hopen := hown.openRow hstate (.inr (.inr hpolicy))
  have hprecharge := hopen.precharge
  dsimp only
  rw [if_neg (by
    rw [hopen.active]
    simp only [ne_eq, not_true_eq_false, false_or, not_lt]
    omega)]
  refine ⟨_, rfl, fun j => ?_⟩
  simp only [updateAt_apply, Rank.updateBank_apply, true_and]
  by_cases hj : j = packet.bank
  · subst hj
    rw [if_pos rfl, if_pos rfl]
    exact ⟨by dsimp only; omega, rfl, rfl⟩
  · rw [if_neg hj, if_neg hj]
    exact hsees j

theorem issue_refresh (hallowed : Allowed now banks packet)
    (hsees : ∀ j, Sees cfg (now + 1) (banks packet.rank j) (rank.bankStates j))
    (htype : packet.busPacketType = .refresh) :
    ∃ rank', rank.receiveFromBus (now + 1) packet = .ok rank' ∧
      ∀ j, Sees cfg (now + 1) (MemoryController.afterCommand now packet banks packet.rank j)
        (rank'.bankStates j) := by
  unfold Allowed at hallowed
  unfold Rank.receiveFromBus MemoryController.afterCommand
  rw [htype] at hallowed ⊢
  have hidle (j : Fin cfg.numBanks) : (rank.bankStates j).currentBankState = .idle :=
    (hsees j).closed (hallowed j).1 (hallowed j).2.1
  dsimp only
  rw [if_neg (by simp [hidle])]
  refine ⟨_, rfl, fun j => ?_⟩
  rw [if_pos rfl]
  refine ⟨by dsimp only; omega, hidle j, fun _ => ⟨rfl, ?_⟩⟩
  dsimp only
  omega

/-- **What the copies allow, the rank accepts** in the next cycle, and the copies of its banks
are right again. -/
theorem issue_sees (hsound : cfg.Sound) (hallowed : Allowed now banks packet)
    (hsees : ∀ j, Sees cfg (now + 1) (banks packet.rank j) (rank.bankStates j)) :
    ∃ rank', rank.receiveFromBus (now + 1) packet = .ok rank' ∧
      ∀ j, Sees cfg (now + 1) (MemoryController.afterCommand now packet banks packet.rank j)
        (rank'.bankStates j) := by
  cases htype : packet.busPacketType with
  | read => exact issue_read hsound hallowed hsees (.inl htype)
  | readP => exact issue_read hsound hallowed hsees (.inr htype)
  | write => exact issue_write hsound hallowed hsees (.inl htype)
  | writeP => exact issue_write hsound hallowed hsees (.inr htype)
  | activate => exact issue_activate hallowed hsees htype
  | precharge => exact issue_precharge hallowed hsees htype
  | refresh => exact issue_refresh hallowed hsees htype
  | data =>
      unfold Allowed at hallowed
      rw [htype] at hallowed
      exact hallowed.elim

end Issue

end SpikeSim.Dram
