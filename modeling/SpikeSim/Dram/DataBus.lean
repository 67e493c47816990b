/-
# The data buses

The data of the writes and the data that each rank returns are delay lines.  The delays that a
column access imposes on the copies of the banks keep the lines apart, so that no two bursts
meet on a bus.
-/

import SpikeSim.Lib.DelayLine
import SpikeSim.Dram.Popped

namespace SpikeSim.Dram

open DelayLine

variable {cfg : Config}

/-! ## The lines -/

/-- The write data of the controller. -/
def MemoryController.writeLine (c : MemoryController cfg) : DelayLine (BusPacket cfg) :=
  ⟨c.writeDataToSend, c.outgoingDataPacket, c.dataCyclesLeft⟩

/-- The read data of a rank. -/
def Rank.readLine (rank : Rank cfg) : DelayLine (BusPacket cfg) :=
  ⟨rank.readReturn, rank.outgoingDataPacket, rank.dataCyclesLeft⟩

def BusPacketType.IsRead : BusPacketType → Bool
  | .read | .readP => true
  | _ => false

def BusPacketType.IsWrite : BusPacketType → Bool
  | .write | .writeP => true
  | _ => false

/-- The packet that carries the data of an access. -/
def BusPacket.asData (packet : BusPacket cfg) : BusPacket cfg :=
  { packet with busPacketType := .data }

/-- The line of a rank with the data of a command that is for a read of it. -/
def expect (packet : BusPacket cfg) (delay : ℕ) (rank : Fin cfg.numRanks)
    (line : DelayLine (BusPacket cfg)) : DelayLine (BusPacket cfg) :=
  if packet.busPacketType.IsRead ∧ packet.rank = rank then line.push packet.asData delay else line

/-- The write line with the data of a command that is a write. -/
def expectWrite (cfg : Config) (packet : BusPacket cfg) (line : DelayLine (BusPacket cfg)) :
    DelayLine (BusPacket cfg) :=
  if packet.busPacketType.IsWrite then line.push packet.asData cfg.WL else line

/-- **A cycle of a rank** is one of its line. -/
theorem Rank.update_eq {longest : ℕ} (rank : Rank cfg)
    (h : Spaced (cfg.BL / 2) longest rank.readLine) :
    rank.update.1 = (rank.readLine.step (cfg.BL / 2)).1 ∧
      rank.update.2.readLine = (rank.readLine.step (cfg.BL / 2)).2 ∧
      rank.update.2.bankStates = rank.bankStates ∧
      rank.update.2.isPowerDown = rank.isPowerDown ∧
      rank.update.2.refreshWaiting = rank.refreshWaiting := by
  obtain ⟨isPowerDown, refreshWaiting, outgoing, left, waiting, banks⟩ := rank
  have hcount : waiting.map (fun entry => (entry.1, decrement entry.2)) =
      waiting.map fun entry => (entry.1, entry.2 - 1) :=
    List.map_congr_left fun entry hentry => by rw [decrement_of_pos (h.waits entry hentry).1]
  unfold Rank.update step send count launch
  cases outgoing with
  | none =>
      dsimp only [readLine]
      rw [hcount]
      cases waiting with
      | nil => exact ⟨rfl, rfl, rfl, rfl, rfl⟩
      | cons entry rest =>
          by_cases hready : entry.2 - 1 = 0 <;> simp [hready]
  | some packet =>
      dsimp only [readLine]
      rw [decrement_of_pos (show 0 < left from (h.sending rfl).1)]
      by_cases hleft : left - 1 = 0
      · rw [if_pos hleft]
        dsimp only
        rw [hcount]
        cases waiting with
        | nil => simp [hleft]
        | cons entry rest =>
            by_cases hready : entry.2 - 1 = 0 <;> simp [hready, hleft]
      · rw [if_neg hleft]
        dsimp only
        rw [hcount]
        cases waiting with
        | nil => simp [hleft]
        | cons entry rest =>
            by_cases hready : entry.2 - 1 = 0 <;> simp [hready, hleft]

/-! ## Lines that are kept apart -/

/-- Before the cycle `next`, the lines are spaced, and a copy that allows an access leaves room
for its data. -/
structure Timed (next longestWrite longestRead : ℕ) (banks : Banks cfg)
    (writes : DelayLine (BusPacket cfg))
    (reads : Fin cfg.numRanks → DelayLine (BusPacket cfg)) : Prop where
  writesSpaced : Spaced (cfg.BL / 2) longestWrite writes
  writesClear : ∀ i j, (banks i j).currentBankState = .rowActive →
    Clear (cfg.BL / 2) next ((banks i j).nextWrite + cfg.WL + 1) writes
  readsSpaced : ∀ i, Spaced (cfg.BL / 2) longestRead (reads i)
  readsClear : ∀ i j, Clear (cfg.BL / 2) next ((banks i j).nextRead + cfg.RL + 2) (reads i)

variable {now next longestWrite longestRead : ℕ} {banks banks' : Banks cfg}
  {writes : DelayLine (BusPacket cfg)} {reads : Fin cfg.numRanks → DelayLine (BusPacket cfg)}
  {packet : BusPacket cfg}

theorem tickBank_delays (cfg : Config) (b : BankState) :
    (MemoryController.tickBank cfg b).nextRead = b.nextRead ∧
      (MemoryController.tickBank cfg b).nextWrite = b.nextWrite ∧
      ((MemoryController.tickBank cfg b).currentBankState = .rowActive →
        b.currentBankState = .rowActive) := by
  unfold MemoryController.tickBank
  split
  · dsimp only
    split
    · cases b.lastCommand <;> simp
    · exact ⟨rfl, rfl, id⟩
  · exact ⟨rfl, rfl, id⟩

/-- A cycle of the lines and of the copies. -/
theorem Timed.step (hsound : cfg.Sound)
    (h : Timed next (longestWrite + 1) (longestRead + 1) banks writes reads) :
    Timed (next + 1) longestWrite longestRead
      (fun i j => MemoryController.tickBank cfg (banks i j)) (writes.step (cfg.BL / 2)).2
      fun i => ((reads i).step (cfg.BL / 2)).2 where
  writesSpaced := h.writesSpaced.step hsound.burst_pos
  writesClear i j hactive := by
    obtain ⟨-, hwrite, hbefore⟩ := tickBank_delays cfg (banks i j)
    rw [hwrite]
    exact (h.writesClear i j (hbefore hactive)).step h.writesSpaced
  readsSpaced i := (h.readsSpaced i).step hsound.burst_pos
  readsClear i j := by
    rw [(tickBank_delays cfg (banks i j)).1]
    exact (h.readsClear i j).step (h.readsSpaced i)

/-- Copies that are held for longer, or that leave the open state, leave room as before. -/
theorem Timed.of_banks (h : Timed next longestWrite longestRead banks writes reads)
    (hread : ∀ i j, (banks i j).nextRead ≤ (banks' i j).nextRead)
    (hwrite : ∀ i j, (banks' i j).currentBankState = .rowActive →
      (banks i j).currentBankState = .rowActive ∧ (banks i j).nextWrite ≤ (banks' i j).nextWrite) :
    Timed next longestWrite longestRead banks' writes reads where
  writesSpaced := h.writesSpaced
  writesClear i j hactive := by
    obtain ⟨hbefore, hle⟩ := hwrite i j hactive
    exact (h.writesClear i j hbefore).mono (by omega)
  readsSpaced := h.readsSpaced
  readsClear i j := (h.readsClear i j).mono (by have := hread i j; omega)

theorem Timed.longer (h : Timed next longestWrite longestRead banks writes reads)
    {longestWrite' longestRead' : ℕ} (hwrite : longestWrite ≤ longestWrite')
    (hread : longestRead ≤ longestRead') :
    Timed next longestWrite' longestRead' banks writes reads :=
  ⟨h.writesSpaced.mono hwrite, h.writesClear, fun i => (h.readsSpaced i).mono hread, h.readsClear⟩

/-! ## The delays of a command -/

section Delays

variable (now) (hsound : cfg.Sound) (packet : BusPacket cfg) (banks : Banks cfg)
include hsound

/-- The copy of a bank that a read or a write closes by itself. -/
theorem nextActivate_afterCommand (hclose : packet.busPacketType = .readP ∨
    packet.busPacketType = .writeP) :
    now + cfg.BL / 2 ≤
        (MemoryController.afterCommand now packet banks packet.rank packet.bank).nextRead ∧
      now + cfg.BL / 2 ≤
        (MemoryController.afterCommand now packet banks packet.rank packet.bank).nextWrite := by
  have hautopre := hsound.burst_le_autopre
  unfold MemoryController.afterCommand
  rcases hclose with hclose | hclose
  · rw [hclose]
    have hdelay : cfg.readAutopreDelay = cfg.AL + cfg.tRTP + cfg.tRP := rfl
    simp only [updateAt_apply, MemoryController.holdUntilActivate, and_self, if_true,
      MemoryController.holdAfterRead, decide_true]
    omega
  · rw [hclose]
    have hdelay : cfg.writeAutopreDelay = cfg.WL + cfg.BL / 2 + cfg.tWR + cfg.tRP := rfl
    simp only [updateAt_apply, MemoryController.holdUntilActivate, and_self, if_true,
      MemoryController.holdAfterWrite, decide_true]
    omega

/-- After a command a bank may be read no earlier than before, or only a burst later; after a
read this is so for all banks of its rank. -/
theorem nextRead_afterCommand (i : Fin cfg.numRanks) (j : Fin cfg.numBanks) :
    ((banks i j).nextRead ≤ (MemoryController.afterCommand now packet banks i j).nextRead ∨
        now + cfg.BL / 2 ≤ (MemoryController.afterCommand now packet banks i j).nextRead) ∧
      (packet.busPacketType.IsRead = true → packet.rank = i →
        now + cfg.BL / 2 ≤ (MemoryController.afterCommand now packet banks i j).nextRead) := by
  by_cases hown : (packet.busPacketType = .readP ∨ packet.busPacketType = .writeP) ∧
      i = packet.rank ∧ j = packet.bank
  · obtain ⟨hclose, rfl, rfl⟩ := hown
    have hread := (nextActivate_afterCommand now hsound packet banks hclose).1
    exact ⟨.inr hread, fun _ _ => hread⟩
  · by_cases hi : i = packet.rank
    · subst hi
      unfold MemoryController.afterCommand at *
      cases htype : packet.busPacketType with
      | read =>
          simp only [updateAt_apply, true_and, decide_true, MemoryController.holdAfterRead,
            if_true]
          split <;> exact ⟨.inl (le_max_right _ _), fun _ _ => by omega⟩
      | readP =>
          have hj : ¬ j = packet.bank := fun hj => hown ⟨.inl htype, rfl, hj⟩
          simp only [updateAt_apply, true_and, decide_true, MemoryController.holdAfterRead,
            if_true, hj, if_false]
          exact ⟨.inl (le_max_right _ _), fun _ _ => by omega⟩
      | write =>
          simp only [updateAt_apply, true_and, decide_true, MemoryController.holdAfterWrite,
            if_true]
          split <;> exact ⟨.inl (le_max_right _ _), by simp [BusPacketType.IsRead]⟩
      | writeP =>
          have hj : ¬ j = packet.bank := fun hj => hown ⟨.inr htype, rfl, hj⟩
          simp only [updateAt_apply, true_and, decide_true, MemoryController.holdAfterWrite,
            if_true, hj, if_false]
          exact ⟨.inl (le_max_right _ _), by simp [BusPacketType.IsRead]⟩
      | activate =>
          by_cases hj : j = packet.bank
          · simp [updateAt_apply, hj, BusPacketType.IsRead]
          · simp [updateAt_apply, hj, BusPacketType.IsRead]
      | precharge | refresh =>
          all_goals
            simp only [updateAt_apply, true_and]
            split <;> exact ⟨.inl le_rfl, by simp [BusPacketType.IsRead]⟩
      | data => exact ⟨.inl le_rfl, by simp [BusPacketType.IsRead]⟩
    · exact ⟨.inl (prolonged_afterCommand hi j).read, fun _ hsame => absurd hsame.symm hi⟩

/-- The same for the writes of the banks that are open after the command. -/
theorem nextWrite_afterCommand (i : Fin cfg.numRanks) (j : Fin cfg.numBanks)
    (hactive : (MemoryController.afterCommand now packet banks i j).currentBankState =
      .rowActive) :
    ((banks i j).currentBankState = .rowActive ∧
          (banks i j).nextWrite ≤ (MemoryController.afterCommand now packet banks i j).nextWrite ∨
        now + cfg.BL / 2 ≤
          (MemoryController.afterCommand now packet banks i j).nextWrite + 1) ∧
      (packet.busPacketType.IsWrite = true →
        now + cfg.BL / 2 ≤ (MemoryController.afterCommand now packet banks i j).nextWrite) := by
  by_cases hown : (packet.busPacketType = .readP ∨ packet.busPacketType = .writeP) ∧
      i = packet.rank ∧ j = packet.bank
  · obtain ⟨hclose, rfl, rfl⟩ := hown
    have hwrite := (nextActivate_afterCommand now hsound packet banks hclose).2
    exact ⟨.inr (hwrite.trans (Nat.le_succ _)), fun _ => hwrite⟩
  · by_cases hi : i = packet.rank
    · subst hi
      unfold MemoryController.afterCommand at *
      cases htype : packet.busPacketType with
      | read =>
          rw [htype] at hactive
          simp only [updateAt_apply, true_and, decide_true, MemoryController.holdAfterRead,
            if_true] at hactive ⊢
          split at hactive
          all_goals
            rename_i hj
            simp only [hj, if_true, if_false] at hactive ⊢
            exact ⟨.inl ⟨hactive, le_max_right _ _⟩, by simp [BusPacketType.IsWrite]⟩
      | readP =>
          have hj : ¬ j = packet.bank := fun hj => hown ⟨.inl htype, rfl, hj⟩
          rw [htype] at hactive
          simp only [updateAt_apply, true_and, decide_true, MemoryController.holdAfterRead,
            if_true, hj, if_false] at hactive ⊢
          exact ⟨.inl ⟨hactive, le_max_right _ _⟩, by simp [BusPacketType.IsWrite]⟩
      | write =>
          rw [htype] at hactive
          simp only [updateAt_apply, true_and, decide_true, MemoryController.holdAfterWrite,
            if_true] at hactive ⊢
          split at hactive
          all_goals
            rename_i hj
            simp only [hj, if_true, if_false] at hactive ⊢
            exact ⟨.inl ⟨hactive, le_max_right _ _⟩, fun _ => by omega⟩
      | writeP =>
          have hj : ¬ j = packet.bank := fun hj => hown ⟨.inr htype, rfl, hj⟩
          rw [htype] at hactive
          simp only [updateAt_apply, true_and, decide_true, MemoryController.holdAfterWrite,
            if_true, hj, if_false] at hactive ⊢
          exact ⟨.inl ⟨hactive, le_max_right _ _⟩, fun _ => by omega⟩
      | activate =>
          rw [htype] at hactive
          have hopen := hsound.activateToWrite
          by_cases hj : j = packet.bank
          · simp only [updateAt_apply, hj, BusPacketType.IsWrite, and_self, if_true, ne_eq,
              not_true_eq_false, and_false, if_false]
            exact ⟨.inr (by omega), by simp⟩
          · simp only [updateAt_apply, hj, and_false, if_false, ne_eq, not_false_eq_true,
              and_self, if_true] at hactive
            simp [updateAt_apply, hj, BusPacketType.IsWrite, hactive]
      | precharge =>
          rw [htype] at hactive
          by_cases hj : j = packet.bank
          · simp [updateAt_apply, hj] at hactive
          · simp only [updateAt_apply, hj, and_false, if_false] at hactive
            simp [updateAt_apply, hj, hactive, BusPacketType.IsWrite]
      | refresh =>
          rw [htype] at hactive
          simp at hactive
      | data =>
          rw [htype] at hactive
          exact ⟨.inl ⟨hactive, le_rfl⟩, by simp [BusPacketType.IsWrite]⟩
    · have hlonger : Prolonged (banks i j)
          (MemoryController.afterCommand now packet banks i j) := prolonged_afterCommand hi j
      have hbefore : (banks i j).currentBankState = .rowActive := hlonger.state.1 ▸ hactive
      refine ⟨.inl ⟨hbefore, hlonger.write⟩, fun hwrite => ?_⟩
      unfold MemoryController.afterCommand
      cases htype : packet.busPacketType with
      | write | writeP =>
          all_goals
            simp only [updateAt_apply, hi, false_and, if_false, MemoryController.holdAfterWrite,
              decide_false, Bool.false_eq_true, hbefore, if_true]
            omega
      | read | readP | activate | precharge | refresh | data =>
          all_goals
            rw [htype] at hwrite
            cases hwrite

end Delays

/-- A column access that is allowed comes no earlier than its bank may be accessed. -/
theorem Allowed.access (h : Allowed now banks packet) :
    (packet.busPacketType.IsRead = true → (banks packet.rank packet.bank).nextRead ≤ now) ∧
      (packet.busPacketType.IsWrite = true →
        (banks packet.rank packet.bank).currentBankState = .rowActive ∧
          (banks packet.rank packet.bank).nextWrite ≤ now) := by
  unfold Allowed at h
  cases htype : packet.busPacketType with
  | read | readP =>
      all_goals
        rw [htype] at h
        exact ⟨fun _ => h.2.2.1, by simp [BusPacketType.IsWrite]⟩
  | write | writeP =>
      all_goals
        rw [htype] at h
        exact ⟨by simp [BusPacketType.IsRead], fun _ => ⟨h.2.1, h.2.2.1⟩⟩
  | activate | precharge | refresh | data =>
      all_goals exact ⟨by simp [BusPacketType.IsRead], by simp [BusPacketType.IsWrite]⟩

/-- **A command leaves the lines apart**: the data of a read or write find their place. -/
theorem Timed.issue (hsound : cfg.Sound) (hallowed : Allowed now banks packet)
    (h : Timed (now + 1) (cfg.WL - 1) cfg.RL banks writes reads) :
    Timed (now + 1) cfg.WL (cfg.RL + 1) (MemoryController.afterCommand now packet banks)
      (expectWrite cfg packet writes) fun i => expect packet (cfg.RL + 1) i (reads i) := by
  have hlatency : 0 < cfg.WL := by
    have := hsound.latency
    unfold Config.WL
    omega
  have hread (i j) := nextRead_afterCommand now hsound packet banks i j
  have hwrite (i j) := nextWrite_afterCommand now hsound packet banks i j
  have hreads (i j) : Clear (cfg.BL / 2) (now + 1)
      ((MemoryController.afterCommand now packet banks i j).nextRead + cfg.RL + 2) (reads i) := by
    rcases (hread i j).1 with hlonger | hlater
    · exact (h.readsClear i j).mono (by omega)
    · exact (h.readsSpaced i).clear (by omega)
  have hwrites (i j)
      (hactive : (MemoryController.afterCommand now packet banks i j).currentBankState =
        .rowActive) : Clear (cfg.BL / 2) (now + 1)
      ((MemoryController.afterCommand now packet banks i j).nextWrite + cfg.WL + 1) writes := by
    rcases (hwrite i j hactive).1 with ⟨hbefore, hlonger⟩ | hlater
    · exact (h.writesClear i j hbefore).mono (by omega)
    · exact h.writesSpaced.clear (by omega)
  refine ⟨?_, fun i j hactive => ?_, fun i => ?_, fun i j => ?_⟩
  · unfold expectWrite
    split
    · rename_i htype
      obtain ⟨hactive, hnow⟩ := hallowed.access.2 htype
      have hclear : Clear (cfg.BL / 2) (now + 1) (now + 1 + cfg.WL) writes :=
        (h.writesClear _ _ hactive).mono (by omega)
      exact h.writesSpaced.push hclear hlatency rfl (Nat.sub_le _ _) le_rfl
    · exact h.writesSpaced.mono (Nat.sub_le _ _)
  · unfold expectWrite
    split
    · rename_i htype
      have hburst := (hwrite i j hactive).2 htype
      exact (hwrites i j hactive).push (by omega)
    · exact hwrites i j hactive
  · unfold expect
    split
    · rename_i htype
      obtain ⟨htype, rfl⟩ := htype
      have hnow := hallowed.access.1 htype
      have hclear : Clear (cfg.BL / 2) (now + 1) (now + 1 + (cfg.RL + 1)) (reads packet.rank) :=
        (h.readsClear packet.rank packet.bank).mono (by omega)
      exact (h.readsSpaced _).push hclear (Nat.succ_pos _) rfl (Nat.le_succ _) le_rfl
    · exact (h.readsSpaced i).mono (Nat.le_succ _)
  · unfold expect
    split
    · rename_i htype
      have hburst := (hread i j).2 htype.1 htype.2
      exact (hreads i j).push (by omega)
    · exact hreads i j

end SpikeSim.Dram
