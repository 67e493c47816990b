/-
# What the command queue pops

`pop` takes one of three kinds of commands: the refresh that is due, a packet from a queue, or,
with open pages, a precharge.  `Taken` says for each what was required and what is left in the
queues.
-/

import SpikeSim.Dram.BankProtocol

namespace SpikeSim.Dram

open CommandQueue

variable {cfg : Config}

/-- The types of the packets that wait in the queues. -/
def BusPacketType.Queued (cfg : Config) : BusPacketType → Prop
  | .activate => True
  | .read | .write => cfg.rowBufferPolicy = .openPage
  | .readP | .writeP => cfg.rowBufferPolicy = .closePage
  | .precharge | .refresh | .data => False

/-- A packet is in the queue of its rank and bank. -/
structure AtHome (cfg : Config) (rank : Fin cfg.numRanks) (bank : Fin cfg.numBanks)
    (packet : BusPacket cfg) : Prop where
  rank_eq : packet.rank = rank
  bank_eq : slot cfg packet.bank = bank
  queued : packet.busPacketType.Queued cfg

/-- Every packet is at home, and no queue is longer than it may be. -/
structure CommandQueue.WellFormed (q : CommandQueue cfg) : Prop where
  home : ∀ rank bank, ∀ packet ∈ q.queues rank bank, AtHome cfg rank bank packet
  short : ∀ rank bank, (q.queues rank bank).length ≤ cfg.cmdQueueDepth

/-! ## The searches -/

theorem nextRankAndBank_injective (cfg : Config) : Function.Injective (nextRankAndBank cfg) := by
  rintro ⟨rank, bank⟩ ⟨rank', bank'⟩ h
  unfold nextRankAndBank at h
  cases hpolicy : cfg.schedulingPolicy with
  | rankThenBankRoundRobin =>
      rw [hpolicy] at h
      obtain ⟨hrank, hbank⟩ := Prod.mk.inj h
      obtain rfl : rank = rank' := add_right_cancel hrank
      dsimp only at hbank
      split at hbank
      · rw [add_right_cancel hbank]
      · rw [hbank]
  | bankThenRankRoundRobin =>
      rw [hpolicy] at h
      obtain ⟨hrank, hbank⟩ := Prod.mk.inj h
      obtain rfl : bank = bank' := add_right_cancel hbank
      dsimp only at hrank
      split at hrank
      · rw [add_right_cancel hrank]
      · rw [hrank]

theorem nextQueue_injective (cfg : Config) : Function.Injective (nextQueue cfg) := by
  rintro ⟨rank, bank⟩ ⟨rank', bank'⟩ h
  unfold nextQueue at h
  cases hstructure : cfg.queuingStructure with
  | perRank =>
      rw [hstructure] at h
      obtain ⟨hrank, hbank⟩ := Prod.mk.inj h
      exact Prod.ext (add_right_cancel hrank) hbank
  | perRankPerBank =>
      rw [hstructure] at h
      exact nextRankAndBank_injective cfg h

/-- **The loops of `pop` end by themselves**: the search for a packet and the search for a bank to
close come back to where they started, and find the same however much longer they may go on. -/
theorem searches_end (now : ℕ) (banks : Banks cfg) (q : CommandQueue cfg) (start : Position cfg)
    (extra : ℕ) :
    roundRobin (nextQueue cfg) (findPacket now banks q) (Fintype.card (Position cfg) + extra)
        start =
        roundRobin (nextQueue cfg) (findPacket now banks q) (Fintype.card (Position cfg)) start ∧
      roundRobin (nextRankAndBank cfg) (findUnused now banks q)
          (Fintype.card (Position cfg) + extra) start =
        roundRobin (nextRankAndBank cfg) (findUnused now banks q) (Fintype.card (Position cfg))
          start :=
  ⟨roundRobin_fuel (nextQueue_injective cfg) _ _ _,
    roundRobin_fuel (nextRankAndBank_injective cfg) _ _ _⟩

/-! ## Taken commands -/

section Taken

variable (now : ℕ) (banks : Banks cfg) (q : CommandQueue cfg)

/-- The command that `pop` takes, and what it leaves. -/
inductive Taken : BusPacket cfg → CommandQueue cfg → Prop
  /-- All banks of the rank are closed and rested. -/
  | refresh (rank : Fin cfg.numRanks) (q' : CommandQueue cfg)
      (hdue : q.refreshWaiting = some rank)
      (hready : ∀ j, (banks rank j).currentBankState ≠ .rowActive ∧
        (banks rank j).nextActivate ≤ now)
      (hpower : (banks rank 0).currentBankState ≠ .powerDown) (hqueues : q'.queues = q.queues)
      (hwindow : q'.tFAWCountdown = q.tFAWCountdown) (hwaiting : q'.refreshWaiting = none) :
      Taken (refreshPacket rank) q'
  /-- A packet is taken out of its queue; with open pages its activate may be dropped with it,
  and no access to the row of the packet waits before it. -/
  | queued (rank : Fin cfg.numRanks) (bank : Fin cfg.numBanks)
      (before : List (BusPacket cfg)) (packet : BusPacket cfg) (after kept : List (BusPacket cfg))
      (q' : CommandQueue cfg) (hqueue : q.getCommandQueue rank bank = before ++ packet :: after)
      (hissuable : isIssuable now banks q packet = true)
      (hkept : kept = before ∨ cfg.rowBufferPolicy = .openPage ∧
        ∃ act, before = kept ++ [act] ∧ act.busPacketType = .activate)
      (hindependent : cfg.rowBufferPolicy = .openPage → ∀ previous ∈ before,
        previous.busPacketType ≠ .activate →
          ¬(previous.bank = packet.bank ∧ previous.row = packet.row))
      (hqueues : q'.queues = updateAt rank (slot cfg bank) (fun _ => kept ++ after) q.queues)
      (hwindow : q'.tFAWCountdown = q.tFAWCountdown)
      (hwaiting : q'.refreshWaiting = q.refreshWaiting) : Taken packet q'
  /-- An open row is closed. -/
  | precharge (rank : Fin cfg.numRanks) (bank : Fin cfg.numBanks) (q' : CommandQueue cfg)
      (hpolicy : cfg.rowBufferPolicy = .openPage)
      (hactive : (banks rank bank).currentBankState = .rowActive)
      (hnow : (banks rank bank).nextPrecharge ≤ now) (hqueues : q'.queues = q.queues)
      (hwindow : q'.tFAWCountdown = q.tFAWCountdown)
      (hwaiting : q'.refreshWaiting = q.refreshWaiting) :
      Taken (prechargePacket rank bank) q'

end Taken

variable {now : ℕ} {banks : Banks cfg} {q q' : CommandQueue cfg} {packet : BusPacket cfg}

/-! ## The refresh that is due -/

variable (now banks) in
theorem closeRow_cases (rank : Fin cfg.numRanks) (bank : Fin cfg.numBanks) :
    closeRow now banks rank bank = .blocked ∨
      closeRow now banks rank bank = .close bank ∧ (banks rank bank).nextPrecharge ≤ now := by
  unfold closeRow
  split
  · rename_i hnow
    exact .inr ⟨rfl, hnow⟩
  · exact .inl rfl

variable (now banks q) in
/-- What the scan of an open bank finds. -/
theorem scanOpenBank_cases (rank : Fin cfg.numRanks) (bank : Fin cfg.numBanks) :
    scanOpenBank now banks q rank bank = .blocked ∨
      (scanOpenBank now banks q rank bank = .close bank ∧
        cfg.rowBufferPolicy = .openPage ∧ (banks rank bank).nextPrecharge ≤ now) ∨
      ∃ before packet after, scanOpenBank now banks q rank bank =
          .send bank packet (before ++ after) ∧
        pick (fun _ packet => toOpenRow banks rank bank packet) (q.getCommandQueue rank bank) =
          some (before, packet, after) ∧ isIssuable now banks q packet = true := by
  have hclose := closeRow_cases now banks rank bank
  unfold scanOpenBank
  cases hpick : pick (fun _ packet => toOpenRow banks rank bank packet)
      (q.getCommandQueue rank bank) with
  | none =>
      dsimp only
      cases hpolicy : cfg.rowBufferPolicy with
      | closePage => exact .inl rfl
      | openPage =>
          rcases hclose with hblocked | ⟨hclose, hnow⟩
          · exact .inl hblocked
          · exact .inr (.inl ⟨hclose, rfl, hnow⟩)
  | some picked =>
      obtain ⟨before, packet, after⟩ := picked
      dsimp only
      by_cases htype : packet.busPacketType ≠ .activate
      · rw [if_pos htype]
        by_cases hissuable : isIssuable now banks q packet = true
        · rw [if_pos hissuable]
          exact .inr (.inr ⟨before, packet, after, rfl, rfl, hissuable⟩)
        · rw [if_neg hissuable]
          exact .inl rfl
      · rw [if_neg htype]
        cases hpolicy : cfg.rowBufferPolicy with
        | closePage => exact .inl rfl
        | openPage =>
            rcases hclose with hblocked | ⟨hclose, hnow⟩
            · exact .inl hblocked
            · exact .inr (.inl ⟨hclose, rfl, hnow⟩)

variable (now banks q) in
/-- The loop over the banks: all are closed and rested, or it stops at an open bank. -/
theorem scanBanks_cases (rank : Fin cfg.numRanks) (list : List (Fin cfg.numBanks)) :
    scanBanks now banks q rank list = .blocked ∨
      (scanBanks now banks q rank list = .ready ∧ ∀ j ∈ list,
        (banks rank j).currentBankState ≠ .rowActive ∧ (banks rank j).nextActivate ≤ now) ∨
      ∃ bank, (banks rank bank).currentBankState = .rowActive ∧
        scanBanks now banks q rank list = scanOpenBank now banks q rank bank := by
  induction list with
  | nil => exact .inr (.inl ⟨rfl, by simp⟩)
  | cons bank list ih =>
      unfold scanBanks
      by_cases hactive : (banks rank bank).currentBankState = .rowActive
      · rw [if_pos hactive]
        exact .inr (.inr ⟨bank, hactive, rfl⟩)
      · rw [if_neg hactive]
        by_cases hearly : now < (banks rank bank).nextActivate
        · rw [if_pos hearly]
          exact .inl rfl
        · rw [if_neg hearly]
          rcases ih with hblocked | ⟨hready, hall⟩ | hopen
          · exact .inl hblocked
          · refine .inr (.inl ⟨hready, fun j hj => ?_⟩)
            rcases List.mem_cons.mp hj with rfl | hj
            · exact ⟨hactive, not_lt.mp hearly⟩
            · exact hall j hj
          · exact .inr (.inr hopen)

theorem popRefresh_taken (h : popRefresh now banks q = some (packet, q')) :
    Taken now banks q packet q' := by
  unfold popRefresh at h
  cases hwaiting : q.refreshWaiting with
  | none =>
      rw [hwaiting] at h
      cases h
  | some rank =>
      rw [hwaiting] at h
      dsimp only at h
      rcases scanBanks_cases now banks q rank
        (List.finRange cfg.numBanks) with hscan | ⟨hscan, hready⟩ | ⟨bank, hactive, hscan⟩
      · rw [hscan] at h
        cases h
      · rw [hscan] at h
        dsimp only at h
        split at h
        · rename_i hpower
          cases h
          exact .refresh rank _ hwaiting (fun j => hready j (List.mem_finRange j)) hpower rfl rfl
            rfl
        · cases h
      · rw [hscan] at h
        rcases scanOpenBank_cases now banks q rank bank with
          hopen | ⟨hopen, hpolicy, hnow⟩ | ⟨before, picked, after, hopen, hpick, hissuable⟩
        · rw [hopen] at h
          cases h
        · rw [hopen] at h
          cases h
          exact .precharge rank bank _ hpolicy hactive hnow rfl rfl rfl
        · rw [hopen] at h
          cases h
          obtain ⟨hqueue, hrow, hfirst⟩ := pick_eq_some hpick
          refine .queued rank bank before packet after before _ hqueue hissuable (.inl rfl) ?_ rfl
            rfl rfl
          intro _ previous hmem hcolumn hsame
          obtain ⟨pre, post, hbefore⟩ := List.append_of_mem hmem
          have hnot := hfirst pre previous post hbefore
          simp only [toOpenRow, decide_eq_true_eq, decide_eq_false_iff_not] at hrow hnot
          exact hnot ⟨hsame.2.trans hrow.1, hsame.1.trans hrow.2⟩

/-! ## Queued packets -/

theorem findClosePage_taken (hpolicy : cfg.rowBufferPolicy = .closePage)
    {rank : Fin cfg.numRanks} {bank : Fin cfg.numBanks}
    (h : findClosePage now banks q rank bank = some (packet, q')) :
    Taken now banks q packet q' := by
  have hindependent (before : List (BusPacket cfg)) : cfg.rowBufferPolicy = .openPage →
      ∀ previous ∈ before, previous.busPacketType ≠ .activate →
        ¬(previous.bank = packet.bank ∧ previous.row = packet.row) := by
    intro hopen
    rw [hpolicy] at hopen
    cases hopen
  unfold findClosePage at h
  cases hstructure : cfg.queuingStructure with
  | perRank =>
      rw [hstructure] at h
      dsimp only at h
      split at h
      · rename_i before picked after hpick
        cases h
        obtain ⟨hqueue, hok, -⟩ := pick_eq_some hpick
        rw [Bool.and_eq_true] at hok
        exact .queued rank bank before _ after before _ hqueue hok.1 (.inl rfl)
          (hindependent before) rfl rfl rfl
      · cases h
  | perRankPerBank =>
      rw [hstructure] at h
      dsimp only at h
      split at h
      · rename_i picked rest hqueue
        split at h
        · rename_i hissuable
          cases h
          exact .queued rank bank [] _ rest [] _ hqueue hissuable (.inl rfl) (hindependent []) rfl
            rfl rfl
        · cases h
      · cases h

theorem findOpenPage_taken (hpolicy : cfg.rowBufferPolicy = .openPage)
    {rank : Fin cfg.numRanks} {bank : Fin cfg.numBanks}
    (h : findOpenPage now banks q rank bank = some (packet, q')) :
    Taken now banks q packet q' := by
  unfold findOpenPage at h
  dsimp only at h
  split at h
  · rename_i before picked after hpick
    obtain ⟨hqueue, hok, -⟩ := pick_eq_some hpick
    rw [Bool.and_eq_true] at hok
    have hindependent : ∀ previous ∈ before, previous.busPacketType ≠ .activate →
        ¬(previous.bank = picked.bank ∧ previous.row = picked.row) := by
      intro previous hmem htype hsame
      have hdepends := hok.2
      rw [Bool.not_eq_true', List.any_eq_false] at hdepends
      exact hdepends previous hmem (by simp [htype, hsame])
    split at h
    · rename_i hlast
      cases h
      cases hact : before.getLast? with
      | none =>
          rw [hact] at hlast
          cases hlast
      | some act =>
          rw [hact] at hlast
          have hbefore : before = before.dropLast ++ [act] :=
            (List.dropLast_append_getLast? act hact).symm
          exact .queued rank bank before _ after before.dropLast _ hqueue hok.1
            (.inr ⟨hpolicy, act, hbefore, by simpa using hlast⟩) (fun _ => hindependent) rfl rfl
            rfl
    · cases h
      exact .queued rank bank before _ after before _ hqueue hok.1 (.inl rfl)
        (fun _ => hindependent) rfl rfl rfl
  · cases h

theorem findPacket_taken {pos : Position cfg} (h : findPacket now banks q pos = some (packet, q')) :
    Taken now banks q packet q' := by
  unfold findPacket at h
  split at h
  · cases h
  · cases hpolicy : cfg.rowBufferPolicy with
    | closePage =>
        rw [hpolicy] at h
        exact findClosePage_taken hpolicy h
    | openPage =>
        rw [hpolicy] at h
        exact findOpenPage_taken hpolicy h

/-- Where the next searches start does not matter. -/
theorem Taken.moved (h : Taken now banks q packet q') {q'' : CommandQueue cfg}
    (hqueues : q''.queues = q'.queues) (hwindow : q''.tFAWCountdown = q'.tFAWCountdown)
    (hwaiting : q''.refreshWaiting = q'.refreshWaiting) : Taken now banks q packet q'' := by
  cases h with
  | refresh rank q' hdue hready hpower h1 h2 h3 =>
      exact .refresh rank q'' hdue hready hpower (hqueues.trans h1) (hwindow.trans h2)
        (hwaiting.trans h3)
  | queued rank bank before packet after kept q' hqueue hissuable hkept hindependent h1 h2 h3 =>
      exact .queued rank bank before packet after kept q'' hqueue hissuable hkept hindependent
        (hqueues.trans h1) (hwindow.trans h2) (hwaiting.trans h3)
  | precharge rank bank q' hpolicy hactive hnow h1 h2 h3 =>
      exact .precharge rank bank q'' hpolicy hactive hnow (hqueues.trans h1) (hwindow.trans h2)
        (hwaiting.trans h3)

theorem popQueued_taken (h : popQueued now banks q = some (packet, q')) :
    Taken now banks q packet q' := by
  unfold popQueued at h
  split at h
  · rename_i pos picked found hsearch
    cases h
    exact (findPacket_taken (roundRobin_eq_some hsearch)).moved rfl rfl rfl
  · cases h

theorem popPrecharge_taken (hpolicy : cfg.rowBufferPolicy = .openPage)
    (h : popPrecharge now banks q = some (packet, q')) : Taken now banks q packet q' := by
  unfold popPrecharge at h
  split at h
  · rename_i pos found hsearch
    cases h
    have hunused := roundRobin_eq_some hsearch
    unfold findUnused at hunused
    dsimp only at hunused
    split at hunused
    · rename_i hactive
      split at hunused
      · rename_i hclose
        exact .precharge pos.1 pos.2 _ hpolicy hactive hclose.2 rfl rfl rfl
      · cases hunused
    · cases hunused
  · cases h

theorem popPacket_taken (h : popPacket now banks q = some (packet, q')) :
    Taken now banks q packet q' := by
  unfold popPacket at h
  split at h
  · rename_i popped hpopped
    cases h
    exact popRefresh_taken hpopped
  · split at h
    · rename_i popped hpopped
      cases h
      exact popQueued_taken hpopped
    · cases hpolicy : cfg.rowBufferPolicy with
      | closePage =>
          rw [hpolicy] at h
          cases h
      | openPage =>
          rw [hpolicy] at h
          exact popPrecharge_taken hpolicy h

/-! ## What is left -/

/-- A command that is taken is one that the copies allow. -/
theorem Taken.allowed (hq : q.WellFormed)
    (hpower : ∀ rank, (∀ j, (banks rank j).currentBankState = .powerDown) ∨
      ∀ j, (banks rank j).currentBankState ≠ .powerDown)
    (h : Taken now banks q packet q') : Allowed now banks packet := by
  cases h with
  | refresh rank q' hdue hready hawake =>
      intro j
      refine ⟨(hready j).1, ?_, (hready j).2⟩
      rcases hpower rank with hdown | hup
      · exact absurd (hdown 0) hawake
      · exact hup j
  | queued rank bank before packet after kept q' hqueue hissuable =>
      have hmem : packet ∈ q.queues rank (slot cfg bank) := by
        change packet ∈ q.getCommandQueue rank bank
        rw [hqueue]
        exact List.mem_append_right _ List.mem_cons_self
      have hqueued := (hq.home _ _ _ hmem).queued
      unfold isIssuable at hissuable
      unfold Allowed
      cases htype : packet.busPacketType with
      | activate =>
          rw [htype] at hissuable
          simp only [decide_eq_true_eq] at hissuable
          exact ⟨hissuable.1, hissuable.2.1⟩
      | read | readP | write | writeP =>
          all_goals
            rw [htype] at hissuable hqueued
            simp only [decide_eq_true_eq] at hissuable
            exact ⟨hqueued, hissuable.1, hissuable.2.1, hissuable.2.2.1⟩
      | precharge | refresh | data =>
          all_goals
            rw [htype] at hqueued
            exact hqueued.elim
  | precharge rank bank q' hpolicy hactive hnow => exact ⟨hpolicy, hactive, hnow⟩

/-- The queues only lose packets. -/
theorem Taken.sublist (h : Taken now banks q packet q') (rank : Fin cfg.numRanks)
    (bank : Fin cfg.numBanks) : (q'.queues rank bank).Sublist (q.queues rank bank) := by
  cases h with
  | refresh _ _ _ _ _ hqueues | precharge _ _ _ _ _ _ hqueues =>
      all_goals rw [hqueues]
  | queued rank' bank' before packet after kept q' hqueue _ hkept _ hqueues =>
      rw [hqueues, updateAt_apply]
      split
      · rename_i hslot
        obtain ⟨rfl, rfl⟩ := hslot
        change q.queues _ _ = _ at hqueue
        rw [hqueue]
        rcases hkept with rfl | ⟨-, act, rfl, -⟩
        · exact .append (.refl _) (.cons _ (.refl _))
        · rw [List.append_assoc]
          exact .append (.refl _) (.cons _ (.cons _ (.refl _)))
      · exact .refl _

theorem CommandQueue.WellFormed.sublist (hq : q.WellFormed)
    (h : ∀ rank bank, (q'.queues rank bank).Sublist (q.queues rank bank)) : q'.WellFormed where
  home rank bank packet hmem := hq.home rank bank packet ((h rank bank).subset hmem)
  short rank bank := (h rank bank).length_le.trans (hq.short rank bank)

theorem afterPop_queues (q : CommandQueue cfg) (packet : BusPacket cfg) :
    (q.afterPop packet).queues = q.queues ∧
      (q.afterPop packet).refreshWaiting = q.refreshWaiting := by
  unfold afterPop
  dsimp only
  split <;> split <;> exact ⟨rfl, rfl⟩

/-- The queue after the windows have moved on, from which `pop` takes its command. -/
def CommandQueue.stepWindows (q : CommandQueue cfg) : CommandQueue cfg :=
  { q with tFAWCountdown := fun rank => stepWindow (q.tFAWCountdown rank) }

/-- **What `pop` does**: it takes a command, or leaves the queue as it is. -/
theorem pop_cases (now : ℕ) (banks : Banks cfg) (q : CommandQueue cfg) :
    q.pop now banks = (none, q.stepWindows) ∨
      ∃ packet q', Taken now banks q.stepWindows packet q' ∧
        q.pop now banks = (some packet, q'.afterPop packet) := by
  have hstart : { q with tFAWCountdown := fun rank => stepWindow (q.tFAWCountdown rank) } =
    q.stepWindows := rfl
  unfold CommandQueue.pop
  dsimp only
  rw [hstart]
  cases hpop : popPacket now banks q.stepWindows with
  | none => exact .inl rfl
  | some popped => exact .inr ⟨popped.1, popped.2, popPacket_taken hpop, rfl⟩

end SpikeSim.Dram
