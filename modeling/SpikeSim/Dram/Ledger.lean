/-
# What is in flight

A read that the controller has accepted is in the command queue, on its way through a rank, or
among the data that have come back; a write is in the command queue or on the data bus.  The
sums here count them, and say how each operation of the command queue changes the count.
-/

import SpikeSim.Dram.DataBus

namespace SpikeSim.Dram

open CommandQueue

variable {cfg : Config}

/-- A sum over all queues after one of them has changed. -/
theorem sum_updateAt {α M : Type} [AddCommMonoid M] (rank : Fin cfg.numRanks)
    (bank : Fin cfg.numBanks) (f : α → α) (table : Fin cfg.numRanks → Fin cfg.numBanks → α)
    (weight : α → M) :
    (∑ pos : Position cfg, weight (updateAt rank bank f table pos.1 pos.2)) +
        weight (table rank bank) =
      (∑ pos : Position cfg, weight (table pos.1 pos.2)) + weight (f (table rank bank)) := by
  have hmem : (rank, bank) ∈ (Finset.univ : Finset (Position cfg)) := Finset.mem_univ _
  have hothers : ∑ pos ∈ Finset.univ.erase (rank, bank),
        weight (updateAt rank bank f table pos.1 pos.2) =
      ∑ pos ∈ Finset.univ.erase (rank, bank), weight (table pos.1 pos.2) := by
    apply Finset.sum_congr rfl
    intro pos hpos
    have hne : ¬(pos.1 = rank ∧ pos.2 = bank) := fun hsame =>
      (Finset.ne_of_mem_erase hpos) (Prod.ext hsame.1 hsame.2)
    rw [updateAt_apply, if_neg hne]
  have hown : weight (updateAt rank bank f table rank bank) = weight (f (table rank bank)) := by
    rw [updateAt_apply, if_pos ⟨rfl, rfl⟩]
  rw [← Finset.add_sum_erase _ _ hmem, ← Finset.add_sum_erase _ _ hmem, hothers, hown]
  abel

/-! ## Queued accesses -/

def addresses (packets : List (BusPacket cfg)) : Multiset (BitVec 64) :=
  packets.map BusPacket.physicalAddress

@[simp]
theorem addresses_nil : addresses ([] : List (BusPacket cfg)) = 0 := rfl

@[simp]
theorem addresses_cons (packet : BusPacket cfg) (packets : List (BusPacket cfg)) :
    addresses (packet :: packets) = packet.physicalAddress ::ₘ addresses packets := rfl

@[simp]
theorem addresses_append (first second : List (BusPacket cfg)) :
    addresses (first ++ second) = addresses first + addresses second := by
  simp [addresses]

/-- The addresses of the packets of a kind. -/
def ofKind (kind : BusPacketType → Bool) (packets : List (BusPacket cfg)) :
    Multiset (BitVec 64) :=
  addresses (packets.filter fun packet => kind packet.busPacketType)

@[simp]
theorem ofKind_append (kind : BusPacketType → Bool) (first second : List (BusPacket cfg)) :
    ofKind kind (first ++ second) = ofKind kind first + ofKind kind second := by
  simp [ofKind]

@[simp]
theorem ofKind_nil (kind : BusPacketType → Bool) :
    ofKind kind ([] : List (BusPacket cfg)) = 0 := rfl

theorem ofKind_cons (kind : BusPacketType → Bool) (packet : BusPacket cfg)
    (packets : List (BusPacket cfg)) :
    ofKind kind (packet :: packets) = ofKind kind [packet] + ofKind kind packets :=
  ofKind_append kind [packet] packets

theorem ofKind_of_not {kind : BusPacketType → Bool} {packet : BusPacket cfg}
    (h : kind packet.busPacketType = false) : ofKind kind [packet] = 0 := by
  simp [ofKind, h]

theorem ofKind_of {kind : BusPacketType → Bool} {packet : BusPacket cfg}
    (h : kind packet.busPacketType = true) : ofKind kind [packet] = {packet.physicalAddress} := by
  simp [ofKind, h]

namespace CommandQueue

/-- The addresses of the packets of a kind in all queues. -/
def queued (kind : BusPacketType → Bool) (q : CommandQueue cfg) : Multiset (BitVec 64) :=
  ∑ pos : Position cfg, ofKind kind (q.queues pos.1 pos.2)

end CommandQueue

variable {now : ℕ} {banks : Banks cfg} {q q' : CommandQueue cfg} {packet : BusPacket cfg}
  {kind : BusPacketType → Bool}

theorem queued_congr (h : q'.queues = q.queues) : queued kind q' = queued kind q := by
  rw [queued, queued, h]

/-- What is taken is no longer queued; what is dropped with it is an activate. -/
theorem Taken.queued_eq (h : Taken now banks q packet q') (hactivate : kind .activate = false)
    (hprecharge : kind .precharge = false) (hrefresh : kind .refresh = false) :
    CommandQueue.queued kind q' + ofKind kind [packet] = CommandQueue.queued kind q := by
  cases h with
  | refresh rank q' _ _ _ hqueues =>
      have hnone : kind (refreshPacket rank : BusPacket cfg).busPacketType = false := hrefresh
      rw [queued_congr hqueues, ofKind_of_not hnone, add_zero]
  | precharge rank bank q' _ _ _ hqueues =>
      have hnone : kind (prechargePacket rank bank).busPacketType = false := hprecharge
      rw [queued_congr hqueues, ofKind_of_not hnone, add_zero]
  | queued rank bank before packet after kept q' hqueue _ hkept _ hqueues =>
      have hsame : ofKind kind kept = ofKind kind before := by
        rcases hkept with rfl | ⟨-, act, rfl, hact⟩
        · rfl
        · have hnone : kind act.busPacketType = false := by
            rw [hact]
            exact hactivate
          rw [ofKind_append, ofKind_of_not hnone, add_zero]
      have hsum := sum_updateAt rank (slot cfg bank) (fun _ => kept ++ after) q.queues
        (ofKind kind)
      have hold : q.queues rank (slot cfg bank) = before ++ packet :: after := hqueue
      rw [← hqueues] at hsum
      change CommandQueue.queued kind q' + _ = CommandQueue.queued kind q + _ at hsum
      rw [hold, ofKind_append, ofKind_append, ofKind_cons, hsame] at hsum
      have hsplit : CommandQueue.queued kind q' + ofKind kind [packet] +
          (ofKind kind before + ofKind kind after) =
          CommandQueue.queued kind q + (ofKind kind before + ofKind kind after) := by
        rw [← hsum]
        abel
      exact add_right_cancel hsplit

/-! ## Enqueuing -/

/-- A packet of its own rank is put at the end of its queue, if that is not full. -/
theorem enqueue_eq (hq : q.WellFormed) (hqueued : packet.busPacketType.Queued cfg)
    (hroom : (q.getCommandQueue packet.rank packet.bank).length < cfg.cmdQueueDepth) :
    ∃ q', q.enqueue packet = .ok q' ∧ q'.WellFormed ∧
      (q'.getCommandQueue packet.rank packet.bank).length =
        (q.getCommandQueue packet.rank packet.bank).length + 1 ∧
      ∀ kind, CommandQueue.queued kind q' = CommandQueue.queued kind q + ofKind kind [packet] := by
  have hlength : ¬cfg.cmdQueueDepth <
      (q.getCommandQueue packet.rank packet.bank ++ [packet]).length := by
    rw [List.length_append, List.length_singleton]
    omega
  unfold enqueue
  dsimp only
  rw [if_neg hlength]
  refine ⟨_, rfl, ⟨fun rank bank other hmem => ?_, fun rank bank => ?_⟩, ?_, fun kind => ?_⟩
  · simp only [setCommandQueue, updateAt_apply] at hmem
    split at hmem
    · rename_i hslot
      obtain ⟨rfl, rfl⟩ := hslot
      rcases List.mem_append.mp hmem with hold | hnew
      · exact hq.home _ _ other hold
      · obtain rfl := List.mem_singleton.mp hnew
        exact ⟨rfl, rfl, hqueued⟩
    · exact hq.home rank bank other hmem
  · simp only [setCommandQueue, updateAt_apply]
    split
    · exact not_lt.mp hlength
    · exact hq.short rank bank
  · simp [setCommandQueue, getCommandQueue]
  · have hsum := sum_updateAt packet.rank (slot cfg packet.bank)
      (fun _ => q.getCommandQueue packet.rank packet.bank ++ [packet]) q.queues (ofKind kind)
    rw [ofKind_append, ← add_assoc, add_right_comm] at hsum
    exact add_right_cancel hsum

/-- There is room for as many packets as the controller asks for. -/
theorem length_of_hasRoomFor (hsound : cfg.Sound) (hq : q.WellFormed) {count : ℕ}
    {rank : Fin cfg.numRanks} {bank : Fin cfg.numBanks}
    (h : q.hasRoomFor count rank bank = true) :
    (q.getCommandQueue rank bank).length + count ≤ cfg.cmdQueueDepth := by
  have hshort : (q.getCommandQueue rank bank).length ≤ cfg.cmdQueueDepth := hq.short _ _
  have hdepth := hsound.queueDepth
  unfold hasRoomFor at h
  rw [decide_eq_true_eq, Nat.sub_add_comm hshort, Nat.add_mod_right,
    Nat.mod_eq_of_lt (by omega)] at h
  omega

end SpikeSim.Dram
