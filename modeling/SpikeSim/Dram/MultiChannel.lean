/-
# Channels

The whole memory: independent channels, each with a controller and ranks of its own, behind a
crosser from the clock of the processor.  A transaction goes to the channel of its address, and
all channels count the cycles of the memory together.
-/

import SpikeSim.Dram.ClockDomain
import SpikeSim.Dram.Safety

namespace SpikeSim.Dram

open MemorySystem

variable {cfg : Config}

structure MultiChannelMemorySystem (cfg : Config) where
  channels : Fin cfg.numChans → MemorySystem cfg := fun _ => {}
  clockDomainCrosser : ClockDomainCrosser
  currentClockCycle : ℕ := 0

abbrev SystemM (cfg : Config) := EStateM Fault (MultiChannelMemorySystem cfg)

namespace MultiChannelMemorySystem

def findChannelNumber (cfg : Config) (address : BitVec 64) : Except Fault (Fin cfg.numChans) :=
  if cfg.numChans = 1 then .ok 0
  else
    let channelNumber :=
      (addressMapping cfg.toGeometry cfg.addressMappingScheme address).chan.toNat
    if h : channelNumber < cfg.numChans then .ok ⟨channelNumber, h⟩
    else .error .channelOutOfRange

/-- Code of one channel. -/
def onChannel {α : Type} (i : Fin cfg.numChans) (x : DramM cfg α) : SystemM cfg α := fun s =>
  match x (s.channels i) with
  | .ok a channel => .ok a { s with channels := Function.update s.channels i channel }
  | .error e channel => .error e { s with channels := Function.update s.channels i channel }

def addTransaction (isWrite : Bool) (address : BitVec 64) : SystemM cfg Unit := do
  match findChannelNumber cfg address with
  | .error e => throw e
  | .ok channelNumber => onChannel channelNumber (MemorySystem.addTransaction isWrite address)

/-- A cycle of the memory. -/
def actualUpdate : SystemM cfg Unit := do
  (List.finRange cfg.numChans).forM fun i => onChannel i MemorySystem.update
  modify fun s => { s with currentClockCycle := s.currentClockCycle + 1 }

/-- A cycle of the processor. -/
def update : SystemM cfg Unit := do
  match (← get).clockDomainCrosser.update with
  | none => throw .endlessLoop
  | some (calls, crosser) =>
    modify fun s => { s with clockDomainCrosser := crosser }
    (List.replicate calls ()).forM fun _ => actualUpdate

def willAcceptTransaction (s : MultiChannelMemorySystem cfg) : Bool :=
  ∀ i, (s.channels i).willAcceptTransaction

/-- What the processor does: a transaction, or a cycle of its own. -/
def serve : Request → SystemM cfg Unit
  | .transaction isWrite address => addTransaction isWrite address
  | .cycle => update

variable {s : MultiChannelMemorySystem cfg}

/-! ## The requests of a channel -/

def channelOf (cfg : Config) (address : BitVec 64) : Fin cfg.numChans :=
  ⟨_, addressMapping_inRange cfg.toGeometry cfg.addressMappingScheme address .chan⟩

/-- **No address lies outside the channels.** -/
theorem findChannelNumber_eq (cfg : Config) (address : BitVec 64) :
    findChannelNumber cfg address = .ok (channelOf cfg address) := by
  unfold findChannelNumber
  by_cases hone : cfg.numChans = 1
  · rw [if_pos hone]
    congr 1
    apply Fin.ext
    have := (channelOf cfg address).isLt
    rw [Fin.val_zero]
    omega
  · rw [if_neg hone]
    exact dif_pos (channelOf cfg address).isLt

/-- What a channel is asked for: the transactions of its addresses, and the cycles that the crosser
passes on. -/
def requestsOf (i : Fin cfg.numChans) : List Request → ClockDomainCrosser → List Request
  | [], _ => []
  | .transaction isWrite address :: rest, x =>
    if channelOf cfg address = i then .transaction isWrite address :: requestsOf i rest x
    else requestsOf i rest x
  | .cycle :: rest, x =>
    match x.update with
    | none => []
    | some (calls, x) => List.replicate calls .cycle ++ requestsOf i rest x

def cyclesOf (requests : List Request) : ℕ :=
  requests.countP fun
    | .cycle => true
    | .transaction .. => false

/-! ## Code of the channels -/

theorem onChannel_ok {α : Type} {i : Fin cfg.numChans} {x : DramM cfg α} {a : α}
    {channel : MemorySystem cfg} (h : x (s.channels i) = .ok a channel) :
    onChannel i x s = .ok a { s with channels := Function.update s.channels i channel } := by
  unfold onChannel
  rw [h]

/-- All channels do their cycle. -/
theorem forM_onChannel {after : Fin cfg.numChans → MemorySystem cfg}
    (list : List (Fin cfg.numChans)) (hnodup : list.Nodup) (s : MultiChannelMemorySystem cfg)
    (h : ∀ i ∈ list, MemorySystem.update (s.channels i) = .ok () (after i)) :
    list.forM (fun i => onChannel i MemorySystem.update) s = .ok () { s with
      channels := fun i => if i ∈ list then after i else s.channels i } := by
  induction list generalizing s with
  | nil =>
      change EStateM.Result.ok () s = _
      simp
  | cons i list ih =>
      rw [List.nodup_cons] at hnodup
      change (onChannel i MemorySystem.update >>= fun _ => list.forM _) s = _
      rw [bind_eq_of_ok (onChannel_ok (h i List.mem_cons_self)), ih hnodup.2]
      · congr 2
        funext j
        by_cases hj : j ∈ list
        · rw [if_pos hj, if_pos (List.mem_cons_of_mem _ hj)]
        · by_cases hi : j = i
          · subst hi
            simp [hj]
          · simp [hj, hi]
      · intro j hj
        dsimp only
        rw [Function.update_of_ne (ne_of_mem_of_not_mem hj hnodup.1)]
        exact h j (List.mem_cons_of_mem _ hj)

/-! ## Runs -/

/-- The cycles that the crosser passes on at once. -/
theorem actualUpdates_ok (hsound : cfg.Sound) (m : ℕ) (h : ∀ i, (s.channels i).Inv) :
    ∃ s', (List.replicate m ()).forM (fun _ => actualUpdate) s = .ok () s' ∧
      s'.clockDomainCrosser = s.clockDomainCrosser ∧
      s'.currentClockCycle = s.currentClockCycle + m ∧
      ∀ i, (List.replicate m Request.cycle).forM MemorySystem.serve (s.channels i) =
          .ok () (s'.channels i) ∧ (s'.channels i).Inv ∧
        (s'.channels i).currentClockCycle = (s.channels i).currentClockCycle + m := by
  induction m generalizing s with
  | zero => exact ⟨s, rfl, rfl, rfl, fun i => ⟨rfl, h i, rfl⟩⟩
  | succ m ih =>
      choose after hupdate hinv _ hclock using fun i => update_inv hsound (h i)
      have hfirst : actualUpdate s = .ok () { s with
          channels := after
          currentClockCycle := s.currentClockCycle + 1 } := by
        unfold actualUpdate
        rw [bind_eq_of_ok (forM_onChannel _ (List.nodup_finRange _) s fun i _ => hupdate i)]
        simp only [List.mem_finRange, if_true]
        rfl
      obtain ⟨s', hrest, hcrosser, hcycle, hchannels⟩ := ih (s := { s with
        channels := after, currentClockCycle := s.currentClockCycle + 1 }) hinv
      refine ⟨s', ?_, hcrosser, ?_, fun i => ?_⟩
      · rw [List.replicate_succ]
        exact (bind_eq_of_ok hfirst).trans hrest
      · dsimp only at hcycle
        omega
      · obtain ⟨hrun, hinv', hclock'⟩ := hchannels i
        refine ⟨?_, hinv', ?_⟩
        · rw [List.replicate_succ]
          exact (bind_eq_of_ok (hupdate i)).trans hrun
        · have := hclock i
          dsimp only at hclock'
          omega

/-- Between two requests: the channels are consistent, and all have done the cycles that the crosser
has passed on. -/
structure Running (start : ClockDomainCrosser) (updates calls : ℕ)
    (s : MultiChannelMemorySystem cfg) : Prop where
  channels : ∀ i, (s.channels i).Inv
  rates : s.clockDomainCrosser.clock1 = start.clock1 ∧ s.clockDomainCrosser.clock2 = start.clock2
  crosser : s.clockDomainCrosser.Exact updates calls
  clock : s.currentClockCycle = calls
  clocks : ∀ i, (s.channels i).currentClockCycle = calls

variable {start : ClockDomainCrosser}

theorem forM_append {first second : List Request} {s mid s' : MemorySystem cfg}
    (h : first.forM MemorySystem.serve s = .ok () mid)
    (h' : second.forM MemorySystem.serve mid = .ok () s') :
    (first ++ second).forM MemorySystem.serve s = .ok () s' := by
  induction first generalizing s with
  | nil =>
      cases h
      exact h'
  | cons request first ih =>
      obtain ⟨_, next, hnext, hrest⟩ := bind_ok h
      exact (bind_eq_of_ok hnext).trans (ih hrest)

/-- A request is one of the channels' requests. -/
theorem serve_ok (hsound : cfg.Sound) {updates calls : ℕ} (h : Running start updates calls s)
    (request : Request) (rest : List Request) :
    ∃ s' more, serve request s = .ok () s' ∧
      Running start (updates + cyclesOf [request]) (calls + more) s' ∧
      ∀ i, ∃ first, requestsOf i (request :: rest) s.clockDomainCrosser =
          first ++ requestsOf i rest s'.clockDomainCrosser ∧
        first.forM MemorySystem.serve (s.channels i) = .ok () (s'.channels i) := by
  cases request with
  | transaction isWrite address =>
      obtain ⟨channel, hadd, hinv, -⟩ :=
        addTransaction_inv (h.channels (channelOf cfg address)) isWrite address
      obtain ⟨queue, pending, hadd', -⟩ :=
        addTransaction_eq (s.channels (channelOf cfg address)) isWrite address
      have hclock : channel.currentClockCycle = calls := by
        rw [hadd'] at hadd
        cases hadd
        exact h.clocks _
      refine ⟨{ s with channels := Function.update s.channels (channelOf cfg address) channel }, 0,
        ?_, ⟨?_, h.rates, h.crosser, h.clock, ?_⟩, ?_⟩
      · unfold serve addTransaction
        dsimp only
        rw [findChannelNumber_eq]
        exact onChannel_ok hadd
      · exact (Function.forall_update_iff _ fun _ (after : MemorySystem cfg) => after.Inv).mpr
          ⟨hinv, fun i _ => h.channels i⟩
      · exact (Function.forall_update_iff _ fun _ (after : MemorySystem cfg) =>
          after.currentClockCycle = calls).mpr ⟨hclock, fun i _ => h.clocks i⟩
      · intro i
        dsimp only
        by_cases hi : channelOf cfg address = i
        · subst hi
          rw [Function.update_self]
          exact ⟨[.transaction isWrite address], if_pos rfl, bind_eq_of_ok hadd⟩
        · rw [Function.update_of_ne (Ne.symm hi)]
          exact ⟨[], if_neg hi, rfl⟩
  | cycle =>
      obtain ⟨more, crosser, hcrosser, hexact⟩ := h.crosser.update
      obtain ⟨s', hrun, hsame, hclock, hchannels⟩ := actualUpdates_ok hsound more
        (s := { s with clockDomainCrosser := crosser }) h.channels
      dsimp only at hsame
      obtain ⟨hclock1, hclock2⟩ := ClockDomainCrosser.update_clocks hcrosser
      refine ⟨s', more, ?_, ⟨fun i => (hchannels i).2.1, ?_, hsame ▸ hexact, ?_, fun i => ?_⟩,
        fun i => ⟨List.replicate more .cycle, ?_, (hchannels i).1⟩⟩
      · change update s = _
        unfold update
        rw [run_bind, run_get]
        dsimp only
        rw [hcrosser]
        exact hrun
      · rw [hsame, hclock1, hclock2]
        exact h.rates
      · rw [hclock, h.clock]
      · rw [(hchannels i).2.2, h.clocks i]
      · rw [requestsOf, hcrosser, hsame]

theorem run_ok (hsound : cfg.Sound) {updates calls : ℕ} (h : Running start updates calls s)
    (requests : List Request) : ∃ s' more, requests.forM serve s = .ok () s' ∧
      Running start (updates + cyclesOf requests) (calls + more) s' ∧
      ∀ i, (requestsOf i requests s.clockDomainCrosser).forM MemorySystem.serve (s.channels i) =
        .ok () (s'.channels i) := by
  induction requests generalizing s updates calls with
  | nil => exact ⟨s, 0, rfl, h, fun _ => rfl⟩
  | cons request requests ih =>
      obtain ⟨mid, more, hmid, hrunning, hchannels⟩ := serve_ok hsound h request requests
      obtain ⟨s', more', hrun, hrunning', hchannels'⟩ := ih hrunning
      refine ⟨s', more + more', (bind_eq_of_ok hmid).trans hrun, ?_, fun i => ?_⟩
      · have hcycles : cyclesOf (request :: requests) = cyclesOf [request] + cyclesOf requests := by
          simp only [cyclesOf, List.countP_cons, List.countP_nil]
          omega
        rw [hcycles, ← Nat.add_assoc, ← Nat.add_assoc]
        exact hrunning'
      · obtain ⟨first, hfirst, hserved⟩ := hchannels i
        rw [hfirst]
        exact forM_append hserved (hchannels' i)

end MultiChannelMemorySystem

end SpikeSim.Dram
