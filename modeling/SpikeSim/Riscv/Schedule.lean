/-
# Whose turn it is

`sim_t::step` gives the harts their turns, `interleave` instructions each, and advances the
clock when the last hart has had its turn.  Where a turn was interrupted is kept from one
call to the next, so it does not matter how the instructions are divided over the calls: what
the calls do is a stretch of one schedule, of which `position` says what happens at each
instruction.

`Does` says what each call does to the system.  A hart may take any time for its turn, and the
switch to the host returns.
-/

import SpikeSim.Riscv.Timer

namespace SpikeSim.Riscv

/-- `INTERLEAVE`. -/
def interleave : ℕ := 5000

/-- `INSNS_PER_RTC_TICK`. -/
def insnsPerRtcTick : ℕ := 100

/-- What `sim_t::step` calls. -/
inductive SimAct
  /-- `procs[proc]->step(steps)`. -/
  | step (proc steps : ℕ)
  | yieldLoadReservation (proc : ℕ)
  | increment (inc : ℕ)
  | switchTo
  deriving DecidableEq, Repr

/-- `current_step` and `current_proc`, with `P` harts. -/
structure Scheduler (P : ℕ) where
  currentStep : ℕ
  currentProc : ℕ
  currentStep_lt : currentStep < interleave
  currentProc_lt : currentProc < P

namespace Scheduler

variable {P : ℕ}

/-- The scheduler that the constructor of `sim_t` makes. -/
def initial (hP : 0 < P) : Scheduler P := ⟨0, 0, by decide, hP⟩

/-- What is done when a turn is over. -/
def endTurn (P proc : ℕ) : List SimAct :=
  .yieldLoadReservation proc ::
    (if proc + 1 = P then [.increment (interleave / insnsPerRtcTick)] else []) ++ [.switchTo]

/-- One pass of the loop of `sim_t::step`, which runs the current hart for `steps`. -/
def turn (s : Scheduler P) (steps : ℕ) (hle : s.currentStep + steps ≤ interleave) :
    List SimAct × Scheduler P :=
  if h : s.currentStep + steps = interleave then
    (.step s.currentProc steps :: endTurn P s.currentProc,
      { currentStep := 0
        currentProc := if s.currentProc + 1 = P then 0 else s.currentProc + 1
        currentStep_lt := by decide
        currentProc_lt := by
          have := s.currentProc_lt
          split <;> omega })
  else
    ([.step s.currentProc steps],
      { s with
        currentStep := s.currentStep + steps
        currentStep_lt := by omega })

/-- The loop of `sim_t::step`, from `i` on. -/
def stepFrom (s : Scheduler P) (n i : ℕ) : List SimAct × Scheduler P :=
  if h : i < n then
    let steps := min (n - i) (interleave - s.currentStep)
    let (acts, s') := s.turn steps (by have := s.currentStep_lt; omega)
    let (more, s'') := s'.stepFrom n (i + steps)
    (acts ++ more, s'')
  else ([], s)
termination_by n - i
decreasing_by
  have := s.currentStep_lt
  omega

/-- `sim_t::step`: what it calls, and the counters that it leaves. -/
def step (s : Scheduler P) (n : ℕ) : List SimAct × Scheduler P := s.stepFrom n 0

/-- One call after the other. -/
def steps (s : Scheduler P) : List ℕ → List SimAct × Scheduler P
  | [] => ([], s)
  | n :: ns =>
      let (acts, s') := s.step n
      let (more, s'') := s'.steps ns
      (acts ++ more, s'')

end Scheduler

/-! ## The schedule -/

/-- The instructions of a call, one by one. -/
def SimAct.expand : SimAct → List SimAct
  | .step proc steps => List.replicate steps (.step proc 1)
  | act => [act]

/-- What happens at instruction `t` of the schedule. -/
def position (P t : ℕ) : List SimAct :=
  .step (t / interleave % P) 1 ::
    if (t + 1) % interleave = 0 then Scheduler.endTurn P (t / interleave % P) else []

/-- The stretch of `n` instructions from `t` on. -/
def stretch (P t n : ℕ) : List SimAct := (List.range' t n).flatMap (position P)

theorem stretch_add (P t m n : ℕ) : stretch P t (m + n) = stretch P t m ++ stretch P (t + m) n := by
  rw [stretch, ← List.range'_append_1, List.flatMap_append]
  rfl

variable {P : ℕ}

/-- The part of a turn that lies before its end. -/
theorem stretch_inside {t n : ℕ} (h : t % interleave + n < interleave) :
    stretch P t n = List.replicate n (.step (t / interleave % P) 1) := by
  induction n with
  | zero => rfl
  | succ n ih =>
      have hpos : (t + n + 1) % interleave ≠ 0 := by
        rw [interleave] at h ⊢
        omega
      have hdiv : (t + n) / interleave = t / interleave := by
        rw [interleave] at h ⊢
        omega
      rw [stretch_add, ih (by omega), List.replicate_succ']
      congr 1
      rw [stretch, List.range'_one, List.flatMap_singleton, position, if_neg hpos, hdiv]

/-- The part of a turn up to its end. -/
theorem stretch_turn {t n : ℕ} (hn : 0 < n) (h : t % interleave + n = interleave) :
    stretch P t n = List.replicate n (.step (t / interleave % P) 1) ++
      Scheduler.endTurn P (t / interleave % P) := by
  obtain ⟨n, rfl⟩ : ∃ m, n = m + 1 := ⟨n - 1, by omega⟩
  have hend : (t + n + 1) % interleave = 0 := by
    rw [interleave] at h ⊢
    omega
  have hdiv : (t + n) / interleave = t / interleave := by
    rw [interleave] at h ⊢
    omega
  rw [stretch_add, stretch_inside (by omega), List.replicate_succ', List.append_assoc]
  congr 1
  rw [stretch, List.range'_one, List.flatMap_singleton, position, if_pos hend, hdiv]
  rfl

/-- The next hart, of which the first comes after the last. -/
theorem succ_mod_eq (hP : 0 < P) (a : ℕ) :
    (a + 1) % P = if a % P + 1 = P then 0 else a % P + 1 := by
  have hmod : (a + 1) % P = (a % P + 1) % P := by rw [Nat.mod_add_mod]
  have hlt := Nat.mod_lt a hP
  rw [hmod]
  split
  · next hlast => rw [hlast, Nat.mod_self]
  · exact Nat.mod_eq_of_lt (by omega)

namespace Scheduler

/-- `t` instructions have been scheduled. -/
structure At (s : Scheduler P) (t : ℕ) : Prop where
  currentStep : s.currentStep = t % interleave
  currentProc : s.currentProc = t / interleave % P

theorem At.initial (hP : 0 < P) : (initial hP).At 0 := ⟨rfl, by simp [Scheduler.initial]⟩

theorem endTurn_expand (P proc : ℕ) :
    (endTurn P proc).flatMap SimAct.expand = endTurn P proc := by
  rw [endTurn]
  split <;> rfl

/-- **One pass of the loop** follows the schedule. -/
theorem At.turn {s : Scheduler P} {t n : ℕ} (h : s.At t) (hpos : 0 < n)
    (hle : s.currentStep + n ≤ interleave) :
    (s.turn n hle).1.flatMap SimAct.expand = stretch P t n ∧ (s.turn n hle).2.At (t + n) := by
  have hstep := h.currentStep
  have hproc := h.currentProc
  by_cases hend : s.currentStep + n = interleave
  · simp only [Scheduler.turn, dif_pos hend]
    constructor
    · rw [stretch_turn hpos (hstep ▸ hend), List.flatMap_cons, endTurn_expand, hproc]
      rfl
    · have hdiv : (t + n) / interleave = t / interleave + 1 := by
        rw [hstep, interleave] at hend
        rw [interleave]
        omega
      refine ⟨?_, ?_⟩
      · rw [hstep, interleave] at hend
        change 0 = (t + n) % interleave
        rw [interleave]
        omega
      · change (if s.currentProc + 1 = P then 0 else s.currentProc + 1) = (t + n) / interleave % P
        rw [hdiv, hproc, succ_mod_eq (s.currentProc.zero_le.trans_lt s.currentProc_lt)]
  · simp only [Scheduler.turn, dif_neg hend]
    have hlt : t % interleave + n < interleave := by omega
    constructor
    · rw [stretch_inside hlt, hproc]
      exact List.append_nil _
    · refine ⟨?_, ?_⟩
      · change s.currentStep + n = (t + n) % interleave
        rw [interleave] at hlt ⊢
        rw [interleave] at hstep
        omega
      · change s.currentProc = (t + n) / interleave % P
        have hdiv : (t + n) / interleave = t / interleave := by
          rw [interleave] at hlt ⊢
          omega
        rw [hdiv, hproc]

/-- **The loop** follows the schedule. -/
theorem At.stepFrom {s : Scheduler P} {t n i : ℕ} (h : s.At t) :
    (s.stepFrom n i).1.flatMap SimAct.expand = stretch P t (n - i) ∧
      (s.stepFrom n i).2.At (t + (n - i)) := by
  induction hm : n - i using Nat.strongRecOn generalizing s t i with
  | ind m ih =>
    rw [Scheduler.stepFrom]
    by_cases hlt : i < n
    · have hstep := s.currentStep_lt
      let k := min (n - i) (interleave - s.currentStep)
      have hle : s.currentStep + k ≤ interleave := by omega
      obtain ⟨hacts, hat⟩ := h.turn (n := k) (by omega) hle
      obtain ⟨hmore, hrest⟩ := ih (n - (i + k)) (by omega) (i := i + k) hat rfl
      rw [dif_pos hlt, show m = k + (n - (i + k)) by omega, stretch_add, ← hacts, ← hmore,
        ← Nat.add_assoc]
      exact ⟨List.flatMap_append, hrest⟩
    · rw [dif_neg hlt]
      obtain rfl : m = 0 := by omega
      exact ⟨rfl, h⟩

/-- **The calls** follow the schedule, however the instructions are divided. -/
theorem At.steps {s : Scheduler P} {t : ℕ} (h : s.At t) (ns : List ℕ) :
    (s.steps ns).1.flatMap SimAct.expand = stretch P t ns.sum ∧ (s.steps ns).2.At (t + ns.sum) := by
  induction ns generalizing s t with
  | nil => exact ⟨rfl, h⟩
  | cons n ns ih =>
      obtain ⟨hacts, hat⟩ := h.stepFrom (n := n) (i := 0)
      obtain ⟨hmore, hrest⟩ := ih hat
      rw [List.sum_cons, ← Nat.add_assoc, stretch_add]
      refine ⟨?_, hrest⟩
      rw [Nat.sub_zero] at hacts hmore
      rw [← hacts, ← hmore]
      exact List.flatMap_append

end Scheduler

/-! ## What the calls add up to -/

/-- The instructions that hart `i` is given by an act. -/
def SimAct.given (i : ℕ) : SimAct → ℕ
  | .step proc steps => if proc = i then steps else 0
  | _ => 0

/-- The hart whose load reservation an act yields. -/
def SimAct.yielded : SimAct → Option ℕ
  | .yieldLoadReservation proc => some proc
  | _ => none

/-- What an act adds to the clock. -/
def SimAct.advance : SimAct → ℕ
  | .increment inc => inc
  | _ => 0

/-- The step budget of hart `i`. -/
def budget (i : ℕ) (acts : List SimAct) : ℕ := (acts.map (SimAct.given i)).sum

/-- The harts whose load reservations are yielded, in order. -/
def yields (acts : List SimAct) : List ℕ := acts.filterMap SimAct.yielded

/-- What is added to the clock. -/
def advance (acts : List SimAct) : ℕ := (acts.map SimAct.advance).sum

/-- A sum over the acts does not change when a call is taken apart. -/
theorem sum_expand {f : SimAct → ℕ}
    (hf : ∀ proc steps, f (.step proc steps) = steps * f (.step proc 1)) (acts : List SimAct) :
    ((acts.flatMap SimAct.expand).map f).sum = (acts.map f).sum := by
  induction acts with
  | nil => rfl
  | cons act acts ih =>
      rw [List.flatMap_cons, List.map_append, List.sum_append, ih, List.map_cons, List.sum_cons]
      congr 1
      cases act with
      | step proc steps =>
          rw [SimAct.expand, List.map_replicate, List.sum_replicate, smul_eq_mul, hf proc steps]
      | yieldLoadReservation proc => exact Nat.add_zero _
      | increment inc => exact Nat.add_zero _
      | switchTo => exact Nat.add_zero _

theorem budget_expand (i : ℕ) (acts : List SimAct) :
    budget i (acts.flatMap SimAct.expand) = budget i acts := by
  apply sum_expand
  intro proc steps
  simp only [SimAct.given]
  split
  · rw [Nat.mul_one]
  · rw [Nat.mul_zero]

theorem advance_expand (acts : List SimAct) :
    advance (acts.flatMap SimAct.expand) = advance acts :=
  sum_expand (fun _ steps => (Nat.mul_zero steps).symm) acts

theorem yields_expand (acts : List SimAct) :
    yields (acts.flatMap SimAct.expand) = yields acts := by
  induction acts with
  | nil => rfl
  | cons act acts ih =>
      have hhead : act.expand.filterMap SimAct.yielded = [act].filterMap SimAct.yielded := by
        cases act with
        | step proc steps =>
            rw [SimAct.expand, List.filterMap_eq_nil_iff.mpr]
            · rfl
            · intro act hmem
              rw [List.eq_of_mem_replicate hmem]
              rfl
        | yieldLoadReservation proc => rfl
        | increment inc => rfl
        | switchTo => rfl
      rw [yields] at ih
      rw [yields, List.flatMap_cons, List.filterMap_append, ih, hhead, yields, yields,
        ← List.filterMap_append]
      rfl

theorem stretch_succ (P T : ℕ) : stretch P 0 (T + 1) = stretch P 0 T ++ position P T := by
  rw [stretch_add, stretch, stretch, List.range'_one, List.flatMap_singleton, Nat.zero_add]

theorem budget_endTurn (i proc : ℕ) : budget i (Scheduler.endTurn P proc) = 0 := by
  rw [Scheduler.endTurn]
  split <;> rfl

theorem yields_endTurn (proc : ℕ) : yields (Scheduler.endTurn P proc) = [proc] := by
  rw [Scheduler.endTurn]
  split <;> rfl

theorem advance_endTurn (proc : ℕ) : advance (Scheduler.endTurn P proc) =
    if proc + 1 = P then interleave / insnsPerRtcTick else 0 := by
  rw [Scheduler.endTurn]
  split <;> simp [advance, SimAct.advance]

/-- Hart `i` is given the instructions of its own turns. -/
theorem budget_stretch (i T : ℕ) :
    budget i (stretch P 0 T) = (List.range T).countP fun t => t / interleave % P = i := by
  induction T with
  | zero => rfl
  | succ T ih =>
      have hlast : budget i (position P T) = if T / interleave % P = i then 1 else 0 := by
        rw [position, budget, List.map_cons, List.sum_cons, ← budget]
        split
        · rw [budget_endTurn]
          rfl
        · rfl
      rw [stretch_succ, budget, List.map_append, List.sum_append, ← budget, ← budget, ih, hlast,
        List.range_succ, List.countP_append, List.countP_singleton]
      simp only [decide_eq_true_eq]

/-- Every turn that ends yields the load reservation of its hart. -/
theorem yields_stretch (T : ℕ) :
    yields (stretch P 0 T) = (List.range (T / interleave)).map (· % P) := by
  induction T with
  | zero => rfl
  | succ T ih =>
      rw [stretch_succ, yields, List.filterMap_append, ← yields, ← yields, ih, position, yields,
        List.filterMap_cons_none rfl, ← yields]
      split
      · next hend =>
          have hdiv : (T + 1) / interleave = T / interleave + 1 := by
            rw [interleave] at hend ⊢
            omega
          rw [yields_endTurn, hdiv, List.range_succ, List.map_append]
          rfl
      · next hend =>
          have hdiv : (T + 1) / interleave = T / interleave := by
            rw [interleave] at hend ⊢
            omega
          rw [hdiv]
          exact List.append_nil _

/-- The last hart's turn ends when all harts have had theirs. -/
theorem round_dvd_succ (hP : 0 < P) (T : ℕ) :
    interleave * P ∣ T + 1 ↔ (T + 1) % interleave = 0 ∧ T / interleave % P + 1 = P := by
  rw [Nat.dvd_iff_mod_eq_zero]
  by_cases hend : (T + 1) % interleave = 0
  · have hnext : T + 1 = interleave * (T / interleave + 1) := by
      rw [interleave] at hend ⊢
      omega
    have hpos : interleave ≠ 0 := by decide
    rw [hnext, Nat.mul_mod_mul_left, Nat.mul_eq_zero, or_iff_right hpos, ← hnext, and_iff_right hend,
      succ_mod_eq hP]
    split
    · next hlast => exact iff_of_true rfl hlast
    · next hlast => exact iff_of_false (Nat.succ_ne_zero _) hlast
  · apply iff_of_false
    · intro hround
      exact hend (Nat.mod_eq_zero_of_dvd (dvd_of_mul_right_dvd (Nat.dvd_of_mod_eq_zero hround)))
    · exact fun h => hend h.1

/-- The clock advances when the last hart has had its turn. -/
theorem advance_stretch (hP : 0 < P) (T : ℕ) :
    advance (stretch P 0 T) = interleave / insnsPerRtcTick * (T / (interleave * P)) := by
  induction T with
  | zero => simp [stretch, advance]
  | succ T ih =>
      have hlast : advance (position P T) = interleave / insnsPerRtcTick *
          if interleave * P ∣ T + 1 then 1 else 0 := by
        have hstep : (SimAct.step (T / interleave % P) 1).advance = 0 := rfl
        rw [position, advance, List.map_cons, List.sum_cons, ← advance, hstep, Nat.zero_add,
          if_congr (round_dvd_succ hP T) rfl rfl]
        split
        · next hend => rw [advance_endTurn, ite_and, if_pos hend, mul_ite, Nat.mul_one, Nat.mul_zero]
        · next hend => rw [if_neg fun h => hend h.1]; rfl
      rw [stretch_succ, advance, List.map_append, List.sum_append, ← advance, ← advance, ih, hlast,
        Nat.succ_div, Nat.mul_add]

/-! ## The clock of the system -/

variable {N : ℕ}

/-- `mtime` is as before. -/
def MtimeKept (m m' : Machine (Soc N)) : Prop := m'.dev.mtime = m.dev.mtime

instance : Std.Refl (MtimeKept (N := N)) := ⟨fun _ => rfl⟩

instance : IsTrans (Machine (Soc N)) MtimeKept := ⟨fun _ _ _ hab hbc => Eq.trans hbc hab⟩

theorem MtimeKept.of_dev {m m' : Machine (Soc N)} (h : m'.dev = m.dev) : MtimeKept m m' := by
  rw [MtimeKept, h]

theorem MipKept.mtime {m m' : Machine (Soc N)} (h : MipKept m m') : MtimeKept m m' := .of_dev h.dev

/-- A store to the clock does not reach `mtime`, and the increment that it ends with is zero. -/
theorem rtcStore_mtime (running : Fin N) (addr : Reg) (len : Nat) (data : Reg) (s : Soc N)
    (mip : Reg) : (s.rtcStore running addr len data mip).2.1.mtime = s.mtime := by
  unfold Soc.rtcStore
  split
  · rfl
  · rename_i haccepted
    have hzero : Soc.rtcCopy s.rtc addr len data 0 = s.rtc 0 :=
      rtcCopy_zero s.rtc (fun h => haccepted (.inr h)) len data
    let copied : Soc N := { s with rtc := Soc.rtcCopy s.rtc addr len data }
    apply (increment_step running 0 copied mip).mtime.trans
    change Soc.rtcCopy s.rtc addr len data 0 + (0 + 0) = s.rtc 0
    rw [hzero, add_zero, add_zero]

/-- No store over the bus reaches `mtime`. -/
theorem mmioStore_mtime (B : Board) (running : Fin N) (addr : Reg) (len : Nat) (data : Reg)
    (s : Soc N) (mip : Reg) :
    ((B.platform running).mmioStore addr len data s mip).2.1.mtime = s.mtime := by
  unfold Platform.mmioStore
  split
  · rfl
  · change (Soc.busStore running addr len data s mip).2.1.mtime = s.mtime
    unfold Soc.busStore
    split
    · rfl
    · rename_i key dev _
      cases dev with
      | debugModule => rfl
      | rtc => exact rtcStore_mtime ..
      | hart target =>
          change (Soc.hartStore running target (addr - -key) data s mip).2.1.mtime = s.mtime
          unfold Soc.hartStore
          dsimp only
          split
          · rfl
          · split <;> rfl
      | bootRom => rfl

variable (B : Board) (running : Fin N)

/-- No access of a hart reaches `mtime`. -/
theorem actKeeps_mtimeKept :
    ActKeeps (B.platform running) (fun _ => True) (MtimeKept (N := N)) where
  store := {
    read := {
      walk := fun _ _ _ _ _ _ => rfl
      refill := fun _ _ _ _ _ => rfl
      matched := fun _ _ => rfl
      device := fun m paddr len => by
        apply MtimeKept.of_dev
        simp only [deviceLoad, Platform.mmioLoad]
        split <;> rfl
      tracers := fun _ _ => rfl }
    write := fun _ _ => rfl
    device := fun m paddr len data => mmioStore_mtime B running paddr len data m.dev m.hart.mip }
  hart _ _ _ := rfl
  setPrivilege prv _ := (setPrivilege_mipKept prv).imp fun _ _ => MipKept.mtime
  setCsr which value _ := (setCsr_csrFrame which value).imp fun _ _ h => .of_dev h.dev
  flushTlb := flushTlb_mipKept.imp fun _ _ => MipKept.mtime
  flushIcache := .modify fun _ => rfl

theorem refillKeeps_mtimeKept : RefillKeeps (B.platform running) (MtimeKept (N := N)) :=
  { (actKeeps_mtimeKept B running).store.read.fetch with
    decoder := fun _ _ => rfl
    traced := fun _ _ _ => rfl
    icache := fun _ _ _ => rfl }

/-- The loop around the instructions does not reach `mtime`. -/
theorem machineStepRules_mtimeKept (F : SoftFloat) (time : Reg) :
    MachineStepRules (B.platform running) F (fun m : Machine (Soc N) => m.dev.mtime = time)
      fun _ => True where
  bookkeeping _ _ _ _ h := h
  unmatch h := h
  load pc m h := by
    have hload : Keeps (Stable fun m : Machine (Soc N) => m.dev.mtime = time)
        (loadInsn (B.platform running) pc) :=
      ((refillKeeps_mtimeKept B running).loadInsn pc).imp fun _ _ hstep h => Eq.trans hstep h
    exact (hload.ensures h).imp (fun _ _ h => ⟨h, trivial⟩) fun _ _ h => h
  lookup pc := ((refillKeeps_mtimeKept B running).accessIcache pc).imp
    fun _ _ hstep h => Eq.trans hstep h
  entry _ _ := trivial
  refill pc i := ((refillKeeps_mtimeKept B running).refillIcache pc i).imp
    fun _ _ hstep h => Eq.trans hstep h
  execute pc fetch _ := (executeInsn_keeps (actKeeps_mtimeKept B running)
    (fun _ _ _ => rfl) F pc fetch).imp fun _ _ hstep h => Eq.trans hstep h
  enterDebugMode cause := (enterDebugMode_mipKept cause).imp fun _ _ hstep h =>
    Eq.trans hstep.mtime h
  takeTrap t epc := (takeTrap_mipKept t epc).imp fun _ _ hstep h => Eq.trans hstep.mtime h

/-! ## What the calls do to the system -/

/-- A step inside of a call of `processor_t::step`. -/
def InsideStep (B : Board) (F : SoftFloat) (s t : System N) : Prop :=
  (∀ m, s.point ≠ .idle m) ∧ t = { s with point := s.point.next (B.platform s.current) F }

/-- A step of the host. -/
inductive HostStep (B : Board) : System N → System N → Prop
  | store (s : System N) {m : Machine (Soc N)} (hpoint : s.point = .idle m) (addr : Reg)
      (len : Nat) (data : Reg) : HostStep B s (s.hostStore B m addr len data)
  | act (s : System N) {m m' : Machine (Soc N)} (hpoint : s.point = .idle m)
      (h : HostActs m m') : HostStep B s { s with point := .idle m' }

/-- What a call of `sim_t::step` does to the system.  The hart that yields its reservation is
followed by the next one, and the first follows the last. -/
inductive Does (B : Board) (F : SoftFloat) : SimAct → System N → System N → Prop
  | step {s t : System N} {m m' : Machine (Soc N)} {n left : ℕ} (hpoint : s.point = .idle m)
      (hcall : stepPrologue (B.platform s.current) n m = .ok left m')
      (hinside : Relation.ReflTransGen (InsideStep B F) { s with point := .head left m' } t)
      (hreturn : ∃ m, t.point = .idle m) : Does B F (.step s.current n) s t
  | yieldLoadReservation {s : System N} {m : Machine (Soc N)} (hpoint : s.point = .idle m)
      (next : Fin N) (hnext : next.val = (s.current + 1) % N) :
      Does B F (.yieldLoadReservation s.current) s (s.pass m next)
  | increment {s : System N} {m : Machine (Soc N)} (hpoint : s.point = .idle m) (inc : ℕ) :
      Does B F (.increment inc) s (s.incrementClock m (BitVec.ofNat 64 inc))
  | switchTo {s t : System N} (hhost : Relation.ReflTransGen (HostStep B) s t) :
      Does B F .switchTo s t

/-- One call after the other. -/
inductive Performs (B : Board) (F : SoftFloat) : List SimAct → System N → System N → Prop
  | nil (s : System N) : Performs B F [] s s
  | cons {act : SimAct} {acts : List SimAct} {s t u : System N} (hact : Does B F act s t)
      (hacts : Performs B F acts t u) : Performs B F (act :: acts) s u

variable {B} {F : SoftFloat}

theorem InsideStep.systemStep {s t : System N} (h : InsideStep B F s t) : SystemStep B F s t := by
  obtain ⟨hcall, rfl⟩ := h
  exact .inside s hcall

theorem HostStep.systemStep {s t : System N} (h : HostStep B s t) : SystemStep B F s t := by
  cases h with
  | store hpoint addr len data => exact .hostStore s hpoint addr len data
  | act hpoint hacts => exact .host s hpoint hacts

/-- **The calls are steps of the system.** -/
theorem Does.steps {act : SimAct} {s t : System N} (h : Does B F act s t) :
    Relation.ReflTransGen (SystemStep B F) s t := by
  cases h with
  | step hpoint hcall hinside hreturn =>
      apply Relation.ReflTransGen.head (.call s _ hpoint hcall)
      exact Relation.ReflTransGen.mono (fun _ _ => InsideStep.systemStep) _ _ hinside
  | yieldLoadReservation hpoint next hnext => exact .single (.pass s hpoint next)
  | increment hpoint inc => exact .single (.increment s hpoint _)
  | switchTo hhost => exact Relation.ReflTransGen.mono (fun _ _ => HostStep.systemStep) _ _ hhost

theorem Performs.steps {acts : List SimAct} {s t : System N} (h : Performs B F acts s t) :
    Relation.ReflTransGen (SystemStep B F) s t := by
  induction h with
  | nil s => exact .refl
  | cons hact hacts ih => exact hact.steps.trans ih

theorem InsideStep.mtime {s t : System N} (h : InsideStep B F s t) : t.soc.mtime = s.soc.mtime := by
  obtain ⟨hcall, rfl⟩ := h
  have hrules := machineStepRules_mtimeKept B s.current F s.soc.mtime
  have hstart : PointInv (fun m => m.dev.mtime = s.soc.mtime)
      (fun p => p.1.dev.mtime = s.soc.mtime) (fun _ => True) s.point :=
    PointInv.of_machine rfl
  exact (hrules.stepRules.next hcall trivial hstart).machine

theorem HostStep.mtime {s t : System N} (h : HostStep B s t) : t.soc.mtime = s.soc.mtime := by
  cases h with
  | @store m hpoint addr len data =>
      rw [System.soc, System.soc, hpoint]
      exact mmioStore_mtime B s.current addr len data m.dev m.hart.mip
  | @act m m' hpoint hacts =>
      obtain ⟨d, hdev⟩ := hacts.dev
      rw [System.soc, System.soc, hpoint]
      change m'.dev.mtime = m.dev.mtime
      rw [hdev]
      rfl

/-- What steps that leave `mtime` alone lead to. -/
theorem mtime_of_steps {R : System N → System N → Prop}
    (hR : ∀ s t, R s t → t.soc.mtime = s.soc.mtime) {s t : System N}
    (h : Relation.ReflTransGen R s t) : t.soc.mtime = s.soc.mtime := by
  induction h with
  | refl => rfl
  | tail _ hlast ih => exact (hR _ _ hlast).trans ih

/-- **A call** moves `mtime` by what it adds to the clock. -/
theorem Does.mtime {act : SimAct} {s t : System N} (h : Does B F act s t) :
    t.soc.mtime = s.soc.mtime + BitVec.ofNat 64 act.advance := by
  cases h with
  | @step _ _ m m' n left hpoint hcall hinside hreturn =>
      have hrules := machineStepRules_mtimeKept B s.current F m.dev.mtime
      have hprologue : m'.dev.mtime = m.dev.mtime := (hrules.stepPrologue n).ok hcall rfl
      rw [mtime_of_steps (fun _ _ => InsideStep.mtime) hinside, System.soc, System.soc, hpoint]
      change m'.dev.mtime = m.dev.mtime + 0
      rw [hprologue, add_zero]
  | @yieldLoadReservation _ m hpoint next hnext =>
      have htimer : (s.pass m next).soc.mtime = s.soc.mtime :=
        congrArg Timer.mtime (System.timer_pass s hpoint next)
      rw [htimer]
      exact (add_zero _).symm
  | @increment _ m hpoint inc =>
      rw [System.soc, System.soc, hpoint]
      change Function.update m.dev.rtc 0 (m.dev.rtc 0 + _) 0 = _
      rw [Function.update_self]
      rfl
  | switchTo hhost =>
      rw [mtime_of_steps (fun _ _ => HostStep.mtime) hhost]
      exact (add_zero _).symm

theorem Performs.mtime {acts : List SimAct} {s t : System N} (h : Performs B F acts s t) :
    t.soc.mtime = s.soc.mtime + BitVec.ofNat 64 (advance acts) := by
  induction h with
  | nil s => exact (add_zero _).symm
  | @cons act acts s t u hact hacts ih =>
      rw [ih, hact.mtime, advance, advance, List.map_cons, List.sum_cons, BitVec.ofNat_add,
        BitVec.add_assoc]

/-! ## Round robin -/

/-- What the calls have come to after `T` instructions of `P` harts.  Nothing here depends on
how the instructions were divided over the calls. -/
structure RoundRobin (P T : ℕ) (acts : List SimAct) (s : Scheduler P) : Prop where
  currentStep : s.currentStep = T % interleave
  currentProc : s.currentProc = T / interleave % P
  /-- The calls, with the instructions taken one by one. -/
  order : acts.flatMap SimAct.expand = stretch P 0 T
  /-- A hart has been given the instructions of its own turns. -/
  budget : ∀ i, budget i acts = (List.range T).countP fun t => t / interleave % P = i
  /-- Every turn that is over has yielded the load reservation of its hart. -/
  yields : yields acts = (List.range (T / interleave)).map (· % P)
  advance : advance acts = interleave / insnsPerRtcTick * (T / (interleave * P))
  mtime : ∀ (B : Board) (F : SoftFloat) (s t : System P), Performs B F acts s t →
    t.soc.mtime = s.soc.mtime +
      BitVec.ofNat 64 (interleave / insnsPerRtcTick * (T / (interleave * P)))

/-- **Round robin.**  However a number of instructions is divided over calls of `sim_t::step`,
the harts get the same instructions in the same turns, and the clock advances once after every
round. -/
theorem steps_roundRobin (hP : 0 < P) (ns : List ℕ) :
    RoundRobin P ns.sum ((Scheduler.initial hP).steps ns).1
      ((Scheduler.initial hP).steps ns).2 := by
  obtain ⟨horder, hat⟩ := (Scheduler.At.initial hP).steps ns
  rw [Nat.zero_add] at hat
  have hadvance : advance ((Scheduler.initial hP).steps ns).1 =
      interleave / insnsPerRtcTick * (ns.sum / (interleave * P)) := by
    rw [← advance_expand, horder, advance_stretch hP]
  exact {
    currentStep := hat.currentStep
    currentProc := hat.currentProc
    order := horder
    budget := fun i => by rw [← budget_expand, horder, budget_stretch]
    yields := by rw [← yields_expand, horder, yields_stretch]
    advance := hadvance
    mtime := fun B F s t h => by rw [h.mtime, hadvance] }

/-- Two harts.  The first one's turn is divided over two calls, of which the second ends with
the second hart's first instructions. -/
theorem steps_two_harts : ∃ acts s, acts = [.step 0 3, .step 0 4997, .yieldLoadReservation 0,
    .switchTo, .step 1 8] ∧ RoundRobin 2 5008 acts s := by
  refine ⟨_, _, ?_, steps_roundRobin (P := 2) (by decide) [3, 5005]⟩
  simp [Scheduler.steps, Scheduler.step, Scheduler.stepFrom, Scheduler.turn, Scheduler.initial,
    Scheduler.endTurn, interleave]

end SpikeSim.Riscv
