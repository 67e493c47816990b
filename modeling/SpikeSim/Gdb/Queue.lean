/-
# Running the queue of operations

Between two steps of an operation the hart executes what is in the debug RAM and clears the
interrupt.  What it leaves in the debug RAM is open here: a step finds a debug module of
which only one thing is known, that the hart has no more than four triggers.
`CompletesIn P n s` says that the queue is empty after at most `n` steps, whatever the hart
does, without a fault on the way, and that `P` holds then.
-/

import SpikeSim.Gdb.Output

namespace SpikeSim.Gdb

open Riscv (DebugModule)

variable {P P' : GdbServer → Prop} {s : GdbServer} {n : Nat}

/-- The debug module as a step finds it. -/
def GdbServer.withDebugModule (s : GdbServer) (d : DebugModule) : GdbServer :=
  { s with debugModule := d }

theorem Wide.withDebugModule (h : Wide s) (d : DebugModule) : Wide (s.withDebugModule d) := h

/-- The hart does not select a fifth trigger. -/
def Plausible (s : GdbServer) (d : DebugModule) : Prop :=
  ∀ bp step rest, s.operationQueue = (.hardwareBreakpointInsert .checkIndex bp, step) :: rest →
    4 ≤ bp.index →
      Does (drRead .data1) (s.withDebugModule d) fun value _ => value ≠ bp.index.setWidth 64

/-- The part of `handle` in which an operation takes a step. -/
def answerStep (d : DebugModule) : GdbM Unit := do
  modify fun s => s.withDebugModule d
  stepQueue
  write

/-- The queue is empty after at most `n` steps. -/
def CompletesIn (P : GdbServer → Prop) : Nat → GdbServer → Prop
  | 0, s => s.operationQueue = [] ∧ P s
  | n + 1, s =>
      (s.operationQueue = [] ∧ P s) ∨
        s.operationQueue ≠ [] ∧
          ∀ d, Plausible s d → Does (answerStep d) s fun _ s' => CompletesIn P n s'

theorem CompletesIn.done (hq : s.operationQueue = []) (h : P s) : CompletesIn P n s := by
  cases n with
  | zero => exact ⟨hq, h⟩
  | succ n => exact .inl ⟨hq, h⟩

theorem CompletesIn.mono {m : Nat} (h : CompletesIn P n s) (hle : n ≤ m) :
    CompletesIn P m s := by
  induction n generalizing m s with
  | zero => exact .done h.1 h.2
  | succ n ih =>
      obtain ⟨m, rfl⟩ : ∃ k, m = k + 1 := ⟨m - 1, by omega⟩
      rcases h with hdone | ⟨hq, hstep⟩
      · exact .inl hdone
      · exact .inr ⟨hq, fun d hd => (hstep d hd).imp fun _ _ h' => ih h' (by omega)⟩

theorem CompletesIn.imp (h : CompletesIn P n s) (hP : ∀ s, P s → P' s) : CompletesIn P' n s := by
  induction n generalizing s with
  | zero => exact ⟨h.1, hP _ h.2⟩
  | succ n ih =>
      rcases h with hdone | ⟨hq, hstep⟩
      · exact .inl ⟨hdone.1, hP _ hdone.2⟩
      · exact .inr ⟨hq, fun d hd => (hstep d hd).imp fun _ _ h' => ih h'⟩

/-- The server after a step of the operation at the front of the queue. -/
def GdbServer.advance (s : GdbServer) (r : Option Operation) (step : Nat) : GdbServer :=
  { s with
    operationQueue :=
      match r with
      | none => s.operationQueue.tail
      | some op => (op, step + 1) :: s.operationQueue.tail
    sendBuf := s.sendBuf.writeOut }

theorem run_answerStep {op : Operation} {step : Nat} {rest : List (Operation × Nat)}
    {d : DebugModule} {r : Option Operation} {s' : GdbServer}
    (hq : s.operationQueue = (op, step) :: rest)
    (hrun : performStep step op (s.withDebugModule d) = .ok r s') :
    answerStep d s = .ok () (s'.advance r step) := by
  have hqueue : (s.withDebugModule d).operationQueue = (op, step) :: rest := hq
  simp only [answerStep, stepQueue, write, run_bind, run_modify, run_get, hqueue, hrun]
  cases r with
  | none => rfl
  | some op => rfl

/-- A step of the server is a step of the operation at the front. -/
theorem performStep_of_answerStep {op : Operation} {step : Nat} {rest : List (Operation × Nat)}
    {d : DebugModule} {s₁ : GdbServer} (hq : s.operationQueue = (op, step) :: rest)
    (h : answerStep d s = .ok () s₁) :
    ∃ r s', performStep step op (s.withDebugModule d) = .ok r s' := by
  cases hrun : performStep step op (s.withDebugModule d) with
  | ok r s' => exact ⟨r, s', rfl⟩
  | error e s' =>
      have hqueue : (s.withDebugModule d).operationQueue = (op, step) :: rest := hq
      simp only [answerStep, stepQueue, write, run_bind, run_modify, run_get, hqueue, hrun] at h
      cases h

/-- **The operation at the front takes a step.** -/
theorem CompletesIn.front {op : Operation} {step : Nat} {rest : List (Operation × Nat)}
    (hq : s.operationQueue = (op, step) :: rest)
    (h : ∀ d, Plausible s d → Does (performStep step op) (s.withDebugModule d) fun r s' =>
      CompletesIn P n (s'.advance r step)) : CompletesIn P (n + 1) s := by
  refine .inr ⟨by simp [hq], fun d hd => ?_⟩
  obtain ⟨r, s', hrun, hP⟩ := (h d hd).ok
  exact Does.of_ok (run_answerStep hq hrun) hP

/-! ## What a step leaves alone -/

/-- `out` was sent, and the send buffer was written out. -/
structure After (s : GdbServer) (out : List Byte) (s' : GdbServer) : Prop where
  sent : s'.sent = s.sent ++ out
  size : s'.sendBuf.size = 0
  capacity : s'.sendBuf.capacity = s.sendBuf.capacity
  xlen : s'.xlen = s.xlen
  mstatus : s'.mstatus = s.mstatus
  dcsr : s'.dcsr = s.dcsr
  sptbr : s'.sptbr = s.sptbr
  sptbrValid : s'.sptbrValid = s.sptbrValid
  pteCache : s'.pteCache = s.pteCache

theorem Emits.advance {d : DebugModule} {s' : GdbServer} {out : List Byte}
    (h : Emits (s.withDebugModule d) out s') (hcap : s.sendBuf.capacity = 65536)
    (r : Option Operation) (step : Nat) : After s out (s'.advance r step) where
  sent := h.sent
  size := RingBuffer.size_writeOut (by rw [h.capacity]; exact hcap.le.trans (by decide))
  capacity := h.capacity
  xlen := h.xlen
  mstatus := h.mstatus
  dcsr := h.dcsr
  sptbr := h.sptbr
  sptbrValid := h.sptbrValid
  pteCache := h.pteCache

end SpikeSim.Gdb
