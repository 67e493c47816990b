/-
# One reply for each request

A request is answered by its handler, or by the last step of one of the operations that the
handler queues.  This module follows each request to its reply.  Some requests are answered
twice: the handlers of `P`, `Z0` and `z0` send `OK` and the operation that they queue sends a
reply of its own.  `m` with a length of zero, or with a reply that does not fit into the send
buffer, faults.  `Answerable` excludes these; every other request is answered exactly once.
-/

import SpikeSim.Gdb.Collect

namespace SpikeSim.Gdb

open Riscv (DebugModule)

variable {base : List Byte} {s : GdbServer} {n : Nat}

/-! ## States -/

/-- One frame was sent since `base`. -/
structure Answered (base : List Byte) (s : GdbServer) : Prop where
  sent : ∃ payload, Plain payload ∧ s.sent = base ++ frame payload
  wide : Wide s
  capacity : s.sendBuf.capacity = 65536

/-- Nothing was sent since `base`, and no more than the acknowledgement is in the buffer. -/
structure Waiting (base : List Byte) (s : GdbServer) : Prop where
  sent : s.sent = base
  wide : Wide s
  capacity : s.sendBuf.capacity = 65536
  size : s.sendBuf.size ≤ 1

theorem Waiting.roomy (h : Waiting base s) (d : DebugModule) : Roomy (s.withDebugModule d) 60000 :=
  ⟨h.capacity, by have := h.size; change s.sendBuf.size + 60000 + 1 < 65536; omega⟩

theorem Waiting.after {s' : GdbServer} (h : Waiting base s) (ha : After s [] s') :
    Waiting base s' :=
  ⟨by rw [ha.sent, h.sent, List.append_nil], by rw [Wide, ha.xlen]; exact h.wide,
    ha.capacity.trans h.capacity, ha.size.le.trans (Nat.zero_le 1)⟩

/-- A step replies, or it sends nothing and the operation goes on as `Next` says. -/
def StepReplies (s : GdbServer) (Next : Operation → Prop) (r : Option Operation)
    (s' : GdbServer) : Prop :=
  (r = none ∧ Replies s s') ∨ ∃ op, r = some op ∧ Next op ∧ Emits s [] s'

theorem StepReplies.of_silent {s' : GdbServer} {Next : Operation → Prop} {op : Operation}
    {r : Option Operation} (h : Emits s [] s' ∧ r = some op) (hn : Next op) :
    StepReplies s Next r s' :=
  .inr ⟨op, h.2, hn, h.1⟩

theorem StepReplies.trans {s' s'' : GdbServer} {Next : Operation → Prop} {r : Option Operation}
    (h : StepReplies s' Next r s'') (he : Emits s [] s') : StepReplies s Next r s'' := by
  rcases h with ⟨hr, payload, hplain, he'⟩ | ⟨op, hr, hn, he'⟩
  · exact .inl ⟨hr, payload, hplain, he.trans he'⟩
  · exact .inr ⟨op, hr, hn, he.trans he'⟩

/-- **The last operation in the queue replies.** -/
theorem completes_stepReplies {op : Operation} {step : Nat} (hw : Waiting base s)
    (hq : s.operationQueue = [(op, step)]) (Next : DebugModule → Operation → Prop)
    (h : ∀ d, Plausible s d →
      Does (performStep step op) (s.withDebugModule d) (StepReplies (s.withDebugModule d) (Next d)))
    (hnext : ∀ d op' s', Next d op' → After s [] s' → s'.operationQueue = [(op', step + 1)] →
      CompletesIn (Answered base) n s') : CompletesIn (Answered base) (n + 1) s := by
  apply CompletesIn.front hq
  intro d hd
  apply (h d hd).imp
  rintro r s' (⟨rfl, payload, hplain, he⟩ | ⟨op', rfl, hop', he⟩)
  · have ha := he.advance hw.capacity none step
    apply CompletesIn.done
    · simp only [GdbServer.advance, he.operationQueue]
      exact congrArg List.tail hq
    · exact ⟨⟨payload, hplain, by rw [ha.sent, hw.sent]⟩, by rw [Wide, ha.xlen]; exact hw.wide,
        ha.capacity.trans hw.capacity⟩
  · apply hnext d op' _ hop' (he.advance hw.capacity _ step)
    simp only [GdbServer.advance, he.operationQueue]
    exact congrArg _ (congrArg List.tail hq)

/-! ## Registers -/

theorem quiet_switchFpOn : Quiet switchFpOn :=
  (Quiet.drWriteLoad _ _ _).bind fun _ => Quiet.get.bind fun _ => (Quiet.drWrite _ _).bind fun _ =>
    (Quiet.drWrite32 _ _).bind fun _ => Quiet.modify
      (fun _ => ⟨(List.append_nil _).symm, rfl, rfl, rfl, rfl, rfl, rfl, rfl, rfl, rfl⟩)
      fun _ => rfl

/-- A reply, and the operation is complete. -/
theorem does_reply {x : GdbM Unit} {Next : Operation → Prop}
    (h : Does x s fun _ s' => Replies s s') :
    Does (x >>= fun _ => pure none) s (StepReplies s Next) := by
  apply Does.bind h
  exact fun _ s' hr => Does.of_ok rfl (.inl ⟨rfl, hr⟩)

/-- A step that sends nothing. -/
theorem does_silent {x : GdbM (Option Operation)} {Next : Operation → Prop} {op : Operation}
    (h : Silent x (· = some op)) (hs : Wide s) (hn : Next op) : Does x s (StepReplies s Next) :=
  (h.at hs).imp fun _ _ hr => .of_silent hr hn

/-- The value is read between the start and the end of the packet. -/
theorem does_replyPriv (h : Roomy s 20) : Does replyPriv s fun _ s' => Replies s s' := by
  let payload (s : GdbServer) : List Byte := hexByte ((getField s.dcsr 3).setWidth 8)
  have hpacket := does_packet (get >>= fun s => send (payload s)) (payload s)
    (h.mono (show 6 ≤ 20 by decide)) fun s' he => by
      have hroom₁ : Roomy s ([ascii '$'].length + 2) := h.mono (show 3 ≤ 20 by decide)
      have hroom : Roomy s' 2 := Roomy.emits hroom₁ he
      have hsame : payload s = payload s' := by simp only [payload, he.dcsr]
      rw [hsame]
      have hsend : Sends (send (payload s')) s' (payload s') := sends_send hroom
      exact Does.get_bind hsend
  rw [bind_assoc] at hpacket
  exact hpacket.imp fun _ _ he => ⟨_, plain_hexByte _, he⟩

/-- Quiet code, and then a step that replies. -/
theorem Quiet.thenReplies {α : Type} {x : GdbM α} {f : α → GdbM (Option Operation)}
    {Next : Operation → Prop} {room : Nat} (hx : Quiet x) (hs : Wide s) (hroom : Roomy s room)
    (hf : ∀ a s', Wide s' → Roomy s' room → Does (f a) s' (StepReplies s' Next)) :
    Does (x >>= f) s (StepReplies s Next) := by
  apply hx.next hs
  intro a s' he _
  exact (hf a s' (he.wide hs) (hroom.silent he)).imp fun _ _ h => h.trans he

theorem does_stepRegisterRead_zero (reg : Word) (hs : Wide s) (hroom : Roomy s 20) :
    Does (stepRegisterRead reg 0) s (StepReplies s (· = .registerRead reg)) := by
  have hlast : Silent (do setInterrupt; return some (Operation.registerRead reg))
      (· = some (.registerRead reg)) := Quiet.setInterrupt.followed fun _ => Silent.pure rfl
  rw [stepRegisterRead]
  apply Does.get_bind
  dsimp only
  by_cases hx : reg ≤ 31
  · rw [if_pos hx]
    exact does_silent ((Quiet.drWrite32 _ _).followed fun _ =>
      (Quiet.drWriteJump _).followed fun _ => hlast) hs rfl
  rw [if_neg hx]
  by_cases hpc : reg = regPc
  · rw [if_pos hpc]
    apply Does.get_bind
    exact does_reply (does_replyXlen hroom)
  rw [if_neg hpc]
  by_cases hf : regFpr0 ≤ reg ∧ reg ≤ regFpr31
  · rw [if_pos hf]
    exact does_silent (quiet_switchFpOn.followed fun _ => (Quiet.drWrite32 _ _).followed fun _ =>
      (Quiet.drWriteJump _).followed fun _ => hlast) hs rfl
  rw [if_neg hf]
  by_cases hm : reg = regMstatus
  · rw [if_pos hm]
    apply Does.get_bind
    exact does_reply (does_replyXlen hroom)
  rw [if_neg hm]
  by_cases hc : regCsr0 ≤ reg ∧ reg ≤ regCsr4095
  · rw [if_pos hc]
    exact does_silent ((Quiet.drWrite32 _ _).followed fun _ =>
      (Quiet.drWriteStore _ rfl).followed fun _ => (Quiet.drWriteJump _).followed fun _ =>
      (Quiet.drWrite _ _).followed fun _ => hlast) hs rfl
  rw [if_neg hc]
  by_cases hp : reg = regPriv
  · rw [if_pos hp]
    exact does_reply (does_replyPriv hroom)
  rw [if_neg hp]
  exact does_reply (replies_sendPacket (by decide) (hroom.mono (by decide)))

/-- An exception is reported, or else the step goes on. -/
theorem does_exceptionHit {error : String} {x : GdbM (Option Operation)}
    {Next : Operation → Prop} {room : Nat} (hs : Wide s) (hplain : Plain (text error))
    (hlen : (text error).length + 4 ≤ room) (hroom : Roomy s room)
    (hx : ∀ s', Wide s' → Roomy s' room → Does x s' (StepReplies s' Next)) :
    Does (do
      if ← exceptionHit then
        sendPacket error
        return none
      x) s (StepReplies s Next) := by
  apply Quiet.exceptionHit.thenReplies hs hroom
  intro hit s' hs' hroom'
  cases hit with
  | false => exact hx s' hs' hroom'
  | true => exact does_reply (replies_sendPacket hplain (hroom'.mono hlen))

theorem does_stepRegisterRead_one (reg : Word) (hs : Wide s) (hroom : Roomy s 20) :
    Does (stepRegisterRead reg 1) s (StepReplies s fun _ => False) := by
  rw [stepRegisterRead]
  apply does_exceptionHit hs (by decide) (by decide) hroom
  intro s' hs' hroom'
  apply Does.get_bind
  dsimp only
  by_cases hx : s'.xlen = 32
  · rw [if_pos hx]
    apply (Quiet.drRead32 _).thenReplies hs' hroom'
    exact fun _ _ _ hroom => does_reply (does_replyXlen hroom)
  · rw [if_neg hx]
    apply (Quiet.drRead _).thenReplies hs' hroom'
    exact fun _ _ _ hroom => does_reply (does_replyXlen hroom)

theorem completes_registerRead (reg : Word) (hw : Waiting base s)
    (hq : s.operationQueue = [(.registerRead reg, 0)]) : CompletesIn (Answered base) 2 s := by
  have hroom (s : GdbServer) (d : DebugModule) (hw : Waiting base s) :
      Roomy (s.withDebugModule d) 20 := (hw.roomy d).mono (by decide)
  apply completes_stepReplies hw hq fun _ op => op = .registerRead reg
  · exact fun d _ => does_stepRegisterRead_zero reg hw.wide (hroom s d hw)
  rintro d _ s' rfl ha hq'
  have hw' := hw.after ha
  apply completes_stepReplies hw' hq' fun _ _ => False
  · exact fun d' _ => does_stepRegisterRead_one reg hw'.wide (hroom s' d' hw')
  · exact fun _ _ _ h => h.elim

/-! ## General registers -/

/-- Something is added to the payload of the packet. -/
def Adds (s s' : GdbServer) : Prop :=
  ∃ out, Plain out ∧ Emits s out s' ∧ s'.runningChecksum = out.foldl (· + ·) s.runningChecksum

theorem Adds.trans {s s' s'' : GdbServer} (h : Adds s s') (h' : Adds s' s'') : Adds s s'' := by
  obtain ⟨out, hp, he, hc⟩ := h
  obtain ⟨out', hp', he', hc'⟩ := h'
  exact ⟨out ++ out', hp.append hp', he.trans he', by rw [hc', hc, List.foldl_append]⟩

/-- A packet was begun. -/
structure InPacket (base : List Byte) (s : GdbServer) : Prop where
  payload : ∃ payload, Plain payload ∧ s.sent = base ++ ascii '$' :: payload ∧
    s.runningChecksum = checksum payload
  wide : Wide s
  capacity : s.sendBuf.capacity = 65536
  size : s.sendBuf.size ≤ 1

theorem Adds.wide {s s' : GdbServer} (h : Adds s s') (hs : Wide s) : Wide s' := by
  obtain ⟨_, -, he, -⟩ := h
  exact he.wide hs

/-- A value that the hart left in the debug RAM is sent. -/
theorem does_sendSlot {γ : Type} (slot : Slot) {f : GdbM γ} {Q : γ → GdbServer → Prop}
    {room : Nat} (hs : Wide s) (hroom : Roomy s (16 + room))
    (hf : ∀ s', Adds s s' → Roomy s' room → Does f s' Q) :
    Does (do sendXlen (← drRead slot); f) s Q := by
  apply (Quiet.drRead slot).next hs
  intro value s₁ he₁ hc₁
  have hroom₁ := hroom.silent he₁
  have hsend : Sends (sendXlen value) s₁ _ := sends_sendXlen (hroom₁.mono (by omega))
  apply Does.bind hsend
  rintro _ s' ⟨he, hc⟩
  have hlen := length_xlenDigits s₁.xlen value
  apply hf s' ⟨_, plain_xlenDigits _ _, he₁.trans he, by rw [hc, hc₁]⟩
  exact Roomy.emits (hroom₁.mono (by omega)) he

/-- The program that stores the next two registers. -/
theorem silent_nextRegisters (step : Nat) (currentReg : Word) :
    Silent (do
      if currentReg = s1 then
        drWriteLoad 0 s1 .dataLast
        drWriteStore 1 currentReg .data0
        drWriteStore 2 (currentReg + 1) .data1
        drWriteJump 3
      else if currentReg + 1 = s0 then
        drWriteStore 0 currentReg .data0
        drWrite32 1 (csrr s0 (csrWord .dscratch))
        drWriteStore 2 (currentReg + 1) .data1
        drWriteJump 3
      else
        drWriteStore 0 currentReg .data0
        if step < 15 then
          drWriteStore 1 (currentReg + 1) .data1
          drWriteJump 2
        else
          drWriteJump 1
      setInterrupt
      return some Operation.generalRegistersRead) (· = some .generalRegistersRead) := by
  have hlast : Silent (do setInterrupt; return some Operation.generalRegistersRead)
      (· = some .generalRegistersRead) := Quiet.setInterrupt.followed fun _ => Silent.pure rfl
  dsimp only
  split
  · exact (Quiet.drWriteLoad _ _ _).followed fun _ => (Quiet.drWriteStore _ rfl).followed fun _ =>
      (Quiet.drWriteStore _ rfl).followed fun _ => (Quiet.drWriteJump _).followed fun _ => hlast
  split
  · exact (Quiet.drWriteStore _ rfl).followed fun _ => (Quiet.drWrite32 _ _).followed fun _ =>
      (Quiet.drWriteStore _ rfl).followed fun _ => (Quiet.drWriteJump _).followed fun _ => hlast
  apply (Quiet.drWriteStore _ rfl).followed
  intro _
  split
  · exact (Quiet.drWriteStore _ rfl).followed fun _ => (Quiet.drWriteJump _).followed fun _ => hlast
  · exact (Quiet.drWriteJump _).followed fun _ => hlast

theorem does_generalRegisters_zero (hs : Wide s) (hroom : Roomy s 40) :
    Does (stepGeneralRegistersRead 0) s fun r s' => r = some .generalRegistersRead ∧
      ∃ out, Plain out ∧ Emits s (ascii '$' :: out) s' ∧ s'.runningChecksum = checksum out := by
  have hprogram : Silent (do
      drWriteStore 0 1 .data0
      drWriteStore 1 2 .data1
      drWriteJump 2
      setInterrupt
      return some Operation.generalRegistersRead) (· = some .generalRegistersRead) :=
    (Quiet.drWriteStore _ rfl).followed fun _ => (Quiet.drWriteStore _ rfl).followed fun _ =>
      (Quiet.drWriteJump _).followed fun _ => Quiet.setInterrupt.followed fun _ => Silent.pure rfl
  rw [stepGeneralRegistersRead, if_pos rfl]
  apply Does.bind (does_startPacket (hroom.mono (by decide)))
  rintro _ s₁ ⟨he₁, hc₁⟩
  have hroom₀ : Roomy s ([ascii '$'].length + 16) := hroom.mono (show 17 ≤ 40 by decide)
  have hsend : Sends (sendXlen 0) s₁ _ := sends_sendXlen (Roomy.emits hroom₀ he₁)
  apply Does.bind hsend
  rintro _ s₂ ⟨he₂, hc₂⟩
  apply (hprogram s₂ (he₂.wide (he₁.wide hs))).imp
  rintro _ s₃ ⟨he₃, hc₃, rfl⟩
  refine ⟨rfl, xlenDigits s₁.xlen 0, plain_xlenDigits _ _, ?_, ?_⟩
  · simpa using (he₁.trans he₂).trans he₃
  · rw [hc₃, hc₂, hc₁]
    rfl

theorem does_generalRegisters {step : Nat} (hstep : step ≠ 0) (hlast : step < 16) (hs : Wide s)
    (hroom : Roomy s 40) :
    Does (stepGeneralRegistersRead step) s fun r s' =>
      r = some .generalRegistersRead ∧ Adds s s' := by
  rw [stepGeneralRegistersRead, if_neg hstep, if_neg (Nat.not_le.mpr hlast)]
  apply does_sendSlot .data0 hs (hroom.mono (show 16 + 16 ≤ 40 by decide))
  intro s₁ ha₁ hroom₁
  apply does_sendSlot .data1 (ha₁.wide hs) (hroom₁.mono (show 16 + 0 ≤ 16 from le_rfl))
  intro s₂ ha₂ _
  apply (silent_nextRegisters step _ s₂ (ha₂.wide (ha₁.wide hs))).imp
  rintro _ s₃ ⟨he₃, hc₃, rfl⟩
  exact ⟨rfl, (ha₁.trans ha₂).trans ⟨[], by decide, he₃, hc₃⟩⟩

theorem does_generalRegisters_last (hs : Wide s) (hroom : Roomy s 40) :
    Does (stepGeneralRegistersRead 16) s fun r s' => r = none ∧
      ∃ out, Plain out ∧ Emits s (out ++ ascii '#' ::
        hexByte (out.foldl (· + ·) s.runningChecksum)) s' := by
  rw [stepGeneralRegistersRead, if_neg (by decide), if_pos le_rfl]
  apply does_sendSlot .data0 hs (hroom.mono (show 16 + 3 ≤ 40 by decide))
  rintro s₁ ⟨out, hplain, he₁, hc₁⟩ hroom₁
  apply Does.bind (does_endPacket hroom₁)
  intro _ s₂ he₂
  rw [hc₁] at he₂
  exact Does.of_ok rfl ⟨rfl, out, hplain, he₁.trans he₂⟩

theorem InPacket.roomy (h : InPacket base s) (d : DebugModule) : Roomy (s.withDebugModule d) 40 :=
  ⟨h.capacity, by have := h.size; change s.sendBuf.size + 40 + 1 < 65536; omega⟩

theorem InPacket.advance {s' : GdbServer} {d : DebugModule} (h : InPacket base s)
    (ha : Adds (s.withDebugModule d) s') (r : Option Operation) (step : Nat) :
    InPacket base (s'.advance r step) := by
  obtain ⟨payload, hplain, hsent, hcheck⟩ := h.payload
  obtain ⟨out, hplain', he, hcheck'⟩ := ha
  have hafter := he.advance h.capacity r step
  refine ⟨⟨payload ++ out, hplain.append hplain', ?_, ?_⟩, ?_, hafter.capacity.trans h.capacity,
    hafter.size.le.trans (Nat.zero_le 1)⟩
  · rw [hafter.sent, hsent]
    simp
  · change s'.runningChecksum = _
    rw [hcheck', checksum_append, ← hcheck]
    rfl
  · rw [Wide, hafter.xlen]
    exact h.wide

/-- The packet is completed by the last step. -/
theorem completes_inPacket {step : Nat} (hstep : step ≠ 0) (hn : step + n = 16)
    (hp : InPacket base s) (hq : s.operationQueue = [(.generalRegistersRead, step)]) :
    CompletesIn (Answered base) (n + 1) s := by
  induction n generalizing s step with
  | zero =>
      obtain rfl : step = 16 := hn
      apply CompletesIn.front hq
      intro d _
      apply (does_generalRegisters_last (hp.wide.withDebugModule d) (hp.roomy d)).imp
      rintro _ s' ⟨rfl, out, hplain', he⟩
      have ha := he.advance hp.capacity none 16
      obtain ⟨payload, hplain, hsent, hcheck⟩ := hp.payload
      apply CompletesIn.done
      · simp only [GdbServer.advance, he.operationQueue]
        exact congrArg List.tail hq
      refine ⟨⟨payload ++ out, hplain.append hplain', ?_⟩, by rw [Wide, ha.xlen]; exact hp.wide,
        ha.capacity.trans hp.capacity⟩
      have hsum : (s.withDebugModule d).runningChecksum = checksum payload := hcheck
      rw [ha.sent, hsent, hsum, ← checksum_append]
      simp [frame]
  | succ n ih =>
      apply CompletesIn.front hq
      intro d _
      apply (does_generalRegisters hstep (by omega) (hp.wide.withDebugModule d) (hp.roomy d)).imp
      rintro _ s' ⟨rfl, ha⟩
      obtain ⟨_, -, he, -⟩ := id ha
      apply ih step.succ_ne_zero (by omega) (hp.advance ha _ step)
      simp only [GdbServer.advance, he.operationQueue]
      exact congrArg _ (congrArg List.tail hq)

theorem completes_generalRegistersRead (hw : Waiting base s)
    (hq : s.operationQueue = [(.generalRegistersRead, 0)]) :
    CompletesIn (Answered base) 17 s := by
  apply CompletesIn.front hq
  intro d _
  apply (does_generalRegisters_zero (hw.wide.withDebugModule d) ((hw.roomy d).mono (by decide))).imp
  rintro _ s' ⟨rfl, out, hplain, he, hc⟩
  have ha := he.advance hw.capacity (some .generalRegistersRead) 0
  apply completes_inPacket Nat.one_ne_zero (n := 15) rfl
  · exact ⟨⟨out, hplain, by rw [ha.sent, hw.sent], hc⟩, by rw [Wide, ha.xlen]; exact hw.wide,
      ha.capacity.trans hw.capacity, ha.size.le.trans (Nat.zero_le 1)⟩
  · simp only [GdbServer.advance, he.operationQueue]
    exact congrArg _ (congrArg List.tail hq)

end SpikeSim.Gdb
