/-
# Every request is answered once

`handle` takes a packet from the receive buffer only when the queue is empty, so a request
is handled in a state in which everything before it is complete.  From there its handler and
the operations that it queues send the acknowledgement and one frame.
-/

import SpikeSim.Gdb.MemoryReplies

namespace SpikeSim.Gdb

open Riscv (DebugModule)

variable {base : List Byte} {s : GdbServer} {n : Nat}

/-! ## Reading a packet -/

/-- The end of the packet is still ahead. -/
def Ends (iter : List Byte) : Prop := ascii '#' ∈ iter

theorem Ends.consumeHexFrom {iter : List Byte} (value : Reg) (h : Ends iter) :
    Ends (consumeHexFrom value iter).2 := by
  induction iter generalizing value with
  | nil => exact h
  | cons c iter ih =>
      rw [Gdb.consumeHexFrom]
      split
      · exact h
      · next hdigit =>
          apply ih
          rcases List.mem_cons.mp h with rfl | hmem
          · exact absurd (show 15 < characterHexValue (ascii '#') by decide) hdigit
          · exact hmem

theorem Ends.consumeHexNumber {iter iter' : List Byte} {value : Reg} (h : Ends iter)
    (hc : consumeHexNumber iter = (value, iter')) : Ends iter' := by
  have hend := h.consumeHexFrom 0
  rw [show Gdb.consumeHexFrom 0 iter = (value, iter') from hc] at hend
  exact hend

theorem Ends.consumeHexLeFrom {iter iter' : List Byte} {value value' : Reg} {shift : Nat}
    (h : Ends iter) (hc : consumeHexLeFrom value shift iter = some (value', iter')) :
    Ends iter' := by
  induction iter generalizing value shift with
  | nil => exact absurd h List.not_mem_nil
  | cons c iter ih =>
      rw [Gdb.consumeHexLeFrom] at hc
      split at hc
      · cases hc
        exact h
      · next hdigit =>
          split at hc
          · cases hc
          · apply ih _ hc
            rcases List.mem_cons.mp h with rfl | hmem
            · exact absurd (show 15 < characterHexValue (ascii '#') by decide) hdigit
            · exact hmem

theorem Ends.ne_nil {iter : List Byte} (h : Ends iter) : iter ≠ [] := List.ne_nil_of_mem h

/-- The byte under the iterator. -/
theorem run_peek {iter : List Byte} (h : iter ≠ []) : peek iter s = .ok (iter.headD 0) s := by
  cases iter with
  | nil => exact absurd rfl h
  | cons c iter => rfl

theorem Ends.drop {iter : List Byte} (h : Ends iter) (hne : iter.headD 0 ≠ ascii '#') :
    Ends (iter.drop 1) := by
  cases iter with
  | nil => exact h
  | cons c iter => exact (List.mem_cons.mp h).resolve_left fun heq => hne heq.symm

/-! ## Handlers that reply at once -/

/-- The code leads to one frame. -/
def Responds (base : List Byte) (x : GdbM Unit) (s : GdbServer) : Prop :=
  Does x s fun _ s' => ∃ n, CompletesIn (Answered base) n s'

/-- A request is about to be handled; its acknowledgement was sent. -/
structure Handling (base : List Byte) (s : GdbServer) : Prop extends Waiting base s where
  operationQueue : s.operationQueue = []

theorem Handling.roomy (h : Handling base s) : Roomy s 60000 :=
  ⟨h.capacity, by have := h.size; omega⟩

/-- A reply, and nothing is queued. -/
theorem Handling.responds {x : GdbM Unit} (h : Handling base s)
    (hx : Does x s fun _ s' => Replies s s') : Responds base x s := by
  apply hx.imp
  rintro _ s' ⟨payload, hplain, he⟩
  refine ⟨0, he.operationQueue.trans h.operationQueue, ⟨payload, hplain, ?_⟩, he.wide h.wide,
    he.capacity.trans h.capacity⟩
  rw [he.sent, h.sent]

theorem Handling.sendPacket {data : String} (h : Handling base s) (hplain : Plain (text data))
    (hlen : (text data).length ≤ 50) : Responds base (sendPacket data) s :=
  h.responds (replies_sendPacket hplain (h.roomy.mono (by omega)))

/-- Code that only looks at the packet. -/
theorem Responds.bind_ok {α : Type} {x : GdbM α} {f : α → GdbM Unit} {a : α}
    (h : x s = .ok a s) (hf : Responds base (f a) s) : Responds base (x >>= f) s :=
  Does.bind_ok h hf

/-- A character that must be there. -/
theorem Handling.expect {iter : List Byte} {c : Byte} {error : String} {rest : GdbM Unit}
    (h : Handling base s) (hne : iter ≠ []) (hplain : Plain (text error))
    (hlen : (text error).length ≤ 50) (hrest : iter.headD 0 = c → Responds base rest s) :
    Responds base (do if (← peek iter) ≠ c then Gdb.sendPacket error else rest) s := by
  apply Responds.bind_ok (run_peek hne)
  by_cases hc : iter.headD 0 = c
  · rw [if_neg (not_not.mpr hc)]
    exact hrest hc
  · rw [if_pos hc]
    exact h.sendPacket hplain hlen

/-- Operations are queued. -/
theorem Handling.queue {x : GdbM Unit} {ops : List (Operation × Nat)} (h : Handling base s)
    (hx : x s = .ok () { s with operationQueue := ops })
    (hc : ∀ s', Waiting base s' → s'.operationQueue = ops → s'.mstatus = s.mstatus →
      s'.dcsr = s.dcsr → s'.xlen = s.xlen → ∃ n, CompletesIn (Answered base) n s') :
    Responds base x s :=
  Does.of_ok hx (hc _ ⟨h.sent, h.wide, h.capacity, h.size⟩ rfl rfl rfl rfl)

theorem Handling.addOperation {op : Operation} (h : Handling base s) :
    addOperation op s = .ok () { s with operationQueue := [(op, 0)] } := by
  rw [Gdb.addOperation, run_modify, h.operationQueue]
  rfl

/-! ## Registers -/

theorem responds_registerRead {packet : List Byte} (h : Handling base s)
    (hend : Ends (packet.drop 2)) : Responds base (handleRegisterRead packet) s := by
  rcases hnum : consumeHexNumber (packet.drop 2) with ⟨reg, iter⟩
  simp only [handleRegisterRead, hnum]
  apply h.expect (hend.consumeHexNumber hnum).ne_nil (by decide) (by decide)
  intro _
  exact h.queue h.addOperation fun s' hw hq _ _ _ => ⟨2, completes_registerRead _ hw hq⟩

theorem responds_generalRegistersRead (h : Handling base s) :
    Responds base handleGeneralRegistersRead s :=
  h.queue h.addOperation fun _ hw hq _ _ _ => ⟨17, completes_generalRegistersRead hw hq⟩

/-- The registers that the server keeps a copy of. -/
def CopiedRegister (reg : Word) : Prop := reg = regPc ∨ reg = regMstatus ∨ reg = regPriv

instance (reg : Word) : Decidable (CopiedRegister reg) := by
  unfold CopiedRegister
  infer_instance

/-- Such a register is written without the hart. -/
theorem does_stepRegisterWrite {reg : Word} (value : Reg) (hreg : CopiedRegister reg)
    (hs : Wide s) :
    Does (stepRegisterWrite reg value 0) s fun r s' => r = none ∧ s'.sent = s.sent ∧
      s'.xlen = s.xlen ∧ s'.sendBuf.capacity = s.sendBuf.capacity ∧
      s'.operationQueue = s.operationQueue := by
  have hprogram : Quiet (do drWriteLoad 0 s0 .data0; drWrite .data0 value) :=
    (Quiet.drWriteLoad _ _ _).bind fun _ => Quiet.drWrite _ _
  rw [stepRegisterWrite, ← bind_assoc]
  apply hprogram.next hs
  intro _ s₁ he _
  have hsent : s₁.sent = s.sent := he.sent.trans (List.append_nil _)
  rcases hreg with rfl | rfl | rfl
  · exact Does.of_ok rfl ⟨rfl, hsent, he.xlen, he.capacity, he.operationQueue⟩
  · exact Does.of_ok rfl ⟨rfl, hsent, he.xlen, he.capacity, he.operationQueue⟩
  · exact Does.of_ok rfl ⟨rfl, hsent, he.xlen, he.capacity, he.operationQueue⟩

theorem completes_registerWrite {reg : Word} {value : Reg} (h : Answered base s)
    (hreg : CopiedRegister reg) (hq : s.operationQueue = [(.registerWrite reg value, 0)]) :
    CompletesIn (Answered base) 1 s := by
  apply CompletesIn.front hq
  intro d _
  apply (does_stepRegisterWrite value hreg (h.wide.withDebugModule d)).imp
  rintro _ s' ⟨rfl, hsent, hxlen, hcap, hqueue⟩
  obtain ⟨payload, hplain, hbase⟩ := h.sent
  apply CompletesIn.done
  · exact (congrArg List.tail hqueue).trans (congrArg List.tail hq)
  · refine ⟨⟨payload, hplain, hsent.trans hbase⟩, ?_, hcap.trans h.capacity⟩
    change s'.xlen = 32 ∨ s'.xlen = 64
    rw [hxlen]
    exact h.wide

/-- Something is queued, and then a reply is sent. -/
theorem Handling.queueReply {x : GdbM Unit} {ops : List (Operation × Nat)} {data : String}
    (h : Handling base s) (hx : x s = .ok () { s with operationQueue := ops })
    (hplain : Plain (text data)) (hlen : (text data).length ≤ 50)
    (hc : ∀ s', Answered base s' → s'.operationQueue = ops →
      CompletesIn (Answered base) n s') : Responds base (do x; Gdb.sendPacket data) s := by
  apply Does.bind_ok hx
  have hroom : Roomy { s with operationQueue := ops } ((text data).length + 4) :=
    ⟨h.capacity, (h.roomy.mono (show (text data).length + 4 ≤ 60000 by omega)).size⟩
  apply (does_sendPacket hroom).imp
  intro _ s' he
  refine ⟨n, hc s' ⟨⟨_, hplain, ?_⟩, he.wide h.wide, he.capacity.trans h.capacity⟩
    he.operationQueue⟩
  rw [he.sent]
  exact congrArg (· ++ frame (text data)) h.sent

/-- When the reply to `P` is the only one. -/
def RegisterWriteAnswerable (packet : List Byte) : Prop :=
  let (reg, iter) := consumeHexNumber (packet.drop 2)
  iter.headD 0 = ascii '=' →
    match consumeHexNumberLe (iter.drop 1) with
    | none => False
    | some (_, iter) => iter.headD 0 = ascii '#' → CopiedRegister (reg.setWidth 32)

theorem responds_registerWrite {packet : List Byte} (h : Handling base s)
    (hend : Ends (packet.drop 2)) (hok : RegisterWriteAnswerable packet) :
    Responds base (handleRegisterWrite packet) s := by
  rcases hnum : consumeHexNumber (packet.drop 2) with ⟨reg, iter⟩
  simp only [RegisterWriteAnswerable, hnum] at hok
  simp only [handleRegisterWrite, hnum]
  have hend₁ := hend.consumeHexNumber hnum
  apply h.expect hend₁.ne_nil (by decide) (by decide)
  intro heq
  have hend₂ := hend₁.drop (by rw [heq]; decide)
  rcases hle : consumeHexNumberLe (iter.drop 1) with _ | ⟨value, iter'⟩
  · rw [hle] at hok
    exact (hok heq).elim
  · rw [hle] at hok
    apply h.expect (hend₂.consumeHexLeFrom hle).ne_nil (by decide) (by decide)
    intro hhash
    exact h.queueReply h.addOperation (by decide) (by decide) fun s' ha hq =>
      completes_registerWrite ha (hok heq hhash) hq

/-! ## Memory -/

/-- The entries of the page tables are collected first. -/
theorem Handling.collect {x : GdbM Unit} {vaddr : Reg} {op : Operation} (h : Handling base s)
    (htables : TablesKnown s)
    (hx : x s = .ok () { s with
      operationQueue := [(newCollectTranslationInfo vaddr, 0), (op, 0)] })
    (hc : ∀ s', Waiting base s' → Translates s' vaddr → s'.operationQueue = [(op, 0)] →
      CompletesIn (Answered base) n s') : Responds base x s := by
  apply h.queue hx
  intro s' hw hq hmstatus hdcsr hxlen
  have htables' : TablesKnown s' := by
    rw [TablesKnown, virtualMemory_congr hmstatus hdcsr, hxlen]
    exact htables
  refine ⟨_, completes_collect (n := n) hw.wide hw.capacity htables' hq ?_⟩
  intro s'' hg htranslates hq'
  apply hc s'' _ htranslates hq'
  refine ⟨hg.sent.trans hw.sent, ?_, hg.capacity.trans hw.capacity, hg.size.le.trans (Nat.zero_le 1)⟩
  rw [Wide, hg.xlen]
  exact hw.wide

theorem Handling.addOperations {op op' : Operation} (h : Handling base s) :
    (do Gdb.addOperation op; Gdb.addOperation op') s =
      .ok () { s with operationQueue := [(op, 0), (op', 0)] } := by
  rw [bind_eq_of_ok h.addOperation]
  rfl

/-- The mode is one that the server knows, and the reply fits into the send buffer. -/
def MemoryReadAnswerable (packet : List Byte) (s : GdbServer) : Prop :=
  let (_, iter) := consumeHexNumber (packet.drop 2)
  let (length, iter') := consumeHexNumber (iter.drop 1)
  iter.headD 0 = ascii ',' → iter'.headD 0 = ascii '#' →
    TablesKnown s ∧ length.setWidth 32 ≠ (0 : Word) ∧ (length.setWidth 32 : Word).toNat ≤ 32765

theorem responds_memoryRead {packet : List Byte} (h : Handling base s)
    (hend : Ends (packet.drop 2)) (hok : MemoryReadAnswerable packet s) :
    Responds base (handleMemoryRead packet) s := by
  rcases haddress : consumeHexNumber (packet.drop 2) with ⟨address, iter⟩
  rcases hlength : consumeHexNumber (iter.drop 1) with ⟨length, iter'⟩
  simp only [MemoryReadAnswerable, haddress, hlength] at hok
  simp only [handleMemoryRead, haddress, hlength]
  have hend₁ := hend.consumeHexNumber haddress
  apply h.expect hend₁.ne_nil (by decide) (by decide)
  intro hcomma
  have hend₂ := (hend₁.drop (by rw [hcomma]; decide)).consumeHexNumber hlength
  apply h.expect hend₂.ne_nil (by decide) (by decide)
  intro hhash
  obtain ⟨htables, hne, hmax⟩ := hok hcomma hhash
  exact h.collect htables h.addOperations fun s' hw htranslates hq =>
    completes_memoryRead hw htranslates hne hmax hq

/-- The mode is one that the server knows, and the data do not take all of the packet. -/
def MemoryWriteAnswerable (packet : List Byte) (s : GdbServer) : Prop :=
  let (_, iter) := consumeHexNumber (packet.drop 2)
  let (length, iter') := consumeHexNumber (iter.drop 1)
  iter.headD 0 = ascii ',' → iter'.headD 0 = ascii ':' → length ≠ 0 →
    match unescape length.toNat (iter'.drop 1) with
    | .error _ => True
    | .ok (_, iter) => iter ≠ [] ∧ (iter.headD 0 = ascii '#' → TablesKnown s)

theorem unescape_spec (length : Nat) (iter : List Byte) :
    match unescape length iter with
    | .error e => e = "E22" ∨ e = "E23"
    | .ok (data, _) => data.length = length := by
  induction length, iter using unescape.induct with
  | case1 iter => rfl
  | case2 length => exact .inl rfl
  | case3 length => exact .inr rfl
  | case4 length c iter ih =>
      rw [unescape.eq_def]
      simp only [if_true]
      rcases hrest : unescape length iter with e | ⟨data, iter'⟩
      · rw [hrest] at ih
        exact ih
      · rw [hrest] at ih
        exact congrArg Nat.succ ih
  | case5 length c iter hc ih =>
      rw [unescape.eq_def]
      simp only [if_neg hc]
      rcases hrest : unescape length iter with e | ⟨data, iter'⟩
      · rw [hrest] at ih
        exact ih
      · rw [hrest] at ih
        exact congrArg Nat.succ ih

theorem responds_memoryBinaryWrite {packet : List Byte} (h : Handling base s)
    (hend : Ends (packet.drop 2)) (hok : MemoryWriteAnswerable packet s) :
    Responds base (handleMemoryBinaryWrite packet) s := by
  rcases haddress : consumeHexNumber (packet.drop 2) with ⟨address, iter⟩
  rcases hlength : consumeHexNumber (iter.drop 1) with ⟨length, iter'⟩
  simp only [MemoryWriteAnswerable, haddress, hlength] at hok
  simp only [handleMemoryBinaryWrite, haddress, hlength]
  have hend₁ := hend.consumeHexNumber haddress
  apply h.expect hend₁.ne_nil (by decide) (by decide)
  intro hcomma
  have hend₂ := (hend₁.drop (by rw [hcomma]; decide)).consumeHexNumber hlength
  apply h.expect hend₂.ne_nil (by decide) (by decide)
  intro hcolon
  by_cases hzero : length = 0
  · rw [if_pos hzero]
    exact h.sendPacket (by decide) (by decide)
  rw [if_neg hzero]
  have hok := hok hcomma hcolon hzero
  have hspec := unescape_spec length.toNat (iter'.drop 1)
  rcases hdata : unescape length.toNat (iter'.drop 1) with e | ⟨data, iter''⟩
  · rw [hdata] at hspec
    rcases hspec with rfl | rfl
    · exact h.sendPacket (by decide) (by decide)
    · exact h.sendPacket (by decide) (by decide)
  · rw [hdata] at hok hspec
    obtain ⟨hmore, htables⟩ := hok
    apply h.expect hmore (by decide) (by decide)
    intro hhash
    have hne : data ≠ [] := by
      rintro rfl
      exact hzero (BitVec.eq_of_toNat_eq hspec.symm)
    have hwidth : (length.setWidth 32 : Word).toNat = data.length % 2 ^ 32 := by
      rw [BitVec.toNat_setWidth]
      exact congrArg (· % 2 ^ 32) (show length.toNat = data.length from hspec.symm)
    exact h.collect (htables hhash) h.addOperations fun s' hw htranslates hq =>
      completes_memoryWrite hw htranslates hne hwidth hq

/-! ## Breakpoints -/

/-- What a well-formed request for a breakpoint asks for. -/
def breakpointFields (packet : List Byte) : Option (Word × Reg × Word) :=
  let (type, iter) := consumeHexNumber (packet.drop 2)
  let (address, iter') := consumeHexNumber (iter.drop 1)
  let (size, iter'') := consumeHexNumber (iter'.drop 1)
  if iter.headD 0 = ascii ',' ∧ iter'.headD 0 = ascii ',' ∧ iter''.headD 0 = ascii '#' then
    some (type.setWidth 32, address, size.setWidth 32)
  else none

theorem exists_parseBreakpoint {packet : List Byte} (hend : Ends (packet.drop 2))
    (s : GdbServer) :
    ∃ r, parseBreakpoint packet s = .ok r s ∧
      match r with
      | .error e => e = "E50" ∨ e = "E51" ∨ e = "E52"
      | .ok fields => breakpointFields packet = some fields := by
  rcases htype : consumeHexNumber (packet.drop 2) with ⟨type, iter⟩
  rcases haddress : consumeHexNumber (iter.drop 1) with ⟨address, iter'⟩
  rcases hsize : consumeHexNumber (iter'.drop 1) with ⟨size, iter''⟩
  simp only [parseBreakpoint, breakpointFields, htype, haddress, hsize]
  have hend₁ := hend.consumeHexNumber htype
  rw [bind_eq_of_ok (run_peek hend₁.ne_nil)]
  by_cases hcomma : iter.headD 0 = ascii ','
  swap
  · exact ⟨.error "E50", by rw [if_pos hcomma]; rfl, .inl rfl⟩
  have hend₂ := (hend₁.drop (by rw [hcomma]; decide)).consumeHexNumber haddress
  rw [if_neg (not_not.mpr hcomma), bind_eq_of_ok (run_peek hend₂.ne_nil)]
  by_cases hcomma' : iter'.headD 0 = ascii ','
  swap
  · exact ⟨.error "E51", by rw [if_pos hcomma']; rfl, .inr (.inl rfl)⟩
  have hend₃ := (hend₂.drop (by rw [hcomma']; decide)).consumeHexNumber hsize
  rw [if_neg (not_not.mpr hcomma'), bind_eq_of_ok (run_peek hend₃.ne_nil)]
  by_cases hhash : iter''.headD 0 = ascii '#'
  swap
  · exact ⟨.error "E52", by rw [if_pos hhash]; rfl, .inr (.inr rfl)⟩
  rw [if_neg (not_not.mpr hhash)]
  exact ⟨_, rfl, if_pos ⟨hcomma, hcomma', hhash⟩⟩

/-- A software breakpoint is never answered once; a hardware breakpoint must be there to be
removed. -/
def BreakpointAnswerable (packet : List Byte) (insert : Bool) (s : GdbServer) : Prop :=
  ∀ type address size, breakpointFields packet = some (type, address, size) →
    (type = 0 → size ≠ 2 ∧ size ≠ 4) ∧
    (type ≠ 0 → type ≤ 4 → insert = false →
      (s.hardwareBreakpoints address size).isSome = true)

theorem Handling.hardwareBreakpointRemove {bp found : HardwareBreakpoint} (h : Handling base s)
    (hfound : s.hardwareBreakpoints bp.vaddr bp.size = some found) :
    Gdb.hardwareBreakpointRemove bp s = .ok () { s with
      operationQueue := [(.maybeSaveTselect, 0), (.hardwareBreakpointRemove found, 0)] } := by
  rw [Gdb.hardwareBreakpointRemove, bind_eq_of_ok h.addOperation]
  simp only [run_bind, run_get, hfound]
  rfl

theorem responds_breakpoint {packet : List Byte} {insert : Bool} (h : Handling base s)
    (hend : Ends (packet.drop 2)) (hok : BreakpointAnswerable packet insert s) :
    Responds base (handleBreakpoint packet insert) s := by
  obtain ⟨r, hrun, hr⟩ := exists_parseBreakpoint hend s
  apply Responds.bind_ok hrun
  rcases r with e | ⟨type, address, size⟩
  · rcases hr with rfl | rfl | rfl
    · exact h.sendPacket (by decide) (by decide)
    · exact h.sendPacket (by decide) (by decide)
    · exact h.sendPacket (by decide) (by decide)
  obtain ⟨hsoft, hhard⟩ := hok type address size hr
  by_cases hzero : type = 0
  · dsimp only
    rw [if_pos hzero, if_pos (hsoft hzero)]
    exact h.sendPacket (by decide) (by decide)
  by_cases hfour : type ≤ 4
  swap
  · dsimp only
    rw [if_neg hzero, if_neg hfour]
    exact h.sendPacket (by decide) (by decide)
  dsimp only
  rw [if_neg hzero, if_pos hfour]
  cases insert with
  | true =>
      apply h.queue h.addOperations
      exact fun s' hw hq _ _ _ => ⟨12, completes_hardwareBreakpointInsert hw hq⟩
  | false =>
      obtain ⟨found, hfound⟩ := Option.isSome_iff_exists.mp (hhard hzero hfour rfl)
      have hremove : Gdb.hardwareBreakpointRemove (requestedBreakpoint type address size) s = _ :=
        h.hardwareBreakpointRemove hfound
      exact h.queueReply hremove (by decide) (by decide) fun s' ha hq =>
        completes_hardwareBreakpointRemove ha hq

/-! ## Queries -/

/-- What `qSupported` answers to the features of gdb. -/
def supportedReply (wanted : List (List Byte)) : List Byte :=
  wanted.flatMap (fun feature => if feature = text "swbreak+" then text "swbreak+;" else []) ++
    text "PacketSize=131072;"

theorem sends_features {wanted : List (List Byte)} (h : Roomy s (supportedReply wanted).length) :
    Sends (do
      wanted.forM fun feature => do
        if feature = text "swbreak+" then send (text "swbreak+;")
      send (text "PacketSize=131072;")) s (supportedReply wanted) := by
  induction wanted generalizing s with
  | nil => exact sends_send h
  | cons feature wanted ih =>
      let out : List Byte := if feature = text "swbreak+" then text "swbreak+;" else []
      have hreply : supportedReply (feature :: wanted) = out ++ supportedReply wanted :=
        List.append_assoc _ _ _
      have hroom : Roomy s (out.length + (supportedReply wanted).length) := by
        rw [← List.length_append, ← hreply]
        exact h
      have hfirst : Sends (if feature = text "swbreak+" then send (text "swbreak+;") else pure ())
          s out := by
        by_cases hf : feature = text "swbreak+"
        · simp only [out, if_pos hf] at hroom ⊢
          exact sends_send (hroom.mono (Nat.le_add_right _ _))
        · simp only [out, if_neg hf]
          exact Does.of_ok rfl ⟨Emits.refl s, rfl⟩
      have hall := hfirst.bind fun _ s' he => ih (Roomy.emits hroom he)
      rw [hreply, List.forM, bind_assoc]
      exact hall

theorem plain_supportedReply (wanted : List (List Byte)) : Plain (supportedReply wanted) := by
  apply Plain.append _ (by decide)
  induction wanted with
  | nil => decide
  | cons feature wanted ih =>
      apply Plain.append _ ih
      dsimp only
      split
      · decide
      · decide

/-- The features that the packet asks for. -/
def wantedFeatures (packet : List Byte) : List (List Byte) :=
  features (((packet.drop 2).dropWhile (· ≠ ascii ':')).drop 1)

/-- The reply fits into the send buffer, after the acknowledgement. -/
def QueryAnswerable (packet : List Byte) : Prop :=
  (packet.drop 2).takeWhile (· ≠ ascii ':') = text "Supported" →
    (supportedReply (wantedFeatures packet)).length + 6 < 65536

theorem responds_query {packet : List Byte} (h : Handling base s) (hok : QueryAnswerable packet) :
    Responds base (handleQuery packet) s := by
  rw [handleQuery]
  by_cases hname : (packet.drop 2).takeWhile (· ≠ ascii ':') = text "Supported"
  · have hroom : Roomy s ((supportedReply (wantedFeatures packet)).length + 4) := by
      have := hok hname
      have := h.size
      exact ⟨h.capacity, by omega⟩
    have hpacket := does_packet _ _ hroom fun s' he =>
      sends_features (Roomy.emits (hroom.mono (by simp only [List.length_singleton]; omega)) he)
    simp only [bind_assoc] at hpacket
    rw [if_pos hname]
    exact h.responds (hpacket.imp fun _ _ he => ⟨_, plain_supportedReply _, he⟩)
  · rw [if_neg hname]
    exact h.sendPacket (by decide) (by decide)

/-! ## Packets -/

/-- A complete packet with the right checksum, for a command other than `c` and `s`. -/
structure IsRequest (packet : List Byte) : Prop where
  complete : complete packet = true
  checksum : computeChecksum packet = extractChecksum packet
  notContinue : packet.getD 1 0 ≠ ascii 'c'
  notStep : packet.getD 1 0 ≠ ascii 's'

/-- When a request is answered exactly once. -/
structure Answerable (packet : List Byte) (s : GdbServer) : Prop where
  registerWrite : packet.getD 1 0 = ascii 'P' → RegisterWriteAnswerable packet
  memoryRead : packet.getD 1 0 = ascii 'm' → MemoryReadAnswerable packet s
  memoryWrite : packet.getD 1 0 = ascii 'X' → MemoryWriteAnswerable packet s
  breakpointInsert : packet.getD 1 0 = ascii 'Z' → BreakpointAnswerable packet true s
  breakpointRemove : packet.getD 1 0 = ascii 'z' → BreakpointAnswerable packet false s
  query : packet.getD 1 0 = ascii 'q' ∨ packet.getD 1 0 = ascii 'Q' → QueryAnswerable packet

theorem complete_spec {packet : List Byte} (h : complete packet = true) :
    4 ≤ packet.length ∧ packet[packet.length - 3]? = some (ascii '#') := by
  simpa [complete] using h

/-- The command is not the end of the packet, so the end comes after it. -/
theorem ends_of_complete {packet : List Byte} (h : complete packet = true)
    (hne : packet.getD 1 0 ≠ ascii '#') : Ends (packet.drop 2) := by
  obtain ⟨hlen, hhash⟩ := complete_spec h
  have htwo : 2 ≤ packet.length - 3 := by
    by_contra hlt
    have hone : packet.length - 3 = 1 := by omega
    rw [hone] at hhash
    apply hne
    rw [List.getD_eq_getElem?_getD, hhash]
    rfl
  apply List.mem_of_getElem? (i := packet.length - 3 - 2)
  rw [List.getElem?_drop, ← hhash]
  congr 1
  omega

theorem run_command {packet : List Byte} (h : complete packet = true) (s : GdbServer) :
    peek (packet.drop 1) s = .ok (packet.getD 1 0) s := by
  obtain ⟨hlen, -⟩ := complete_spec h
  have hne : packet.drop 1 ≠ [] := by
    rw [Ne, List.drop_eq_nil_iff]
    omega
  rw [run_peek hne]
  cases packet with
  | nil => exact absurd rfl hne
  | cons c packet =>
      cases packet with
      | nil => exact absurd rfl hne
      | cons c' packet => rfl

theorem responds_extended (h : Handling base s) : Responds base handleExtended s := by
  apply Does.bind (does_sendPacket (h.roomy.mono (by decide)))
  intro _ s' he
  refine Does.of_ok rfl ⟨0, he.operationQueue.trans h.operationQueue, ⟨text "OK", by decide, ?_⟩,
    he.wide h.wide, he.capacity.trans h.capacity⟩
  change s'.sent = _
  rw [he.sent, h.sent]

theorem Responds.ite {c : Prop} [Decidable c] {x y : GdbM Unit} (hx : c → Responds base x s)
    (hy : ¬c → Responds base y s) : Responds base (if c then x else y) s := by
  by_cases hc : c
  · rw [if_pos hc]
    exact hx hc
  · rw [if_neg hc]
    exact hy hc

theorem responds_dispatch {packet : List Byte} (h : Handling base s) (hp : IsRequest packet)
    (hok : Answerable packet s) : Responds base (dispatch packet) s := by
  apply Responds.bind_ok (run_command hp.complete s)
  have hend {c : Byte} (hc : packet.getD 1 0 = c) (hne : c ≠ ascii '#') : Ends (packet.drop 2) :=
    ends_of_complete hp.complete (hc ▸ hne)
  refine Responds.ite (fun _ => responds_extended h) fun _ => ?_
  refine Responds.ite (fun _ => h.sendPacket (by decide) (by decide)) fun _ => ?_
  refine Responds.ite (fun _ => responds_generalRegistersRead h) fun _ => ?_
  refine Responds.ite (fun hc => responds_memoryRead h (hend hc (by decide)) (hok.memoryRead hc))
    fun _ => ?_
  refine Responds.ite (fun hc => responds_memoryBinaryWrite h (hend hc (by decide))
    (hok.memoryWrite hc)) fun _ => ?_
  refine Responds.ite (fun hc => responds_registerRead h (hend hc (by decide))) fun _ => ?_
  refine Responds.ite (fun hc => responds_registerWrite h (hend hc (by decide))
    (hok.registerWrite hc)) fun _ => ?_
  refine Responds.ite (fun hc => absurd hc hp.notContinue) fun _ => ?_
  refine Responds.ite (fun hc => absurd hc hp.notStep) fun _ => ?_
  refine Responds.ite (fun hc => responds_breakpoint h (hend hc (by decide))
    (hok.breakpointRemove hc)) fun _ => ?_
  refine Responds.ite (fun hc => responds_breakpoint h (hend hc (by decide))
    (hok.breakpointInsert hc)) fun _ => ?_
  exact Responds.ite (fun hc => responds_query h (hok.query hc)) fun _ =>
    h.sendPacket (by decide) (by decide)

/-! ## Runs -/

/-- Everything before is complete.  The send buffer is that of the source. -/
structure Ready (s : GdbServer) : Prop where
  operationQueue : s.operationQueue = []
  wide : Wide s
  capacity : s.sendBuf.capacity = 65536

/-- The part of `handle` in which a packet is handled. -/
def answerRequest (packet : List Byte) : GdbM Unit := do
  write
  handlePacket packet

theorem responds_request {packet : List Byte} (h : Ready s) (hp : IsRequest packet)
    (hok : Answerable packet s) :
    Responds (s.sent ++ [ascii '+']) (answerRequest packet) s := by
  let s₁ : GdbServer := { s with sendBuf := s.sendBuf.writeOut }
  have hsize : s₁.sendBuf.size = 0 :=
    RingBuffer.size_writeOut (h.capacity.le.trans (by decide))
  have hroom : Roomy s₁ 1 := ⟨h.capacity, by rw [hsize]; decide⟩
  apply Does.bind_ok (show write s = .ok () s₁ from rfl)
  rw [handlePacket, if_neg (not_not.mpr hp.checksum)]
  obtain ⟨b, hsend, hb, hcap⟩ := exists_send (show Roomy s₁ (text "+").length from hroom)
  apply Does.bind_ok hsend
  have hh : Handling (s.sent ++ [ascii '+']) { s₁ with
      sendBuf := b
      runningChecksum := (text "+").foldl (· + ·) s₁.runningChecksum
      sent := s₁.sent ++ text "+" } :=
    ⟨⟨rfl, h.wide, hcap.trans h.capacity, by rw [hb, hsize]; exact le_rfl⟩, h.operationQueue⟩
  exact responds_dispatch hh hp ⟨hok.registerWrite, hok.memoryRead, hok.memoryWrite,
    hok.breakpointInsert, hok.breakpointRemove, hok.query⟩

/-- The operations in the queue take steps. -/
inductive Steps : GdbServer → GdbServer → Prop
  | refl (s : GdbServer) : Steps s s
  | step {s s₁ s₂ : GdbServer} (d : DebugModule) (hq : s.operationQueue ≠ [])
      (hd : Plausible s d) (h : answerStep d s = .ok () s₁) (hrest : Steps s₁ s₂) : Steps s s₂

/-- A request was handled, and its operations are complete. -/
def Served (packet : List Byte) (s s' : GdbServer) : Prop :=
  ∃ s₁, answerRequest packet s = .ok () s₁ ∧ Steps s₁ s' ∧ s'.operationQueue = []

/-- The acknowledgement and one frame were sent. -/
def RepliedOnce (s s' : GdbServer) : Prop :=
  ∃ payload, Plain payload ∧ s'.sent = s.sent ++ ascii '+' :: frame payload

/-- Each request completes, whatever the hart does, and is answered exactly once before the
next one is handled. -/
def OneReplyEach : List (List Byte) → GdbServer → Prop
  | [], _ => True
  | packet :: packets, s =>
      Does (answerRequest packet) s fun _ s₁ =>
        ∃ n, CompletesIn (fun s' => RepliedOnce s s' ∧ OneReplyEach packets s') n s₁

/-- Each request is answerable when it is handled. -/
def EachAnswerable : List (List Byte) → GdbServer → Prop
  | [], _ => True
  | packet :: packets, s =>
      Answerable packet s ∧ ∀ s', Served packet s s' → EachAnswerable packets s'

theorem CompletesIn.reached {P : GdbServer → Prop} (h : CompletesIn P n s) :
    CompletesIn (fun s' => P s' ∧ Steps s s' ∧ s'.operationQueue = []) n s := by
  induction n generalizing s with
  | zero => exact ⟨h.1, h.2, .refl s, h.1⟩
  | succ n ih =>
      rcases h with ⟨hq, hp⟩ | ⟨hq, hstep⟩
      · exact .inl ⟨hq, hp, .refl s, hq⟩
      · refine .inr ⟨hq, fun d hd => ?_⟩
        obtain ⟨⟨⟩, s₁, hrun, hrest⟩ := (hstep d hd).ok
        exact Does.of_ok hrun ((ih hrest).imp fun s' hs' =>
          ⟨hs'.1, .step d hq hd hrun hs'.2.1, hs'.2.2⟩)

theorem ready_haltedServer : Ready haltedServer := ⟨rfl, .inl rfl, rfl⟩

/-- A read of memory, a write of `pc` and a read of the registers. -/
def session : List (List Byte) :=
  [text "$m80000000,4#55", text "$P20=00000080#77", text "$g#67"]

theorem isRequest_session : ∀ packet ∈ session, IsRequest packet := by
  intro packet hmem
  simp only [session, List.mem_cons, List.not_mem_nil, or_false] at hmem
  rcases hmem with rfl | rfl | rfl
  · exact ⟨by decide, by decide, by decide, by decide⟩
  · exact ⟨by decide, by decide, by decide, by decide⟩
  · exact ⟨by decide, by decide, by decide, by decide⟩

theorem memoryReadAnswerable_session :
    MemoryReadAnswerable (text "$m80000000,4#55") haltedServer := by
  have haddress : consumeHexNumber ((text "$m80000000,4#55").drop 2) =
      (0x80000000, text ",4#55") := by decide
  have hlength : consumeHexNumber ((text ",4#55").drop 1) = (4, text "#55") := by decide
  simp only [MemoryReadAnswerable, haddress, hlength]
  intro _ _
  have hbare : tableShape haltedServer.virtualMemory = some none := by decide
  exact ⟨⟨none, hbare, fun _ h => by cases h⟩, by decide, by decide⟩

theorem registerWriteAnswerable_session :
    RegisterWriteAnswerable (text "$P20=00000080#77") := by
  have hreg : consumeHexNumber ((text "$P20=00000080#77").drop 2) =
      (0x20, text "=00000080#77") := by decide
  have hvalue : consumeHexNumberLe ((text "=00000080#77").drop 1) =
      some (0x80000000, text "#77") := by decide
  simp only [RegisterWriteAnswerable, hreg, hvalue]
  intro _ _
  exact .inl rfl

/-- The front of the queue is an operation that the triggers of the hart do not matter to. -/
def stepsFreely (s : GdbServer) : Bool :=
  match s.operationQueue with
  | [] => false
  | (.hardwareBreakpointInsert _ _, _) :: _ => false
  | _ => true

/-- The operations take a step for each of `ds`, and then they are complete. -/
def runSteps : List DebugModule → GdbServer → Option GdbServer
  | [], s => if s.operationQueue.isEmpty then some s else none
  | d :: ds, s =>
      match stepsFreely s, answerStep d s with
      | true, .ok _ s' => runSteps ds s'
      | _, _ => none

theorem steps_of_runSteps {ds : List DebugModule} {s' : GdbServer} (h : runSteps ds s = some s') :
    Steps s s' ∧ s'.operationQueue = [] := by
  induction ds generalizing s with
  | nil =>
      rw [runSteps] at h
      split at h
      · next hempty =>
          cases h
          exact ⟨.refl _, List.isEmpty_iff.mp hempty⟩
      · cases h
  | cons d ds ih =>
      rw [runSteps] at h
      split at h
      · next s₁ hfree hrun =>
          obtain ⟨hsteps, hq⟩ := ih h
          have hne : s.operationQueue ≠ [] := by
            intro hnil
            simp only [stepsFreely, hnil, Bool.false_eq_true] at hfree
          have hfew : Plausible s d := by
            intro bp step rest hfront
            simp only [stepsFreely, hfront, Bool.false_eq_true] at hfree
          exact ⟨.step d hne hfew hrun hsteps, hq⟩
      · cases h

/-- A request, and the steps of its operations. -/
def runRequest (packet : List Byte) (ds : List DebugModule) (s : GdbServer) : Option GdbServer :=
  match answerRequest packet s with
  | .ok _ s₁ => runSteps ds s₁
  | .error _ _ => none

theorem served_of_runRequest {packet : List Byte} {ds : List DebugModule} {s' : GdbServer}
    (h : runRequest packet ds s = some s') : Served packet s s' := by
  rw [runRequest] at h
  split at h
  · next s₁ hrun =>
      exact ⟨s₁, hrun, steps_of_runSteps h⟩
  · cases h

theorem CompletesIn.of_steps {P : GdbServer → Prop} {s' : GdbServer} (h : CompletesIn P n s)
    (hsteps : Steps s s') (hq : s'.operationQueue = []) : P s' := by
  induction hsteps generalizing n with
  | refl s =>
      cases n with
      | zero => exact h.2
      | succ n => exact (h.resolve_right fun hstep => hstep.1 hq).2
  | step d hne hd hrun _ ih =>
      cases n with
      | zero => exact absurd h.1 hne
      | succ n =>
          obtain ⟨-, hstep⟩ := h.resolve_left fun hdone => hne hdone.1
          obtain ⟨⟨⟩, s₁, hrun', hrest⟩ := (hstep d hd).ok
          rw [hrun] at hrun'
          cases hrun'
          exact ih hrest hq

theorem OneReplyEach.repliedOnce {packet : List Byte} {s' : GdbServer}
    (h : OneReplyEach [packet] s) (hserved : Served packet s s') : RepliedOnce s s' := by
  obtain ⟨s₁, hrun, hsteps, hq⟩ := hserved
  obtain ⟨⟨⟩, s₂, hrun', n, hn⟩ := Does.ok h
  rw [hrun] at hrun'
  cases hrun'
  exact (hn.of_steps hsteps hq).1

theorem count_frame {payload : List Byte} (h : Plain payload) :
    (frame payload).count (ascii '$') = 1 := by
  have hhex : (hexByte (checksum payload)).count (ascii '$') = 0 :=
    List.count_eq_zero.mpr (plain_hexByte _).1
  have hpayload : payload.count (ascii '$') = 0 := List.count_eq_zero.mpr h.1
  have hhash : ascii '#' ≠ ascii '$' := by decide
  rw [frame, List.count_cons_self, List.count_append, List.count_cons_of_ne hhash, hhex, hpayload]

end SpikeSim.Gdb
