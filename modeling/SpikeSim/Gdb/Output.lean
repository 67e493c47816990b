/-
# What the debug server sends

The rules by which to follow the output of the server.  `Emits s out s'` says that `out` was
put into the send buffer between two states, and that the fields on which the operations in
the queue depend are the same in both.  `Quiet` code sends nothing; a packet is framed by
`startPacket` and `endPacket`.
-/

import SpikeSim.Gdb.Packets
import SpikeSim.Lib.Effect

namespace SpikeSim.Gdb

open Riscv (DebugModule)

variable {α γ : Type}

/-- The code returns, as `Q` says. -/
def Does (x : GdbM α) (s : GdbServer) (Q : α → GdbServer → Prop) : Prop :=
  Ensures x s Q fun _ _ => False

namespace Does

variable {x : GdbM α} {s : GdbServer} {Q Q' : α → GdbServer → Prop}

theorem of_ok {a : α} {s' : GdbServer} (h : x s = .ok a s') (hQ : Q a s') : Does x s Q :=
  Ensures.of_ok h hQ

theorem imp (h : Does x s Q) (hQ : ∀ a s', Q a s' → Q' a s') : Does x s Q' :=
  Ensures.imp h hQ fun _ _ => id

theorem bind {f : α → GdbM γ} {R : γ → GdbServer → Prop} (h : Does x s Q)
    (hf : ∀ a s', Q a s' → Does (f a) s' R) : Does (x >>= f) s R :=
  Ensures.bind (Ensures.imp h hf fun _ _ => False.elim)

theorem ok (h : Does x s Q) : ∃ a s', x s = .ok a s' ∧ Q a s' := by
  rcases hx : x s with ⟨a, s'⟩ | ⟨e, s'⟩
  · exact ⟨a, s', rfl, Ensures.ok h hx⟩
  · exact absurd (Ensures.error h hx) id

end Does

/-! ## Frames -/

def checksum (payload : List Byte) : Byte := payload.foldl (· + ·) 0

/-- `$...#cs`. -/
def frame (payload : List Byte) : List Byte :=
  ascii '$' :: (payload ++ ascii '#' :: hexByte (checksum payload))

/-- No byte of it starts or ends a frame. -/
def Plain (payload : List Byte) : Prop := ascii '$' ∉ payload ∧ ascii '#' ∉ payload

instance (payload : List Byte) : Decidable (Plain payload) := by
  unfold Plain
  infer_instance

theorem length_frame (payload : List Byte) : (frame payload).length = payload.length + 4 := by
  simp [frame, hexByte]

theorem checksum_append (p q : List Byte) : checksum (p ++ q) = q.foldl (· + ·) (checksum p) :=
  List.foldl_append

theorem Plain.append {p q : List Byte} (hp : Plain p) (hq : Plain q) : Plain (p ++ q) :=
  ⟨by simp [hp.1, hq.1], by simp [hp.2, hq.2]⟩

theorem plain_hexByte : ∀ b : Byte, Plain (hexByte b) := by decide +kernel

theorem plain_flatMap_hexByte (bs : List Byte) : Plain (bs.flatMap hexByte) := by
  induction bs with
  | nil => exact ⟨List.not_mem_nil, List.not_mem_nil⟩
  | cons b bs ih => exact (plain_hexByte b).append ih

theorem length_flatMap_hexByte (bs : List Byte) :
    (bs.flatMap hexByte).length = 2 * bs.length := by
  induction bs with
  | nil => rfl
  | cons b bs ih =>
      simp only [List.flatMap_cons, List.length_append, ih, List.length_cons]
      simp only [hexByte, List.length_cons, List.length_nil]
      omega

/-! ## Sending -/

/-- `out` was sent between two states in which the queue, `xlen` and the tables are the same. -/
structure Emits (s : GdbServer) (out : List Byte) (s' : GdbServer) : Prop where
  sent : s'.sent = s.sent ++ out
  size : s'.sendBuf.size = s.sendBuf.size + out.length
  capacity : s'.sendBuf.capacity = s.sendBuf.capacity
  xlen : s'.xlen = s.xlen
  mstatus : s'.mstatus = s.mstatus
  dcsr : s'.dcsr = s.dcsr
  sptbr : s'.sptbr = s.sptbr
  sptbrValid : s'.sptbrValid = s.sptbrValid
  pteCache : s'.pteCache = s.pteCache
  operationQueue : s'.operationQueue = s.operationQueue

theorem Emits.refl (s : GdbServer) : Emits s [] s :=
  ⟨by simp, rfl, rfl, rfl, rfl, rfl, rfl, rfl, rfl, rfl⟩

theorem Emits.trans {s s' s'' : GdbServer} {out out' : List Byte} (h : Emits s out s')
    (h' : Emits s' out' s'') : Emits s (out ++ out') s'' where
  sent := by rw [h'.sent, h.sent, List.append_assoc]
  size := by rw [h'.size, h.size, List.length_append, Nat.add_assoc]
  capacity := h'.capacity.trans h.capacity
  xlen := h'.xlen.trans h.xlen
  mstatus := h'.mstatus.trans h.mstatus
  dcsr := h'.dcsr.trans h.dcsr
  sptbr := h'.sptbr.trans h.sptbr
  sptbrValid := h'.sptbrValid.trans h.sptbrValid
  pteCache := h'.pteCache.trans h.pteCache
  operationQueue := h'.operationQueue.trans h.operationQueue

/-- The send buffer of the server, with room for `n` bytes and one more. -/
structure Roomy (s : GdbServer) (n : Nat) : Prop where
  capacity : s.sendBuf.capacity = 65536
  size : s.sendBuf.size + n + 1 < 65536

theorem Roomy.emits {s s' : GdbServer} {out : List Byte} {n : Nat} (h : Roomy s (out.length + n))
    (he : Emits s out s') : Roomy s' n :=
  ⟨he.capacity.trans h.capacity, by have := he.size; have := h.size; omega⟩

theorem Roomy.silent {s s' : GdbServer} {n : Nat} (h : Roomy s n) (he : Emits s [] s') :
    Roomy s' n :=
  ⟨he.capacity.trans h.capacity, by rw [he.size]; exact h.size⟩

theorem Roomy.mono {s : GdbServer} {m n : Nat} (h : Roomy s n) (hle : m ≤ n) : Roomy s m :=
  ⟨h.capacity, by have := h.size; omega⟩

/-- The code sends `out` and adds it to the checksum. -/
def Sends (x : GdbM α) (s : GdbServer) (out : List Byte) : Prop :=
  Does x s fun _ s' =>
    Emits s out s' ∧ s'.runningChecksum = out.foldl (· + ·) s.runningChecksum

theorem exists_send {msg : List Byte} {s : GdbServer} (h : Roomy s msg.length) :
    ∃ b : RingBuffer Byte, send msg s = .ok () { s with
        sendBuf := b
        runningChecksum := msg.foldl (· + ·) s.runningChecksum
        sent := s.sent ++ msg } ∧
      b.size = s.sendBuf.size + msg.length ∧ b.capacity = s.sendBuf.capacity := by
  have hcapacity : s.sendBuf.capacity ≤ 2 ^ 31 := by rw [h.capacity]; decide
  have hroom : s.sendBuf.size + msg.length + 1 < s.sendBuf.capacity := by
    rw [h.capacity]
    exact h.size
  obtain ⟨b, hb, hcontents, hcap⟩ := RingBuffer.append_eq hcapacity hroom
  refine ⟨b, ?_, ?_, hcap⟩
  · simp only [send, run_bind, run_get, hb]
    rfl
  · rw [← RingBuffer.length_contents, hcontents]
    simp

theorem send_ok {msg : List Byte} {s s' : GdbServer} (h : send msg s = .ok () s') :
    s'.sent = s.sent ++ msg ∧ s'.operationQueue = s.operationQueue := by
  simp only [send, run_bind, run_get] at h
  cases hb : s.sendBuf.append msg with
  | none =>
      rw [hb] at h
      cases h
  | some b =>
      rw [hb] at h
      cases h
      exact ⟨rfl, rfl⟩

theorem sends_send {msg : List Byte} {s : GdbServer} (h : Roomy s msg.length) :
    Sends (send msg) s msg := by
  obtain ⟨b, hrun, hsize, hcap⟩ := exists_send h
  exact Does.of_ok hrun ⟨⟨rfl, hsize, hcap, rfl, rfl, rfl, rfl, rfl, rfl, rfl⟩, rfl⟩

theorem Sends.bind {x : GdbM α} {f : α → GdbM γ} {s : GdbServer} {out out' : List Byte}
    (h : Sends x s out) (hf : ∀ a s', Emits s out s' → Sends (f a) s' out') :
    Sends (x >>= f) s (out ++ out') := by
  apply Does.bind h
  rintro a s' ⟨he, hc⟩
  apply (hf a s' he).imp
  rintro _ s'' ⟨he', hc'⟩
  exact ⟨he.trans he', by rw [hc', hc, List.foldl_append]⟩

theorem sends_forM_hexByte {bs : List Byte} {s : GdbServer} (h : Roomy s (2 * bs.length)) :
    Sends (bs.forM fun b => send (hexByte b)) s (bs.flatMap hexByte) := by
  induction bs generalizing s with
  | nil => exact Does.of_ok rfl ⟨Emits.refl s, rfl⟩
  | cons b bs ih =>
      have hlen : (hexByte b).length = 2 := rfl
      rw [List.length_cons] at h
      apply Sends.bind (sends_send (h.mono (by omega)))
      intro _ s' he
      exact ih (Roomy.emits (h.mono (by omega)) he)

theorem length_lowBytes (n : Nat) (value : Reg) : (lowBytes n value).length = n := by
  induction n generalizing value with
  | zero => rfl
  | succ n ih => simp [lowBytes, ih]

/-- The hex digits of a value of `xlen` bits. -/
def xlenDigits (xlen : Nat) (value : Reg) : List Byte :=
  (lowBytes (if xlen = 32 then 4 else 8) value).flatMap hexByte

theorem plain_xlenDigits (xlen : Nat) (value : Reg) : Plain (xlenDigits xlen value) :=
  plain_flatMap_hexByte _

theorem length_xlenDigits (xlen : Nat) (value : Reg) : (xlenDigits xlen value).length ≤ 16 := by
  rw [xlenDigits, length_flatMap_hexByte, length_lowBytes]
  split_ifs <;> decide

theorem sends_sendXlen {value : Reg} {s : GdbServer} (h : Roomy s 16) :
    Sends (sendXlen value) s (xlenDigits s.xlen value) := by
  change Sends (if s.xlen = 32 then sendNumber 4 value else sendNumber 8 value) s _
  rw [xlenDigits]
  split_ifs
  · exact sends_forM_hexByte (h.mono (by simp [length_lowBytes]))
  · exact sends_forM_hexByte (h.mono (by simp [length_lowBytes]))

/-! ## Packets -/

theorem does_startPacket {s : GdbServer} (h : Roomy s 1) :
    Does startPacket s fun _ s' => Emits s [ascii '$'] s' ∧ s'.runningChecksum = 0 := by
  have hsend : Sends (send (text "$")) s [ascii '$'] := sends_send h
  apply Does.bind hsend
  rintro _ s' ⟨he, -⟩
  exact Does.of_ok rfl ⟨⟨he.1, he.2, he.3, he.4, he.5, he.6, he.7, he.8, he.9, he.10⟩, rfl⟩

theorem does_endPacket {s : GdbServer} (h : Roomy s 3) :
    Does endPacket s fun _ s' => Emits s (ascii '#' :: hexByte s.runningChecksum) s' := by
  change Does (send (ascii '#' :: hexByte s.runningChecksum) >>= fun _ => _) s _
  apply Does.bind (sends_send h)
  rintro _ s' ⟨he, -⟩
  exact Does.of_ok rfl ⟨he.1, he.2, he.3, he.4, he.5, he.6, he.7, he.8, he.9, he.10⟩

/-- What is sent between the two makes up the payload. -/
theorem does_packet (body : GdbM Unit) (payload : List Byte) {s : GdbServer}
    (h : Roomy s (payload.length + 4))
    (hbody : ∀ s', Emits s [ascii '$'] s' → Sends body s' payload) :
    Does (do startPacket; body; endPacket) s fun _ s' => Emits s (frame payload) s' := by
  apply Does.bind (does_startPacket (h.mono (by omega)))
  rintro _ s₁ ⟨he₁, hc₁⟩
  have hroom₁ : Roomy s₁ (payload.length + 3) :=
    Roomy.emits (h.mono (by simp only [List.length_singleton]; omega)) he₁
  apply Does.bind (hbody s₁ he₁)
  rintro _ s₂ ⟨he₂, hc₂⟩
  apply (does_endPacket (Roomy.emits hroom₁ he₂)).imp
  intro _ s₃ he₃
  have hsum : s₂.runningChecksum = checksum payload := by rw [hc₂, hc₁]; rfl
  rw [hsum] at he₃
  have := (he₁.trans he₂).trans he₃
  simpa [frame] using this

theorem does_sendPacket {data : String} {s : GdbServer} (h : Roomy s ((text data).length + 4)) :
    Does (sendPacket data) s fun _ s' => Emits s (frame (text data)) s' := by
  have hpacket := does_packet (send (text data)) (text data) h fun s' he =>
    sends_send (Roomy.emits (h.mono (by simp only [List.length_singleton]; omega)) he)
  have hall : Does ((do startPacket; send (text data); endPacket) >>= fun _ =>
      modify fun s => { s with expectAck := true }) s fun _ s' =>
        Emits s (frame (text data)) s' := by
    apply Does.bind hpacket
    intro _ s' he
    exact Does.of_ok rfl ⟨he.1, he.2, he.3, he.4, he.5, he.6, he.7, he.8, he.9, he.10⟩
  simpa only [sendPacket, bind_assoc] using hall

/-- A frame was sent. -/
def Replies (s s' : GdbServer) : Prop := ∃ payload, Plain payload ∧ Emits s (frame payload) s'

theorem does_replyXlen {value : Reg} {s : GdbServer} (h : Roomy s 20) :
    Does (replyXlen value) s fun _ s' => Replies s s' := by
  have hlen := length_xlenDigits s.xlen value
  have hpacket := does_packet (sendXlen value) (xlenDigits s.xlen value) (h.mono (by omega))
    fun s' he => by
      rw [← he.xlen]
      exact sends_sendXlen (Roomy.emits (h.mono (by simp)) he)
  exact hpacket.imp fun _ s' he => ⟨_, plain_xlenDigits _ _, he⟩

theorem replies_sendPacket {data : String} {s : GdbServer} (hplain : Plain (text data))
    (h : Roomy s ((text data).length + 4)) :
    Does (sendPacket data) s fun _ s' => Replies s s' :=
  (does_sendPacket h).imp fun _ _ he => ⟨_, hplain, he⟩

/-! ## Quiet code -/

/-- `xlen` is known. -/
def Wide (s : GdbServer) : Prop := s.xlen = 32 ∨ s.xlen = 64

theorem Emits.wide {s s' : GdbServer} {out : List Byte} (h : Emits s out s') (hs : Wide s) :
    Wide s' := by
  rw [Wide, h.xlen]
  exact hs

/-- The code sends nothing. -/
def Quiet (x : GdbM α) : Prop := ∀ s, Wide s → Sends x s []

namespace Quiet

theorem pure (a : α) : Quiet (pure a : GdbM α) := fun s _ => Does.of_ok rfl ⟨Emits.refl s, rfl⟩

theorem get : Quiet (get : GdbM GdbServer) := fun s _ => Does.of_ok rfl ⟨Emits.refl s, rfl⟩

theorem bind {x : GdbM α} {f : α → GdbM γ} (hx : Quiet x) (hf : ∀ a, Quiet (f a)) :
    Quiet (x >>= f) := fun s hs =>
  Sends.bind (hx s hs) fun a s' he => hf a s' (he.wide hs)

theorem ite {c : Prop} [Decidable c] {x y : GdbM α} (hx : Quiet x) (hy : Quiet y) :
    Quiet (if c then x else y) := by
  split
  · exact hx
  · exact hy

/-- Quiet code, and then some more. -/
theorem next {x : GdbM α} {f : α → GdbM γ} {s : GdbServer} {Q : γ → GdbServer → Prop}
    (hx : Quiet x) (hs : Wide s) (hf : ∀ a s', Emits s [] s' →
      s'.runningChecksum = s.runningChecksum → Does (f a) s' Q) : Does (x >>= f) s Q :=
  Does.bind (hx s hs) fun a s' h => hf a s' h.1 h.2

/-- A change of fields that the output does not depend on. -/
theorem modify {f : GdbServer → GdbServer} (h : ∀ s, Emits s [] (f s))
    (hc : ∀ s, (f s).runningChecksum = s.runningChecksum) :
    Quiet (modify f : GdbM Unit) := fun s _ => Does.of_ok rfl ⟨h s, hc s⟩

theorem drWrite32 (index : Nat) (value : Word) : Quiet (drWrite32 index value) :=
  modify (fun _ => ⟨(List.append_nil _).symm, rfl, rfl, rfl, rfl, rfl, rfl, rfl, rfl, rfl⟩)
    fun _ => rfl

theorem setInterrupt : Quiet setInterrupt :=
  modify (fun _ => ⟨(List.append_nil _).symm, rfl, rfl, rfl, rfl, rfl, rfl, rfl, rfl, rfl⟩)
    fun _ => rfl

theorem drWriteJump (index : Nat) : Quiet (drWriteJump index) := drWrite32 _ _

/-- Code that distinguishes the two widths. -/
theorem byXlen {x y : GdbM α} {z : GdbM α} (hx : Quiet x) (hy : Quiet y) :
    Quiet (Bind.bind MonadState.get fun s : GdbServer =>
      match s.xlen with | 32 => x | 64 => y | _ => z) := by
  intro s hs
  rcases hs with h | h
  · have := hx s (.inl h)
    simp only [Sends, Does, Ensures, run_bind, run_get, h] at this ⊢
    exact this
  · have := hy s (.inr h)
    simp only [Sends, Does, Ensures, run_bind, run_get, h] at this ⊢
    exact this

theorem drWrite (slot : Slot) (value : Reg) : Quiet (drWrite slot value) :=
  byXlen (drWrite32 _ _) ((drWrite32 _ _).bind fun _ => drWrite32 _ _)

theorem drWriteLoad (index : Nat) (reg : Word) (slot : Slot) :
    Quiet (drWriteLoad index reg slot) :=
  byXlen (drWrite32 _ _) (drWrite32 _ _)

theorem drWriteStore {index : Nat} {slot : Slot} (reg : Word) (h : storable index slot = true) :
    Quiet (drWriteStore index reg slot) := by
  simp only [Gdb.drWriteStore, h, Bool.not_true, Bool.false_eq_true, if_false]
  exact (Quiet.pure _).bind fun _ => byXlen (drWrite32 _ _) (drWrite32 _ _)

theorem drRead32 (index : Nat) : Quiet (drRead32 index) := get.bind fun _ => pure _

theorem drRead64 (index : Nat) : Quiet (drRead64 index) :=
  (drRead32 _).bind fun _ => (drRead32 _).bind fun _ => pure _

theorem drRead (slot : Slot) : Quiet (drRead slot) :=
  byXlen ((drRead32 _).bind fun _ => pure _) (drRead64 _)

theorem exceptionHit : Quiet exceptionHit := (drRead32 _).bind fun _ => pure _

end Quiet

/-- The code sends nothing and returns a value as `Q` says. -/
def Silent (x : GdbM α) (Q : α → Prop) : Prop :=
  ∀ s, Wide s →
    Does x s fun a s' => Emits s [] s' ∧ s'.runningChecksum = s.runningChecksum ∧ Q a

theorem Silent.pure {a : α} {Q : α → Prop} (h : Q a) : Silent (pure a : GdbM α) Q :=
  fun s _ => Does.of_ok rfl ⟨Emits.refl s, rfl, h⟩

theorem Silent.at {x : GdbM α} {Q : α → Prop} {s : GdbServer} (h : Silent x Q) (hs : Wide s) :
    Does x s fun a s' => Emits s [] s' ∧ Q a := (h s hs).imp fun _ _ h => ⟨h.1, h.2.2⟩

theorem Quiet.followed {x : GdbM α} {f : α → GdbM γ} {Q : γ → Prop} (hx : Quiet x)
    (hf : ∀ a, Silent (f a) Q) : Silent (x >>= f) Q := by
  intro s hs
  apply hx.next hs
  intro a s' he hc
  apply (hf a s' (he.wide hs)).imp
  rintro b s'' ⟨he', hc', hb⟩
  exact ⟨he.trans he', hc'.trans hc, hb⟩

theorem Does.bind_ok {x : GdbM α} {f : α → GdbM γ} {s s' : GdbServer} {a : α}
    {R : γ → GdbServer → Prop} (h : x s = .ok a s') (hf : Does (f a) s' R) :
    Does (x >>= f) s R := by
  rw [Does, Ensures, bind_eq_of_ok h]
  exact hf

theorem Does.get_bind {f : GdbServer → GdbM γ} {s : GdbServer} {R : γ → GdbServer → Prop}
    (h : Does (f s) s R) : Does (get >>= f) s R := h

end SpikeSim.Gdb
