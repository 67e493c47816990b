/-
# Which bytes reach the commands

`process_requests` hands a sequence of bytes to `handle_packet` when the byte three places
before its end is a `#`, and `handle_packet` reaches its switch when the checksum agrees.
Neither looks at the first byte, and a checksum character that is no hex digit counts as
`0xff`.  So the payload and the place of the `#` are always right, and the bytes that reach
the switch are a packet unless one of the two slips lets them through.

The scan of the source finds one packet in a call.  `skipTo` is the part of a call before it,
in which acknowledgements and interrupts are taken off; it does not depend on what the
packet does.
-/

import SpikeSim.Gdb.Output

namespace SpikeSim.Gdb

/-! ## A call of `process_requests` -/

section Calls

variable {σ : Type} (S : RequestHandler σ)

/-- The passes of the outer loop in which an acknowledgement or an interrupt is taken off, and
how the scan after them ends. -/
def skipTo (recvBuf : RingBuffer Byte) (s : σ) : Option (RingBuffer Byte × σ × Scan) :=
  if recvBuf.empty then some (recvBuf, s, .wait)
  else
    match scan (S.expectAck s) recvBuf recvBuf.size 0 [] with
    | .ack => skipTo (recvBuf.consume 1) (S.acknowledged s)
    | .interrupt => do skipTo (recvBuf.consume 1) (← S.handleInterrupt s)
    | .malformed i packet => some (recvBuf, s, .malformed i packet)
    | .packet i packet => some (recvBuf, s, .packet i packet)
    | .wait => some (recvBuf, s, .wait)
termination_by recvBuf.size
decreasing_by
  all_goals
    have := recvBuf.size_consume_one (by simpa using ‹¬recvBuf.empty = true›)
    omega

/-- What is done with the end of the scan. -/
def finish (recvBuf : RingBuffer Byte) (s : σ) : Scan → Option (RingBuffer Byte × σ)
  | .malformed i packet => some (recvBuf.consume i, S.dropped packet s)
  | .packet i packet => do return (recvBuf.consume (i + 1), ← S.handlePacket packet s)
  | _ => some (recvBuf, s)

theorem processLoop_eq_skipTo (recvBuf : RingBuffer Byte) (s : σ) :
    processLoop S recvBuf s =
      (skipTo S recvBuf s).bind fun (recvBuf, s, r) => finish S recvBuf s r := by
  induction recvBuf, s using skipTo.induct S with
  | case1 recvBuf s hempty =>
      rw [processLoop, skipTo, if_pos hempty, if_pos hempty]
      rfl
  | case2 recvBuf s hempty hscan ih =>
      rw [processLoop, skipTo, if_neg hempty, if_neg hempty, hscan]
      exact ih
  | case3 recvBuf s hempty hscan ih =>
      rw [processLoop, skipTo, if_neg hempty, if_neg hempty, hscan]
      cases hint : S.handleInterrupt s with
      | none => rfl
      | some s' => exact ih s'
  | case4 recvBuf s hempty i packet hscan =>
      rw [processLoop, skipTo, if_neg hempty, if_neg hempty, hscan]
      rfl
  | case5 recvBuf s hempty i packet hscan =>
      rw [processLoop, skipTo, if_neg hempty, if_neg hempty, hscan]
      rfl
  | case6 recvBuf s hempty hscan =>
      rw [processLoop, skipTo, if_neg hempty, if_neg hempty, hscan]
      rfl

/-- A call from this state hands the packet to `handle_packet`. -/
def HandsOver (recvBuf : RingBuffer Byte) (s : σ) (packet : List Byte) : Prop :=
  ∃ recvBuf' s' i, skipTo S recvBuf s = some (recvBuf', s', .packet i packet)

end Calls

/-! ## What the scan guarantees -/

/-- What every packet that is handed over looks like. -/
structure Framed (packet : List Byte) : Prop where
  complete : complete packet = true
  dollar : ascii '$' ∉ packet.tail
  hash : ∀ i, 0 < i → i + 3 < packet.length → packet[i]? ≠ some (ascii '#')

theorem dollar_append {packet : List Byte} {b : Byte} (h : ascii '$' ∉ packet.tail)
    (hb : ¬(decide (b = ascii '$') && !packet.isEmpty) = true) :
    ascii '$' ∉ (packet ++ [b]).tail := by
  cases packet with
  | nil => exact List.not_mem_nil
  | cons c packet =>
      have hne : b ≠ ascii '$' := by simpa using hb
      intro hmem
      rcases List.mem_append.mp hmem with hmem | hmem
      · exact h hmem
      · exact hne (List.mem_singleton.mp hmem).symm

theorem framed_of_scanBytes {expectAck : Bool} {s packet p : List Byte} {i : Nat}
    (h : scanBytes expectAck s packet = .packet i p) (hdollar : ascii '$' ∉ packet.tail)
    (hhash : ∀ j, 0 < j → j + 2 < packet.length → packet[j]? ≠ some (ascii '#')) : Framed p := by
  induction s generalizing packet with
  | nil => cases h
  | cons b s ih =>
      rw [scanBytes] at h
      split_ifs at h with h₁ h₂ h₃ h₄
      · cases h
        refine ⟨h₄, ?_, fun j hpos hlt => ?_⟩
        · exact dollar_append hdollar h₃
        · rw [List.length_append, List.length_singleton] at hlt
          rw [List.getElem?_append_left (by omega)]
          exact hhash j hpos (by omega)
      · apply ih h (dollar_append hdollar h₃)
        intro j hpos hlt
        rw [List.length_append, List.length_singleton] at hlt
        rw [List.getElem?_append_left (by omega)]
        rcases Nat.eq_or_lt_of_le (Nat.le_of_lt_succ hlt) with heq | hlt'
        -- The byte three places before the end was looked at.
        · have hj : packet.length + 1 - 3 = j := by omega
          have hlen : 4 ≤ packet.length + 1 := by omega
          simp only [Gdb.complete, List.length_append, List.length_singleton, hj, hlen,
            decide_true, Bool.true_and, decide_eq_true_eq] at h₄
          rw [List.getElem?_append_left (by omega)] at h₄
          exact h₄
        · exact hhash j hpos hlt'

theorem HandsOver.framed {σ : Type} {S : RequestHandler σ} {recvBuf : RingBuffer Byte} {s : σ}
    {packet : List Byte} (h : HandsOver S recvBuf s packet) : Framed packet := by
  obtain ⟨recvBuf', s', i, hskip⟩ := h
  induction recvBuf, s using skipTo.induct S with
  | case1 recvBuf s hempty =>
      rw [skipTo, if_pos hempty] at hskip
      cases hskip
  | case2 recvBuf s hempty hscan ih =>
      rw [skipTo, if_neg hempty, hscan] at hskip
      exact ih hskip
  | case3 recvBuf s hempty hscan ih =>
      rw [skipTo, if_neg hempty, hscan] at hskip
      obtain ⟨s₁, -, hrest⟩ := Option.bind_eq_some_iff.mp hskip
      exact ih s₁ hrest
  | case4 recvBuf s hempty j p hscan =>
      rw [skipTo, if_neg hempty, hscan] at hskip
      cases hskip
  | case5 recvBuf s hempty j p hscan =>
      have hbytes : scan (S.expectAck s) recvBuf recvBuf.size 0 [] = _ := scan_eq recvBuf [] rfl
      rw [hscan] at hbytes
      rw [skipTo, if_neg hempty, hscan] at hskip
      cases hskip
      exact framed_of_scanBytes hbytes.symm List.not_mem_nil fun _ _ hlt => absurd hlt (by simp)
  | case6 recvBuf s hempty hscan =>
      rw [skipTo, if_neg hempty, hscan] at hskip
      cases hskip

/-- The parts of a packet, the first byte aside. -/
theorem Framed.parts {packet : List Byte} (h : Framed packet) :
    ∃ c payload h₁ h₂, packet = c :: (payload ++ [ascii '#', h₁, h₂]) ∧ Plain payload := by
  obtain ⟨hlen, hhash⟩ : 4 ≤ packet.length ∧ packet[packet.length - 3]? = some (ascii '#') := by
    simpa [Gdb.complete] using h.complete
  obtain ⟨c, rest, rfl⟩ := List.exists_cons_of_length_pos (show 0 < packet.length by omega)
  obtain ⟨n, hn⟩ : ∃ n, rest.length = n + 3 := ⟨rest.length - 3, by simp at hlen; omega⟩
  have hthree : (rest.drop n).length = 3 := by rw [List.length_drop, hn, Nat.add_sub_cancel_left]
  obtain ⟨a, h₁, h₂, hdrop⟩ := List.length_eq_three.mp hthree
  have hrest : rest = rest.take n ++ [a, h₁, h₂] := by rw [← hdrop, List.take_append_drop]
  have ha : a = ascii '#' := by
    rw [List.length_cons, hn, show n + 3 + 1 - 3 = n + 1 by omega, List.getElem?_cons_succ,
      ← Nat.add_zero n, ← List.getElem?_drop, hdrop] at hhash
    exact Option.some.inj hhash
  refine ⟨c, rest.take n, h₁, h₂, by rw [← ha, ← hrest], fun hmem => ?_, fun hmem => ?_⟩
  · exact h.dollar (List.mem_of_mem_take hmem)
  · obtain ⟨j, hj⟩ := List.mem_iff_getElem?.mp hmem
    rw [List.getElem?_take, Option.ite_none_right_eq_some] at hj
    obtain ⟨hlt, hj⟩ := hj
    apply h.hash (j + 1) j.succ_pos
    · rw [List.length_cons, hn]
      omega
    · rw [List.getElem?_cons_succ, hj]

/-! ## Well-formed packets -/

def IsHexDigit (c : Byte) : Prop := c ∈ text "0123456789abcdefABCDEF"

instance (c : Byte) : Decidable (IsHexDigit c) := by
  unfold IsHexDigit
  infer_instance

/-- `$`, the payload, `#` and the checksum. -/
def WellFormed (packet : List Byte) : Prop :=
  ∃ payload h₁ h₂, packet = ascii '$' :: (payload ++ [ascii '#', h₁, h₂]) ∧ Plain payload ∧
    IsHexDigit h₁ ∧ IsHexDigit h₂ ∧
    16 * (characterHexValue h₁).toNat + (characterHexValue h₂).toNat =
      (payload.map BitVec.toNat).sum % 256

theorem computeChecksum_parts (c h₁ h₂ : Byte) (payload : List Byte) :
    computeChecksum (c :: (payload ++ [ascii '#', h₁, h₂])) = checksum payload := by
  have hlen : (c :: (payload ++ [ascii '#', h₁, h₂])).length - 3 = payload.length + 1 := by simp
  rw [computeChecksum, hlen, List.take_succ_cons, List.take_left]
  rfl

theorem getD_parts (c h₁ h₂ : Byte) (payload : List Byte) :
    let packet := c :: (payload ++ [ascii '#', h₁, h₂])
    packet.getD (packet.length - 2) 0 = h₁ ∧ packet.getD (packet.length - 1) 0 = h₂ := by
  have hlen : (c :: (payload ++ [ascii '#', h₁, h₂])).length = payload.length + 4 := by simp
  constructor
  · rw [hlen, show payload.length + 4 - 2 = payload.length + 1 + 1 by omega,
      List.getD_cons_succ, List.getD_append_right _ _ _ _ (by omega)]
    simp
  · rw [hlen, show payload.length + 4 - 1 = payload.length + 2 + 1 by omega,
      List.getD_cons_succ, List.getD_append_right _ _ _ _ (by omega)]
    simp

theorem toNat_checksum (payload : List Byte) :
    (checksum payload).toNat = (payload.map BitVec.toNat).sum % 256 := by
  have hfrom (b : Byte) : (payload.foldl (· + ·) b).toNat =
      (b.toNat + (payload.map BitVec.toNat).sum) % 256 := by
    induction payload generalizing b with
    | nil =>
        rw [List.map_nil, List.sum_nil, Nat.add_zero]
        exact (Nat.mod_eq_of_lt b.isLt).symm
    | cons c payload ih =>
        rw [List.foldl_cons, ih, BitVec.toNat_add, List.map_cons, List.sum_cons]
        omega
  rw [checksum, hfrom]
  simp

theorem hexValue_le : ∀ c : Byte, IsHexDigit c → (characterHexValue c).toNat ≤ 15 := by
  decide +kernel

/-- The checksum of hex digits is their number. -/
theorem toNat_extract {h₁ h₂ : Byte} (hh₁ : IsHexDigit h₁) (hh₂ : IsHexDigit h₂) :
    (characterHexValue h₂ + 16 * characterHexValue h₁).toNat =
      16 * (characterHexValue h₁).toNat + (characterHexValue h₂).toNat := by
  have hle₁ := hexValue_le h₁ hh₁
  have hle₂ := hexValue_le h₂ hh₂
  rw [BitVec.toNat_add, BitVec.toNat_mul, show (16 : Byte).toNat = 16 from rfl]
  omega

/-! ## What is let through -/

/-- `handle_packet`, for any switch. -/
def handlePacketWith (dispatch : List Byte → GdbM Unit) (packet : List Byte) : GdbM Unit := do
  if computeChecksum packet ≠ extractChecksum packet then send (text "-")
  else
    send (text "+")
    dispatch packet

theorem handlePacket_eq : handlePacket = handlePacketWith dispatch := rfl

/-- The switch is not reached, and the packet is answered with `-` and queues nothing. -/
def Rejected (packet : List Byte) : Prop :=
  ∀ dispatch, handlePacketWith dispatch packet = send (text "-") ∧
    ∀ s s', handlePacketWith dispatch packet s = .ok () s' →
      s'.sent = s.sent ++ text "-" ∧ s'.operationQueue = s.operationQueue

/-- The packet begins with `$` and ends in two hex digits. -/
def Marked (packet : List Byte) : Prop :=
  packet.head? = some (ascii '$') ∧ IsHexDigit (packet.getD (packet.length - 2) 0) ∧
    IsHexDigit (packet.getD (packet.length - 1) 0)

theorem rejected_of_ne {packet : List Byte} (h : computeChecksum packet ≠ extractChecksum packet) :
    Rejected packet := by
  intro dispatch
  have hsend : handlePacketWith dispatch packet = send (text "-") := if_pos h
  refine ⟨hsend, fun s s' hrun => ?_⟩
  rw [hsend] at hrun
  exact send_ok hrun

/-- With the right checksum the switch is reached. -/
theorem Rejected.ne {packet : List Byte} (h : Rejected packet) :
    computeChecksum packet ≠ extractChecksum packet := by
  intro heq
  have hroom : Roomy haltedServer 1 := ⟨rfl, by decide⟩
  obtain ⟨b, hplus, -, -⟩ := exists_send (show Roomy haltedServer (text "+").length from hroom)
  obtain ⟨b', hminus, -, -⟩ := exists_send (show Roomy haltedServer (text "-").length from hroom)
  have hrun := congrFun (h fun _ => throw .undefined).1 haltedServer
  rw [handlePacketWith, if_neg (not_not.mpr heq), bind_eq_of_ok hplus, hminus] at hrun
  cases hrun

/-- **What is screened.** -/
theorem Framed.screened_iff {packet : List Byte} (h : Framed packet) :
    WellFormed packet ∨ Rejected packet ↔
      (computeChecksum packet = extractChecksum packet → Marked packet) := by
  constructor
  · rintro (⟨payload, h₁, h₂, rfl, -, hh₁, hh₂, -⟩ | hrejected) heq
    · obtain ⟨hget₁, hget₂⟩ := getD_parts (ascii '$') h₁ h₂ payload
      exact ⟨rfl, by rw [hget₁]; exact hh₁, by rw [hget₂]; exact hh₂⟩
    · exact absurd heq hrejected.ne
  · intro hmarked
    by_cases heq : computeChecksum packet = extractChecksum packet
    · left
      obtain ⟨c, payload, h₁, h₂, rfl, hplain⟩ := h.parts
      obtain ⟨hget₁, hget₂⟩ := getD_parts c h₁ h₂ payload
      obtain ⟨hhead, hh₁, hh₂⟩ := hmarked heq
      rw [hget₁] at hh₁
      rw [hget₂] at hh₂
      refine ⟨payload, h₁, h₂, ?_, hplain, hh₁, hh₂, ?_⟩
      · rw [Option.some.inj hhead]
      · rw [computeChecksum_parts, extractChecksum, hget₁, hget₂] at heq
        rw [← toNat_extract hh₁ hh₂, ← heq, toNat_checksum]
    · exact .inr (rejected_of_ne heq)

/-! ## Calls of the server -/

/-- Interrupts, one after the other, queued a halt each. -/
def OnlyHalts (s s' : GdbServer) : Prop :=
  ∃ n, s' = { s with
    operationQueue := s.operationQueue ++ List.replicate n (.halt true .enter, 0) }

theorem OnlyHalts.refl (s : GdbServer) : OnlyHalts s s := ⟨0, by simp⟩

theorem OnlyHalts.cons {s s₁ s' : GdbServer} (h : requestHandler.handleInterrupt s = some s₁)
    (h' : OnlyHalts s₁ s') : OnlyHalts s s' := by
  obtain ⟨n, rfl⟩ := h'
  cases h
  refine ⟨n + 1, ?_⟩
  simp [List.replicate_succ]

theorem onlyHalts_skipTo {recvBuf recvBuf' : RingBuffer Byte} {s s' : GdbServer} {r : Scan}
    (h : skipTo requestHandler recvBuf s = some (recvBuf', s', r)) : OnlyHalts s s' := by
  induction recvBuf, s using skipTo.induct requestHandler with
  | case1 recvBuf s hempty =>
      rw [skipTo, if_pos hempty] at h
      cases h
      exact .refl _
  | case2 recvBuf s hempty hscan ih =>
      rw [skipTo, if_neg hempty, hscan] at h
      exact ih h
  | case3 recvBuf s hempty hscan ih =>
      rw [skipTo, if_neg hempty, hscan] at h
      obtain ⟨s₁, hint, hrest⟩ := Option.bind_eq_some_iff.mp h
      exact .cons hint (ih s₁ hrest)
  | case4 recvBuf s hempty i packet hscan =>
      rw [skipTo, if_neg hempty, hscan] at h
      cases h
      exact .refl _
  | case5 recvBuf s hempty i packet hscan =>
      rw [skipTo, if_neg hempty, hscan] at h
      cases h
      exact .refl _
  | case6 recvBuf s hempty hscan =>
      rw [skipTo, if_neg hempty, hscan] at h
      cases h
      exact .refl _

/-- A call of `process_requests` lets only well-formed packets through to the switch.  Another
packet is answered with `-` and queues nothing; without a packet nothing is done but what the
interrupt characters ask for. -/
structure Screens (recvBuf : RingBuffer Byte) (s : GdbServer) : Prop where
  handedOver : ∀ packet, HandsOver requestHandler recvBuf s packet →
    WellFormed packet ∨ Rejected packet
  dropped : (∀ packet, ¬HandsOver requestHandler recvBuf s packet) →
    ∀ recvBuf' s', processRequests requestHandler recvBuf s = some (recvBuf', s') →
      OnlyHalts s s'

theorem onlyHalts_processRequests {recvBuf recvBuf' : RingBuffer Byte} {s s' : GdbServer}
    (hnone : ∀ packet, ¬HandsOver requestHandler recvBuf s packet)
    (h : processRequests requestHandler recvBuf s = some (recvBuf', s')) : OnlyHalts s s' := by
  obtain ⟨⟨b, s₁⟩, hloop, hrest⟩ := Option.bind_eq_some_iff.mp h
  have hs₁ : s₁ = s' := by
    dsimp only at hrest
    split at hrest
    · cases hrest
    · cases hrest
      rfl
  subst hs₁
  rw [processLoop_eq_skipTo] at hloop
  obtain ⟨⟨b', s₂, r⟩, hskip, hfinish⟩ := Option.bind_eq_some_iff.mp hloop
  have hhalts := onlyHalts_skipTo hskip
  cases r with
  | packet i packet => exact absurd ⟨b', s₂, i, hskip⟩ (hnone packet)
  | malformed i packet =>
      cases hfinish
      exact hhalts
  | ack =>
      cases hfinish
      exact hhalts
  | interrupt =>
      cases hfinish
      exact hhalts
  | wait =>
      cases hfinish
      exact hhalts

/-- A receive buffer with these bytes in it. -/
def recvBufOf (bytes : List Byte) (h : bytes.length < 0x180000) : RingBuffer Byte where
  data i := bytes.getD i 0
  start := 0
  stop := bytes.length
  capacity := 0x180000
  capacity_lt := emptyRecvBuf.capacity_lt
  start_lt := emptyRecvBuf.start_lt
  stop_lt := h

theorem handsOver_of_scan {recvBuf : RingBuffer Byte} {packet : List Byte} {i : Nat}
    (hempty : ¬recvBuf.empty = true)
    (hscan : scan false recvBuf recvBuf.size 0 [] = .packet i packet) :
    HandsOver requestHandler recvBuf haltedServer packet := by
  refine ⟨recvBuf, haltedServer, i, ?_⟩
  have hexpect : requestHandler.expectAck haltedServer = false := rfl
  rw [skipTo, if_neg hempty, hexpect, hscan]

end SpikeSim.Gdb
