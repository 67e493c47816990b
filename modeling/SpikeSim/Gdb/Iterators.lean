/-
# Reading no further than the packet

The handlers look at the byte under an iterator without asking whether the packet ends there.
The functions here are those of `Packets`, with `past` in the place of what such a read at the
end does.  A packet whose outcome does not depend on `past` is one in which no handler reads
there.

The `#` of the packet stops every loop over digits, so it is still ahead when a handler tests
a byte.  The loop over the data of a binary write does not stop at it: the data may take the
`#` and the checksum, and then the test comes after the last byte of the packet.
-/

import SpikeSim.Gdb.Requests
import SpikeSim.Gdb.Screening

namespace SpikeSim.Gdb

/-! ## The handlers, for any read past the end -/

section Handlers

variable (past : GdbM Byte)

/-- `*iter`. -/
def peekWith : List Byte → GdbM Byte
  | [] => past
  | c :: _ => return c

def handleRegisterReadWith (packet : List Byte) : GdbM Unit := do
  let (n, iter) := consumeHexNumber (packet.drop 2)
  if (← peekWith past iter) ≠ ascii '#' then sendPacket "E01"
  else addOperation (.registerRead (n.setWidth 32))

def handleRegisterWriteWith (packet : List Byte) : GdbM Unit := do
  let (n, iter) := consumeHexNumber (packet.drop 2)
  if (← peekWith past iter) ≠ ascii '=' then sendPacket "E05"
  else
    match consumeHexNumberLe (iter.drop 1) with
    | none => throw .undefined
    | some (value, iter) =>
        if (← peekWith past iter) ≠ ascii '#' then sendPacket "E06"
        else
          addOperation (.registerWrite (n.setWidth 32) value)
          sendPacket "OK"

def handleMemoryReadWith (packet : List Byte) : GdbM Unit := do
  let (address, iter) := consumeHexNumber (packet.drop 2)
  if (← peekWith past iter) ≠ ascii ',' then sendPacket "E10"
  else
    let (length, iter) := consumeHexNumber (iter.drop 1)
    if (← peekWith past iter) ≠ ascii '#' then sendPacket "E11"
    else
      addOperation (newCollectTranslationInfo address)
      addOperation (newMemoryRead address (length.setWidth 32) none)

def handleMemoryBinaryWriteWith (packet : List Byte) : GdbM Unit := do
  let (address, iter) := consumeHexNumber (packet.drop 2)
  if (← peekWith past iter) ≠ ascii ',' then sendPacket "E20"
  else
    let (length, iter) := consumeHexNumber (iter.drop 1)
    if (← peekWith past iter) ≠ ascii ':' then sendPacket "E21"
    else if length = 0 then sendPacket "OK"
    else
      match unescape length.toNat (iter.drop 1) with
      | .error e => sendPacket e
      | .ok (data, iter) =>
          if (← peekWith past iter) ≠ ascii '#' then sendPacket "E4b"
          else
            addOperation (newCollectTranslationInfo address)
            addOperation (newMemoryWrite address (length.setWidth 32) data)

def handleContinueWith (packet : List Byte) : GdbM Unit := do
  let mut valid := true
  if (← peekWith past (packet.drop 2)) ≠ ascii '#' then
    let (dpc, iter) := consumeHexNumber (packet.drop 2)
    modify fun s => { s with dpc := dpc }
    if (← peekWith past iter) ≠ ascii '#' then valid := false
  if valid then
    addOperation .maybeRestoreTselect
    addOperation .maybeRestoreMstatus
    addOperation (.resume false)
  else sendPacket "E30"

def handleStepWith (packet : List Byte) : GdbM Unit := do
  if (← peekWith past (packet.drop 2)) ≠ ascii '#' then die
  addOperation .maybeRestoreTselect
  addOperation (.resume true)

def parseBreakpointWith (packet : List Byte) : GdbM (Except String (Word × Reg × Word)) := do
  let (type, iter) := consumeHexNumber (packet.drop 2)
  if (← peekWith past iter) ≠ ascii ',' then return .error "E50"
  let (address, iter) := consumeHexNumber (iter.drop 1)
  if (← peekWith past iter) ≠ ascii ',' then return .error "E51"
  let (size, iter) := consumeHexNumber (iter.drop 1)
  if (← peekWith past iter) ≠ ascii '#' then return .error "E52"
  return .ok (type.setWidth 32, address, size.setWidth 32)

def handleBreakpointWith (packet : List Byte) (insert : Bool) : GdbM Unit := do
  match ← parseBreakpointWith past packet with
  | .error e => sendPacket e
  | .ok (type, address, size) =>
      if type = 0 then
        if size ≠ 2 ∧ size ≠ 4 then sendPacket "E53"
        else
          if insert then softwareBreakpointInsert address size
          else softwareBreakpointRemove address
          sendPacket "OK"
      else if type ≤ 4 then
        if insert then hardwareBreakpointInsert (requestedBreakpoint type address size)
        else
          hardwareBreakpointRemove (requestedBreakpoint type address size)
          sendPacket "OK"
      else sendPacket "E56"

def dispatchWith (packet : List Byte) : GdbM Unit := do
  let command ← peekWith past (packet.drop 1)
  if command = ascii '!' then handleExtended
  else if command = ascii '?' then handleHaltReason
  else if command = ascii 'g' then handleGeneralRegistersRead
  else if command = ascii 'm' then handleMemoryReadWith past packet
  else if command = ascii 'X' then handleMemoryBinaryWriteWith past packet
  else if command = ascii 'p' then handleRegisterReadWith past packet
  else if command = ascii 'P' then handleRegisterWriteWith past packet
  else if command = ascii 'c' then handleContinueWith past packet
  else if command = ascii 's' then handleStepWith past packet
  else if command = ascii 'z' then handleBreakpointWith past packet false
  else if command = ascii 'Z' then handleBreakpointWith past packet true
  else if command = ascii 'q' ∨ command = ascii 'Q' then handleQuery packet
  else sendPacket ""

end Handlers

/-- The model takes a read past the end to be undefined. -/
theorem dispatch_eq : dispatch = dispatchWith (throw .undefined) := rfl

/-- No handler reads past the end of the packet: what is there does not matter. -/
def StaysInside (packet : List Byte) : Prop :=
  ∀ past, handlePacketWith (dispatchWith past) packet = handlePacket packet

/-! ## The end of the packet stops the iterators -/

variable {past : GdbM Byte}

theorem peekWith_eq {iter : List Byte} (h : iter ≠ []) : peekWith past iter = peek iter := by
  cases iter with
  | nil => exact absurd rfl h
  | cons c iter => rfl

theorem peek_eq {iter : List Byte} (h : iter ≠ []) : peek iter = pure (iter.headD 0) := by
  cases iter with
  | nil => exact absurd rfl h
  | cons c iter => rfl

/-- A test of the byte under an iterator that is not at the end. -/
theorem expectWith_eq {α : Type} {iter : List Byte} {c : Byte} {x x' y : GdbM α} (hne : iter ≠ [])
    (h : iter.headD 0 = c → x = x') :
    (do if (← peekWith past iter) ≠ c then y else x) =
      (do if (← peek iter) ≠ c then y else x') := by
  rw [peekWith_eq hne, peek_eq hne, pure_bind, pure_bind]
  by_cases hc : iter.headD 0 = c
  · rw [if_neg (not_not.mpr hc), if_neg (not_not.mpr hc), h hc]
  · rw [if_pos hc, if_pos hc]

theorem handleRegisterReadWith_eq {packet : List Byte} (hend : Ends (packet.drop 2)) :
    handleRegisterReadWith past packet = handleRegisterRead packet := by
  rcases hnum : consumeHexNumber (packet.drop 2) with ⟨reg, iter⟩
  simp only [handleRegisterReadWith, handleRegisterRead, hnum]
  exact expectWith_eq (hend.consumeHexNumber hnum).ne_nil fun _ => rfl

theorem handleRegisterWriteWith_eq {packet : List Byte} (hend : Ends (packet.drop 2)) :
    handleRegisterWriteWith past packet = handleRegisterWrite packet := by
  rcases hnum : consumeHexNumber (packet.drop 2) with ⟨reg, iter⟩
  simp only [handleRegisterWriteWith, handleRegisterWrite, hnum]
  have hend₁ := hend.consumeHexNumber hnum
  apply expectWith_eq hend₁.ne_nil
  intro heq
  have hend₂ := hend₁.drop (by rw [heq]; decide)
  rcases hle : consumeHexNumberLe (iter.drop 1) with _ | ⟨value, iter'⟩
  · rfl
  · exact expectWith_eq (hend₂.consumeHexLeFrom hle).ne_nil fun _ => rfl

theorem handleMemoryReadWith_eq {packet : List Byte} (hend : Ends (packet.drop 2)) :
    handleMemoryReadWith past packet = handleMemoryRead packet := by
  rcases haddress : consumeHexNumber (packet.drop 2) with ⟨address, iter⟩
  rcases hlength : consumeHexNumber (iter.drop 1) with ⟨length, iter'⟩
  simp only [handleMemoryReadWith, handleMemoryRead, haddress, hlength]
  have hend₁ := hend.consumeHexNumber haddress
  apply expectWith_eq hend₁.ne_nil
  intro hcomma
  have hend₂ := (hend₁.drop (by rw [hcomma]; decide)).consumeHexNumber hlength
  exact expectWith_eq hend₂.ne_nil fun _ => rfl

theorem handleContinueWith_eq {packet : List Byte} (hend : Ends (packet.drop 2)) :
    handleContinueWith past packet = handleContinue packet := by
  rcases hnum : consumeHexNumber (packet.drop 2) with ⟨dpc, iter⟩
  simp only [handleContinueWith, handleContinue, hnum, peekWith_eq hend.ne_nil,
    peekWith_eq (hend.consumeHexNumber hnum).ne_nil]

theorem handleStepWith_eq {packet : List Byte} (hend : Ends (packet.drop 2)) :
    handleStepWith past packet = handleStep packet := by
  simp only [handleStepWith, handleStep, peekWith_eq hend.ne_nil]

theorem parseBreakpointWith_eq {packet : List Byte} (hend : Ends (packet.drop 2)) :
    parseBreakpointWith past packet = parseBreakpoint packet := by
  rcases htype : consumeHexNumber (packet.drop 2) with ⟨type, iter⟩
  rcases haddress : consumeHexNumber (iter.drop 1) with ⟨address, iter'⟩
  rcases hsize : consumeHexNumber (iter'.drop 1) with ⟨size, iter''⟩
  simp only [parseBreakpointWith, parseBreakpoint, htype, haddress, hsize]
  have hend₁ := hend.consumeHexNumber htype
  apply expectWith_eq hend₁.ne_nil
  intro hcomma
  have hend₂ := (hend₁.drop (by rw [hcomma]; decide)).consumeHexNumber haddress
  apply expectWith_eq hend₂.ne_nil
  intro hcomma'
  have hend₃ := (hend₂.drop (by rw [hcomma']; decide)).consumeHexNumber hsize
  exact expectWith_eq hend₃.ne_nil fun _ => rfl

theorem handleBreakpointWith_eq {packet : List Byte} {insert : Bool}
    (hend : Ends (packet.drop 2)) :
    handleBreakpointWith past packet insert = handleBreakpoint packet insert := by
  unfold handleBreakpointWith handleBreakpoint
  exact congrArg (fun parse => parse >>= _) (parseBreakpointWith_eq hend)

/-! ## The data of a binary write -/

/-- How many bytes of data the bytes up to the end of the packet encode, unless an escape
character is the last of them. -/
def dataLength : List Byte → Option Nat
  | [] => some 0
  | c :: iter =>
      if c = ascii '}' then
        match iter with
        | [] => none
        | _ :: iter => (dataLength iter).map (· + 1)
      else (dataLength iter).map (· + 1)

theorem dataLength_escape (c : Byte) (iter : List Byte) :
    dataLength (ascii '}' :: c :: iter) = (dataLength iter).map (· + 1) := by
  rw [dataLength, if_pos rfl]

theorem dataLength_cons {c : Byte} (iter : List Byte) (hc : c ≠ ascii '}') :
    dataLength (c :: iter) = (dataLength iter).map (· + 1) := by
  rw [dataLength.eq_def]
  exact if_neg hc

theorem dataLength_eq_zero {iter : List Byte} : dataLength iter = some 0 ↔ iter = [] := by
  cases iter with
  | nil => exact ⟨fun _ => rfl, fun _ => rfl⟩
  | cons c iter =>
      constructor
      · intro h
        by_cases hc : c = ascii '}'
        · subst hc
          cases iter with
          | nil => cases h
          | cons c iter =>
              rw [dataLength_escape] at h
              simp at h
        · rw [dataLength_cons iter hc] at h
          simp at h
      · intro h
        cases h

/-- One more byte of data. -/
theorem takes_one_more {r : Except String (List Byte × List Byte)} {n : Option Nat} {length : Nat}
    (c : Byte) (ih : (∃ data, r = .ok (data, [])) ↔ n = some length) :
    (∃ data, (do let (data, iter) ← r; return (c :: data, iter)) =
      (.ok (data, []) : Except String _)) ↔ n.map (· + 1) = some (length + 1) := by
  rw [show n.map (· + 1) = some (length + 1) ↔ n = some length by cases n <;> simp, ← ih]
  rcases r with e | ⟨data, iter⟩
  · constructor
    · rintro ⟨_, h⟩
      cases h
    · rintro ⟨_, h⟩
      cases h
  · constructor
    · rintro ⟨_, h⟩
      cases h
      exact ⟨data, rfl⟩
    · rintro ⟨_, h⟩
      cases h
      exact ⟨c :: data, rfl⟩

/-- The loop over the data stops at the end of the packet if that is where they end. -/
theorem unescape_takes_all (length : Nat) (iter : List Byte) :
    (∃ data, unescape length iter = .ok (data, [])) ↔ dataLength iter = some length := by
  induction length, iter using unescape.induct with
  | case1 iter =>
      rw [dataLength_eq_zero]
      constructor
      · rintro ⟨data, h⟩
        cases h
        rfl
      · rintro rfl
        exact ⟨[], rfl⟩
  | case2 length =>
      constructor
      · rintro ⟨data, h⟩
        cases h
      · intro h
        cases h
  | case3 length =>
      constructor
      · rintro ⟨data, h⟩
        cases h
      · intro h
        cases h
  | case4 length c iter ih =>
      rw [dataLength_escape]
      exact takes_one_more (c ^^^ 0x20) ih
  | case5 length c iter hc ih =>
      rw [dataLength_cons iter hc, unescape.eq_def]
      simp only [if_neg hc]
      exact takes_one_more c ih

/-- The data of a binary write take all of the packet. -/
def DataTakesEnd (packet : List Byte) : Prop :=
  let (_, iter) := consumeHexNumber (packet.drop 2)
  let (length, iter') := consumeHexNumber (iter.drop 1)
  packet.getD 1 0 = ascii 'X' ∧ iter.headD 0 = ascii ',' ∧ iter'.headD 0 = ascii ':' ∧
    length ≠ 0 ∧ dataLength (iter'.drop 1) = some length.toNat

theorem handleMemoryBinaryWriteWith_eq {packet : List Byte} (hend : Ends (packet.drop 2))
    (hX : packet.getD 1 0 = ascii 'X') (hdata : ¬DataTakesEnd packet) :
    handleMemoryBinaryWriteWith past packet = handleMemoryBinaryWrite packet := by
  rcases haddress : consumeHexNumber (packet.drop 2) with ⟨address, iter⟩
  rcases hlength : consumeHexNumber (iter.drop 1) with ⟨length, iter'⟩
  simp only [DataTakesEnd, haddress, hlength] at hdata
  simp only [handleMemoryBinaryWriteWith, handleMemoryBinaryWrite, haddress, hlength]
  have hend₁ := hend.consumeHexNumber haddress
  apply expectWith_eq hend₁.ne_nil
  intro hcomma
  have hend₂ := (hend₁.drop (by rw [hcomma]; decide)).consumeHexNumber hlength
  apply expectWith_eq hend₂.ne_nil
  intro hcolon
  by_cases hzero : length = 0
  · rw [if_pos hzero, if_pos hzero]
  rw [if_neg hzero, if_neg hzero]
  rcases hrun : unescape length.toNat (iter'.drop 1) with e | ⟨data, iter''⟩
  · rfl
  · apply expectWith_eq _ fun _ => rfl
    rintro rfl
    exact hdata ⟨hX, hcomma, hcolon, hzero, (unescape_takes_all _ _).mp ⟨data, hrun⟩⟩

/-- Otherwise the test of the `#` reads past the end. -/
theorem handleMemoryBinaryWriteWith_throw {packet : List Byte} {s : GdbServer} (e : Fault)
    (hend : Ends (packet.drop 2)) (hdata : DataTakesEnd packet) :
    handleMemoryBinaryWriteWith (throw e) packet s = .error e s := by
  rcases haddress : consumeHexNumber (packet.drop 2) with ⟨address, iter⟩
  rcases hlength : consumeHexNumber (iter.drop 1) with ⟨length, iter'⟩
  simp only [DataTakesEnd, haddress, hlength] at hdata
  simp only [handleMemoryBinaryWriteWith, haddress, hlength]
  obtain ⟨-, hcomma, hcolon, hzero, htakes⟩ := hdata
  have hend₁ := hend.consumeHexNumber haddress
  have hend₂ := (hend₁.drop (by rw [hcomma]; decide)).consumeHexNumber hlength
  obtain ⟨data, hrun⟩ := (unescape_takes_all _ _).mpr htakes
  rw [peekWith_eq hend₁.ne_nil, bind_eq_of_ok (run_peek hend₁.ne_nil),
    if_neg (not_not.mpr hcomma), peekWith_eq hend₂.ne_nil, bind_eq_of_ok (run_peek hend₂.ne_nil),
    if_neg (not_not.mpr hcolon), if_neg hzero, hrun]
  rfl

/-! ## Packets -/

theorem run_commandWith {packet : List Byte} (h : complete packet = true) :
    peekWith past (packet.drop 1) = pure (packet.getD 1 0) := by
  funext s
  have hne : packet.drop 1 ≠ [] := by
    have := (complete_spec h).1
    rw [Ne, List.drop_eq_nil_iff]
    omega
  rw [peekWith_eq hne, run_command h]
  rfl

theorem dispatchWith_eq {packet : List Byte} (h : complete packet = true)
    (hdata : ¬DataTakesEnd packet) : dispatchWith past packet = dispatch packet := by
  have hend {c : Byte} (hc : packet.getD 1 0 = c) (hne : c ≠ ascii '#') : Ends (packet.drop 2) :=
    ends_of_complete h (hc ▸ hne)
  rw [dispatch_eq, dispatchWith, dispatchWith, run_commandWith h, run_commandWith h, pure_bind,
    pure_bind]
  apply ite_congr rfl fun _ => rfl
  intro _
  apply ite_congr rfl fun _ => rfl
  intro _
  apply ite_congr rfl fun _ => rfl
  intro _
  apply ite_congr rfl fun hc => handleMemoryReadWith_eq (hend hc (by decide))
  intro _
  apply ite_congr rfl fun hc => handleMemoryBinaryWriteWith_eq (hend hc (by decide)) hc hdata
  intro _
  apply ite_congr rfl fun hc => handleRegisterReadWith_eq (hend hc (by decide))
  intro _
  apply ite_congr rfl fun hc => handleRegisterWriteWith_eq (hend hc (by decide))
  intro _
  apply ite_congr rfl fun hc => handleContinueWith_eq (hend hc (by decide))
  intro _
  apply ite_congr rfl fun hc => handleStepWith_eq (hend hc (by decide))
  intro _
  apply ite_congr rfl fun hc => handleBreakpointWith_eq (hend hc (by decide))
  intro _
  exact ite_congr rfl (fun hc => handleBreakpointWith_eq (hend hc (by decide))) fun _ => rfl

/-- A packet whose data take all of it makes the handler read past the end. -/
theorem not_staysInside {packet : List Byte} (h : complete packet = true)
    (hsum : computeChecksum packet = extractChecksum packet) (hdata : DataTakesEnd packet) :
    ¬StaysInside packet := by
  intro hstays
  have hX : packet.getD 1 0 = ascii 'X' := by
    rcases haddress : consumeHexNumber (packet.drop 2) with ⟨address, iter⟩
    rcases hlength : consumeHexNumber (iter.drop 1) with ⟨length, iter'⟩
    simp only [DataTakesEnd, haddress, hlength] at hdata
    exact hdata.1
  have hend : Ends (packet.drop 2) := ends_of_complete h (by rw [hX]; decide)
  have hroom : Roomy haltedServer (text "+").length := ⟨rfl, by decide⟩
  obtain ⟨s₁, hplus⟩ : ∃ s₁, send (text "+") haltedServer = .ok () s₁ := by
    obtain ⟨b, hplus, -, -⟩ := exists_send hroom
    exact ⟨_, hplus⟩
  -- The two reads fail in different ways.
  have hrun (e : Fault) :
      handlePacketWith (dispatchWith (throw e)) packet haltedServer = .error e s₁ := by
    rw [handlePacketWith, if_neg (not_not.mpr hsum), bind_eq_of_ok hplus, dispatchWith,
      run_commandWith h, pure_bind, hX]
    exact handleMemoryBinaryWriteWith_throw e hend hdata
  have habort := hrun .abort
  rw [hstays, ← hstays (throw .undefined), hrun .undefined] at habort
  cases habort

/-- **When the handlers stay inside the packet.** -/
theorem handlers_stay_inside_iff {recvBuf : RingBuffer Byte} {s : GdbServer} {packet : List Byte}
    (hover : HandsOver requestHandler recvBuf s packet)
    (hsum : computeChecksum packet = extractChecksum packet) :
    StaysInside packet ↔ ¬DataTakesEnd packet := by
  have hcomplete := hover.framed.complete
  constructor
  · exact fun hstays hdata => not_staysInside hcomplete hsum hdata hstays
  · intro hdata past
    rw [handlePacket_eq, handlePacketWith, handlePacketWith, dispatchWith_eq hcomplete hdata]

/-- A read of four bytes. -/
def readPacket : List Byte := text "$m80000000,4#55"

/-- A write of three bytes of which the packet has none. -/
def hungryPacket : List Byte := text "$X0,3:#21"

theorem memory_read_stays_inside :
    ∃ recvBuf, HandsOver requestHandler recvBuf haltedServer readPacket ∧
      computeChecksum readPacket = extractChecksum readPacket ∧
      ¬DataTakesEnd readPacket ∧ StaysInside readPacket := by
  let recvBuf := recvBufOf readPacket (by decide)
  have hover : HandsOver requestHandler recvBuf haltedServer readPacket :=
    handsOver_of_scan (i := 14) (by decide) (by decide)
  have hsum : computeChecksum readPacket = extractChecksum readPacket := by decide
  have hdata : ¬DataTakesEnd readPacket := fun h => absurd h.1 (by decide)
  exact ⟨recvBuf, hover, hsum, hdata, (handlers_stay_inside_iff hover hsum).mpr hdata⟩

/-- The data of the write are the `#` and the checksum. -/
theorem binary_write_leaves_packet :
    ¬∀ (recvBuf : RingBuffer Byte) (s : GdbServer) (packet : List Byte),
      HandsOver requestHandler recvBuf s packet →
      computeChecksum packet = extractChecksum packet → StaysInside packet := by
  intro h
  have hover : HandsOver requestHandler (recvBufOf hungryPacket (by decide)) haltedServer
      hungryPacket := handsOver_of_scan (i := 8) (by decide) (by decide)
  have hsum : computeChecksum hungryPacket = extractChecksum hungryPacket := by decide
  have haddress : consumeHexNumber (hungryPacket.drop 2) = (0, text ",3:#21") := by decide
  have hlength : consumeHexNumber ((text ",3:#21").drop 1) = (3, text ":#21") := by decide
  have hdata : DataTakesEnd hungryPacket := by
    simp only [DataTakesEnd, haddress, hlength]
    decide
  exact not_staysInside hover.framed.complete hsum hdata (h _ _ _ hover hsum)

end SpikeSim.Gdb
