/-
# Numbers in packets

`send` writes a register as two digits for each byte, the lowest byte first, and
`consume_hex_number_le` reads such digits back; the numbers in requests have their highest
digit first and are read by `consume_hex_number`.  Both readers stop in front of the first
byte that is no hexadecimal digit.

`consume_hex_number_le` takes the digits of a byte in the order in which they are written, so
that its shift goes back by 4 within a byte and forward by 12 to the next one.  The shift that
is left at the end decides whether the debugger is told that it sends too many bytes.
-/

import SpikeSim.Gdb.Output

namespace SpikeSim.Gdb

/-! ## Digits -/

/-- A digit as a debugger writes it, with a letter of either case. -/
def digitChar (d : BitVec 4) (upper : Bool) : Byte :=
  if d < 10 then ascii '0' + d.setWidth 8
  else (if upper then ascii 'A' else ascii 'a') + (d.setWidth 8 - 10)

/-- No digit of either case. -/
def NonHex (c : Byte) : Prop := ∀ d upper, c ≠ digitChar d upper

instance (c : Byte) : Decidable (NonHex c) := by
  unfold NonHex
  infer_instance

/-- What the readers test. -/
theorem nonHex_iff : ∀ c : Byte, NonHex c ↔ 15 < characterHexValue c := by decide +kernel

theorem characterHexValue_digitChar :
    ∀ d upper, (characterHexValue (digitChar d upper)).setWidth 64 = d.setWidth 64 := by
  decide +kernel

theorem characterHexValue_digitChar_le :
    ∀ d upper, ¬15 < characterHexValue (digitChar d upper) := by
  decide +kernel

/-- `sprintf` writes lower case. -/
theorem hexByte_eq : ∀ b : Byte, hexByte b =
    [digitChar (b.extractLsb' 4 4) false, digitChar (b.extractLsb' 0 4) false] := by
  decide +kernel

/-- The digits end here. -/
def NoDigit (iter : List Byte) : Prop := ∀ c ∈ iter.head?, NonHex c

/-! ## The highest digit first -/

/-- A numeral, each digit with its case. -/
def numeral (ds : List (BitVec 4 × Bool)) : List Byte := ds.map fun d => digitChar d.1 d.2

def numeralFrom (value : Nat) (ds : List (BitVec 4 × Bool)) : Nat :=
  ds.foldl (fun n d => 16 * n + d.1.toNat) value

/-- The number that a numeral stands for. -/
def numeralValue (ds : List (BitVec 4 × Bool)) : Nat := numeralFrom 0 ds

theorem consumeHexFrom_noDigit {iter : List Byte} (h : NoDigit iter) (value : Reg) :
    consumeHexFrom value iter = (value, iter) := by
  cases iter with
  | nil => rfl
  | cons c iter => rw [consumeHexFrom, if_pos ((nonHex_iff c).mp (h c rfl))]

/-- A digit that fits is appended to the value. -/
theorem toNat_appendDigit {value : Reg} (h : value.toNat < 16 ^ 15) (d : BitVec 4) :
    ((value <<< 4) + d.setWidth 64).toNat = 16 * value.toNat + d.toNat := by
  have hd := d.isLt
  rw [BitVec.toNat_add, BitVec.toNat_shiftLeft, BitVec.toNat_setWidth, Nat.shiftLeft_eq]
  omega

/-- The loop reads a numeral that does not overflow after the digits it has read. -/
theorem consumeHexFrom_numeral {rest : List Byte} (hrest : NoDigit rest)
    (ds : List (BitVec 4 × Bool)) {value : Reg} {read : Nat} (hvalue : value.toNat < 16 ^ read)
    (hfit : read + ds.length ≤ 16) :
    (consumeHexFrom value (numeral ds ++ rest)).1.toNat = numeralFrom value.toNat ds ∧
      (consumeHexFrom value (numeral ds ++ rest)).2 = rest := by
  induction ds generalizing value read with
  | nil =>
      rw [numeral, List.map_nil, List.nil_append, consumeHexFrom_noDigit hrest]
      exact ⟨rfl, rfl⟩
  | cons d ds ih =>
      rw [List.length_cons] at hfit
      have hroom : value.toNat < 16 ^ 15 :=
        hvalue.trans_le (Nat.pow_le_pow_right (by decide) (by omega))
      have hnext := toNat_appendDigit hroom d.1
      have hbound : ((value <<< 4) + d.1.setWidth 64).toNat < 16 ^ (read + 1) := by
        have hd := d.1.isLt
        rw [hnext, Nat.pow_succ]
        omega
      have hloop := ih hbound (by omega)
      rw [hnext] at hloop
      change (consumeHexFrom value (digitChar d.1 d.2 :: (numeral ds ++ rest))).1.toNat = _ ∧
        (consumeHexFrom value (digitChar d.1 d.2 :: (numeral ds ++ rest))).2 = rest
      rw [consumeHexFrom, if_neg (characterHexValue_digitChar_le d.1 d.2),
        characterHexValue_digitChar]
      exact hloop

theorem consumeHexNumber_numeral {rest : List Byte} (hrest : NoDigit rest)
    {ds : List (BitVec 4 × Bool)} (hlen : ds.length ≤ 16) :
    (consumeHexNumber (numeral ds ++ rest)).1.toNat = numeralValue ds ∧
      (consumeHexNumber (numeral ds ++ rest)).2 = rest :=
  consumeHexFrom_numeral hrest ds (show (0 : Reg).toNat < 16 ^ 0 by decide) (by omega)

/-! ## The lowest byte first -/

/-- The loop of `consume_hex_number_le`, with the shift at its end. -/
def consumeHexLeLoop (value : Reg) (shift : Nat) : List Byte → Option (Reg × Nat × List Byte)
  | [] => some (value, shift, [])
  | c :: iter =>
      if 15 < characterHexValue c then some (value, shift, c :: iter)
      else if 64 ≤ shift then none
      else consumeHexLeLoop (value ||| (characterHexValue c).setWidth 64 <<< shift)
        (if shift % 8 = 0 then shift + 12 else shift - 4) iter

/-- `consume_hex_number_le`, and whether it warns of too many data bytes. -/
def consumeHexNumberLeWarned (xlen : Nat) (iter : List Byte) : Option (Reg × List Byte × Bool) :=
  (consumeHexLeLoop 0 4 iter).map fun (value, shift, iter) => (value, iter, xlen + 4 < shift)

theorem consumeHexLeFrom_eq (value : Reg) (shift : Nat) (iter : List Byte) :
    consumeHexLeFrom value shift iter =
      (consumeHexLeLoop value shift iter).map fun r => (r.1, r.2.2) := by
  induction iter generalizing value shift with
  | nil => rfl
  | cons c iter ih =>
      rw [consumeHexLeFrom, consumeHexLeLoop]
      split_ifs
      · rfl
      · rfl
      · apply ih
      · apply ih

/-- The handlers use the value and the rest only. -/
theorem consumeHexNumberLe_eq (xlen : Nat) (iter : List Byte) :
    consumeHexNumberLe iter =
      (consumeHexNumberLeWarned xlen iter).map fun r => (r.1, r.2.1) := by
  rw [consumeHexNumberLe, consumeHexLeFrom_eq, consumeHexNumberLeWarned, Option.map_map]
  rfl

theorem consumeHexLeLoop_noDigit {iter : List Byte} (h : NoDigit iter) (value : Reg)
    (shift : Nat) : consumeHexLeLoop value shift iter = some (value, shift, iter) := by
  cases iter with
  | nil => rfl
  | cons c iter => rw [consumeHexLeLoop, if_pos ((nonHex_iff c).mp (h c rfl))]

theorem consumeHexLeLoop_digit (value : Reg) {shift : Nat} (h : shift < 64) (d : BitVec 4)
    (upper : Bool) (iter : List Byte) :
    consumeHexLeLoop value shift (digitChar d upper :: iter) =
      consumeHexLeLoop (value ||| d.setWidth 64 <<< shift)
        (if shift % 8 = 0 then shift + 12 else shift - 4) iter := by
  rw [consumeHexLeLoop, if_neg (characterHexValue_digitChar_le d upper), if_neg (by omega),
    characterHexValue_digitChar]

theorem byte_eq_digits : ∀ b : Byte,
    (b.extractLsb' 4 4).setWidth 64 <<< 4 ||| (b.extractLsb' 0 4).setWidth 64 =
      b.setWidth 64 := by
  decide +kernel

/-- Two turns of the loop read a byte and move the shift to the next one. -/
theorem consumeHexLeLoop_hexByte (value : Reg) {i : Nat} (hi : i < 8) (b : Byte)
    (iter : List Byte) :
    consumeHexLeLoop value (8 * i + 4) (hexByte b ++ iter) =
      consumeHexLeLoop (value ||| b.setWidth 64 <<< (8 * i)) (8 * (i + 1) + 4) iter := by
  have hboth : value ||| (b.extractLsb' 4 4).setWidth 64 <<< (8 * i + 4) |||
      (b.extractLsb' 0 4).setWidth 64 <<< (8 * i) = value ||| b.setWidth 64 <<< (8 * i) := by
    rw [BitVec.or_assoc, ← byte_eq_digits b, BitVec.shiftLeft_or_distrib, Nat.add_comm,
      BitVec.shiftLeft_add]
  rw [hexByte_eq, List.cons_append, List.cons_append, List.nil_append,
    consumeHexLeLoop_digit _ (by omega), if_neg (by omega), Nat.add_sub_cancel,
    consumeHexLeLoop_digit _ (by omega), if_pos (by omega), hboth]
  rfl

/-- The number that bytes make up, the lowest first. -/
def joinBytes : List Byte → Reg
  | [] => 0
  | b :: bs => b.setWidth 64 ||| joinBytes bs <<< 8

theorem consumeHexLeLoop_bytes (value : Reg) {i : Nat} (bs : List Byte) (h : i + bs.length ≤ 8)
    (iter : List Byte) :
    consumeHexLeLoop value (8 * i + 4) (bs.flatMap hexByte ++ iter) =
      consumeHexLeLoop (value ||| joinBytes bs <<< (8 * i)) (8 * (i + bs.length) + 4) iter := by
  induction bs generalizing value i with
  | nil => simp [joinBytes]
  | cons b bs ih =>
      rw [List.length_cons] at h
      have hjoin : value ||| b.setWidth 64 <<< (8 * i) ||| joinBytes bs <<< (8 * (i + 1)) =
          value ||| joinBytes (b :: bs) <<< (8 * i) := by
        rw [joinBytes, BitVec.or_assoc, BitVec.shiftLeft_or_distrib, ← BitVec.shiftLeft_add,
          Nat.mul_add, Nat.mul_one, Nat.add_comm (8 * i)]
      rw [List.flatMap_cons, List.append_assoc, consumeHexLeLoop_hexByte value (by omega),
        ih _ (by omega), hjoin, List.length_cons, Nat.add_right_comm i, Nat.add_assoc i]

/-- The low bytes of a value make up its low bits. -/
theorem getLsbD_joinBytes_lowBytes (n : Nat) (value : Reg) (j : Nat) (hj : j < 64) :
    (joinBytes (lowBytes n value)).getLsbD j = (decide (j < 8 * n) && value.getLsbD j) := by
  induction n generalizing value j with
  | zero => simp [lowBytes, joinBytes]
  | succ n ih =>
      rw [lowBytes, joinBytes, BitVec.getLsbD_or, BitVec.getLsbD_setWidth,
        BitVec.getLsbD_setWidth, BitVec.getLsbD_shiftLeft]
      rcases Nat.lt_or_ge j 8 with hlow | hhigh
      · simp [hlow, hj, show j < 8 * (n + 1) by omega]
      · rw [ih _ _ (by omega), BitVec.getLsbD_ushiftRight, Nat.add_sub_cancel' hhigh]
        simp [hj, show ¬j < 8 by omega, show j - 8 < 8 * n ↔ j < 8 * (n + 1) by omega]

theorem joinBytes_lowBytes {n : Nat} {value : Reg} (h : value.toNat < 2 ^ (8 * n)) :
    joinBytes (lowBytes n value) = value := by
  apply BitVec.eq_of_getLsbD_eq
  intro j hj
  rw [getLsbD_joinBytes_lowBytes n value j hj]
  by_cases hlow : j < 8 * n
  · simp [hlow]
  · have hzero : value.getLsbD j = false :=
      Nat.testBit_lt_two_pow (h.trans_le (Nat.pow_le_pow_right (by decide) (by omega)))
    simp [hlow, hzero]

/-- The digits of a value of `n` bytes are read back, and the shift ends at `8 * n + 4`. -/
theorem consumeHexNumberLeWarned_lowBytes {n : Nat} (hn : n ≤ 8) {value : Reg}
    (hvalue : value.toNat < 2 ^ (8 * n)) {rest : List Byte} (hrest : NoDigit rest) :
    consumeHexNumberLeWarned (8 * n) ((lowBytes n value).flatMap hexByte ++ rest) =
      some (value, rest, false) := by
  have hloop := consumeHexLeLoop_bytes 0 (i := 0) (lowBytes n value)
    (by rw [length_lowBytes]; omega) rest
  rw [length_lowBytes, joinBytes_lowBytes hvalue, consumeHexLeLoop_noDigit hrest] at hloop
  simp only [Nat.mul_zero, Nat.zero_add, BitVec.shiftLeft_zero] at hloop
  rw [consumeHexNumberLeWarned, hloop]
  simp

/-! ## What is sent is read back -/

theorem sent_forM_hexByte {bs : List Byte} {s s' : GdbServer}
    (h : (bs.forM fun b => send (hexByte b)) s = .ok () s') :
    s'.sent = s.sent ++ bs.flatMap hexByte := by
  induction bs generalizing s with
  | nil =>
      cases h
      simp
  | cons b bs ih =>
      change (send (hexByte b) >>= fun _ => bs.forM fun b => send (hexByte b)) s = _ at h
      rw [run_bind] at h
      cases hsend : send (hexByte b) s with
      | error e s₁ =>
          rw [hsend] at h
          cases h
      | ok u s₁ =>
          rw [hsend] at h
          rw [ih h, (send_ok hsend).1, List.flatMap_cons, List.append_assoc]

/-- **What `send` writes for a register `consume_hex_number_le` reads back without a warning,
and `consume_hex_number` reads every numeral of up to 16 digits.**  Both stop at the first byte
that is no digit. -/
theorem hex_codec {rest : List Byte} (hrest : NoDigit rest) :
    (∀ (v : BitVec 64) (s s' : GdbServer) (digits : List Byte),
      sendNumber 8 v s = .ok () s' → s'.sent = s.sent ++ digits →
        consumeHexNumberLeWarned 64 (digits ++ rest) = some (v, rest, false)) ∧
    (∀ (v : BitVec 32) (s s' : GdbServer) (digits : List Byte),
      sendNumber 4 (v.setWidth 64) s = .ok () s' → s'.sent = s.sent ++ digits →
        consumeHexNumberLeWarned 32 (digits ++ rest) = some (v.setWidth 64, rest, false)) ∧
    ∀ ds : List (BitVec 4 × Bool), ds.length ≤ 16 →
      (consumeHexNumber (numeral ds ++ rest)).1.toNat = numeralValue ds ∧
        (consumeHexNumber (numeral ds ++ rest)).2 = rest := by
  refine ⟨?_, ?_, fun ds hlen => consumeHexNumber_numeral hrest hlen⟩
  · intro v s s' digits hsend hdigits
    rw [sent_forM_hexByte hsend] at hdigits
    rw [← List.append_cancel_left hdigits]
    exact consumeHexNumberLeWarned_lowBytes (n := 8) le_rfl v.isLt hrest
  · intro v s s' digits hsend hdigits
    rw [sent_forM_hexByte hsend] at hdigits
    rw [← List.append_cancel_left hdigits]
    apply consumeHexNumberLeWarned_lowBytes (n := 4) (by decide) _ hrest
    rw [BitVec.toNat_setWidth, Nat.mod_eq_of_lt (v.isLt.trans (by decide))]
    exact v.isLt

/-- A number in front of the end of a packet. -/
theorem hex_codec_packet_end :
    (consumeHexNumber (text "80aF" ++ [ascii '#'])).1.toNat = 0x80af ∧
      (consumeHexNumber (text "80aF" ++ [ascii '#'])).2 = [ascii '#'] :=
  (hex_codec (show NoDigit [ascii '#'] by unfold NoDigit; decide +kernel)).2.2
    [(8, false), (0, false), (10, false), (15, true)] (by decide)

end SpikeSim.Gdb
