/-
# Fetched instructions

What a fetch hands to the loop: a handler of the width of the hart whose encoding the
word matches, with the word sign-extended from its length (`Fetched`).  The decoder
keeps its own invariant, and the entries of the instruction cache were all fetched at
the width of the hart (`CodeInv`).
-/

import SpikeSim.Decode.Transparent
import SpikeSim.Riscv.Access
import SpikeSim.Riscv.Families
import SpikeSim.Riscv.RunRules
import SpikeSim.Riscv.Word

namespace SpikeSim.Riscv

variable {β : Type}

/-! ## Words and encodings -/

/-- The word has the bits of the instruction. -/
def Matches (name : InsnName) (bits : InsnBits) : Prop :=
  bits &&& name.encoding.2 = name.encoding.1

instance (name : InsnName) (bits : InsnBits) : Decidable (Matches name bits) :=
  inferInstanceAs (Decidable (_ = _))

/-- `rv32_NAME` or `rv64_NAME`. -/
def insnFunc : Xlen → InsnName → Decode.InsnFunc
  | .rv32, name => .rv32 name
  | .rv64, name => .rv64 name

/-- The length is announced by the low six bits. -/
theorem insnLength_congr {a b : InsnBits} (h : a &&& 0x3f = b &&& 0x3f) :
    insnLength a = insnLength b := by
  have hpart (mask : InsnBits) (hmask : 0x3f &&& mask = mask) : a &&& mask = b &&& mask := by
    rw [← hmask, ← BitVec.and_assoc, h, BitVec.and_assoc]
  unfold insnLength
  rw [hpart 0x03 (by decide), hpart 0x1f (by decide), h]

/-- The encodings fix the bits that announce their length, which is two or four bytes. -/
theorem encoding_fixes_length (name : InsnName) :
    name.encoding.2 &&& 0x03 = 0x03 ∧
      (name.encoding.1 &&& 0x03 < 0x03 ∨
        name.encoding.2 &&& 0x1f = 0x1f ∧ name.encoding.1 &&& 0x1f < 0x1f) := by
  cases name <;> decide

theorem Matches.insnLength_eq {name : InsnName} {bits : InsnBits} (h : Matches name bits) :
    insnLength bits = insnLength name.encoding.1 := by
  have hpart {mask : InsnBits} (hmask : name.encoding.2 &&& mask = mask) :
      bits &&& mask = name.encoding.1 &&& mask := by
    rw [← show bits &&& name.encoding.2 = name.encoding.1 from h, BitVec.and_assoc, hmask]
  obtain ⟨hlow, hshort | ⟨hmask, hlong⟩⟩ := encoding_fixes_length name
  · rw [insnLength, insnLength, hpart hlow, if_pos hshort, if_pos hshort]
  · rw [insnLength, insnLength, hpart hlow, hpart hmask, if_pos hlong, if_pos hlong]

theorem Matches.length_le {name : InsnName} {bits : InsnBits} (h : Matches name bits) :
    insnLength bits = 2 ∨ insnLength bits = 4 := by
  rw [h.insnLength_eq, insnLength]
  obtain ⟨-, hshort | ⟨-, hlong⟩⟩ := encoding_fixes_length name
  · exact .inl (if_pos hshort)
  · rw [if_pos hlong]
    split
    · exact .inl rfl
    · exact .inr rfl

/-! ## What may be executed -/

/-- What a fetch hands over at a width: a base instruction with its word, or a function
that raises an illegal instruction. -/
inductive Fetched (xlen : Xlen) : Decode.InsnFunc × Insn → Prop
  | base (name : InsnName) (insn : Insn) (hmatch : Matches name insn.bits)
      (hword : Canonical insn.bits) : Fetched xlen (insnFunc xlen name, insn)
  | custom (n : Fin 4) (insn : Insn) : Fetched xlen (.custom n, insn)
  | illegal (insn : Insn) : Fetched xlen (.illegalInstruction, insn)

/-- The answers of the decoder. -/
theorem fetched_of_answers {rocc : Bool} {xlen : Xlen} {insn : Insn} {func : Decode.InsnFunc}
    (hword : insnLength insn.bits = 2 ∨ insnLength insn.bits = 4 → Canonical insn.bits)
    (h : Decode.Answers (Decode.freshDecoder rocc).instructions xlen insn.bits func) :
    Fetched xlen (func, insn) := by
  obtain ⟨desc, hfind, rfl | ⟨-, rfl, -⟩⟩ := h
  · have haccepts : desc.accepts insn.bits = true := by
      have := List.find?_some hfind
      exact this
    have hmem : desc ∈ Decode.registeredInsns rocc :=
      (Decode.freshDecoder_perm rocc).mem_iff.mpr (List.mem_of_find?_eq_some hfind)
    rcases List.mem_append.mp hmem with hbase | hrocc
    · rcases List.mem_append.mp hbase with hinsn | hcatch
      · obtain ⟨name, -, rfl⟩ := List.mem_map.mp hinsn
        have hmatch : Matches name insn.bits := eq_of_beq haccepts
        cases xlen with
        | rv32 => exact .base name insn hmatch (hword hmatch.length_le)
        | rv64 => exact .base name insn hmatch (hword hmatch.length_le)
      · obtain rfl := List.mem_singleton.mp hcatch
        cases xlen <;> exact .illegal insn
    · cases rocc with
      | false => cases hrocc
      | true =>
          change desc ∈ Decode.roccInsns at hrocc
          simp only [Decode.roccInsns, List.mem_cons, List.not_mem_nil, or_false] at hrocc
          rcases hrocc with rfl | rfl | rfl | rfl
          all_goals
            cases xlen with
            | rv32 => exact .illegal insn
            | rv64 => exact .custom _ insn
  · exact .illegal insn

/-! ## Reading code -/

/-- A fetch leaves the hart, the decoder, the instruction cache and the events alone. -/
structure CodeFrame (m m' : Machine β) : Prop where
  hart : m'.hart = m.hart
  decoder : m'.decoder = m.decoder
  icache : m'.mmu.icache = m.mmu.icache
  events : m'.events = m.events

instance : Std.Refl (CodeFrame (β := β)) := ⟨fun _ => ⟨rfl, rfl, rfl, rfl⟩⟩

instance : IsTrans (Machine β) CodeFrame where
  trans _ _ _ hab hbc := ⟨hbc.hart.trans hab.hart, hbc.decoder.trans hab.decoder,
    hbc.icache.trans hab.icache, hbc.events.trans hab.events⟩

theorem fetchKeeps_codeFrame (P : Platform β) : FetchKeeps P CodeFrame where
  walk _ _ _ _ _ := ⟨rfl, rfl, rfl, rfl⟩
  refill _ _ _ := ⟨rfl, rfl, rfl, rfl⟩
  device _ _ _ := ⟨rfl, rfl, rfl, rfl⟩

/-- A value of 16 bits. -/
def Narrow (v : Reg) : Prop := zext16 v = v

theorem narrow_zext16 (v : Reg) : Narrow (zext16 v) := by
  simp [Narrow, zext16]

theorem getLsbD_zext16 (v : Reg) (i : Nat) :
    (zext16 v).getLsbD i = (decide (i < 16) && v.getLsbD i) := by
  simp only [zext16, BitVec.getLsbD_setWidth]
  by_cases hi : i < 16
  · simp [hi, show i < 64 by omega]
  · simp [hi]

theorem Narrow.getLsbD {v : Reg} (h : Narrow v) {i : Nat} (hi : 16 ≤ i) : v.getLsbD i = false := by
  rw [← show zext16 v = v from h, getLsbD_zext16]
  simp [show ¬ i < 16 by omega]

theorem narrow_readLE (dram : Reg → BitVec 8) (ptr : Reg) : Narrow (readLE dram ptr 2) := by
  refine BitVec.eq_of_getLsbD_eq fun i hi => ?_
  rw [getLsbD_zext16]
  simp only [readLE, BitVec.getLsbD_or, BitVec.getLsbD_shiftLeft, BitVec.getLsbD_setWidth]
  by_cases hlow : i < 16
  · simp [hlow]
  · have hbyte (b : BitVec 8) (j : Nat) (hj : 8 ≤ j) : b.getLsbD j = false :=
      BitVec.getLsbD_of_ge b j hj
    simp [hlow, hbyte _ i (by omega), hbyte _ (i - 8) (by omega)]

theorem getLsbD_sext16 (v : Reg) (i : Nat) :
    (sext16 v).getLsbD i = (decide (i < 64) && v.getLsbD (min i 15)) := by
  unfold sext16
  rw [BitVec.getLsbD_signExtend]
  by_cases hi : i < 64
  · by_cases hlow : i < 16
    · simp [hi, hlow, Nat.min_eq_left (show i ≤ 15 by omega)]
    · simp [hi, hlow, Nat.min_eq_right (show 15 ≤ i by omega), BitVec.msb_eq_getLsbD_last]
  · simp [hi]

/-- A word of one halfword. -/
theorem canonical_sext16 (v : Reg) : Canonical (sext16 v) := by
  refine canonical_iff.mpr fun i hi hhigh => ?_
  rw [getLsbD_sext16, getLsbD_sext16]
  simp [hi, Nat.min_eq_right (show 15 ≤ i by omega)]

/-- A word of two halfwords. -/
theorem canonical_pair {v w : Reg} (hv : Narrow v) : Canonical (v ||| (sext16 w <<< 16)) := by
  refine canonical_iff.mpr fun i hi hhigh => ?_
  rw [BitVec.getLsbD_or, BitVec.getLsbD_or, hv.getLsbD (by omega), hv.getLsbD (i := 31) (by omega),
    BitVec.getLsbD_shiftLeft, BitVec.getLsbD_shiftLeft, getLsbD_sext16, getLsbD_sext16]
  simp [hi, show ¬ i < 16 by omega, show i - 16 < 64 by omega,
    Nat.min_eq_right (show 15 ≤ i - 16 by omega)]

theorem insnLength_sext16 (v : Reg) : insnLength (sext16 v) = insnLength v := by
  refine insnLength_congr (BitVec.eq_of_getLsbD_eq fun i hi => ?_)
  have hmask (j : Nat) (hj : 6 ≤ j) (hj' : j < 64) : (0x3f : Reg).getLsbD j = false := by
    revert hj hj' j
    decide
  rw [BitVec.getLsbD_and, BitVec.getLsbD_and, getLsbD_sext16]
  by_cases hlow : i < 6
  · simp [hi, Nat.min_eq_left (show i ≤ 15 by omega)]
  · rw [hmask i (by omega) hi]
    simp

/-- What lies above the first halfword does not matter. -/
theorem insnLength_high (v w : Reg) {n : Nat} (hn : 16 ≤ n) :
    insnLength (v ||| (w <<< n)) = insnLength v := by
  refine insnLength_congr (BitVec.eq_of_getLsbD_eq fun i hi => ?_)
  have hmask (j : Nat) (hj : 16 ≤ j) (hj' : j < 64) : (0x3f : Reg).getLsbD j = false := by
    revert hj hj' j
    decide
  rw [BitVec.getLsbD_and, BitVec.getLsbD_and, BitVec.getLsbD_or, BitVec.getLsbD_shiftLeft]
  by_cases hlow : i < 16
  · simp [show i < n by omega]
  · rw [hmask i (by omega) hi]
    simp

section Reading

variable {P : Platform β}

theorem fetchSlowPath_narrow (addr : Reg) :
    Returns (fetchSlowPath P addr) fun half => Narrow half.value := by
  refine .bind (.any _) fun paddr _ => .ite (fun _ => .bind (.throw (Q := fun _ => True) _) ?_) ?_
  all_goals
    intros
    refine .bind (.any _) fun m _ => .ite (fun _ => ?_) fun _ => ?_
    · exact .bind (.any _) fun _ _ => .pure (narrow_readLE ..)
    · refine .bind (.any _) fun _ _ => ?_
      split
      · exact .throw _
      · exact .pure (narrow_zext16 _)

theorem translateInsnAddr_narrow (addr : Reg) :
    Returns (translateInsnAddr P addr) fun half => Narrow half.value := by
  refine .bind (.any _) fun m _ => .ite (fun _ => .pure (narrow_readLE ..)) fun _ => ?_
  refine .ite (fun _ => ?_) fun _ => fetchSlowPath_narrow addr
  split
  · exact .throw _
  · exact .pure (narrow_readLE ..)

/-- A word as long as an encoding is sign-extended. -/
theorem fetchBits_canonical (addr : Reg) :
    Returns (fetchBits P addr) fun r =>
      insnLength r.1.bits = 2 ∨ insnLength r.1.bits = 4 → Canonical r.1.bits := by
  refine .bind (translateInsnAddr_narrow addr) fun first hfirst => ?_
  refine .ite (fun h4 => ?_) fun h4 => .ite (fun h2 => ?_) fun h2 => ?_
  · exact .bind (.any _) fun h1 _ => .pure fun _ => canonical_pair hfirst
  · exact .pure fun _ => canonical_sext16 _
  · -- The length is six or eight bytes, and the word announces it.
    have hlong (w : Reg) (h : insnLength w = insnLength first.value) :
        insnLength w = 2 ∨ insnLength w = 4 → Canonical w := by
      rw [h]
      rintro (h2' | h4')
      · exact absurd h2' h2
      · exact absurd h4' h4
    refine .ite (fun _ => ?_) fun _ => ?_
    · refine .bind (.any _) fun h2 _ => .bind (.any _) fun h1 _ => .pure (hlong _ ?_)
      rw [insnLength_high _ _ (by omega), insnLength_high _ _ (by omega)]
    · refine .bind (.any _) fun h3 _ => .bind (.any _) fun h2 _ => ?_
      refine .bind (.any _) fun h1 _ => .pure (hlong _ ?_)
      rw [insnLength_high _ _ (by omega), insnLength_high _ _ (by omega), insnLength_high _ _ (by omega)]

end Reading

/-! ## The code that a hart has at hand -/

/-- The decoder answers as its sorted table does, the hart runs at its full width, and every
entry of the cache was fetched at that width. -/
structure CodeInv (rocc : Bool) (xlen : Xlen) (m : Machine β) : Prop where
  decoder : Decode.Valid (Decode.freshDecoder rocc).instructions m.decoder
  width : m.hart.xlen = xlen
  maxWidth : m.hart.maxXlen = xlen
  icache : ∀ i, Fetched xlen ((m.mmu.icache i).func, (m.mmu.icache i).insn)

/-- After reset nothing is cached. -/
theorem codeInv_reset (rocc : Bool) (xlen : Xlen) (isa : Reg) (halt : Bool)
    (dram : Reg → BitVec 8) (dev : β) :
    CodeInv rocc xlen (Machine.reset xlen isa halt (Decode.freshDecoder rocc) dram dev) where
  decoder := Decode.valid_freshDecoder rocc
  width := rfl
  maxWidth := rfl
  icache _ := .illegal _

/-- A fetch leaves the hart alone and is no event. -/
structure FetchKept (m m' : Machine β) : Prop where
  hart : m'.hart = m.hart
  events : m'.events = m.events

instance : Std.Refl (FetchKept (β := β)) := ⟨fun _ => ⟨rfl, rfl⟩⟩

instance : IsTrans (Machine β) FetchKept :=
  ⟨fun _ _ _ hab hbc => ⟨hbc.hart.trans hab.hart, hbc.events.trans hab.events⟩⟩

theorem refillKeeps_kept (P : Platform β) : RefillKeeps P FetchKept where
  walk _ _ _ _ _ := ⟨rfl, rfl⟩
  refill _ _ _ := ⟨rfl, rfl⟩
  device _ _ _ := ⟨rfl, rfl⟩
  decoder _ _ := ⟨rfl, rfl⟩
  traced _ _ _ := ⟨rfl, rfl⟩
  icache _ _ _ := ⟨rfl, rfl⟩

/-- What a fetch at an address may change: beyond the state of the memory port, it may put an
entry for the address in the cache. -/
structure FetchFrame (addr : Reg) (m m' : Machine β) : Prop where
  hart : m'.hart = m.hart
  events : m'.events = m.events
  tags : ∀ i, (m'.mmu.icache i).tag = (m.mmu.icache i).tag ∨
    (m'.mmu.icache i).tag = addr ∨ (m'.mmu.icache i).tag = -1

section Fetching

variable {P : Platform β} {rocc : Bool} {xlen : Xlen} {m : Machine β}

theorem CodeFrame.fetchFrame {m' : Machine β} (h : CodeFrame m m') (addr : Reg) :
    FetchFrame addr m m' :=
  ⟨h.hart, h.events, fun _ => .inl (by rw [h.icache])⟩

theorem CodeInv.frame {m' : Machine β} (hinv : CodeInv rocc xlen m) (h : CodeFrame m m') :
    CodeInv rocc xlen m' where
  decoder := h.decoder ▸ hinv.decoder
  width := by rw [h.hart, hinv.width]
  maxWidth := by rw [h.hart, hinv.maxWidth]
  icache := by
    rw [h.icache]
    exact hinv.icache

/-- Decoding finds a handler of the width of the hart. -/
theorem ensures_decodeInsn (hinv : CodeInv rocc xlen m) {insn : Insn}
    (hword : insnLength insn.bits = 2 ∨ insnLength insn.bits = 4 → Canonical insn.bits) :
    Ensures (decodeInsn insn) m
      (fun func m' => Fetched xlen (func, insn) ∧ CodeInv rocc xlen m' ∧
        ∃ d, m' = { m with decoder := d })
      fun _ _ => False := by
  obtain ⟨func, d, hdecode, hvalid, hanswers⟩ :=
    Decode.decodeInsn_freshDecoder hinv.decoder m.hart.xlen insn.bits
  have hrun : decodeInsn insn m = .ok func { m with decoder := d } := by
    simp only [decodeInsn, run_bind, run_get, hdecode]
    rfl
  unfold Ensures
  rw [hrun]
  rw [hinv.width] at hanswers
  exact ⟨fetched_of_answers hword hanswers, ⟨hvalid, hinv.width, hinv.maxWidth, hinv.icache⟩, d, rfl⟩

/-- The entry for an address. -/
theorem ensures_refillEntry (hinv : CodeInv rocc xlen m) (addr : Reg) :
    Ensures (refillEntry P addr) m
      (fun entry m' => Fetched xlen (entry.func, entry.insn) ∧
        (entry.tag = addr ∨ entry.tag = -1) ∧ CodeInv rocc xlen m' ∧ m'.hart = m.hart ∧
          m'.events = m.events ∧ m'.mmu.icache = m.mmu.icache)
      fun _ m' => CodeInv rocc xlen m' ∧ m'.hart = m.hart ∧ m'.events = m.events ∧
        m'.mmu.icache = m.mmu.icache := by
  have hread := (fetchKeeps_codeFrame P).fetchBits addr
  refine Ensures.bind (ensures_iff.mpr ⟨?_, ?_⟩)
  · rintro ⟨insn, length, ptr⟩ mid hfetch
    have hframe := hread.ok hfetch
    have hword := (fetchBits_canonical addr).ok hfetch
    refine Ensures.bind ((ensures_decodeInsn (hinv.frame hframe) hword).imp ?_ ?_)
    · rintro func m' ⟨hfetched, hinv', d, rfl⟩
      refine Ensures.ite (fun _ => ?_) fun _ => ?_
      · refine ⟨hfetched, .inr rfl, ⟨hinv'.decoder, hinv'.width, hinv'.maxWidth, hinv'.icache⟩,
          hframe.hart, hframe.events, hframe.icache⟩
      · exact ⟨hfetched, .inl rfl, hinv', hframe.hart, hframe.events, hframe.icache⟩
    · exact fun _ _ h => h.elim
  · intro e m' hfail
    have hframe := hread.error hfail
    exact ⟨hinv.frame hframe, hframe.hart, hframe.events, hframe.icache⟩

theorem ensures_loadInsn (hinv : CodeInv rocc xlen m) (addr : Reg) :
    Ensures (loadInsn P addr) m
      (fun fetch m' => Fetched xlen fetch ∧ CodeInv rocc xlen m' ∧ FetchFrame addr m m')
      fun _ m' => CodeInv rocc xlen m' ∧ FetchFrame addr m m' := by
  refine Ensures.bind ((ensures_refillEntry hinv addr).imp ?_ ?_)
  · rintro entry m' ⟨hfetched, -, hinv', hhart, hevents, hicache⟩
    exact ⟨hfetched, hinv', hhart, hevents, fun i => .inl (by rw [hicache])⟩
  · rintro e m' ⟨hinv', hhart, hevents, hicache⟩
    exact ⟨hinv', hhart, hevents, fun i => .inl (by rw [hicache])⟩

theorem ensures_refillIcache (hinv : CodeInv rocc xlen m) (addr : Reg) (i : Fin 1024) :
    Ensures (refillIcache P addr i) m
      (fun _ m' => CodeInv rocc xlen m' ∧ FetchFrame addr m m')
      fun _ m' => CodeInv rocc xlen m' ∧ FetchFrame addr m m' := by
  refine Ensures.bind ((ensures_refillEntry hinv addr).imp ?_ ?_)
  · rintro entry m' ⟨hfetched, htag, hinv', hhart, hevents, hicache⟩
    refine ⟨⟨hinv'.decoder, hinv'.width, hinv'.maxWidth, fun j => ?_⟩, hhart, hevents, fun j => ?_⟩
    · change Fetched xlen ((Function.update m'.mmu.icache i entry j).func,
        (Function.update m'.mmu.icache i entry j).insn)
      by_cases hj : j = i
      · subst hj
        rw [Function.update_self]
        exact hfetched
      · rw [Function.update_of_ne hj]
        exact hinv'.icache j
    · change (Function.update m'.mmu.icache i entry j).tag = _ ∨
        (Function.update m'.mmu.icache i entry j).tag = _ ∨
        (Function.update m'.mmu.icache i entry j).tag = _
      by_cases hj : j = i
      · subst hj
        rw [Function.update_self]
        exact .inr htag
      · rw [Function.update_of_ne hj, hicache]
        exact .inl rfl
  · rintro e m' ⟨hinv', hhart, hevents, hicache⟩
    exact ⟨hinv', hhart, hevents, fun i => .inl (by rw [hicache])⟩

theorem ensures_accessIcache (hinv : CodeInv rocc xlen m) (addr : Reg) :
    Ensures (accessIcache P addr) m
      (fun _ m' => CodeInv rocc xlen m' ∧ FetchFrame addr m m')
      fun _ m' => CodeInv rocc xlen m' ∧ FetchFrame addr m m' := by
  refine Ensures.bind (Ensures.ite (fun _ => ensures_refillIcache hinv addr _) fun _ => ?_)
  exact ⟨hinv, rfl, rfl, fun _ => .inl rfl⟩

end Fetching

/-! ## Executing keeps the code -/

/-- What was fetched stays as it is, but for tags that are dropped, and a hart that runs at its
full width goes on doing so. -/
structure SameCode (m m' : Machine β) : Prop where
  decoder : m'.decoder = m.decoder
  maxXlen : m'.hart.maxXlen = m.hart.maxXlen
  xlen : m.hart.xlen = m.hart.maxXlen → m'.hart.xlen = m.hart.maxXlen
  entries : ∀ i, (m'.mmu.icache i).func = (m.mmu.icache i).func ∧
    (m'.mmu.icache i).insn = (m.mmu.icache i).insn
  tags : ∀ i, (m'.mmu.icache i).tag = (m.mmu.icache i).tag ∨ (m'.mmu.icache i).tag = -1

instance : Std.Refl (SameCode (β := β)) :=
  ⟨fun _ => ⟨rfl, rfl, id, fun _ => ⟨rfl, rfl⟩, fun _ => .inl rfl⟩⟩

instance : IsTrans (Machine β) SameCode where
  trans _ _ _ hab hbc := {
    decoder := hbc.decoder.trans hab.decoder
    maxXlen := hbc.maxXlen.trans hab.maxXlen
    xlen := fun h => (hbc.xlen ((hab.xlen h).trans hab.maxXlen.symm)).trans hab.maxXlen
    entries := fun i => ⟨(hbc.entries i).1.trans (hab.entries i).1,
      (hbc.entries i).2.trans (hab.entries i).2⟩
    tags := fun i => (hbc.tags i).elim (fun h => h ▸ hab.tags i) .inr }

theorem CodeInv.same {rocc : Bool} {xlen : Xlen} {m m' : Machine β} (hinv : CodeInv rocc xlen m)
    (h : SameCode m m') : CodeInv rocc xlen m' where
  decoder := h.decoder ▸ hinv.decoder
  width := (h.xlen (hinv.width.trans hinv.maxWidth.symm)).trans hinv.maxWidth
  maxWidth := h.maxXlen.trans hinv.maxWidth
  icache i := by
    rw [(h.entries i).1, (h.entries i).2]
    exact hinv.icache i

/-- The icache is left alone. -/
theorem SameCode.of_icache {m m' : Machine β} (hdecoder : m'.decoder = m.decoder)
    (hmax : m'.hart.maxXlen = m.hart.maxXlen)
    (hxlen : m'.hart.xlen = m.hart.xlen ∨ m'.hart.xlen = m.hart.maxXlen)
    (hicache : m'.mmu.icache = m.mmu.icache) : SameCode m m' where
  decoder := hdecoder
  maxXlen := hmax
  xlen h := hxlen.elim (fun h' => h'.trans h) id
  entries i := by rw [hicache]; exact ⟨rfl, rfl⟩
  tags i := by rw [hicache]; exact .inl rfl

/-- All tags are dropped. -/
theorem SameCode.of_flushed {m m' : Machine β} (hdecoder : m'.decoder = m.decoder)
    (hmax : m'.hart.maxXlen = m.hart.maxXlen)
    (hxlen : m'.hart.xlen = m.hart.xlen ∨ m'.hart.xlen = m.hart.maxXlen)
    (hicache : m'.mmu.icache = fun i => { m.mmu.icache i with tag := -1 }) : SameCode m m' where
  decoder := hdecoder
  maxXlen := hmax
  xlen h := hxlen.elim (fun h' => h'.trans h) id
  entries i := by rw [hicache]; exact ⟨rfl, rfl⟩
  tags i := by rw [hicache]; exact .inr rfl

section SameCode

variable {P : Platform β}

/-- A change of the hart that does not touch its width. -/
theorem modifyHart_sameCode {f : Hart → Hart} (hxlen : ∀ h, (f h).xlen = h.xlen)
    (hmax : ∀ h, (f h).maxXlen = h.maxXlen) : Keeps SameCode (modifyHart f : M β Unit) :=
  .modify fun m => .of_icache rfl (hmax m.hart) (.inl (hxlen m.hart)) rfl

theorem flushTlb_sameCode : Keeps SameCode (flushTlb : M β Unit) :=
  .bind (.modify fun _ => .of_icache rfl rfl (.inl rfl) rfl) fun _ =>
    .modify fun _ => .of_flushed rfl rfl (.inl rfl) rfl

theorem setPrivilege_sameCode (prv : Prv) : Keeps SameCode (setPrivilege prv : M β Unit) :=
  .bind flushTlb_sameCode fun _ => modifyHart_sameCode (fun _ => rfl) fun _ => rfl

theorem enterDebugMode_sameCode (cause : DebugCause) :
    Keeps SameCode (enterDebugMode cause : M β Unit) := by
  refine .bind keeps_getHart fun h => .bind (.modify fun _ => ?_) fun _ => ?_
  · exact .of_icache rfl rfl (.inl rfl) rfl
  · refine .bind (modifyHart_sameCode (fun _ => rfl) fun _ => rfl) fun _ => ?_
    refine .bind (setPrivilege_sameCode _) fun _ => ?_
    exact modifyHart_sameCode (fun _ => rfl) fun _ => rfl

theorem setMstatus_sameCode (val : Reg) : Keeps SameCode (setMstatus val : M β Unit) := by
  refine .bind keeps_getHart fun h => .ite (.bind flushTlb_sameCode fun _ => ?_) ?_
  all_goals exact .modify fun m => .of_icache rfl rfl (.inr rfl) rfl

theorem writeCsr_sameCode (csr : Csr) (val : Reg) :
    Keeps SameCode (writeCsr csr val : M β Unit) := by
  refine .bind keeps_getHart fun h => ?_
  cases csr
  case mstatus | sstatus => all_goals exact setMstatus_sameCode _
  case sptbr =>
    refine .ite (.bind (.throw _) fun _ => ?_) ?_
    all_goals exact modifyHart_sameCode (fun _ => rfl) fun _ => rfl
  case tselect => exact .ite (modifyHart_sameCode (fun _ => rfl) fun _ => rfl) (.pure _)
  case tdata1 =>
    refine .ite (.pure _) (.bind (modifyHart_sameCode (fun _ => rfl) fun _ => rfl) fun _ => ?_)
    refine .bind flushTlb_sameCode fun _ => .bind keeps_getHart fun h => ?_
    exact .modify fun m => .of_icache rfl rfl (.inl rfl) rfl
  case tdata2 => exact .ite (.pure _) (modifyHart_sameCode (fun _ => rfl) fun _ => rfl)
  case cycle | instret | tdata3 | mvendorid | marchid | mimpid | mhartid =>
    all_goals exact .pure _
  all_goals exact modifyHart_sameCode (fun _ => rfl) fun _ => rfl

theorem setCsr_sameCode (which val : Reg) : Keeps SameCode (setCsr which val : M β Unit) := by
  unfold setCsr
  split
  · exact .pure _
  · exact writeCsr_sameCode ..

theorem takeTrap_sameCode (t : Trap) (epc : Reg) : Keeps SameCode (takeTrap t epc : M β Unit) := by
  refine .bind keeps_getHart fun h => .bind (.modify fun _ => ?_) fun _ => ?_
  · exact .of_icache rfl rfl (.inl rfl) rfl
  · have hhart {f : Hart → Hart} (hf : ∀ h, (f h).xlen = h.xlen ∧ (f h).maxXlen = h.maxXlen) :
        Keeps SameCode (modifyHart f : M β Unit) :=
      modifyHart_sameCode (fun h => (hf h).1) fun h => (hf h).2
    refine .ite (enterDebugMode_sameCode _) (.ite (hhart fun _ => ⟨rfl, rfl⟩) (.ite ?_ ?_))
    all_goals
      refine .bind (hhart fun _ => ⟨rfl, rfl⟩) fun _ => .bind (setMstatus_sameCode _) fun _ => ?_
      exact .bind (setPrivilege_sameCode _) fun _ => hhart fun _ => ⟨rfl, rfl⟩

theorem storeKeeps_sameCode : StoreKeeps P SameCode where
  read := {
    walk := fun _ _ _ _ _ _ => .of_icache rfl rfl (.inl rfl) rfl
    refill := fun _ _ _ _ _ => .of_icache rfl rfl (.inl rfl) rfl
    matched := fun _ _ => .of_icache rfl rfl (.inl rfl) rfl
    device := fun _ _ _ => .of_icache rfl rfl (.inl rfl) rfl
    tracers := fun _ _ => .of_icache rfl rfl (.inl rfl) rfl }
  write _ _ := .of_icache rfl rfl (.inl rfl) rfl
  device _ _ _ _ := .of_icache rfl rfl (.inl rfl) rfl

theorem actKeeps_sameCode : ActKeeps P (fun _ => True) SameCode where
  store := storeKeeps_sameCode
  hart _ hf m := by
    have hframe := Act.onHart_frame hf m.hart
    refine .of_icache rfl ?_ (.inl ?_) rfl
    · rw [hframe]
    · rw [hframe]
  setPrivilege prv _ := setPrivilege_sameCode prv
  setCsr which value _ := setCsr_sameCode which value
  flushTlb := flushTlb_sameCode
  flushIcache := .modify fun _ => .of_flushed rfl rfl (.inl rfl) rfl

/-- A relation that a handler respects, and that does not see what is retired, is kept by its
instruction. -/
theorem executeInsn_keeps_of_handler {R : Machine β → Machine β → Prop} [Std.Refl R]
    [IsTrans (Machine β) R] {F : SoftFloat} {pc : Reg} {fetch : Decode.InsnFunc × Insn}
    (hprogram : ∀ name xlen, fetch.1 = insnFunc xlen name →
      Keeps R ((insnProgram F name xlen fetch.2 pc).run (Act.exec P)))
    (hretired : ∀ m pc bits, R m { m with events := m.events ++ [.retired pc bits] }) :
    Keeps R (executeInsn P F pc fetch) := by
  apply Keeps.bind
  · obtain ⟨func, insn⟩ := fetch
    cases func with
    | rv32 name => exact hprogram name .rv32 rfl
    | rv64 name => exact hprogram name .rv64 rfl
    | custom n => exact .throw _
    | illegalInstruction => exact .throw _
  · intro npc
    exact .ite (.bind (.modify fun m => hretired m _ _) fun _ => .pure _) (.pure _)

/-- The same for a relation that every act respects. -/
theorem executeInsn_keeps {R : Machine β → Machine β → Prop} [Std.Refl R] [IsTrans (Machine β) R]
    (hR : ActKeeps P (fun _ => True) R)
    (hretired : ∀ m pc bits, R m { m with events := m.events ++ [.retired pc bits] })
    (F : SoftFloat) (pc : Reg) (fetch : Decode.InsnFunc × Insn) :
    Keeps R (executeInsn P F pc fetch) := by
  apply executeInsn_keeps_of_handler _ hretired
  intro name xlen _
  exact Program.keeps_run (P := fun _ => True) (fun _ h => hR.exec h) (Program.uses_true _)

theorem executeInsn_sameCode (F : SoftFloat) (pc : Reg) (fetch : Decode.InsnFunc × Insn) :
    Keeps SameCode (executeInsn P F pc fetch) :=
  executeInsn_keeps actKeeps_sameCode (fun _ _ _ => .of_icache rfl rfl (.inl rfl) rfl) F pc fetch

end SameCode

end SpikeSim.Riscv
