/-
# The decoder is transparent

Neither the opcode cache nor the reordering of the table changes what
`decode_insn` returns.  Patterns that accept a common word have the same match
word, apart from the catch-all entry, so they form groups in the table; an entry
only moves when its group is itself, and the catch-all stays last.
-/

import SpikeSim.Decode.Lookup

namespace SpikeSim.Decode

open PriorityList

/-! ## Overlapping patterns -/

/-- Two entries are told apart: they differ, and if their match words differ as
well and neither accepts everything, no word is accepted by both.  The words are
compared as numbers, so that the check of a whole table is fast. -/
def Separate (a b : InsnDesc) : Prop :=
  if a.matchBits.toNat = b.matchBits.toNat then a.mask.toNat ≠ b.mask.toNat
  else a.matchBits.toNat &&& b.mask.toNat = b.matchBits.toNat &&& a.mask.toNat →
    a.mask.toNat = 0 ∨ b.mask.toNat = 0

instance (a b : InsnDesc) : Decidable (Separate a b) := by
  unfold Separate
  infer_instance

theorem Separate.symm {a b : InsnDesc} (h : Separate a b) : Separate b a := by
  unfold Separate at h ⊢
  split at h
  · rename_i heq
    rw [if_pos heq.symm]
    exact h.symm
  · rename_i hne
    rw [if_neg (Ne.symm hne)]
    exact fun hmeet => (h hmeet.symm).symm

/-- Separate entries that accept a common word share their match word, or one of
them is a catch-all. -/
theorem Separate.of_accepts {a b : InsnDesc} {bits : InsnBits} (h : Separate a b)
    (ha : a.accepts bits) (hb : b.accepts bits) :
    a.matchBits = b.matchBits ∨ a.mask = 0 ∨ b.mask = 0 := by
  simp only [InsnDesc.accepts, beq_iff_eq] at ha hb
  by_cases heq : a.matchBits = b.matchBits
  · exact .inl heq
  · unfold Separate at h
    rw [if_neg (fun hnat => heq (BitVec.eq_of_toNat_eq hnat))] at h
    have hmeet : a.matchBits &&& b.mask = b.matchBits &&& a.mask := by
      rw [← ha, ← hb, BitVec.and_assoc, BitVec.and_assoc, BitVec.and_comm a.mask]
    rcases h (by simpa using congrArg BitVec.toNat hmeet) with hzero | hzero
    · exact .inr (.inl (BitVec.eq_of_toNat_eq hzero))
    · exact .inr (.inr (BitVec.eq_of_toNat_eq hzero))

namespace InsnDesc

theorem cmp_iff (a b : InsnDesc) : a.cmp b = true ↔
    b.matchBits < a.matchBits ∨ a.matchBits = b.matchBits ∧ b.mask < a.mask := by
  unfold cmp
  split
  · rename_i heq
    simp [heq, BitVec.lt_irrefl]
  · rename_i hne
    simp [hne]

instance : Std.Total fun a b : InsnDesc => ¬ b.cmp a where
  total a b := by
    simp only [cmp_iff, BitVec.lt_def, BitVec.toNat_eq]
    omega

instance : IsTrans InsnDesc fun a b : InsnDesc => ¬ b.cmp a where
  trans a b c := by
    simp only [cmp_iff, BitVec.lt_def, BitVec.toNat_eq]
    omega

instance : Std.Antisymm fun a b : InsnDesc => a.cmp b = true where
  antisymm a b hab hba := by
    rw [cmp_iff] at hab hba
    simp only [BitVec.lt_def, BitVec.toNat_eq] at hab hba
    omega

/-- The order of the table is total on separate entries. -/
theorem cmp_of_separate {a b : InsnDesc} (hsep : Separate a b) (hnot : ¬ b.cmp a) :
    a.cmp b := by
  rw [cmp_iff] at hnot ⊢
  unfold Separate at hsep
  simp only [BitVec.lt_def, BitVec.toNat_eq] at hnot ⊢
  split at hsep <;> omega

/-- Nothing stands behind the catch-all entry. -/
theorem not_catchAll_cmp (a : InsnDesc) : ¬ catchAll.cmp a := by
  rw [cmp_iff]
  simp [catchAll, BitVec.lt_def]

theorem catchAll_accepts (bits : InsnBits) : catchAll.accepts bits := by
  simp [accepts, catchAll]

end InsnDesc

/-! ## The table along a run -/

/-- What the decoder relies on in the registered entries. -/
structure WellFormed (insns : List InsnDesc) : Prop where
  separate : insns.Pairwise Separate
  complete : catchAll ∈ insns
  catchAllOnly : ∀ a ∈ insns, a.mask = 0 → a = catchAll

theorem WellFormed.perm {insns insns' : List InsnDesc} (h : WellFormed insns)
    (hperm : insns.Perm insns') : WellFormed insns' where
  separate := hperm.pairwise h.separate Separate.symm
  complete := hperm.mem_iff.mp h.complete
  catchAllOnly := fun a ha => h.catchAllOnly a (hperm.mem_iff.mpr ha)

/-- A reordering of the sorted table that no search can notice. -/
structure Arranged (sorted table : List InsnDesc) : Prop where
  perm : sorted.Perm table
  /-- Entries that accept a common word keep their order. -/
  order : table.Pairwise fun a b => ∀ bits, a.accepts bits → b.accepts bits → a.cmp b
  grouped : Grouped InsnDesc.matchBits table

/-- The sorted table itself. -/
theorem arranged_sortInsns {insns : List InsnDesc} (hwf : WellFormed insns) :
    Arranged (sortInsns insns) (sortInsns insns) := by
  have hsorted : (sortInsns insns).Pairwise fun a b => a.cmp b := by
    have hle : (sortInsns insns).Pairwise fun a b => ¬ b.cmp a :=
      List.pairwise_insertionSort _ insns
    refine (hle.and (hwf.perm (List.perm_insertionSort _ insns).symm).separate).imp ?_
    exact fun ⟨hnot, hsep⟩ => InsnDesc.cmp_of_separate hsep hnot
  have hanti : Std.Antisymm fun m m' : InsnBits => m'.toNat ≤ m.toNat :=
    ⟨fun m m' h h' => BitVec.eq_of_toNat_eq (Nat.le_antisymm h' h)⟩
  refine ⟨.rfl, hsorted.imp fun h _ _ _ => h,
    grouped_of_pairwise (r := fun m m' : InsnBits => m'.toNat ≤ m.toNat) (hsorted.imp fun h => ?_)⟩
  simp only [InsnDesc.cmp_iff, BitVec.lt_def, BitVec.toNat_eq] at h
  omega

namespace Arranged

variable {sorted table : List InsnDesc}

/-- **Priority.** A search in the reordered table finds the entry that it would
find in the sorted one. -/
theorem find?_eq (harr : Arranged sorted table) (harr' : Arranged sorted sorted)
    (bits : InsnBits) :
    table.find? (·.accepts bits) = sorted.find? (·.accepts bits) :=
  (find?_eq_of_perm (r := fun a b : InsnDesc => a.cmp b = true) harr.perm
    (harr'.order.imp fun h => h bits) (harr.order.imp fun h => h bits)).symm

/-- Reordering the table after a search goes unnoticed: the entry either stays,
or it has a match word of its own and passes only entries that it shares no word
with. -/
theorem reorder {pre post : List InsnDesc} {desc : InsnDesc} {bits : InsnBits}
    (hwf : WellFormed sorted) (harr : Arranged sorted (pre ++ desc :: post))
    (hacc : desc.accepts bits) :
    ∃ table', reorder pre.reverse desc post = some table' ∧ Arranged sorted table' := by
  obtain ⟨hsepPre, hsepRest, hsep⟩ :=
    List.pairwise_append.mp (hwf.perm harr.perm).separate
  have horder := (List.pairwise_append.mp harr.order).2.2
  rcases List.eq_nil_or_concat pre with rfl | ⟨rest, prev, rfl⟩
  · exact ⟨desc :: post, rfl, harr⟩
  · rw [List.concat_eq_append] at *
    have hreverse : (rest ++ [prev]).reverse = prev :: rest.reverse := by simp
    rw [hreverse]
    simp only [Decode.reorder]
    by_cases hmove : desc.mask ≠ 0 ∧ desc.matchBits ≠ prev.matchBits
    · rw [if_pos hmove, ← hreverse, List.reverse_reverse]
      -- The catch-all precedes nothing, so it stands behind the entry.
      have hlast : catchAll ∈ post := by
        rcases List.mem_append.mp (harr.perm.mem_iff.mp hwf.complete) with hmem | hmem
        · exact absurd (horder _ hmem desc (by simp) bits (InsnDesc.catchAll_accepts bits) hacc)
            (InsnDesc.not_catchAll_cmp desc)
        · rcases List.mem_cons.mp hmem with heq | hmem
          · exact absurd (congrArg InsnDesc.mask heq.symm) hmove.1
          · exact hmem
      cases post with
      | nil => cases hlast
      | cons next later =>
          dsimp only
          by_cases hnext : desc.matchBits ≠ next.matchBits
          · rw [if_pos hnext]
            have hpre := harr.grouped.ne_of_mem_pre (by simpa using hmove.2)
            have hpost := harr.grouped.ne_of_mem_post (by simpa using hnext)
            refine ⟨_, rfl, harr.perm.trans List.perm_middle, pairwise_moveToFront harr.order ?_,
              harr.grouped.moveToFront hpre hpost⟩
            intro a ha word hdesc haword
            rcases (hsep a ha desc (by simp)).of_accepts haword hdesc with heq | hzero | hzero
            · exact absurd heq.symm (hpre a ha)
            · -- A catch-all that stood before the entry.
              rw [hwf.catchAllOnly a (harr.perm.mem_iff.mpr (List.mem_append_left _ ha))
                hzero] at ha
              exact absurd (horder _ ha desc (by simp) bits (InsnDesc.catchAll_accepts bits) hacc)
                (InsnDesc.not_catchAll_cmp desc)
            · exact absurd hzero hmove.1
          · rw [if_neg hnext]
            exact ⟨_, rfl, harr⟩
    · rw [if_neg hmove, ← hreverse, List.reverse_reverse]
      exact ⟨_, rfl, harr⟩

end Arranged

/-- The search stops at the first entry that accepts the word. -/
theorem search_eq_some {bits : InsnBits} {desc : InsnDesc} {table : List InsnDesc}
    (hfind : table.find? (·.accepts bits) = some desc) (passed : List InsnDesc) :
    ∃ pre post, table = pre ++ desc :: post ∧
      search bits passed table = some (pre.reverse ++ passed, desc, post) := by
  induction table generalizing passed with
  | nil => cases hfind
  | cons p rest ih =>
      rw [search]
      rw [List.find?_cons] at hfind
      by_cases hp : p.accepts bits
      · simp only [hp, Option.some.injEq] at hfind
        obtain rfl := hfind
        exact ⟨[], rest, rfl, if_pos hp⟩
      · simp only [hp] at hfind
        obtain ⟨pre, post, rfl, hsearch⟩ := ih hfind (p :: passed)
        refine ⟨p :: pre, post, rfl, ?_⟩
        rw [if_neg hp, hsearch, List.reverse_cons, List.append_assoc, List.singleton_append]

/-! ## Calls -/

/-- A cached entry is the seed, or the entry found for the word it is filed
under, with that word in place of the match word. -/
def CacheValid (sorted : List InsnDesc) (cache : Fin opcodeCacheSize → InsnDesc) : Prop :=
  ∀ idx, cache idx = catchAll ∨ ∃ desc,
    sorted.find? (·.accepts (cache idx).matchBits) = some desc ∧
      cache idx = { desc with matchBits := (cache idx).matchBits }

/-- The answer expected from the sorted table: the handler of the first entry
that accepts the word.  On the zero word that entry is `c_addi4spn`, and the
illegal-instruction handler, which raises the same trap there, is as good. -/
def Answers (sorted : List InsnDesc) (xlen : Xlen) (bits : InsnBits) (func : InsnFunc) : Prop :=
  ∃ desc, sorted.find? (·.accepts bits) = some desc ∧
    (func = desc.handler xlen ∨
      bits = 0 ∧ func = .illegalInstruction ∧
        desc.rv32 = .rv32 .cAddi4spn ∧ desc.rv64 = .rv64 .cAddi4spn)

/-- What every call relies on and restores. -/
structure Valid (sorted : List InsnDesc) (d : Decoder) : Prop where
  arranged : Arranged sorted d.instructions
  cached : CacheValid sorted d.opcodeCache

section Call

variable {sorted : List InsnDesc} (hwf : WellFormed sorted) (hsorted : Arranged sorted sorted)
  (hzero : Answers sorted .rv64 0 .illegalInstruction)
  (hzero' : Answers sorted .rv32 0 .illegalInstruction)

include hwf hsorted hzero hzero'

/-- One call answers as the sorted table does and keeps the invariant. -/
theorem decodeInsn_spec {d : Decoder} (hvalid : Valid sorted d) (xlen : Xlen)
    (bits : InsnBits) :
    ∃ func d', decodeInsn xlen bits d = some (func, d') ∧ Valid sorted d' ∧
      Answers sorted xlen bits func := by
  simp only [decodeInsn]
  generalize (⟨bits.toNat % opcodeCacheSize, _⟩ : Fin opcodeCacheSize) = idx
  by_cases hhit : bits ≠ (d.opcodeCache idx).matchBits
  · -- A miss: the search succeeds because the catch-all accepts every word.
    rw [if_pos hhit]
    obtain ⟨desc, hfind⟩ : ∃ desc, sorted.find? (·.accepts bits) = some desc :=
      Option.isSome_iff_exists.mp (List.find?_isSome.mpr
        ⟨catchAll, hwf.complete, InsnDesc.catchAll_accepts bits⟩)
    obtain ⟨pre, post, htable, hsearch⟩ :=
      search_eq_some (hvalid.arranged.find?_eq hsorted bits ▸ hfind) []
    have harr := hvalid.arranged
    rw [htable] at harr
    have hacc : desc.accepts bits := by
      have := List.find?_some hfind
      exact this
    obtain ⟨table', hreorder, harr'⟩ := harr.reorder hwf hacc
    rw [List.append_nil] at hsearch
    refine ⟨desc.handler xlen,
      ⟨table', Function.update d.opcodeCache idx { desc with matchBits := bits }⟩,
      by simp [hsearch, hreorder], ⟨harr', fun i => ?_⟩, desc, hfind, .inl rfl⟩
    by_cases hi : i = idx
    · subst hi
      exact .inr ⟨desc, by simpa using hfind, by simp⟩
    · simpa [Function.update_of_ne hi] using hvalid.cached i
  · -- A hit: the cached entry was found for this very word.
    rw [if_neg hhit]
    rw [ne_eq, not_not] at hhit
    refine ⟨_, d, rfl, hvalid, ?_⟩
    rcases hvalid.cached idx with hseed | ⟨desc, hfind, hentry⟩
    · have hbits : bits = 0 := by rw [hhit, hseed]; rfl
      rw [hseed, hbits]
      cases xlen
      · exact hzero'
      · exact hzero
    · rw [← hhit] at hfind hentry
      refine ⟨desc, hfind, .inl ?_⟩
      rw [hentry]
      cases xlen <;> rfl

/-- A run of calls. -/
theorem decodeAll_spec (calls : List (Xlen × InsnBits)) {d : Decoder}
    (hvalid : Valid sorted d) :
    ∃ funcs d', decodeAll calls d = some (funcs, d') ∧
      List.Forall₂ (fun call func => Answers sorted call.1 call.2 func) calls funcs := by
  induction calls generalizing d with
  | nil => exact ⟨[], d, rfl, .nil⟩
  | cons call calls ih =>
      obtain ⟨func, d₁, hone, hvalid₁, hanswer⟩ :=
        decodeInsn_spec hwf hsorted hzero hzero' hvalid call.1 call.2
      obtain ⟨funcs, d₂, hrest, hanswers⟩ := ih hvalid₁
      refine ⟨func :: funcs, d₂, ?_, .cons hanswer hanswers⟩
      simp [decodeAll, hone, hrest]

end Call

/-! ## The tables of the simulator -/

/-- The entries in the order of their registration. -/
def registeredInsns (rocc : Bool) : List InsnDesc :=
  baseInsns ++ if rocc then roccInsns else []

/-- The encodings of the base ISA and of the RoCC opcodes, checked pairwise. -/
theorem wellFormed_registeredInsns (rocc : Bool) : WellFormed (registeredInsns rocc) := by
  have hall : (baseInsns ++ roccInsns).Pairwise Separate := by decide +kernel
  have hsub : (registeredInsns rocc).Sublist (baseInsns ++ roccInsns) := by
    cases rocc
    · simp [registeredInsns]
    · simp [registeredInsns]
  have honly : ∀ a ∈ baseInsns ++ roccInsns, a.mask = 0 → a = catchAll := by decide +kernel
  exact ⟨hall.sublist hsub, by simp [registeredInsns, baseInsns],
    fun a ha => honly a (hsub.subset ha)⟩

/-- The table of a hart is sorted from the registered entries. -/
theorem freshDecoder_instructions (rocc : Bool) :
    ∃ insns, (registeredInsns rocc).Perm insns ∧
      (freshDecoder rocc).instructions = sortInsns insns := by
  cases rocc with
  | false =>
      refine ⟨baseInsns, .of_eq (List.append_nil baseInsns), ?_⟩
      simp only [freshDecoder, Bool.false_eq_true, if_false, registerBaseInstructions,
        buildOpcodeMap]
  | true =>
      refine ⟨sortInsns baseInsns ++ roccInsns, ?_, ?_⟩
      · exact (List.perm_insertionSort _ baseInsns).symm.append_right roccInsns
      · simp only [freshDecoder, if_true, registerExtension, registerBaseInstructions,
          buildOpcodeMap]

theorem freshDecoder_perm (rocc : Bool) :
    (registeredInsns rocc).Perm (freshDecoder rocc).instructions := by
  obtain ⟨insns, hperm, hsort⟩ := freshDecoder_instructions rocc
  rw [hsort]
  exact hperm.trans (List.perm_insertionSort _ insns).symm

theorem freshDecoder_arranged (rocc : Bool) :
    Arranged (freshDecoder rocc).instructions (freshDecoder rocc).instructions := by
  obtain ⟨insns, hperm, hsort⟩ := freshDecoder_instructions rocc
  rw [hsort]
  exact arranged_sortInsns ((wellFormed_registeredInsns rocc).perm hperm)

/-- On the zero word the sorted table names `c_addi4spn`. -/
theorem freshDecoder_zero (rocc : Bool) (xlen : Xlen) :
    Answers (freshDecoder rocc).instructions xlen 0 .illegalInstruction := by
  -- The registered order agrees with the sorted one on the two entries that accept zero.
  have horder : (registeredInsns rocc).Pairwise
      fun a b => a.accepts 0 → b.accepts 0 → a.cmp b := by
    have hpair : ((registeredInsns rocc).filter (·.accepts 0)).Pairwise fun a b => a.cmp b := by
      revert rocc
      decide +kernel
    exact (List.pairwise_filter.mp hpair).imp fun h ha hb => h ha hb
  have hfind := find?_eq_of_perm (r := fun a b : InsnDesc => a.cmp b = true)
    (freshDecoder_perm rocc) horder ((freshDecoder_arranged rocc).order.imp fun h => h 0)
  refine ⟨⟨0, 0xe003, .rv32 .cAddi4spn, .rv64 .cAddi4spn⟩, ?_, .inr ⟨rfl, rfl, rfl, rfl⟩⟩
  rw [← hfind]
  revert rocc
  decide +kernel

/-- A new decoder keeps what every call relies on. -/
theorem valid_freshDecoder (rocc : Bool) :
    Valid (freshDecoder rocc).instructions (freshDecoder rocc) := by
  have hseed : (freshDecoder rocc).opcodeCache = fun _ => catchAll := by
    cases rocc <;> rfl
  exact ⟨freshDecoder_arranged rocc, fun idx => .inl (by rw [hseed])⟩

/-- A call of a decoder that started from the table of the simulator. -/
theorem decodeInsn_freshDecoder {rocc : Bool} {d : Decoder}
    (hvalid : Valid (freshDecoder rocc).instructions d) (xlen : Xlen) (bits : InsnBits) :
    ∃ func d', decodeInsn xlen bits d = some (func, d') ∧
      Valid (freshDecoder rocc).instructions d' ∧
        Answers (freshDecoder rocc).instructions xlen bits func :=
  decodeInsn_spec ((wellFormed_registeredInsns rocc).perm (freshDecoder_perm rocc))
    (freshDecoder_arranged rocc) (freshDecoder_zero rocc .rv64) (freshDecoder_zero rocc .rv32)
    hvalid xlen bits

/-- **Transparency.** Every sequence of `decode_insn` calls, on any words and at
either width, completes, and each call returns the handler of the first entry of
the freshly sorted table that accepts the word. -/
theorem decodeAll_transparent (rocc : Bool) (calls : List (Xlen × InsnBits)) :
    ∃ funcs d, decodeAll calls (freshDecoder rocc) = some (funcs, d) ∧
      List.Forall₂ (fun call func => Answers (freshDecoder rocc).instructions call.1 call.2 func)
        calls funcs := by
  exact decodeAll_spec ((wellFormed_registeredInsns rocc).perm (freshDecoder_perm rocc))
    (freshDecoder_arranged rocc) (freshDecoder_zero rocc .rv64) (freshDecoder_zero rocc .rv32)
    calls (valid_freshDecoder rocc)

end SpikeSim.Decode
