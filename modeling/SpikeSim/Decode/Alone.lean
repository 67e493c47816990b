/-
# Encodings with a match word of their own

Most instructions share their match word with no other entry of the table.  A word of such an
instruction is decoded to it, in whatever order the decoder has its table by then.
-/

import SpikeSim.Decode.Transparent

namespace SpikeSim.Decode

/-- The entry of an instruction. -/
def insnDesc (name : InsnName) : InsnDesc :=
  ⟨name.encoding.1, name.encoding.2, .rv32 name, .rv64 name⟩

/-- No other entry has the match word. -/
def Alone (name : InsnName) : Prop :=
  name.encoding.2 ≠ 0 ∧
    ∀ desc ∈ baseInsns ++ roccInsns, desc.matchBits = name.encoding.1 → desc = insnDesc name

instance (name : InsnName) : Decidable (Alone name) := inferInstanceAs (Decidable (_ ∧ _))

theorem insnDesc_mem (name : InsnName) (rocc : Bool) :
    insnDesc name ∈ (freshDecoder rocc).instructions := by
  have hlist : name ∈ riscvInsnList := by cases name <;> decide
  apply (freshDecoder_perm rocc).mem_iff.mp
  apply List.mem_append_left
  apply List.mem_append_left
  exact List.mem_map.mpr ⟨name, hlist, rfl⟩

section Found

variable {name : InsnName} {bits : InsnBits} {rocc : Bool}

/-- The sorted table names the instruction. -/
theorem find?_of_alone (halone : Alone name) (hbits : bits &&& name.encoding.2 = name.encoding.1) :
    (freshDecoder rocc).instructions.find? (·.accepts bits) = some (insnDesc name) := by
  have hmem := insnDesc_mem name rocc
  have haccepts : (insnDesc name).accepts bits = true := beq_iff_eq.mpr hbits
  have hwf := (wellFormed_registeredInsns rocc).perm (freshDecoder_perm rocc)
  have hsome : ((freshDecoder rocc).instructions.find? (·.accepts bits)).isSome = true :=
    List.find?_isSome.mpr ⟨insnDesc name, hmem, haccepts⟩
  obtain ⟨desc, hfind⟩ := Option.isSome_iff_exists.mp hsome
  obtain ⟨hdesc, pre, post, hsplit, hpre⟩ := List.find?_eq_some_iff_append.mp hfind
  rw [hfind, Option.some_inj]
  by_contra hne
  -- The entry stands behind the one that is found.
  have hpost : insnDesc name ∈ post := by
    rw [hsplit, List.mem_append, List.mem_cons] at hmem
    rcases hmem with hmem | heq | hmem
    · have hnot := hpre _ hmem
      rw [haccepts] at hnot
      cases hnot
    · exact absurd heq.symm hne
    · exact hmem
  have hseparate := hwf.separate
  have horder := (freshDecoder_arranged rocc).order
  rw [hsplit] at hseparate horder
  have hcmp := (List.pairwise_cons.mp (List.pairwise_append.mp horder).2.1).1 _ hpost bits hdesc
    haccepts
  have hregistered : desc ∈ baseInsns ++ roccInsns := by
    have hin : desc ∈ registeredInsns rocc :=
      (freshDecoder_perm rocc).mem_iff.mpr (List.mem_of_find?_eq_some hfind)
    cases rocc with
    | false =>
        rw [registeredInsns, if_neg (by decide), List.append_nil] at hin
        exact List.mem_append_left _ hin
    | true => exact hin
  rcases ((List.pairwise_cons.mp (List.pairwise_append.mp hseparate).2.1).1 _ hpost).of_accepts
    hdesc haccepts with heq | hzero | hzero
  · exact hne (halone.2 desc hregistered heq)
  · have hcatch := hwf.catchAllOnly desc (List.mem_of_find?_eq_some hfind) hzero
    rw [hcatch] at hcmp
    exact InsnDesc.not_catchAll_cmp _ hcmp
  · exact halone.1 hzero

/-- **A word of such an instruction is decoded to it.** -/
theorem decodeInsn_of_alone {d : Decoder} (hvalid : Valid (freshDecoder rocc).instructions d)
    (halone : Alone name) (hne : bits ≠ 0) (hbits : bits &&& name.encoding.2 = name.encoding.1)
    (xlen : Xlen) :
    ∃ d', decodeInsn xlen bits d = some ((insnDesc name).handler xlen, d') ∧
      Valid (freshDecoder rocc).instructions d' := by
  obtain ⟨func, d', hdecode, hvalid', desc, hfind, hfunc⟩ :=
    decodeInsn_freshDecoder hvalid xlen bits
  rw [find?_of_alone halone hbits, Option.some_inj] at hfind
  subst hfind
  rcases hfunc with rfl | ⟨hzero, -⟩
  · exact ⟨d', hdecode, hvalid'⟩
  · exact absurd hzero hne

end Found

end SpikeSim.Decode
