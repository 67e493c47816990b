/-
# The grammar of ISA strings

`parse_isa_string` walks over the string with a second pointer into the letters that may
still come.  Here are the strings as a grammar, and the two are shown to agree: which
strings are accepted, and what a string says about the hart.
-/

import SpikeSim.Riscv.Isa

namespace SpikeSim.Riscv

/-! ## The grammar -/

/-- The ways to give the width. -/
inductive WidthSpelling
  | none | rv | rv32 | rv64
  deriving DecidableEq, Repr

def WidthSpelling.chars : WidthSpelling → List Char
  | .none => []
  | .rv => ['r', 'v']
  | .rv32 => ['r', 'v', '3', '2']
  | .rv64 => ['r', 'v', '6', '4']

def WidthSpelling.xlen : WidthSpelling → Xlen
  | .rv32 => .rv32
  | _ => .rv64

/-- The bit of the `MXL` field. -/
def mxlBit : Xlen → Nat
  | .rv32 => 30
  | .rv64 => 63

/-- The end of a string: nothing, or `x` and the name of an extension. -/
inductive ExtensionTail : List Char → Bool → Prop
  | nothing : ExtensionTail [] false
  | named (name : List Char) (h : ∀ c ∈ name, c.isLower = true) : ExtensionTail ('x' :: name) true

/-- What may follow the width: the characters, the letters they stand for, and whether an
extension is named. -/
inductive IsaBody : List Char → List Char → Bool → Prop
  | nothing : IsaBody [] ['i', 'm', 'a', 'f', 'd', 'c'] false
  | general {letters tail : List Char} {ext : Bool} (hletters : letters.Sublist ['c'])
      (htail : ExtensionTail tail ext) :
      IsaBody ('g' :: letters ++ tail) (['i', 'm', 'a', 'f', 'd'] ++ letters) ext
  | base {letters tail : List Char} {ext : Bool}
      (hletters : letters.Sublist ['m', 'a', 'f', 'd', 'c'])
      (hdouble : 'd' ∈ letters → 'f' ∈ letters) (htail : ExtensionTail tail ext) :
      IsaBody ('i' :: letters ++ tail) ('i' :: letters) ext

/-- The configuration of a hart with these letters: exactly their bits in `misa`, with those
of the two modes, of an extension and of the width. -/
structure IsaConfig.Describes (cfg : IsaConfig) (width : WidthSpelling) (letters : List Char)
    (named : Bool) : Prop where
  maxXlen : cfg.maxXlen = width.xlen
  ext : cfg.ext = named
  isa : ∀ i < 64, cfg.isa.getLsbD i = true ↔
    (∃ letter ∈ letters, i = letter.toNat - 'a'.toNat) ∨ i = 's'.toNat - 'a'.toNat ∨
      i = 'u'.toNat - 'a'.toNat ∨ (named = true ∧ i = 'x'.toNat - 'a'.toNat) ∨
      i = mxlBit width.xlen

/-! ## The loop -/

/-- The `misa` after these letters. -/
def withLetters (isa : Reg) (letters : List Char) : Reg :=
  letters.foldl (fun isa letter => isa ||| isaBit letter) isa

/-- The rest of a sublist is searched behind the first occurrence of its head. -/
theorem cons_sublist_iff_dropWhile {letter : Char} {letters all : List Char} :
    (letter :: letters).Sublist all ↔
      ∃ rest, all.dropWhile (· ≠ letter) = letter :: rest ∧ letters.Sublist rest := by
  induction all with
  | nil => simp
  | cons head all ih =>
      by_cases hhead : head = letter
      · subst hhead
        simp
      · rw [List.dropWhile_cons_of_pos (by simpa using hhead), ← ih]
        constructor
        · intro h
          cases h with
          | cons _ h => exact h
          | cons_cons _ h => exact absurd rfl hhead
        · exact fun h => h.cons head

/-- The letters are lower-case ones, and none of them is `x`. -/
def Standard (all : List Char) : Prop := ∀ c ∈ all, c.isLower = true ∧ c ≠ 'x'

instance (all : List Char) : Decidable (Standard all) :=
  inferInstanceAs (Decidable (∀ c ∈ all, _))

/-- A letter that may still come. -/
theorem parseSubsets_letter {findExtension : List Char → Bool} {fuel : Nat} {letter : Char}
    {rest all after : List Char} (cfg : IsaConfig)
    (hdrop : all.dropWhile (· ≠ letter) = letter :: after) :
    parseSubsets findExtension (fuel + 1) (letter :: rest) all cfg =
      parseSubsets findExtension fuel rest after { cfg with isa := cfg.isa ||| isaBit letter } := by
  rw [parseSubsets, hdrop]

/-- Any other character starts the name of an extension. -/
theorem parseSubsets_other {fuel : Nat} {letter : Char} {rest all : List Char} {cfg : IsaConfig}
    (hext : cfg.ext = false) (hdrop : all.dropWhile (· ≠ letter) = []) :
    parseSubsets (fun _ => true) (fuel + 1) (letter :: rest) all cfg =
      if letter = 'x' then parseSubsets (fun _ => true) fuel (rest.dropWhile Char.isLower) all
        { cfg with isa := cfg.isa ||| isaBit letter, ext := true }
      else none := by
  rw [parseSubsets, hdrop]
  simp only [hext, Bool.not_false, Bool.and_self, if_true]

/-- Behind the name of an extension nothing is accepted. -/
theorem parseSubsets_afterName {fuel : Nat} {all rest : List Char} (hall : Standard all)
    (cfg cfg' : IsaConfig) :
    parseSubsets (fun _ => true) fuel (rest.dropWhile Char.isLower) all cfg = some cfg' ↔
      (∀ c ∈ rest, c.isLower = true) ∧ cfg' = cfg := by
  cases hdrop : rest.dropWhile Char.isLower with
  | nil =>
      rw [parseSubsets, Option.some.injEq, eq_comm (b := cfg)]
      exact (and_iff_right (List.dropWhile_eq_nil_iff.mp hdrop)).symm
  | cons c after =>
      have hc : c.isLower = false := by
        have hne : rest.dropWhile Char.isLower ≠ [] := by
          rw [hdrop]
          exact List.cons_ne_nil c after
        simpa [hdrop] using List.head_dropWhile_not Char.isLower hne
      have hnot : ¬ ∀ c ∈ rest, c.isLower = true := by
        rw [← List.dropWhile_eq_nil_iff, hdrop]
        simp
      have hnone : parseSubsets (fun _ => true) fuel (c :: after) all cfg = none := by
        cases fuel with
        | zero => rfl
        | succ fuel =>
            have hfresh : all.dropWhile (· ≠ c) = [] := by
              rw [List.dropWhile_eq_nil_iff]
              intro d hd
              have hne : d ≠ c := by
                rintro rfl
                rw [(hall d hd).1] at hc
                cases hc
              simpa using hne
            rw [parseSubsets, hfresh]
            have hx : c ≠ 'x' := by
              rintro rfl
              exact absurd hc (by decide)
            simp only [if_neg hx]
      rw [hnone]
      simp [hnot]

/-- The configuration after some letters and perhaps an extension. -/
def IsaConfig.extended (cfg : IsaConfig) (letters : List Char) (named : Bool) : IsaConfig :=
  { cfg with
    isa := withLetters cfg.isa (letters ++ if named then ['x'] else [])
    ext := named }

theorem IsaConfig.extended_nothing (cfg : IsaConfig) (hext : cfg.ext = false) :
    cfg.extended [] false = cfg := by
  obtain ⟨maxXlen, isa, ext⟩ := cfg
  obtain rfl : ext = false := hext
  rfl

/-- A search for a letter ends at the letter or finds nothing. -/
theorem dropWhile_ne_cases (letter : Char) (all : List Char) :
    (∃ after, all.dropWhile (· ≠ letter) = letter :: after) ∨
      all.dropWhile (· ≠ letter) = [] := by
  cases hdrop : all.dropWhile (· ≠ letter) with
  | nil => exact .inr rfl
  | cons head after =>
      have hne : all.dropWhile (· ≠ letter) ≠ [] := by
        rw [hdrop]
        exact List.cons_ne_nil head after
      have hhead := List.head_dropWhile_not (fun c => decide (c ≠ letter)) hne
      simp only [hdrop, List.head_cons, decide_eq_false_iff_not, not_not] at hhead
      exact .inl ⟨after, by rw [hhead]⟩

theorem Standard.of_dropWhile {all after : List Char} {letter : Char} (hall : Standard all)
    (hdrop : all.dropWhile (· ≠ letter) = letter :: after) : letter ≠ 'x' ∧ Standard after := by
  have hsuffix : (letter :: after) <:+ all := hdrop ▸ List.dropWhile_suffix _
  refine ⟨(hall letter (hsuffix.mem List.mem_cons_self)).2, fun c hc => ?_⟩
  exact hall c (hsuffix.mem (List.mem_cons_of_mem letter hc))

/-- The loop accepts a sublist of the letters that may come and the end of a string. -/
theorem parseSubsets_iff {p all : List Char} {fuel : Nat} (hfuel : p.length ≤ fuel)
    (hall : Standard all) {cfg : IsaConfig} (hext : cfg.ext = false) (cfg' : IsaConfig) :
    parseSubsets (fun _ => true) fuel p all cfg = some cfg' ↔
      ∃ letters tail named, p = letters ++ tail ∧ letters.Sublist all ∧
        ExtensionTail tail named ∧ cfg' = cfg.extended letters named := by
  induction p generalizing all fuel cfg with
  | nil =>
      rw [parseSubsets]
      constructor
      · intro h
        refine ⟨[], [], false, rfl, List.nil_sublist all, .nothing, ?_⟩
        rw [cfg.extended_nothing hext, Option.some.inj h]
      · rintro ⟨letters, tail, named, hp, -, htail, rfl⟩
        obtain ⟨rfl, rfl⟩ := List.append_eq_nil_iff.mp hp.symm
        cases htail
        rw [cfg.extended_nothing hext]
  | cons letter rest ih =>
      obtain ⟨fuel, rfl⟩ : ∃ n, fuel = n + 1 := ⟨fuel - 1, by simp at hfuel; omega⟩
      have hfuel' : rest.length ≤ fuel := by simpa using hfuel
      rcases dropWhile_ne_cases letter all with ⟨after, hdrop⟩ | hdrop
      · -- One of the letters that may still come.
        obtain ⟨hx, hafter⟩ := hall.of_dropWhile hdrop
        rw [parseSubsets_letter cfg hdrop, ih hfuel' hafter (by exact hext)]
        constructor
        · rintro ⟨letters, tail, named, rfl, hletters, htail, rfl⟩
          exact ⟨letter :: letters, tail, named, rfl,
            cons_sublist_iff_dropWhile.mpr ⟨after, hdrop, hletters⟩, htail, rfl⟩
        · rintro ⟨letters, tail, named, hp, hletters, htail, rfl⟩
          cases letters with
          | nil =>
              -- The tail would start with a letter that is not `x`.
              rw [List.nil_append] at hp
              subst hp
              cases htail
              exact absurd rfl hx
          | cons head letters =>
              obtain ⟨rfl, rfl⟩ := List.cons.inj hp
              obtain ⟨after', hdrop', hletters'⟩ := cons_sublist_iff_dropWhile.mp hletters
              obtain rfl := (List.cons.inj (hdrop.symm.trans hdrop')).2
              exact ⟨letters, tail, named, rfl, hletters', htail, rfl⟩
      · have hnot (letters : List Char) : ¬ (letter :: letters).Sublist all := by
          rw [cons_sublist_iff_dropWhile, hdrop]
          rintro ⟨_, h, -⟩
          cases h
        have hsplit {letters tail : List Char} (hp : letter :: rest = letters ++ tail)
            (hletters : letters.Sublist all) : letters = [] ∧ tail = letter :: rest := by
          cases letters with
          | nil => exact ⟨rfl, hp.symm⟩
          | cons head letters =>
              obtain ⟨rfl, -⟩ := List.cons.inj hp
              exact absurd hletters (hnot letters)
        rw [parseSubsets_other hext hdrop]
        split
        · rename_i hx
          subst hx
          rw [parseSubsets_afterName hall]
          constructor
          · rintro ⟨hname, rfl⟩
            exact ⟨[], 'x' :: rest, true, rfl, List.nil_sublist all, .named rest hname, rfl⟩
          · rintro ⟨letters, tail, named, hp, hletters, htail, rfl⟩
            obtain ⟨rfl, rfl⟩ := hsplit hp hletters
            cases htail with
            | named _ hname => exact ⟨hname, rfl⟩
        · rename_i hx
          constructor
          · intro h
            cases h
          · rintro ⟨letters, tail, named, hp, hletters, htail, -⟩
            obtain ⟨rfl, rfl⟩ := hsplit hp hletters
            cases htail
            exact absurd rfl hx

/-! ## The shorthands -/

/-- The letters of the standard extensions, in order. -/
def allSubsets : List Char := ['i', 'm', 'a', 'f', 'd', 'c']

/-- A character that is not `x` belongs to the letters, not to the end. -/
theorem ExtensionTail.cons_eq_append {tail letters q : List Char} {named : Bool} {c : Char}
    (htail : ExtensionTail tail named) (hc : c ≠ 'x') (h : c :: q = letters ++ tail) :
    ∃ letters', letters = c :: letters' ∧ q = letters' ++ tail := by
  cases letters with
  | nil =>
      cases htail with
      | nothing => cases h
      | named name => exact absurd (List.cons.inj h).1 hc
  | cons head letters =>
      obtain ⟨rfl, hq⟩ := List.cons.inj h
      exact ⟨letters, rfl, hq⟩

theorem ExtensionTail.append_eq_append {tail q : List Char} {named : Bool}
    (htail : ExtensionTail tail named) {pre letters : List Char} (hpre : ∀ c ∈ pre, c ≠ 'x')
    (h : pre ++ q = letters ++ tail) : ∃ letters', letters = pre ++ letters' ∧ q = letters' ++ tail := by
  induction pre generalizing letters with
  | nil => exact ⟨letters, rfl, h⟩
  | cons c pre ih =>
      obtain ⟨rest, rfl, hrest⟩ := htail.cons_eq_append (hpre c List.mem_cons_self) h
      obtain ⟨letters', rfl, hq⟩ := ih (fun d hd => hpre d (List.mem_cons_of_mem c hd)) hrest
      exact ⟨letters', rfl, hq⟩

/-- The bodies are what the shorthands stand for, taken apart. -/
theorem isaBody_iff {p letters : List Char} {named : Bool} :
    IsaBody p letters named ↔ ∃ p' tail, expandSubsets p = some p' ∧ p' = letters ++ tail ∧
      letters.Sublist allSubsets ∧ ExtensionTail tail named ∧
      ('d' ∈ letters → 'f' ∈ letters) := by
  constructor
  · intro h
    cases h with
    | nothing => exact ⟨_, [], rfl, rfl, List.Sublist.refl _, .nothing, by decide⟩
    | general hletters htail =>
        refine ⟨_, _, rfl, (List.append_assoc ..).symm, ?_, htail, by simp⟩
        exact List.Sublist.append (.refl ['i', 'm', 'a', 'f', 'd']) hletters
    | base hletters hdouble htail =>
        refine ⟨_, _, rfl, rfl, hletters.cons_cons 'i', htail, ?_⟩
        simpa using hdouble
  · rintro ⟨p', tail, hexpand, hp, hletters, htail, hdouble⟩
    rw [allSubsets] at hletters
    unfold expandSubsets at hexpand
    split at hexpand
    · obtain rfl := Option.some.inj hexpand
      have hstandard : ∀ c ∈ allSubsets, c ≠ 'x' := by simp [allSubsets]
      obtain ⟨rest, rfl, hrest⟩ := htail.append_eq_append hstandard ((List.append_nil _).trans hp)
      obtain ⟨rfl, rfl⟩ := List.append_eq_nil_iff.mp hrest.symm
      cases htail
      exact .nothing
    · obtain rfl := Option.some.inj hexpand
      have hstandard : ∀ c ∈ ['i', 'm', 'a', 'f', 'd'], c ≠ 'x' := by simp
      obtain ⟨rest, rfl, rfl⟩ := htail.append_eq_append hstandard hp
      exact .general ((List.append_sublist_append_left ['i', 'm', 'a', 'f', 'd']).mp hletters) htail
    · obtain rfl := Option.some.inj hexpand
      have hstandard : 'i' ≠ 'x' := by decide
      obtain ⟨rest, rfl, rfl⟩ := htail.cons_eq_append hstandard hp
      exact .base (List.cons_sublist_cons.mp hletters) (by simpa using hdouble) htail
    · cases hexpand

/-! ## The bits -/

theorem getLsbD_isaBit (letter : Char) {i : Nat} (hi : i < 64) :
    (isaBit letter).getLsbD i = true ↔ i = letter.toNat - 'a'.toNat := by
  change (BitVec.ofNat 64 (1 <<< (letter.toNat - 'a'.toNat))).getLsbD i = true ↔ _
  rw [BitVec.getLsbD_ofNat, Nat.one_shiftLeft, Nat.testBit_two_pow, Bool.and_eq_true,
    decide_eq_true_iff, decide_eq_true_iff, and_iff_right hi, eq_comm]

theorem getLsbD_withLetters (isa : Reg) (letters : List Char) {i : Nat} (hi : i < 64) :
    (withLetters isa letters).getLsbD i = true ↔
      isa.getLsbD i = true ∨ ∃ letter ∈ letters, i = letter.toNat - 'a'.toNat := by
  induction letters generalizing isa with
  | nil => simp [withLetters]
  | cons letter letters ih =>
      rw [withLetters, List.foldl_cons, ← withLetters, ih, BitVec.getLsbD_or, Bool.or_eq_true,
        getLsbD_isaBit letter hi]
      simp only [List.mem_cons, exists_eq_or_imp, or_assoc]

def WidthSpelling.base : WidthSpelling → Reg
  | .rv32 => 1 <<< 30
  | _ => 2 <<< 62

/-- The configuration before the letters are read. -/
def WidthSpelling.config (width : WidthSpelling) : IsaConfig :=
  ⟨width.xlen, width.base ||| (isaBit 's' ||| isaBit 'u'), false⟩

/-- The configuration that the parser returns. -/
def finished (width : WidthSpelling) (letters : List Char) (named : Bool) : IsaConfig :=
  let cfg := width.config.extended letters named
  { cfg with isa := cfg.isa ||| (isaBit 's' ||| isaBit 'u') }

/-- The letter of D or F among the standard letters. -/
theorem mem_of_bit {letters : List Char} (hletters : letters.Sublist allSubsets) :
    ((∃ letter ∈ letters, 3 = letter.toNat - 'a'.toNat) ↔ 'd' ∈ letters) ∧
      ((∃ letter ∈ letters, 5 = letter.toNat - 'a'.toNat) ↔ 'f' ∈ letters) := by
  have hall : ∀ letter ∈ allSubsets, (3 = letter.toNat - 'a'.toNat → letter = 'd') ∧
      (5 = letter.toNat - 'a'.toNat → letter = 'f') := by
    simp [allSubsets]
  constructor
  · refine ⟨fun ⟨letter, hmem, hbit⟩ => ?_, fun h => ⟨'d', h, rfl⟩⟩
    rwa [← (hall letter (hletters.mem hmem)).1 hbit]
  · refine ⟨fun ⟨letter, hmem, hbit⟩ => ?_, fun h => ⟨'f', h, rfl⟩⟩
    rwa [← (hall letter (hletters.mem hmem)).2 hbit]

/-- The bits of the modes, the width and the extension are none of the letters D and F. -/
theorem supports_extended (width : WidthSpelling) {letters : List Char} (named : Bool)
    (hletters : letters.Sublist allSubsets) :
    ((width.config.extended letters named).supports 'D' = true ↔ 'd' ∈ letters) ∧
      ((width.config.extended letters named).supports 'F' = true ↔ 'f' ∈ letters) := by
  have hconfig : ∀ width : WidthSpelling,
      width.config.isa.getLsbD 3 = false ∧ width.config.isa.getLsbD 5 = false := by
    intro width
    cases width <;> decide
  have hname (i : Nat) (hi : i ≠ 23) :
      ¬ ∃ letter ∈ if named then ['x'] else [], i = letter.toNat - 'a'.toNat := by
    cases named <;> simp [hi]
  have hbit (i : Nat) (hi : i < 64) (hx : i ≠ 23) (hzero : width.config.isa.getLsbD i = false) :
      (width.config.extended letters named).isa.getLsbD i = true ↔
        ∃ letter ∈ letters, i = letter.toNat - 'a'.toNat := by
    rw [IsaConfig.extended, getLsbD_withLetters _ _ hi, hzero]
    simp only [List.mem_append, or_and_right, exists_or, hname i hx, or_false,
      Bool.false_eq_true, false_or]
  constructor
  · rw [IsaConfig.supports, shift_and_one_ne_zero]
    exact (hbit 3 (by decide) (by decide) (hconfig width).1).trans (mem_of_bit hletters).1
  · rw [IsaConfig.supports, shift_and_one_ne_zero]
    exact (hbit 5 (by decide) (by decide) (hconfig width).2).trans (mem_of_bit hletters).2

theorem getLsbD_base (width : WidthSpelling) {i : Nat} (hi : i < 64) :
    width.base.getLsbD i = true ↔ i = mxlBit width.xlen := by
  cases width <;> simp only [WidthSpelling.base, WidthSpelling.xlen, mxlBit] <;> revert hi i <;> decide

/-- The bits of the result are those that the string describes, and no others. -/
theorem finished_describes (width : WidthSpelling) (letters : List Char) (named : Bool) :
    (finished width letters named).Describes width letters named where
  maxXlen := rfl
  ext := rfl
  isa i hi := by
    have hname : (∃ letter ∈ if named then ['x'] else [], i = letter.toNat - 'a'.toNat) ↔
        named = true ∧ i = 'x'.toNat - 'a'.toNat := by
      cases named <;> simp
    rw [finished, IsaConfig.extended, BitVec.getLsbD_or, Bool.or_eq_true,
      getLsbD_withLetters _ _ hi, WidthSpelling.config, BitVec.getLsbD_or, Bool.or_eq_true,
      BitVec.getLsbD_or, Bool.or_eq_true, getLsbD_isaBit _ hi, getLsbD_isaBit _ hi,
      getLsbD_base width hi]
    simp only [List.mem_append, or_and_right, exists_or, hname]
    generalize (∃ letter ∈ letters, i = letter.toNat - 'a'.toNat) = hletter
    generalize (i = 's'.toNat - 'a'.toNat) = hs
    generalize (i = 'u'.toNat - 'a'.toNat) = hu
    generalize (named = true ∧ i = 'x'.toNat - 'a'.toNat) = hx
    tauto

theorem IsaConfig.Describes.eq {cfg cfg' : IsaConfig} {width : WidthSpelling}
    {letters : List Char} {named : Bool} (h : cfg.Describes width letters named)
    (h' : cfg'.Describes width letters named) : cfg = cfg' := by
  have hisa : cfg.isa = cfg'.isa := by
    refine BitVec.eq_of_getLsbD_eq fun i hi => ?_
    rw [Bool.eq_iff_iff, h.isa i hi, h'.isa i hi]
  obtain ⟨maxXlen, isa, ext⟩ := cfg
  obtain ⟨maxXlen', isa', ext'⟩ := cfg'
  obtain rfl : isa = isa' := hisa
  obtain rfl : maxXlen = maxXlen' := h.maxXlen.trans h'.maxXlen.symm
  obtain rfl : ext = ext' := h.ext.trans h'.ext.symm
  rfl

/-! ## The whole string -/

/-- The letters behind the width. -/
theorem parseBody_iff (width : WidthSpelling) (p : List Char) (cfg : IsaConfig) :
    (do
      let p ← expandSubsets p
      let cfg ← parseSubsets (fun _ => true) p.length p allSubsets width.config
      if cfg.supports 'D' && !cfg.supports 'F' then none
      else some { cfg with isa := cfg.isa ||| (isaBit 's' ||| isaBit 'u') }) = some cfg ↔
    ∃ letters named, IsaBody p letters named ∧ cfg = finished width letters named := by
  have hstandard : Standard allSubsets := by simp [Standard, allSubsets]
  have hcheck {letters : List Char} (named : Bool) (hletters : letters.Sublist allSubsets) :
      ((width.config.extended letters named).supports 'D' &&
        !(width.config.extended letters named).supports 'F') = true ↔
        ¬ ('d' ∈ letters → 'f' ∈ letters) := by
    obtain ⟨hd, hf⟩ := supports_extended width named hletters
    rw [Bool.and_eq_true, Bool.not_eq_true', ← Bool.not_eq_true, hd, hf, Classical.not_imp]
  simp only [Option.bind_eq_bind, Option.bind_eq_some_iff, isaBody_iff,
    parseSubsets_iff le_rfl hstandard (show width.config.ext = false from rfl)]
  constructor
  · rintro ⟨p', hp', parsed, ⟨letters, tail, named, happend, hletters, htail, rfl⟩, hend⟩
    split at hend
    · cases hend
    · rename_i hdf
      rw [hcheck named hletters, not_not] at hdf
      exact ⟨letters, named, ⟨p', tail, hp', happend, hletters, htail, hdf⟩,
        (Option.some.inj hend).symm⟩
  · rintro ⟨letters, named, ⟨p', tail, hp', happend, hletters, htail, hdf⟩, rfl⟩
    refine ⟨p', hp', _, ⟨letters, tail, named, happend, hletters, htail, rfl⟩, ?_⟩
    rw [if_neg]
    · rfl
    · rw [hcheck named hletters, not_not]
      exact hdf

/-- The width that is taken off is one of the spellings. -/
theorem splitWidth_spec (p : List Char) :
    ∃ width body, p = WidthSpelling.chars width ++ body ∧
      splitWidth p = (width.xlen, width.base, body) := by
  unfold splitWidth
  split_ifs with h32 h64 hrv
  · obtain ⟨body, rfl⟩ := List.isPrefixOf_iff_prefix.mp h32
    exact ⟨.rv32, body, rfl, rfl⟩
  · obtain ⟨body, rfl⟩ := List.isPrefixOf_iff_prefix.mp h64
    exact ⟨.rv64, body, rfl, rfl⟩
  · obtain ⟨body, rfl⟩ := List.isPrefixOf_iff_prefix.mp hrv
    exact ⟨.rv, body, rfl, rfl⟩
  · exact ⟨.none, p, rfl, rfl⟩

/-- A body never continues the spelling of a width. -/
theorem splitWidth_append (width : WidthSpelling) {body letters : List Char} {named : Bool}
    (h : IsaBody body letters named) :
    splitWidth (width.chars ++ body) = (width.xlen, width.base, body) := by
  cases h <;> cases width <;> rfl

theorem parseIsaString_of_splitWidth {str body : List Char} {width : WidthSpelling}
    (hsplit : splitWidth (str.map Char.toLower) = (width.xlen, width.base, body))
    (cfg : IsaConfig) :
    parseIsaString (fun _ => true) str = some cfg ↔
      ∃ letters named, IsaBody body letters named ∧ cfg = finished width letters named := by
  rw [parseIsaString, hsplit]
  exact parseBody_iff width body cfg

/-- **The parser accepts the strings of the grammar, and what it returns is what the string
describes.** -/
theorem parseIsaString_grammar (str : List Char) :
    ((parseIsaString (fun _ => true) str).isSome = true ↔
      ∃ width body letters named, str.map Char.toLower = WidthSpelling.chars width ++ body ∧
        IsaBody body letters named) ∧
    ∀ cfg, parseIsaString (fun _ => true) str = some cfg ↔
      ∃ width body letters named, str.map Char.toLower = WidthSpelling.chars width ++ body ∧
        IsaBody body letters named ∧ cfg.Describes width letters named := by
  have hresult (cfg : IsaConfig) : parseIsaString (fun _ => true) str = some cfg ↔
      ∃ width body letters named, str.map Char.toLower = WidthSpelling.chars width ++ body ∧
        IsaBody body letters named ∧ cfg.Describes width letters named := by
    constructor
    · intro h
      obtain ⟨width, body, hstr, hsplit⟩ := splitWidth_spec (str.map Char.toLower)
      obtain ⟨letters, named, hbody, rfl⟩ := (parseIsaString_of_splitWidth hsplit cfg).mp h
      exact ⟨width, body, letters, named, hstr, hbody, finished_describes width letters named⟩
    · rintro ⟨width, body, letters, named, hstr, hbody, hcfg⟩
      have hsplit := splitWidth_append width hbody
      rw [← hstr] at hsplit
      refine (parseIsaString_of_splitWidth hsplit cfg).mpr ⟨letters, named, hbody, ?_⟩
      exact hcfg.eq (finished_describes width letters named)
  refine ⟨?_, hresult⟩
  rw [Option.isSome_iff_exists]
  constructor
  · rintro ⟨cfg, h⟩
    obtain ⟨width, body, letters, named, hstr, hbody, -⟩ := (hresult cfg).mp h
    exact ⟨width, body, letters, named, hstr, hbody⟩
  · rintro ⟨width, body, letters, named, hstr, hbody⟩
    exact ⟨finished width letters named, (hresult _).mpr
      ⟨width, body, letters, named, hstr, hbody, finished_describes width letters named⟩⟩

end SpikeSim.Riscv
