/-
# The two tag stores

What `access` relies on in a tag store, stated once: the store has contents, a
partial map from line numbers to dirty flags, which `check_tag` reads, the dirty
mark changes at one line and `victimize` changes at the victim and at the filled
line.  The array of `cache_sim_t` and the map of `fa_cache_sim_t` are both lawful
in this sense, each by an invariant of its own.
-/

import SpikeSim.Cache.Model
import SpikeSim.Lib.WriteBack

namespace SpikeSim.Cache

open TagStore WriteBack

/-! ## Tags -/

def isValid (tag : BitVec 64) : Bool := tag.getLsbD 63

def isDirty (tag : BitVec 64) : Bool := tag.getLsbD 62

/-- The line number of a tag. -/
def lineOf (tag : BitVec 64) : BitVec 64 := tag &&& ~~~(VALID ||| DIRTY)

/-- The line that a tag stands for. -/
def validLine (tag : BitVec 64) : Option (BitVec 64) :=
  if isValid tag = true then some (lineOf tag) else none

/-- A line number leaves the two flag bits free. -/
def IsLine (line : BitVec 64) : Prop := line &&& (VALID ||| DIRTY) = 0

theorem getLsbD_VALID (i : Nat) : VALID.getLsbD i = decide (i = 63) := by
  change (BitVec.twoPow 64 63).getLsbD i = _
  simp [BitVec.getLsbD_twoPow, eq_comm]

theorem getLsbD_DIRTY (i : Nat) : DIRTY.getLsbD i = decide (i = 62) := by
  change (BitVec.twoPow 64 62).getLsbD i = _
  simp [BitVec.getLsbD_twoPow, eq_comm]

theorem isLine_iff {line : BitVec 64} :
    IsLine line ↔ line.getLsbD 63 = false ∧ line.getLsbD 62 = false := by
  have hbits (i : Nat) : (line &&& (VALID ||| DIRTY)).getLsbD i = (0#64).getLsbD i ↔
      (i = 63 ∨ i = 62 → line.getLsbD i = false) := by
    simp only [BitVec.getLsbD_and, BitVec.getLsbD_or, getLsbD_VALID, getLsbD_DIRTY,
      BitVec.getLsbD_zero]
    grind
  rw [IsLine]
  change _ = 0#64 ↔ _
  rw [BitVec.eq_of_getLsbD_eq_iff]
  constructor
  · intro h
    exact ⟨(hbits 63).mp (h 63 (by decide)) (.inl rfl), (hbits 62).mp (h 62 (by decide)) (.inr rfl)⟩
  · rintro ⟨h63, h62⟩ i _
    apply (hbits i).mpr
    rintro (rfl | rfl)
    · exact h63
    · exact h62

theorem getLsbD_lineOf (tag : BitVec 64) {i : Nat} (hi : i < 64) :
    (lineOf tag).getLsbD i = (tag.getLsbD i && !decide (i = 63) && !decide (i = 62)) := by
  simp only [lineOf, BitVec.getLsbD_and, BitVec.getLsbD_not, BitVec.getLsbD_or, getLsbD_VALID,
    getLsbD_DIRTY, hi]
  grind

theorem isLine_lineOf (tag : BitVec 64) : IsLine (lineOf tag) := by
  rw [isLine_iff, getLsbD_lineOf tag (by decide), getLsbD_lineOf tag (by decide)]
  grind

/-- The test of `check_tag`: the word without `DIRTY` is the valid tag of the line. -/
theorem tag_eq_iff {line tag : BitVec 64} (hline : IsLine line) :
    line ||| VALID = tag &&& ~~~DIRTY ↔ isValid tag = true ∧ lineOf tag = line := by
  obtain ⟨h63, h62⟩ := isLine_iff.mp hline
  have hbits (i : Nat) (hi : i < 64) :
      (line ||| VALID).getLsbD i = (tag &&& ~~~DIRTY).getLsbD i ↔
        (i = 63 → isValid tag = true) ∧ (lineOf tag).getLsbD i = line.getLsbD i := by
    simp only [getLsbD_lineOf tag hi, isValid, BitVec.getLsbD_or, BitVec.getLsbD_and,
      BitVec.getLsbD_not, getLsbD_VALID, getLsbD_DIRTY, hi]
    grind
  rw [BitVec.eq_of_getLsbD_eq_iff, BitVec.eq_of_getLsbD_eq_iff]
  constructor
  · intro h
    exact ⟨((hbits 63 (by decide)).mp (h 63 (by decide))).1 rfl,
      fun i hi => ((hbits i hi).mp (h i hi)).2⟩
  · rintro ⟨hvalid, h⟩ i hi
    exact (hbits i hi).mpr ⟨fun _ => hvalid, h i hi⟩

theorem isValid_fresh (line : BitVec 64) : isValid (line ||| VALID) = true := by
  rw [isValid, BitVec.getLsbD_or, getLsbD_VALID]
  grind

theorem isDirty_fresh {line : BitVec 64} (hline : IsLine line) :
    isDirty (line ||| VALID) = false := by
  rw [isDirty, BitVec.getLsbD_or, getLsbD_VALID, (isLine_iff.mp hline).2]
  rfl

theorem lineOf_fresh {line : BitVec 64} (hline : IsLine line) : lineOf (line ||| VALID) = line := by
  obtain ⟨h63, h62⟩ := isLine_iff.mp hline
  apply BitVec.eq_of_getLsbD_eq
  intro i hi
  rw [getLsbD_lineOf _ hi, BitVec.getLsbD_or, getLsbD_VALID]
  grind

@[simp]
theorem isValid_or_DIRTY (tag : BitVec 64) : isValid (tag ||| DIRTY) = isValid tag := by
  rw [isValid, BitVec.getLsbD_or, getLsbD_DIRTY]
  exact Bool.or_false _

@[simp]
theorem isDirty_or_DIRTY (tag : BitVec 64) : isDirty (tag ||| DIRTY) = true := by
  rw [isDirty, BitVec.getLsbD_or, getLsbD_DIRTY]
  exact Bool.or_true _

@[simp]
theorem lineOf_or_DIRTY (tag : BitVec 64) : lineOf (tag ||| DIRTY) = lineOf tag := by
  apply BitVec.eq_of_getLsbD_eq
  intro i hi
  rw [getLsbD_lineOf _ hi, getLsbD_lineOf _ hi, BitVec.getLsbD_or, getLsbD_DIRTY]
  grind

/-- The test of `access` on a victim. -/
theorem and_flags_eq_iff (tag : BitVec 64) :
    tag &&& (VALID ||| DIRTY) = VALID ||| DIRTY ↔ isValid tag = true ∧ isDirty tag = true := by
  have hbits (i : Nat) : (tag &&& (VALID ||| DIRTY)).getLsbD i = (VALID ||| DIRTY).getLsbD i ↔
      (i = 63 → isValid tag = true) ∧ (i = 62 → isDirty tag = true) := by
    simp only [isValid, isDirty, BitVec.getLsbD_and, BitVec.getLsbD_or, getLsbD_VALID,
      getLsbD_DIRTY]
    grind
  rw [BitVec.eq_of_getLsbD_eq_iff]
  constructor
  · intro h
    exact ⟨((hbits 63).mp (h 63 (by decide))).1 rfl, ((hbits 62).mp (h 62 (by decide))).2 rfl⟩
  · rintro ⟨hvalid, hdirty⟩ i _
    exact (hbits i).mpr ⟨fun _ => hvalid, fun _ => hdirty⟩

/-! ## Lines of a geometry -/

namespace Geometry

variable (g : Geometry)

theorem sets_isPowerOfTwo : g.sets.isPowerOfTwo :=
  Nat.ne_zero_and_sub_one_eq_zero_iff_isPowerOfTwo.mp g.sets_accepted

theorem linesz_eq : g.linesz = 2 ^ g.idxShift := by
  have hpos : g.linesz ≠ 0 := by
    have := g.linesz_accepted.1
    omega
  obtain ⟨k, hk⟩ := (Nat.and_sub_one_eq_zero_iff_isPowerOfTwo hpos).mp g.linesz_accepted.2
  rw [idxShift, hk, Nat.log2_two_pow]

theorem idxShift_ge : 3 ≤ g.idxShift := by
  have h : 2 ^ 3 ≤ 2 ^ g.idxShift := g.linesz_eq ▸ g.linesz_accepted.1
  exact (Nat.pow_le_pow_iff_right (by decide)).mp h

theorem idxShift_lt : g.idxShift < 64 := by
  have h : 2 ^ g.idxShift < 2 ^ 64 := g.linesz_eq ▸ g.linesz_lt
  exact (Nat.pow_lt_pow_iff_right (by decide)).mp h

theorem isLine_line (addr : BitVec 64) : IsLine (g.line addr) := by
  have hshift := g.idxShift_ge
  rw [isLine_iff, line, BitVec.getLsbD_ushiftRight, BitVec.getLsbD_ushiftRight]
  exact ⟨BitVec.getLsbD_of_ge _ _ (by omega), BitVec.getLsbD_of_ge _ _ (by omega)⟩

/-- The set that a line belongs to. -/
def setOf (line : BitVec 64) : Nat := (line &&& BitVec.ofNat 64 (g.sets - 1)).toNat

theorem idx_eq_setOf (addr : BitVec 64) : g.idx addr = g.setOf (g.line addr) := rfl

/-- Lines are distributed over the sets by their remainder. -/
theorem setOf_eq_mod (hways : 0 < g.ways) (line : BitVec 64) :
    g.setOf line = line.toNat % g.sets := by
  have hle : g.sets ≤ g.sets * g.ways := Nat.le_mul_of_pos_right _ hways
  have hlt : g.sets - 1 < 2 ^ 64 := by
    have := g.tags_lt
    omega
  obtain ⟨k, hk⟩ := g.sets_isPowerOfTwo
  rw [setOf, BitVec.toNat_and, BitVec.toNat_ofNat, Nat.mod_eq_of_lt hlt, hk,
    Nat.and_two_pow_sub_one_eq_mod]

theorem setOf_lt (hways : 0 < g.ways) (line : BitVec 64) : g.setOf line < g.sets := by
  rw [g.setOf_eq_mod hways]
  exact Nat.mod_lt _ (Nat.pos_of_ne_zero g.sets_accepted.1)

theorem getLsbD_base (addr : BitVec 64) {i : Nat} (hi : i < 64) :
    (g.base addr).getLsbD i = (addr.getLsbD i && !decide (i < g.idxShift)) := by
  rw [base, BitVec.getLsbD_and, BitVec.getLsbD_not, BitVec.getLsbD_ofNat, g.linesz_eq,
    Nat.testBit_two_pow_sub_one]
  simp [hi]

/-- The line number of an address, shifted back, is the address of the line. -/
theorem line_shiftLeft (addr : BitVec 64) : g.line addr <<< g.idxShift = g.base addr := by
  apply BitVec.eq_of_getLsbD_eq
  intro i hi
  rw [g.getLsbD_base addr hi, line, BitVec.getLsbD_shiftLeft, BitVec.getLsbD_ushiftRight]
  by_cases hlow : i < g.idxShift
  · simp [hlow]
  · simp [hlow, hi, Nat.add_sub_cancel' (Nat.le_of_not_lt hlow)]

theorem line_base (addr : BitVec 64) : g.line (g.base addr) = g.line addr := by
  apply BitVec.eq_of_getLsbD_eq
  intro i hi
  rw [line, line, BitVec.getLsbD_ushiftRight, BitVec.getLsbD_ushiftRight]
  by_cases hhigh : g.idxShift + i < 64
  · simp [g.getLsbD_base addr hhigh]
  · rw [BitVec.getLsbD_of_ge _ _ (by omega), BitVec.getLsbD_of_ge _ _ (by omega)]

end Geometry

/-! ## Lawful stores -/

/-- What `access` relies on.  The contents are read by `check_tag`, the dirty mark
changes them at one line, and a miss takes out the victim and puts in its line. -/
class LawfulTagStore (τ : Type) [TagStore τ] where
  Inv : Geometry → τ → Prop
  contents : Geometry → τ → Contents (BitVec 64)
  inv_empty (g : Geometry) : Inv g empty
  contents_empty (g : Geometry) : contents g (empty : τ) = fun _ => none
  isLine_of_contents {g : Geometry} {tags : τ} {line : BitVec 64} {dirty : Bool} :
    Inv g tags → contents g tags line = some dirty → ∃ addr, line = g.line addr
  checkTag_contents (g : Geometry) (addr : BitVec 64) (tags : τ) :
    (checkTag g addr tags).map (fun ptr => isDirty (tagAt ptr tags)) =
      contents g tags (g.line addr)
  orTag_inv {g : Geometry} {addr : BitVec 64} {tags : τ} {ptr : Ptr τ} :
    Inv g tags → checkTag g addr tags = some ptr → Inv g (orTag ptr DIRTY tags)
  orTag_contents {g : Geometry} {addr : BitVec 64} {tags : τ} {ptr : Ptr τ} :
    Inv g tags → checkTag g addr tags = some ptr →
      contents g (orTag ptr DIRTY tags) =
        Function.update (contents g tags) (g.line addr) (some true)
  victimize_returns {g : Geometry} (hways : 0 < g.ways) (addr : BitVec 64) (lfsr : BitVec 32)
    (tags : τ) : ∃ victim lfsr' tags', victimize g addr lfsr tags = some (victim, lfsr', tags')
  victimize_spec {g : Geometry} {addr victim : BitVec 64} {lfsr lfsr' : BitVec 32}
    {tags tags' : τ} : Inv g tags → contents g tags (g.line addr) = none →
      victimize g addr lfsr tags = some (victim, lfsr', tags') →
        Inv g tags' ∧
        (∀ line, validLine victim = some line →
          contents g tags line = some (isDirty victim)) ∧
        contents g tags' =
          Function.update (evict (validLine victim) (contents g tags)) (g.line addr) (some false)

/-! ## The array -/

namespace TagArray

variable {g : Geometry} {addr line : BitVec 64} {store : TagArray}

/-- The tag in a way of a set. -/
def way (g : Geometry) (store : TagArray) (set w : Nat) : BitVec 64 :=
  store.tags (set * g.ways + w)

/-- The invariant of the array: a valid tag stands in the set of its line, no set
holds a line twice, and lines are lines of addresses. -/
structure Inv (g : Geometry) (store : TagArray) : Prop where
  placed : ∀ set < g.sets, ∀ w < g.ways, isValid (way g store set w) = true →
    (lineOf (way g store set w)).toNat % g.sets = set
  unique : ∀ set < g.sets, ∀ w < g.ways, ∀ w' < g.ways,
    isValid (way g store set w) = true → isValid (way g store set w') = true →
      lineOf (way g store set w) = lineOf (way g store set w') → w = w'
  isLine : ∀ set < g.sets, ∀ w < g.ways, isValid (way g store set w) = true →
    ∃ addr, lineOf (way g store set w) = g.line addr

/-- The ways of the line's set that hold the line. -/
def holds (g : Geometry) (store : TagArray) (line : BitVec 64) (w : Nat) : Bool :=
  isValid (way g store (g.setOf line) w) && lineOf (way g store (g.setOf line) w) == line

def contents (g : Geometry) (store : TagArray) : Contents (BitVec 64) :=
  fun line => ((List.range g.ways).find? (holds g store line)).map fun w =>
    isDirty (way g store (g.setOf line) w)

theorem holds_iff {w : Nat} : holds g store line w = true ↔
    isValid (way g store (g.setOf line) w) = true ∧
      lineOf (way g store (g.setOf line) w) = line := by
  simp [holds]

theorem checkTag_eq : checkTag g addr store =
    ((List.range g.ways).find? (holds g store (g.line addr))).map fun w =>
      g.setOf (g.line addr) * g.ways + w := by
  have htest : (fun i => (g.line addr ||| VALID) ==
      (store.tags (g.idx addr * g.ways + i) &&& ~~~DIRTY)) = holds g store (g.line addr) := by
    funext i
    rw [Bool.eq_iff_iff, beq_iff_eq, tag_eq_iff (g.isLine_line addr), holds_iff]
    rfl
  rw [checkTag]
  simp only [htest]
  rfl

theorem find_holds {w : Nat} (h : (List.range g.ways).find? (holds g store line) = some w) :
    w < g.ways ∧ holds g store line w = true :=
  ⟨List.mem_range.mp (List.mem_of_find?_eq_some h), List.find?_some h⟩

theorem contents_eq_none_iff :
    contents g store line = none ↔ ∀ w < g.ways, holds g store line w = false := by
  simp [contents]

/-- By uniqueness the line's tag is the one in any way that holds the line. -/
theorem Inv.contents_eq_some_iff (hinv : Inv g store) (hways : 0 < g.ways) {dirty : Bool} :
    contents g store line = some dirty ↔ ∃ w < g.ways, holds g store line w = true ∧
      isDirty (way g store (g.setOf line) w) = dirty := by
  rw [contents, Option.map_eq_some_iff]
  constructor
  · rintro ⟨w, hfind, hdirty⟩
    obtain ⟨hlt, hholds⟩ := find_holds hfind
    exact ⟨w, hlt, hholds, hdirty⟩
  · rintro ⟨w, hlt, hholds, hdirty⟩
    obtain ⟨w', hfind⟩ : ∃ w', (List.range g.ways).find? (holds g store line) = some w' := by
      rw [← Option.isSome_iff_exists, List.find?_isSome]
      exact ⟨w, List.mem_range.mpr hlt, hholds⟩
    obtain ⟨hlt', hholds'⟩ := find_holds hfind
    obtain ⟨hvalid, hline⟩ := holds_iff.mp hholds
    obtain ⟨hvalid', hline'⟩ := holds_iff.mp hholds'
    have hsame : w' = w := hinv.unique _ (g.setOf_lt hways line) w' hlt' w hlt hvalid' hvalid
      (hline'.trans hline.symm)
    exact ⟨w', hfind, hsame ▸ hdirty⟩

/-- Two ways are the same element of the array only if they are the same way. -/
theorem way_index_inj {set set' w w' : Nat} (hw : w < g.ways) (hw' : w' < g.ways) :
    set * g.ways + w = set' * g.ways + w' ↔ set = set' ∧ w = w' := by
  constructor
  · intro h
    have hdiv := congrArg (· / g.ways) h
    have hmod := congrArg (· % g.ways) h
    have hpos : 0 < g.ways := by omega
    simp only [Nat.mul_comm _ g.ways, Nat.mul_add_div hpos, Nat.div_eq_of_lt hw,
      Nat.div_eq_of_lt hw', Nat.mul_add_mod, Nat.mod_eq_of_lt hw, Nat.mod_eq_of_lt hw',
      Nat.add_zero] at hdiv hmod
    exact ⟨hdiv, hmod⟩
  · rintro ⟨rfl, rfl⟩
    rfl

/-- A write to one way is seen at that way only. -/
theorem way_update {set set' w w' : Nat} {tag : BitVec 64} (hw : w < g.ways) (hw' : w' < g.ways) :
    way g ⟨Function.update store.tags (set * g.ways + w) tag⟩ set' w' =
      if set' = set ∧ w' = w then tag else way g store set' w' := by
  change Function.update store.tags _ tag _ = _
  rw [Function.update_apply]
  simp only [way_index_inj hw' hw]
  rfl

/-! ### Marking a line dirty -/

theorem checkTag_eq_some {ptr : Nat} (h : checkTag g addr store = some ptr) :
    ∃ w < g.ways, holds g store (g.line addr) w = true ∧
      ptr = g.setOf (g.line addr) * g.ways + w := by
  rw [checkTag_eq, Option.map_eq_some_iff] at h
  obtain ⟨w, hfind, hptr⟩ := h
  obtain ⟨hlt, hholds⟩ := find_holds hfind
  exact ⟨w, hlt, hholds, hptr.symm⟩

/-- The dirty mark of one way. -/
def mark (g : Geometry) (store : TagArray) (set w : Nat) : TagArray :=
  orTag (set * g.ways + w : Nat) DIRTY store

theorem way_mark {set set' w w' : Nat} (hw : w < g.ways) (hw' : w' < g.ways) :
    way g (mark g store set w) set' w' =
      if set' = set ∧ w' = w then way g store set w ||| DIRTY else way g store set' w' :=
  way_update hw hw'

theorem isValid_mark {set set' w w' : Nat} (hw : w < g.ways) (hw' : w' < g.ways) :
    isValid (way g (mark g store set w) set' w') = isValid (way g store set' w') := by
  rw [way_mark hw hw']
  split
  next h => rw [isValid_or_DIRTY, h.1, h.2]
  next => rfl

theorem lineOf_mark {set set' w w' : Nat} (hw : w < g.ways) (hw' : w' < g.ways) :
    lineOf (way g (mark g store set w) set' w') = lineOf (way g store set' w') := by
  rw [way_mark hw hw']
  split
  next h => rw [lineOf_or_DIRTY, h.1, h.2]
  next => rfl

theorem Inv.mark (hinv : Inv g store) {set w : Nat} (hw : w < g.ways) :
    Inv g (mark g store set w) where
  placed set' hset w' hw' := by
    rw [isValid_mark hw hw', lineOf_mark hw hw']
    exact hinv.placed set' hset w' hw'
  unique set' hset w' hw' w'' hw'' := by
    rw [isValid_mark hw hw', isValid_mark hw hw'', lineOf_mark hw hw', lineOf_mark hw hw'']
    exact hinv.unique set' hset w' hw' w'' hw''
  isLine set' hset w' hw' := by
    rw [isValid_mark hw hw', lineOf_mark hw hw']
    exact hinv.isLine set' hset w' hw'

theorem contents_mark (hinv : Inv g store) {w : Nat} (hw : w < g.ways)
    (hholds : holds g store line w = true) :
    contents g (mark g store (g.setOf line) w) =
      Function.update (contents g store) line (some true) := by
  have hways : 0 < g.ways := by omega
  obtain ⟨hvalid, hline⟩ := holds_iff.mp hholds
  funext line'
  ext dirty
  rw [(hinv.mark hw).contents_eq_some_iff hways]
  have hholds' {w' : Nat} (hw' : w' < g.ways) :
      holds g (mark g store (g.setOf line) w) line' w' = holds g store line' w' := by
    rw [holds, holds, isValid_mark hw hw', lineOf_mark hw hw']
  by_cases hsame : line' = line
  · subst hsame
    rw [Function.update_self, Option.some_inj]
    constructor
    · rintro ⟨w', hw', hhere, hdirty⟩
      rw [hholds' hw', holds_iff] at hhere
      have hw'' : w' = w := hinv.unique _ (g.setOf_lt hways line') w' hw' w hw hhere.1 hvalid
        (hhere.2.trans hline.symm)
      rw [← hdirty, way_mark hw hw', if_pos ⟨rfl, hw''⟩, isDirty_or_DIRTY]
    · rintro rfl
      refine ⟨w, hw, (hholds' hw).trans hholds, ?_⟩
      rw [way_mark hw hw, if_pos ⟨rfl, rfl⟩, isDirty_or_DIRTY]
  · rw [Function.update_of_ne hsame, hinv.contents_eq_some_iff hways]
    apply exists_congr
    intro w'
    apply and_congr_right
    intro hw'
    rw [hholds' hw']
    apply and_congr_right
    intro hhere
    have hother : ¬(g.setOf line' = g.setOf line ∧ w' = w) := by
      rintro ⟨hset, rfl⟩
      obtain ⟨-, hline'⟩ := holds_iff.mp hhere
      rw [hset, hline] at hline'
      exact hsame hline'.symm
    rw [way_mark hw hw', if_neg hother]

/-! ### Filling a way -/

/-- The new contents of a way. -/
def refill (g : Geometry) (store : TagArray) (line : BitVec 64) (w : Nat) : TagArray :=
  ⟨Function.update store.tags (g.setOf line * g.ways + w) (line ||| VALID)⟩

theorem way_refill {set' w w' : Nat} (hw : w < g.ways) (hw' : w' < g.ways) :
    way g (refill g store line w) set' w' =
      if set' = g.setOf line ∧ w' = w then line ||| VALID else way g store set' w' :=
  way_update hw hw'

theorem Inv.refill (hinv : Inv g store) {w : Nat} (hw : w < g.ways)
    (habsent : contents g store (g.line addr) = none) : Inv g (refill g store (g.line addr) w) := by
  have hways : 0 < g.ways := by omega
  have hisLine := g.isLine_line addr
  rw [contents_eq_none_iff] at habsent
  -- A way that holds the new line is the way that was filled.
  have hnew {w' : Nat} (hw' : w' < g.ways)
      (hvalid : isValid (way g store (g.setOf (g.line addr)) w') = true) :
      lineOf (way g store (g.setOf (g.line addr)) w') ≠ g.line addr := by
    intro hline
    have hholds := holds_iff.mpr ⟨hvalid, hline⟩
    rw [habsent w' hw'] at hholds
    cases hholds
  constructor
  · intro set' hset w' hw' hvalid
    rw [way_refill hw hw'] at hvalid ⊢
    split at hvalid
    next h =>
      rw [if_pos h, lineOf_fresh hisLine, ← g.setOf_eq_mod hways, h.1]
    next h =>
      rw [if_neg h]
      exact hinv.placed set' hset w' hw' hvalid
  · intro set' hset w' hw' w'' hw'' hvalid' hvalid'' hline
    rw [way_refill hw hw'] at hvalid' hline
    rw [way_refill hw hw''] at hvalid'' hline
    by_cases h' : set' = g.setOf (g.line addr) ∧ w' = w
    · by_cases h'' : set' = g.setOf (g.line addr) ∧ w'' = w
      · rw [h'.2, h''.2]
      · rw [if_pos h', if_neg h'', lineOf_fresh hisLine, h'.1] at hline
        rw [if_neg h'', h'.1] at hvalid''
        exact absurd hline.symm (hnew hw'' hvalid'')
    · by_cases h'' : set' = g.setOf (g.line addr) ∧ w'' = w
      · rw [if_neg h', if_pos h'', lineOf_fresh hisLine, h''.1] at hline
        rw [if_neg h', h''.1] at hvalid'
        exact absurd hline (hnew hw' hvalid')
      · rw [if_neg h', if_neg h''] at hline
        rw [if_neg h'] at hvalid'
        rw [if_neg h''] at hvalid''
        exact hinv.unique set' hset w' hw' w'' hw'' hvalid' hvalid'' hline
  · intro set' hset w' hw' hvalid
    rw [way_refill hw hw'] at hvalid ⊢
    split at hvalid
    next h =>
      rw [if_pos h]
      exact ⟨addr, lineOf_fresh hisLine⟩
    next h =>
      rw [if_neg h]
      exact hinv.isLine set' hset w' hw' hvalid

/-- A valid tag is the contents of its line. -/
theorem Inv.contents_way (hinv : Inv g store) {set w : Nat} (hset : set < g.sets)
    (hw : w < g.ways) (h : validLine (way g store set w) = some line) :
    g.setOf line = set ∧ holds g store line w = true ∧
      contents g store line = some (isDirty (way g store set w)) := by
  have hways : 0 < g.ways := by omega
  rw [validLine] at h
  split at h
  next hvalid =>
    cases h
    have hhome : g.setOf (lineOf (way g store set w)) = set := by
      rw [g.setOf_eq_mod hways]
      exact hinv.placed set hset w hw hvalid
    have hholds : holds g store (lineOf (way g store set w)) w = true := by
      rw [holds_iff, hhome]
      exact ⟨hvalid, rfl⟩
    refine ⟨hhome, hholds, (hinv.contents_eq_some_iff hways).mpr ⟨w, hw, hholds, ?_⟩⟩
    rw [hhome]
  next => cases h

theorem contents_refill (hinv : Inv g store) {w : Nat} (hw : w < g.ways)
    (habsent : contents g store (g.line addr) = none) :
    contents g (refill g store (g.line addr) w) =
      Function.update
        (evict (validLine (way g store (g.setOf (g.line addr)) w)) (contents g store))
        (g.line addr) (some false) := by
  have hways : 0 < g.ways := by omega
  have hisLine := g.isLine_line addr
  have hset := g.setOf_lt hways (g.line addr)
  have hinv' := hinv.refill hw habsent
  funext line'
  by_cases hsame : line' = g.line addr
  · rw [hsame, Function.update_self, hinv'.contents_eq_some_iff hways]
    refine ⟨w, hw, ?_, ?_⟩
    · rw [holds_iff, way_refill hw hw, if_pos ⟨rfl, rfl⟩]
      exact ⟨isValid_fresh _, lineOf_fresh hisLine⟩
    · rw [way_refill hw hw, if_pos ⟨rfl, rfl⟩]
      exact isDirty_fresh hisLine
  · rw [Function.update_of_ne hsame, evict]
    -- The filled way holds the new line and no other.
    have hfilled {w' : Nat} (hw' : w' < g.ways) :
        holds g (refill g store (g.line addr) w) line' w' = true ↔
          holds g store line' w' = true ∧
            ¬(g.setOf line' = g.setOf (g.line addr) ∧ w' = w) := by
      rw [holds_iff, holds_iff, way_refill hw hw']
      split
      next h =>
        rw [lineOf_fresh hisLine]
        exact ⟨fun hhere => absurd hhere.2.symm hsame, fun hhere => absurd h hhere.2⟩
      next h => exact ⟨fun hhere => ⟨hhere, h⟩, fun hhere => hhere.1⟩
    split
    next hvictim =>
      obtain ⟨hhome, hholds, -⟩ := hinv.contents_way hset hw hvictim
      rw [contents_eq_none_iff]
      intro w' hw'
      rw [Bool.eq_false_iff, Ne, hfilled hw']
      rintro ⟨hholds', hother⟩
      obtain ⟨hvalid, hline⟩ := holds_iff.mp hholds
      obtain ⟨hvalid', hline'⟩ := holds_iff.mp hholds'
      exact hother ⟨hhome, hinv.unique _ (hhome ▸ hset) w' hw' w hw hvalid' hvalid
        (hline'.trans hline.symm)⟩
    next hvictim =>
      ext dirty
      rw [hinv'.contents_eq_some_iff hways, hinv.contents_eq_some_iff hways]
      apply exists_congr
      intro w'
      apply and_congr_right
      intro hw'
      rw [hfilled hw']
      have hkept (hhere : holds g store line' w' = true) :
          ¬(g.setOf line' = g.setOf (g.line addr) ∧ w' = w) := by
        rintro ⟨hhome, rfl⟩
        obtain ⟨hvalid, hline⟩ := holds_iff.mp hhere
        apply hvictim
        rw [validLine, ← hhome, if_pos hvalid, hline]
      constructor
      · rintro ⟨⟨hhere, hother⟩, hdirty⟩
        rw [way_refill hw hw', if_neg hother] at hdirty
        exact ⟨hhere, hdirty⟩
      · rintro ⟨hhere, hdirty⟩
        refine ⟨⟨hhere, hkept hhere⟩, ?_⟩
        rw [way_refill hw hw', if_neg (hkept hhere)]
        exact hdirty

theorem isValid_empty (g : Geometry) (set w : Nat) : isValid (way g empty set w) = false := by
  change isValid 0 = false
  decide

instance : LawfulTagStore TagArray where
  Inv := Inv
  contents := contents
  inv_empty g := by
    constructor <;> intros <;> simp_all [isValid_empty]
  contents_empty g := by
    funext line
    rw [contents_eq_none_iff]
    intro w _
    rw [holds, isValid_empty, Bool.false_and]
  isLine_of_contents {g tags line dirty} hinv h := by
    rw [contents, Option.map_eq_some_iff] at h
    obtain ⟨w, hfind, -⟩ := h
    obtain ⟨hw, hholds⟩ := find_holds hfind
    obtain ⟨hvalid, hline⟩ := holds_iff.mp hholds
    obtain ⟨addr, haddr⟩ := hinv.isLine _ (g.setOf_lt (by omega) line) w hw hvalid
    exact ⟨addr, hline.symm.trans haddr⟩
  checkTag_contents g addr tags := by
    change (checkTag g addr tags).map (fun ptr => isDirty (tags.tags ptr)) = _
    rw [checkTag_eq, Option.map_map]
    rfl
  orTag_inv hinv h := by
    obtain ⟨w, hw, -, rfl⟩ := checkTag_eq_some h
    exact hinv.mark hw
  orTag_contents hinv h := by
    obtain ⟨w, hw, hholds, rfl⟩ := checkTag_eq_some h
    exact contents_mark hinv hw hholds
  victimize_returns {g} hways addr lfsr tags := by
    change ∃ victim lfsr' tags', victimize g addr lfsr tags = some (victim, lfsr', tags')
    rw [victimize, if_neg (by omega)]
    exact ⟨_, _, _, rfl⟩
  victimize_spec {g addr victim lfsr lfsr' tags tags'} hinv habsent h := by
    change victimize g addr lfsr tags = _ at h
    rw [victimize] at h
    split at h
    next => cases h
    next hzero =>
      cases h
      have hways : 0 < g.ways := by omega
      have hw : (lfsrNext lfsr).toNat % g.ways < g.ways := Nat.mod_lt _ hways
      exact ⟨hinv.refill hw habsent,
        fun line hline => (hinv.contents_way (g.setOf_lt hways _) hw hline).2.2,
        contents_refill hinv hw habsent⟩

end TagArray

/-! ## The map -/

namespace TagMap

variable {g : Geometry} {addr line : BitVec 64} {store : TagMap}

/-- The invariant of the map: its keys ascend, it has at most `ways` entries, and
each value is a valid tag of its key. -/
structure Inv (g : Geometry) (store : TagMap) : Prop where
  sorted : store.tags.Pairwise fun it it' => it.1 < it'.1
  size : store.tags.length ≤ g.ways
  entry : ∀ it ∈ store.tags, isValid it.2 = true ∧ lineOf it.2 = it.1
  isLine : ∀ it ∈ store.tags, ∃ addr, it.1 = g.line addr

def contents (_g : Geometry) (store : TagMap) : Contents (BitVec 64) :=
  fun line => (store.tags.lookup line).map isDirty

section Entries

variable {tags : List (BitVec 64 × BitVec 64)} {key value : BitVec 64}

/-- In ascending order a key has one entry. -/
theorem eq_of_sorted (hsorted : tags.Pairwise fun it it' => it.1 < it'.1)
    {it it' : BitVec 64 × BitVec 64} (hit : it ∈ tags) (hit' : it' ∈ tags)
    (hkey : it.1 = it'.1) : it = it' := by
  have hnodup : (tags.map Prod.fst).Nodup :=
    List.pairwise_map.mpr (hsorted.imp fun hlt => BitVec.ne_of_lt hlt)
  exact List.inj_on_of_nodup_map hnodup hit hit' hkey

theorem lookup_eq_some_iff (hsorted : tags.Pairwise fun it it' => it.1 < it'.1) :
    tags.lookup key = some value ↔ (key, value) ∈ tags := by
  have hmem {v : BitVec 64} (h : tags.lookup key = some v) : (key, v) ∈ tags := by
    obtain ⟨before, after, rfl, -⟩ := List.lookup_eq_some_iff.mp h
    exact List.mem_append_right _ List.mem_cons_self
  constructor
  · exact hmem
  · intro hit
    have hsome : (tags.lookup key).isSome = true := by
      rw [List.lookup_isSome_iff]
      exact ⟨(key, value), hit, beq_self_eq_true key⟩
    obtain ⟨v, hv⟩ := Option.isSome_iff_exists.mp hsome
    cases eq_of_sorted hsorted (hmem hv) hit rfl
    exact hv

/-- Erasing an entry takes out its key. -/
theorem mem_eraseIdx (hsorted : tags.Pairwise fun it it' => it.1 < it'.1) {n : Nat}
    {victim it : BitVec 64 × BitVec 64} (hvictim : tags[n]? = some victim) :
    it ∈ tags.eraseIdx n ↔ it ∈ tags ∧ it.1 ≠ victim.1 := by
  have hnodup : tags.Nodup := by
    apply hsorted.imp
    rintro it _ hlt rfl
    exact BitVec.ne_of_lt hlt rfl
  obtain ⟨hlt, rfl⟩ := List.getElem?_eq_some_iff.mp hvictim
  rw [← hnodup.erase_getElem n hlt, hnodup.mem_erase_iff, and_comm]
  apply and_congr_right
  intro hit
  rw [not_iff_not]
  exact ⟨fun h => h ▸ rfl, eq_of_sorted hsorted hit (List.getElem_mem hlt)⟩

theorem mem_assign (hnew : ∀ it ∈ tags, it.1 ≠ key) {it : BitVec 64 × BitVec 64} :
    it ∈ assign key value tags ↔ it = (key, value) ∨ it ∈ tags := by
  induction tags with
  | nil => simp [assign]
  | cons head rest ih =>
      have hrest := ih fun it hit => hnew it (List.mem_cons_of_mem _ hit)
      have hhead : key ≠ head.1 := Ne.symm (hnew head List.mem_cons_self)
      rw [assign]
      split
      next => rw [List.mem_cons]
      next => rw [List.mem_cons, hrest, List.mem_cons, or_left_comm]

theorem length_assign (hnew : ∀ it ∈ tags, it.1 ≠ key) :
    (assign key value tags).length = tags.length + 1 := by
  induction tags with
  | nil => rfl
  | cons head rest ih =>
      have hrest := ih fun it hit => hnew it (List.mem_cons_of_mem _ hit)
      have hhead : key ≠ head.1 := Ne.symm (hnew head List.mem_cons_self)
      rw [assign]
      split
      next => rfl
      next => rw [List.length_cons, hrest, List.length_cons]

theorem sorted_assign (hsorted : tags.Pairwise fun it it' => it.1 < it'.1)
    (hnew : ∀ it ∈ tags, it.1 ≠ key) :
    (assign key value tags).Pairwise fun it it' => it.1 < it'.1 := by
  induction tags with
  | nil => simp [assign]
  | cons head rest ih =>
      have hnew' : ∀ it ∈ rest, it.1 ≠ key := fun it hit => hnew it (List.mem_cons_of_mem _ hit)
      have hhead : key ≠ head.1 := Ne.symm (hnew head List.mem_cons_self)
      obtain ⟨hfirst, hrest⟩ := List.pairwise_cons.mp hsorted
      rw [assign]
      split
      next hlt =>
        refine List.pairwise_cons.mpr ⟨fun it hit => ?_, hsorted⟩
        rcases List.mem_cons.mp hit with rfl | hit
        · exact hlt
        · exact BitVec.lt_trans hlt (hfirst it hit)
      next hge =>
        refine List.pairwise_cons.mpr ⟨fun it hit => ?_, ih hrest hnew'⟩
        rcases (mem_assign hnew').mp hit with rfl | hit
        · change head.1 < key
          bv_omega
        · exact hfirst it hit

end Entries

theorem contents_eq_some_iff (hinv : Inv g store) {dirty : Bool} :
    contents g store line = some dirty ↔ ∃ tag, (line, tag) ∈ store.tags ∧ isDirty tag = dirty := by
  simp only [contents, Option.map_eq_some_iff, lookup_eq_some_iff hinv.sorted]

theorem contents_eq_none_iff :
    contents g store line = none ↔ ∀ it ∈ store.tags, it.1 ≠ line := by
  simp only [contents, Option.map_eq_none_iff, List.lookup_eq_none_iff, bne_iff_ne]
  exact ⟨fun h it hit => Ne.symm (h it hit), fun h it hit => Ne.symm (h it hit)⟩

/-- `check_tag` finds the key of the line, if it is there. -/
theorem checkTag_eq : checkTag g addr store =
    (store.tags.lookup (g.line addr)).map fun _ => g.line addr := by
  rw [checkTag]
  induction store.tags with
  | nil => rfl
  | cons head rest ih =>
      rw [List.find?_cons, List.lookup_cons]
      by_cases hkey : head.1 = g.line addr
      · simp [hkey]
      · have hne : (head.1 == g.line addr) = false := beq_eq_false_iff_ne.mpr hkey
        have hne' : (g.line addr == head.1) = false := beq_eq_false_iff_ne.mpr (Ne.symm hkey)
        rw [hne, hne']
        exact ih

/-! ### Marking a line dirty -/

/-- The dirty mark of one key. -/
def mark (store : TagMap) (key : BitVec 64) : TagMap := orTag key DIRTY store

theorem mem_mark {it : BitVec 64 × BitVec 64} : it ∈ (mark store line).tags ↔
    ∃ tag, (it.1, tag) ∈ store.tags ∧ it.2 = if it.1 = line then tag ||| DIRTY else tag := by
  change it ∈ store.tags.map (fun it => if it.1 = line then (it.1, it.2 ||| DIRTY) else it) ↔ _
  rw [List.mem_map]
  constructor
  · rintro ⟨old, hold, rfl⟩
    refine ⟨old.2, ?_, ?_⟩
    · split
      next => exact hold
      next => exact hold
    · split <;> simp_all
  · rintro ⟨tag, hold, htag⟩
    refine ⟨(it.1, tag), hold, ?_⟩
    apply Prod.ext
    · split <;> rfl
    · rw [htag]
      split <;> rfl

theorem Inv.mark (hinv : Inv g store) : Inv g (mark store line) where
  sorted := by
    apply List.pairwise_map.mpr
    apply hinv.sorted.imp
    intro it it' hlt
    split <;> split <;> exact hlt
  size := by
    change (store.tags.map _).length ≤ _
    rw [List.length_map]
    exact hinv.size
  entry it hit := by
    obtain ⟨tag, hold, htag⟩ := mem_mark.mp hit
    rw [htag]
    have := hinv.entry _ hold
    split
    next => rwa [isValid_or_DIRTY, lineOf_or_DIRTY]
    next => exact this
  isLine it hit := by
    obtain ⟨tag, hold, -⟩ := mem_mark.mp hit
    exact hinv.isLine (it.1, tag) hold

theorem contents_mark (hinv : Inv g store) (hresident : contents g store line ≠ none) :
    contents g (mark store line) = Function.update (contents g store) line (some true) := by
  funext line'
  ext dirty
  rw [contents_eq_some_iff hinv.mark]
  simp only [mem_mark]
  by_cases hsame : line' = line
  · subst hsame
    rw [Function.update_self, Option.some_inj]
    constructor
    · rintro ⟨tag, ⟨old, -, htag⟩, hdirty⟩
      rw [← hdirty, htag, if_pos rfl, isDirty_or_DIRTY]
    · rintro rfl
      obtain ⟨old, hold⟩ := Option.ne_none_iff_exists'.mp hresident
      obtain ⟨tag, htag, -⟩ := (contents_eq_some_iff hinv).mp hold
      exact ⟨tag ||| DIRTY, ⟨tag, htag, (if_pos rfl).symm⟩, isDirty_or_DIRTY tag⟩
  · rw [Function.update_of_ne hsame, contents_eq_some_iff hinv]
    simp only [if_neg hsame]
    constructor
    · rintro ⟨tag, ⟨old, hold, rfl⟩, hdirty⟩
      exact ⟨_, hold, hdirty⟩
    · rintro ⟨tag, htag, hdirty⟩
      exact ⟨tag, ⟨tag, htag, rfl⟩, hdirty⟩

/-! ### Filling an entry -/

theorem Inv.fill (hinv : Inv g store) (hsize : store.tags.length < g.ways)
    (habsent : contents g store (g.line addr) = none) :
    Inv g ⟨assign (g.line addr) (g.line addr ||| VALID) store.tags⟩ := by
  have hnew := contents_eq_none_iff.mp habsent
  constructor
  · exact sorted_assign hinv.sorted hnew
  · change (assign _ _ _).length ≤ _
    rw [length_assign hnew]
    exact hsize
  · intro it hit
    rcases (mem_assign hnew).mp hit with rfl | hit
    · exact ⟨isValid_fresh _, lineOf_fresh (g.isLine_line addr)⟩
    · exact hinv.entry it hit
  · intro it hit
    rcases (mem_assign hnew).mp hit with rfl | hit
    · exact ⟨addr, rfl⟩
    · exact hinv.isLine it hit

theorem contents_fill (hinv : Inv g store) (hsize : store.tags.length < g.ways)
    (habsent : contents g store (g.line addr) = none) :
    contents g ⟨assign (g.line addr) (g.line addr ||| VALID) store.tags⟩ =
      Function.update (contents g store) (g.line addr) (some false) := by
  have hnew := contents_eq_none_iff.mp habsent
  funext line'
  ext dirty
  rw [contents_eq_some_iff (hinv.fill hsize habsent)]
  simp only [mem_assign hnew]
  by_cases hsame : line' = g.line addr
  · subst hsame
    rw [Function.update_self, Option.some_inj]
    constructor
    · rintro ⟨tag, htag | htag, hdirty⟩
      · cases htag
        rw [← hdirty, isDirty_fresh (g.isLine_line addr)]
      · exact absurd rfl (hnew _ htag)
    · rintro rfl
      exact ⟨_, .inl rfl, isDirty_fresh (g.isLine_line addr)⟩
  · rw [Function.update_of_ne hsame, contents_eq_some_iff hinv]
    apply exists_congr
    intro tag
    apply and_congr_left
    intro _
    exact or_iff_right fun h => hsame (congrArg Prod.fst h)

theorem Inv.erase (hinv : Inv g store) (n : Nat) : Inv g ⟨store.tags.eraseIdx n⟩ where
  sorted := hinv.sorted.sublist (List.eraseIdx_sublist _ _)
  size := (List.length_eraseIdx_le _ _).trans hinv.size
  entry it hit := hinv.entry it (List.mem_of_mem_eraseIdx hit)
  isLine it hit := hinv.isLine it (List.mem_of_mem_eraseIdx hit)

theorem contents_erase (hinv : Inv g store) {n : Nat} {victim : BitVec 64 × BitVec 64}
    (hvictim : store.tags[n]? = some victim) :
    contents g ⟨store.tags.eraseIdx n⟩ = evict (some victim.1) (contents g store) := by
  funext line'
  ext dirty
  rw [contents_eq_some_iff (hinv.erase n), evict]
  simp only [mem_eraseIdx hinv.sorted hvictim, Option.some_inj]
  split
  next h => simp [h]
  next h =>
    rw [contents_eq_some_iff hinv]
    simp [Ne.symm h]

instance : LawfulTagStore TagMap where
  Inv := Inv
  contents := contents
  inv_empty g := ⟨List.Pairwise.nil, Nat.zero_le _, by simp [empty], by simp [empty]⟩
  contents_empty g := rfl
  isLine_of_contents {g tags line dirty} hinv h := by
    obtain ⟨tag, htag, -⟩ := (contents_eq_some_iff hinv).mp h
    exact hinv.isLine _ htag
  checkTag_contents g addr tags := by
    change (checkTag g addr tags).map (fun key => isDirty (tags.read key)) = _
    rw [checkTag_eq, contents]
    unfold read
    cases hlookup : tags.tags.lookup (g.line addr) with
    | none => rfl
    | some tag => simp [hlookup]
  orTag_inv hinv _ := hinv.mark
  orTag_contents {g addr tags ptr} hinv h := by
    change checkTag g addr tags = _ at h
    rw [checkTag_eq, Option.map_eq_some_iff] at h
    obtain ⟨tag, htag, rfl⟩ := h
    apply contents_mark hinv
    simp [contents, htag]
  victimize_returns {g} hways addr lfsr tags := by
    change ∃ victim lfsr' tags', victimize g addr lfsr tags = some (victim, lfsr', tags')
    rw [victimize]
    split
    next hfull =>
      have hn : (lfsrNext lfsr).toNat % g.ways < tags.tags.length :=
        hfull ▸ Nat.mod_lt _ (hfull ▸ hways)
      simp only [if_neg (show g.ways ≠ 0 by omega), List.getElem?_eq_getElem hn]
      exact ⟨_, _, _, rfl⟩
    next => exact ⟨_, _, _, rfl⟩
  victimize_spec {g addr victim lfsr lfsr' tags tags'} hinv habsent h := by
    change victimize g addr lfsr tags = _ at h
    rw [victimize] at h
    split at h
    next hfull =>
      split at h
      next => cases h
      next hways =>
        rw [Option.map_eq_some_iff] at h
        obtain ⟨it, hit, heq⟩ := h
        cases heq
        obtain ⟨hlt, -⟩ := List.getElem?_eq_some_iff.mp hit
        have hmem : it ∈ tags.tags := List.mem_of_getElem? hit
        obtain ⟨hvalid, hline⟩ := hinv.entry it hmem
        have hvictim : validLine it.2 = some it.1 := by rw [validLine, if_pos hvalid, hline]
        have hsize : (tags.tags.eraseIdx ((lfsrNext lfsr).toNat % g.ways)).length < g.ways := by
          rw [List.length_eraseIdx_of_lt hlt]
          omega
        have herased := contents_erase hinv hit
        have habsent' : contents g ⟨tags.tags.eraseIdx ((lfsrNext lfsr).toNat % g.ways)⟩
            (g.line addr) = none := by
          rw [herased, evict, habsent, ite_self]
        refine ⟨(hinv.erase _).fill hsize habsent', fun line h => ?_, ?_⟩
        · rw [hvictim] at h
          cases h
          exact (contents_eq_some_iff hinv).mpr ⟨it.2, hmem, rfl⟩
        · rw [hvictim, ← herased]
          exact contents_fill (hinv.erase _) hsize habsent'
    next hroom =>
      cases h
      have hsize : tags.tags.length < g.ways := lt_of_le_of_ne hinv.size hroom
      have hvictim : validLine 0 = none := by decide
      refine ⟨hinv.fill hsize habsent, fun line h => ?_, ?_⟩
      · rw [hvictim] at h
        cases h
      · rw [hvictim]
        exact contents_fill hinv hsize habsent

end TagMap

instance : (kind : Kind) → LawfulTagStore (Tags kind)
  | .setAssociative => inferInstanceAs (LawfulTagStore TagArray)
  | .fullyAssociative => inferInstanceAs (LawfulTagStore TagMap)

end SpikeSim.Cache
