/-
# Pages

A translation is a matter of pages: two addresses of one page have the same walk,
and their physical addresses lie in one frame at the offsets of the two.  What the
walk reads are page-table entries, of which it does not look at the accessed and
dirty bits, and a few fields of the hart; as long as these stay, so does every
translation.
-/

import SpikeSim.Lib.BitMask
import SpikeSim.Riscv.Csr
import SpikeSim.Riscv.Translation

namespace SpikeSim.Riscv

variable {β : Type} {P : Platform β}

/-! ## Addresses of one page -/

/-- The addresses lie in one page. -/
def SamePage (addr addr' : Reg) : Prop := addr' >>> pgshift = addr >>> pgshift

theorem getLsbD_pageOffset (addr : Reg) (i : Nat) :
    (pageOffset addr).getLsbD i = (addr.getLsbD i && decide (i < 12)) := by
  have hmask : (0xfff : Reg).getLsbD i = decide (i < 12) := by
    by_cases hi : i < 64
    · have hall : ∀ j < 64, (0xfff : Reg).getLsbD j = decide (j < 12) := by decide
      exact hall i hi
    · rw [BitVec.getLsbD_of_ge _ _ (by omega)]
      simp
      omega
  rw [pageOffset, BitVec.getLsbD_and, hmask]

/-- An offset is added to the start of a page. -/
theorem page_or_offset (page addr : Reg) :
    (page <<< pgshift) ||| pageOffset addr = (page <<< pgshift) + pageOffset addr := by
  refine (BitVec.add_eq_or_of_and_eq_zero _ _ ?_).symm
  refine BitVec.eq_of_getLsbD_eq fun i hi => ?_
  rw [BitVec.getLsbD_and, getLsbD_pageOffset, BitVec.getLsbD_shiftLeft]
  by_cases hlow : i < 12
  · simp [pgshift, hlow]
  · simp [hlow]

/-- An address is the start of its page and an offset. -/
theorem add_pageOffset (addr : Reg) : (addr >>> pgshift) <<< pgshift + pageOffset addr = addr := by
  rw [← page_or_offset]
  refine BitVec.eq_of_getLsbD_eq fun i hi => ?_
  rw [BitVec.getLsbD_or, getLsbD_pageOffset, BitVec.getLsbD_shiftLeft, BitVec.getLsbD_ushiftRight]
  by_cases hlow : i < 12
  · simp [pgshift, hlow]
  · simp [pgshift, hlow, hi, show 12 + (i - 12) = i by omega]

theorem SamePage.sub {addr addr' : Reg} (h : SamePage addr addr') :
    addr' - addr = pageOffset addr' - pageOffset addr := by
  let base := (addr >>> pgshift) <<< pgshift
  have haddr : base + pageOffset addr = addr := add_pageOffset addr
  have haddr' : base + pageOffset addr' = addr' := by
    have hbase : base = (addr' >>> pgshift) <<< pgshift := by
      rw [h]
    rw [hbase]
    exact add_pageOffset addr'
  calc addr' - addr = (base + pageOffset addr') - (base + pageOffset addr) := by
        rw [haddr, haddr']
    _ = pageOffset addr' - pageOffset addr := by ring

theorem SamePage.shiftRight {addr addr' : Reg} (h : SamePage addr addr') (n : Nat) :
    addr' >>> (pgshift + n) = addr >>> (pgshift + n) := by
  rw [BitVec.shiftRight_add, BitVec.shiftRight_add, h]

theorem walkLevels_samePage {addr addr' : Reg} (h : SamePage addr addr') (dram : Reg → BitVec 8)
    (shape : VmShape) (type : AccessType) (supervisor pum mxr : Bool) (levels : Nat) (base : Reg) :
    walkLevels P dram shape type supervisor pum mxr addr' levels base =
      walkLevels P dram shape type supervisor pum mxr addr levels base := by
  induction levels generalizing base with
  | zero => rfl
  | succ level ih =>
      have hvpn : addr' >>> pgshift = addr >>> pgshift := h
      simp only [walkLevels, h.shiftRight, hvpn, ih]

/-- The shapes that `walk` knows index at least one bit. -/
theorem vmShape_bits {mstatus : Reg} {shape : VmShape} (h : vmShape mstatus = some shape) :
    1 ≤ shape.levels * shape.ptidxbits := by
  simp only [vmShape] at h
  split_ifs at h
  all_goals
    cases h
    decide

theorem walkLeaf_samePage {addr addr' : Reg} (hpage : SamePage addr addr') {h : Hart}
    {shape : VmShape} (hshape : vmShape h.mstatus = some shape) (dram : Reg → BitVec 8)
    (type : AccessType) (mode : Prv) :
    walkLeaf P h dram shape addr' type mode = walkLeaf P h dram shape addr type mode := by
  have hbits := vmShape_bits hshape
  have hmsbs : addr' >>> (pgshift + shape.levels * shape.ptidxbits - 1) =
      addr >>> (pgshift + shape.levels * shape.ptidxbits - 1) := by
    rw [Nat.add_sub_assoc hbits]
    exact hpage.shiftRight _
  simp only [walkLeaf, hmsbs, walkLevels_samePage hpage]

/-- A walk returns the start of a page. -/
theorem walkLevels_page {dram : Reg → BitVec 8} {shape : VmShape} {type : AccessType}
    {supervisor pum mxr : Bool} {addr : Reg} {levels : Nat} {base ppte page : Reg}
    (h : walkLevels P dram shape type supervisor pum mxr addr levels base = some (ppte, page)) :
    ∃ ppn : Reg, page = ppn <<< pgshift := by
  induction levels generalizing base with
  | zero => cases h
  | succ level ih =>
      simp only [walkLevels] at h
      split_ifs at h
      · exact ih h
      · cases h
        exact ⟨_, rfl⟩

/-- The addresses of an untranslated page. -/
theorem and_xlenMask (xlen : Xlen) (addr : Reg) :
    addr &&& xlenMask xlen =
      ((addr >>> pgshift) &&& (xlenMask xlen >>> pgshift)) <<< pgshift + pageOffset addr := by
  have hlow : ∀ i < 12, (xlenMask xlen).getLsbD i = true := by
    cases xlen <;> decide
  rw [← page_or_offset]
  refine BitVec.eq_of_getLsbD_eq fun i hi => ?_
  simp only [BitVec.getLsbD_or, getLsbD_pageOffset, BitVec.getLsbD_shiftLeft, BitVec.getLsbD_and,
    BitVec.getLsbD_ushiftRight]
  by_cases hoffset : i < 12
  · simp [pgshift, hoffset, hlow i hoffset]
  · simp [pgshift, hoffset, hi, show 12 + (i - 12) = i by omega]

/-- The physical address of a translation that is not a fault is a frame and the
offset, and the frame is the same for the whole page. -/
theorem translation_frame {h : Hart} {dram : Reg → BitVec 8} {addr : Reg} {type : AccessType}
    {paddr : Reg} {leaf : Option Reg}
    (htr : translation P h dram addr type = some (paddr, leaf)) (hok : paddr ≠ -1) :
    ∃ frame : Reg, paddr = (frame <<< pgshift) + pageOffset addr ∧
      ∀ addr', SamePage addr addr' → translation P h dram addr' type =
        some ((frame <<< pgshift) + pageOffset addr', leaf) := by
  unfold translation at htr ⊢
  by_cases hmode : translationMode h type = prvM
  · simp only [if_pos hmode] at htr ⊢
    cases htr
    refine ⟨_, and_xlenMask h.xlen addr, fun addr' hpage => ?_⟩
    rw [and_xlenMask h.xlen addr', hpage]
  · simp only [if_neg hmode] at htr ⊢
    cases hshape : vmShape h.mstatus with
    | none =>
        rw [hshape] at htr
        cases htr
    | some shape =>
        simp only [hshape] at htr ⊢
        rcases hwalk : walkLeaf P h dram shape addr type (translationMode h type)
          with _ | ⟨ppte, page⟩
        · rw [hwalk] at htr
          cases htr
          exact absurd rfl hok
        · rw [hwalk] at htr
          cases htr
          obtain ⟨frame, rfl⟩ : ∃ ppn : Reg, page = ppn <<< pgshift := by
            simp only [walkLeaf] at hwalk
            split_ifs at hwalk
            exact walkLevels_page hwalk
          refine ⟨frame, page_or_offset frame addr, fun addr' hpage => ?_⟩
          rw [walkLeaf_samePage hpage hshape, hwalk]
          simp only [page_or_offset]

/-! ## Memory is made of pages -/

theorem toNat_shiftRight_pgshift (addr : Reg) : (addr >>> pgshift).toNat = addr.toNat / 4096 := by
  rw [BitVec.toNat_ushiftRight, Nat.shiftRight_eq_div_pow]
  rfl

/-- Whether an address is in memory depends on its page. -/
theorem addrIsMem_samePage {paddr paddr' : Reg} (h : SamePage paddr paddr') :
    P.addrIsMem paddr' = P.addrIsMem paddr := by
  have hpage : paddr'.toNat / 4096 = paddr.toNat / 4096 := by
    rw [← toNat_shiftRight_pgshift, ← toNat_shiftRight_pgshift, h]
  obtain ⟨k, hk⟩ := P.memsz_dvd
  have htop : (dramBase + P.memsz).toNat = (0x80000000 + P.memsz.toNat) % 2 ^ 64 := by
    rw [BitVec.toNat_add]
    rfl
  simp only [Platform.addrIsMem, BitVec.le_def, BitVec.lt_def, htop, hk,
    show dramBase.toNat = 0x80000000 from rfl]
  congr 1
  · simp only [decide_eq_decide]
    omega
  · simp only [decide_eq_decide]
    omega

theorem samePage_frame (frame addr addr' : Reg) :
    SamePage ((frame <<< pgshift) + pageOffset addr) ((frame <<< pgshift) + pageOffset addr') := by
  have hpage (a : Reg) : ((frame <<< pgshift) + pageOffset a) >>> pgshift =
      (frame <<< pgshift) >>> pgshift := by
    rw [← page_or_offset]
    refine BitVec.eq_of_getLsbD_eq fun i hi => ?_
    simp only [BitVec.getLsbD_ushiftRight, BitVec.getLsbD_or, getLsbD_pageOffset]
    simp [pgshift]
  unfold SamePage
  rw [hpage, hpage]

/-- A fault is not an address of memory. -/
theorem addrIsMem_ne_fault {paddr : Reg} (h : P.addrIsMem paddr = true) : paddr ≠ -1 := by
  rintro rfl
  have hle := P.memsz_le
  simp only [Platform.addrIsMem, Bool.and_eq_true, decide_eq_true_eq, BitVec.lt_def] at h
  have htop := (dramBase + P.memsz).isLt
  have hmax : (-1 : Reg).toNat = 2 ^ 64 - 1 := by decide
  omega

/-- **One page, one frame.** If an address is translated into memory then so is every
address of its page, at the same distance. -/
theorem translation_samePage {h : Hart} {dram : Reg → BitVec 8} {addr addr' : Reg}
    {type : AccessType} {paddr : Reg} {leaf : Option Reg}
    (htr : translation P h dram addr type = some (paddr, leaf))
    (hmem : P.addrIsMem paddr = true) (hpage : SamePage addr addr') :
    translation P h dram addr' type = some (paddr + (addr' - addr), leaf) ∧
      P.addrIsMem (paddr + (addr' - addr)) = true := by
  obtain ⟨frame, rfl, hframe⟩ := translation_frame htr (addrIsMem_ne_fault hmem)
  have hsame : (frame <<< pgshift) + pageOffset addr + (addr' - addr) =
      (frame <<< pgshift) + pageOffset addr' := by
    rw [hpage.sub]
    ring
  rw [hsame]
  exact ⟨hframe addr' hpage, (addrIsMem_samePage (samePage_frame ..)).trans hmem⟩

/-- The kind of an access decides whether its walk is denied, not where it leads. -/
theorem walkLevels_unique {dram : Reg → BitVec 8} {shape : VmShape} {type type' : AccessType}
    {supervisor supervisor' pum pum' mxr mxr' : Bool} {addr : Reg} {levels : Nat} {base : Reg}
    {r r' : Reg × Reg}
    (h : walkLevels P dram shape type supervisor pum mxr addr levels base = some r)
    (h' : walkLevels P dram shape type' supervisor' pum' mxr' addr levels base = some r') :
    r' = r := by
  induction levels generalizing base with
  | zero => cases h
  | succ level ih =>
      simp only [walkLevels] at h h'
      split_ifs at h h'
      · exact ih h h'
      · cases h
        cases h'
        rfl

theorem walkLeaf_unique {h : Hart} {dram : Reg → BitVec 8} {shape : VmShape} {addr : Reg}
    {type type' : AccessType} {mode mode' : Prv} {r r' : Reg × Reg}
    (hwalk : walkLeaf P h dram shape addr type mode = some r)
    (hwalk' : walkLeaf P h dram shape addr type' mode' = some r') : r' = r := by
  simp only [walkLeaf] at hwalk hwalk'
  split_ifs at hwalk hwalk'
  exact walkLevels_unique hwalk hwalk'

/-- Two kinds of access that both bypass the walk, or both make it, reach the same
address. -/
theorem translation_unique {h : Hart} {dram : Reg → BitVec 8} {addr : Reg}
    {type type' : AccessType} {paddr paddr' : Reg} {leaf leaf' : Option Reg}
    (hmode : translationMode h type' = prvM ↔ translationMode h type = prvM)
    (htr : translation P h dram addr type = some (paddr, leaf)) (hok : paddr ≠ -1)
    (htr' : translation P h dram addr type' = some (paddr', leaf')) (hok' : paddr' ≠ -1) :
    paddr' = paddr := by
  simp only [translation, hmode] at htr htr'
  split_ifs at htr htr'
  · cases htr
    cases htr'
    rfl
  · cases hshape : vmShape h.mstatus with
    | none =>
        rw [hshape] at htr
        cases htr
    | some shape =>
        simp only [hshape] at htr htr'
        rcases hwalk : walkLeaf P h dram shape addr type (translationMode h type) with _ | r
        · rw [hwalk] at htr
          cases htr
          exact absurd rfl hok
        · rcases hwalk' : walkLeaf P h dram shape addr type' (translationMode h type') with _ | r'
          · rw [hwalk'] at htr'
            cases htr'
            exact absurd rfl hok'
          · rw [hwalk] at htr
            rw [hwalk', walkLeaf_unique hwalk hwalk'] at htr'
            rw [htr] at htr'
            cases htr'
            rfl

/-! ## The tables -/

/-- The entries that a walk reads. -/
def walkPath (P : Platform β) (dram : Reg → BitVec 8) (shape : VmShape) (addr : Reg) :
    (levels : Nat) → (base : Reg) → List Reg
  | 0, _ => []
  | level + 1, base =>
    let idx := (addr >>> (pgshift + level * shape.ptidxbits)) &&& ((1 <<< shape.ptidxbits) - 1)
    let pteAddr := base + idx * BitVec.ofNat 64 shape.ptesize
    if !P.addrIsMem pteAddr then []
    else
      let ppte := P.addrToMem pteAddr
      let pte := readLE dram ppte shape.ptesize
      ppte :: if pteTable pte then walkPath P dram shape addr level ((pte >>> 10) <<< pgshift) else []

/-- The accessed and dirty bits. -/
def pteMarks : Reg := pteA ||| pteD

/-- The entries of the page tables that the hart points to. -/
def TableEntry (P : Platform β) (h : Hart) (dram : Reg → BitVec 8) (shape : VmShape)
    (ppte : Reg) : Prop :=
  vmShape h.mstatus = some shape ∧
    ∃ addr, ppte ∈ walkPath P dram shape addr shape.levels (h.sptbr <<< pgshift)

/-- The page tables are the same, up to the accessed and dirty bits. -/
def SameTables (P : Platform β) (h : Hart) (dram dram' : Reg → BitVec 8) : Prop :=
  ∀ shape ppte, TableEntry P h dram shape ppte →
    AgreeOn (~~~pteMarks) (readLE dram' ppte shape.ptesize) (readLE dram ppte shape.ptesize)

section Entries

variable {pte pte' : Reg} (h : AgreeOn (~~~pteMarks) pte' pte)
include h

theorem and_bits_eq (bits : Reg) (hbits : SubMask bits (~~~pteMarks)) :
    pte' &&& bits = pte &&& bits := h.mono hbits

theorem pteTable_eq : pteTable pte' = pteTable pte := by
  unfold pteTable
  rw [and_bits_eq h _ (by decide)]

theorem pteDenied_eq (type : AccessType) (supervisor pum mxr : Bool) :
    pteDenied type supervisor pum mxr pte' = pteDenied type supervisor pum mxr pte := by
  unfold pteDenied
  rw [and_bits_eq h pteU (by decide), and_bits_eq h pteV (by decide),
    and_bits_eq h pteR (by decide), and_bits_eq h pteW (by decide),
    and_bits_eq h pteX (by decide)]

theorem ppn_eq : pte' >>> 10 = pte >>> 10 := by
  rw [agreeOn_iff] at h
  refine BitVec.eq_of_getLsbD_eq fun i hi => ?_
  rw [BitVec.getLsbD_ushiftRight, BitVec.getLsbD_ushiftRight]
  by_cases hhigh : 10 + i < 64
  · refine h _ hhigh ?_
    have hall : ∀ j < 64, 10 ≤ j → (~~~pteMarks).getLsbD j = true := by decide
    exact hall _ hhigh (by omega)
  · rw [BitVec.getLsbD_of_ge _ _ (by omega), BitVec.getLsbD_of_ge _ _ (by omega)]

end Entries

theorem walkLevels_congr {dram dram' : Reg → BitVec 8} {shape : VmShape} {type : AccessType}
    {supervisor pum mxr : Bool} {addr : Reg} {levels : Nat} {base : Reg}
    (h : ∀ ppte ∈ walkPath P dram shape addr levels base,
      AgreeOn (~~~pteMarks) (readLE dram' ppte shape.ptesize) (readLE dram ppte shape.ptesize)) :
    walkLevels P dram' shape type supervisor pum mxr addr levels base =
      walkLevels P dram shape type supervisor pum mxr addr levels base := by
  induction levels generalizing base with
  | zero => rfl
  | succ level ih =>
      simp only [walkLevels, walkPath] at h ⊢
      split
      · rfl
      · rename_i hmem
        rw [if_neg hmem] at h
        have hpte := h _ (List.mem_cons_self ..)
        rw [pteTable_eq hpte, pteDenied_eq hpte, ppn_eq hpte]
        split
        · rename_i htable
          rw [if_pos htable] at h
          exact ih fun ppte hpath => h ppte (List.mem_cons_of_mem _ hpath)
        · rfl

theorem walkPath_congr {dram dram' : Reg → BitVec 8} {shape : VmShape} {addr : Reg} {levels : Nat}
    {base : Reg} (h : ∀ ppte ∈ walkPath P dram shape addr levels base,
      AgreeOn (~~~pteMarks) (readLE dram' ppte shape.ptesize) (readLE dram ppte shape.ptesize)) :
    walkPath P dram' shape addr levels base = walkPath P dram shape addr levels base := by
  induction levels generalizing base with
  | zero => rfl
  | succ level ih =>
      simp only [walkPath] at h ⊢
      split
      · rfl
      · rename_i hmem
        rw [if_neg hmem] at h
        have hpte := h _ (List.mem_cons_self ..)
        rw [pteTable_eq hpte, ppn_eq hpte]
        split
        · rename_i htable
          rw [if_pos htable] at h
          rw [ih fun ppte hpath => h ppte (List.mem_cons_of_mem _ hpath)]
        · rfl

/-- The same tables have the same entries. -/
theorem SameTables.tableEntry {h : Hart} {dram dram' : Reg → BitVec 8}
    (htables : SameTables P h dram dram') {shape : VmShape} {ppte : Reg}
    (hentry : TableEntry P h dram shape ppte) : TableEntry P h dram' shape ppte := by
  obtain ⟨hshape, addr, hpath⟩ := hentry
  refine ⟨hshape, addr, ?_⟩
  rwa [walkPath_congr fun p hp => htables shape p ⟨hshape, addr, hp⟩]

theorem SameTables.refl (h : Hart) (dram : Reg → BitVec 8) : SameTables P h dram dram :=
  fun _ _ _ => .refl ..

/-- All that a translation reads of the hart. -/
structure SameView (h h' : Hart) : Prop where
  prv : h'.prv = h.prv
  xlen : h'.xlen = h.xlen
  sptbr : h'.sptbr = h.sptbr
  debug : h'.inDebugMode = h.inDebugMode
  mstatus : AgreeOn mstatusVmBits h'.mstatus h.mstatus

theorem SameView.getField {h h' : Hart} (hview : SameView h h') (mask : Reg)
    (hmask : SubMask mask mstatusVmBits) :
    getField h'.mstatus mask = getField h.mstatus mask := by
  have hsame : h'.mstatus &&& mask = h.mstatus &&& mask := hview.mstatus.mono hmask
  simp only [SpikeSim.getField, hsame]

theorem SameView.hasField {h h' : Hart} (hview : SameView h h') (mask : Reg)
    (hmask : SubMask mask mstatusVmBits) :
    hasField h'.mstatus mask = hasField h.mstatus mask := by
  simp only [SpikeSim.hasField, hview.getField mask hmask]

theorem SameView.translationMode {h h' : Hart} (hview : SameView h h') (type : AccessType) :
    translationMode h' type = translationMode h type := by
  unfold Riscv.translationMode
  rw [hview.hasField mstatusMprv (by decide), hview.getField mstatusMpp (by decide),
    hview.getField mstatusVm (by decide), hview.prv, hview.debug]

theorem SameView.vmShape {h h' : Hart} (hview : SameView h h') :
    vmShape h'.mstatus = vmShape h.mstatus := by
  unfold Riscv.vmShape
  rw [hview.getField mstatusVm (by decide)]

/-- **What keeps a translation.** The hart shows the same view, and the tables are the
same. -/
theorem translation_congr {h h' : Hart} {dram dram' : Reg → BitVec 8} (hview : SameView h h')
    (htables : SameTables P h dram dram') (addr : Reg) (type : AccessType) :
    translation P h' dram' addr type = translation P h dram addr type := by
  unfold translation
  rw [hview.translationMode, hview.vmShape, hview.xlen]
  cases hshape : Riscv.vmShape h.mstatus with
  | none => rfl
  | some shape =>
      have hwalk : walkLeaf P h' dram' shape addr type (Riscv.translationMode h type) =
          walkLeaf P h dram shape addr type (Riscv.translationMode h type) := by
        unfold walkLeaf
        rw [hview.hasField mstatusPum (by decide), hview.hasField mstatusMxr (by decide),
          hview.sptbr, hview.xlen]
        have hpath := fun ppte hmem => htables shape ppte ⟨hshape, addr, hmem⟩
        rw [walkLevels_congr hpath]
      simp only [hwalk]

/-! ## Marks -/

/-- No accessed or dirty bit of the page tables is cleared. -/
def KeepsMarks (P : Platform β) (h : Hart) (dram dram' : Reg → BitVec 8) : Prop :=
  ∀ shape ppte, TableEntry P h dram shape ppte →
    SubMask (dram ppte &&& pteMarks.setWidth 8) (dram' ppte)

theorem accessByte_subMask (type : AccessType) :
    SubMask (accessByte type) (pteMarks.setWidth 8) := by
  cases type <;> decide

/-- An entry is marked already. -/
theorem markAccessed_eq_self_iff {dram : Reg → BitVec 8} {ppte : Reg} {type : AccessType} :
    markAccessed dram ppte type = dram ↔ SubMask (accessByte type) (dram ppte) := by
  rw [markAccessed_eq, Function.update_eq_self_iff]
  constructor
  · intro h
    rw [← h]
    exact .or_right ..
  · exact SubMask.or_eq_left

/-- Marking twice is marking once. -/
theorem markAccessed_idem (dram : Reg → BitVec 8) (ppte : Reg) (type : AccessType) :
    markAccessed (markAccessed dram ppte type) ppte type = markAccessed dram ppte type := by
  rw [markAccessed_eq_self_iff, markAccessed_eq, Function.update_self]
  exact .or_right ..

theorem walkLevels_mem_walkPath {dram : Reg → BitVec 8} {shape : VmShape} {type : AccessType}
    {supervisor pum mxr : Bool} {addr : Reg} {levels : Nat} {base ppte page : Reg}
    (h : walkLevels P dram shape type supervisor pum mxr addr levels base = some (ppte, page)) :
    ppte ∈ walkPath P dram shape addr levels base := by
  induction levels generalizing base with
  | zero => cases h
  | succ level ih =>
      simp only [walkLevels, walkPath] at h ⊢
      split_ifs at h ⊢
      · exact List.mem_cons_of_mem _ (ih h)
      · cases h
        exact List.mem_cons_self ..

/-- The leaf entry of a walk is an entry of the tables. -/
theorem tableEntry_of_translation {h : Hart} {dram : Reg → BitVec 8} {addr : Reg}
    {type : AccessType} {paddr ppte : Reg}
    (htr : translation P h dram addr type = some (paddr, some ppte)) :
    ∃ shape, TableEntry P h dram shape ppte := by
  simp only [translation] at htr
  split_ifs at htr
  · cases htr
  · cases hshape : vmShape h.mstatus with
    | none =>
        rw [hshape] at htr
        cases htr
    | some shape =>
        simp only [hshape] at htr
        rcases hwalk : walkLeaf P h dram shape addr type (translationMode h type)
          with _ | ⟨leaf, page⟩
        · rw [hwalk] at htr
          cases htr
        · rw [hwalk] at htr
          cases htr
          simp only [walkLeaf] at hwalk
          split_ifs at hwalk
          exact ⟨shape, hshape, addr, walkLevels_mem_walkPath hwalk⟩

/-! ## Marking an entry keeps the tables -/

theorem walkPath_aligned {dram : Reg → BitVec 8} {shape : VmShape} {addr : Reg} {levels : Nat}
    {base ppte : Reg} (hsize : ∃ n : Reg, 4096 = n * BitVec.ofNat 64 shape.ptesize)
    (hbase : ∃ frame : Reg, base = frame <<< pgshift)
    (h : ppte ∈ walkPath P dram shape addr levels base) :
    ∃ k : Reg, ppte = P.addrToMem (k * BitVec.ofNat 64 shape.ptesize) := by
  induction levels generalizing base with
  | zero => cases h
  | succ level ih =>
      obtain ⟨n, hn⟩ := hsize
      obtain ⟨frame, rfl⟩ := hbase
      have hentry (idx : Reg) : frame <<< pgshift + idx * BitVec.ofNat 64 shape.ptesize =
          (frame * n + idx) * BitVec.ofNat 64 shape.ptesize := by
        rw [BitVec.shiftLeft_eq_mul_twoPow, show BitVec.twoPow 64 pgshift = 4096 from by decide, hn]
        ring
      simp only [walkPath, hentry] at h
      split_ifs at h
      · cases h
      · rcases List.mem_cons.mp h with rfl | hrest
        · exact ⟨_, rfl⟩
        · exact ih ⟨_, rfl⟩ hrest
      · rcases List.mem_cons.mp h with rfl | hrest
        · exact ⟨_, rfl⟩
        · cases hrest

/-- The size of an entry, and that it divides a page. -/
theorem vmShape_ptesize {mstatus : Reg} {shape : VmShape} (h : vmShape mstatus = some shape) :
    shape.ptesize = 4 ∨ shape.ptesize = 8 := by
  simp only [vmShape] at h
  split_ifs at h
  all_goals
    cases h
    decide

/-- Entries do not overlap. -/
theorem tableEntry_disjoint {h : Hart} {dram : Reg → BitVec 8} {shape shape' : VmShape}
    {ppte ppte' : Reg} (hentry : TableEntry P h dram shape ppte)
    (hentry' : TableEntry P h dram shape' ppte') (hne : ppte ≠ ppte') :
    shape.ptesize ≤ (ppte' - ppte).toNat := by
  obtain ⟨hshape, addr, hpath⟩ := hentry
  obtain ⟨hshape', addr', hpath'⟩ := hentry'
  obtain rfl : shape = shape' := by simpa [hshape] using hshape'
  have hsize : ∃ n : Reg, 4096 = n * BitVec.ofNat 64 shape.ptesize := by
    rcases vmShape_ptesize hshape with hsize | hsize
    · exact ⟨1024, by rw [hsize]; decide⟩
    · exact ⟨512, by rw [hsize]; decide⟩
  obtain ⟨k, rfl⟩ := walkPath_aligned hsize ⟨_, rfl⟩ hpath
  obtain ⟨k', rfl⟩ := walkPath_aligned hsize ⟨_, rfl⟩ hpath'
  have hdiff : P.addrToMem (k' * BitVec.ofNat 64 shape.ptesize) -
      P.addrToMem (k * BitVec.ofNat 64 shape.ptesize) =
        (k' - k) * BitVec.ofNat 64 shape.ptesize := by
    unfold Platform.addrToMem
    ring
  rw [hdiff]
  have hnonzero : (k' - k) * BitVec.ofNat 64 shape.ptesize ≠ 0 := by
    rw [← hdiff, sub_ne_zero]
    exact hne.symm
  generalize k' - k = d at hnonzero ⊢
  have hpos : ((d * BitVec.ofNat 64 shape.ptesize).toNat) ≠ 0 := by
    intro hzero
    exact hnonzero (BitVec.eq_of_toNat_eq hzero)
  rw [BitVec.toNat_mul] at hpos ⊢
  rcases vmShape_ptesize hshape with hsize | hsize
  · rw [hsize] at hpos ⊢
    simp only [BitVec.toNat_ofNat] at hpos ⊢
    omega
  · rw [hsize] at hpos ⊢
    simp only [BitVec.toNat_ofNat] at hpos ⊢
    omega

/-- A byte outside of the range that is read. -/
theorem readLE_update_of_le {dram : Reg → BitVec 8} {ptr q : Reg} {n : Nat} (b : BitVec 8)
    (hn : n ≤ (q - ptr).toNat) : readLE (Function.update dram q b) ptr n = readLE dram ptr n := by
  refine readLE_congr fun j hj => ?_
  rw [Function.update_of_ne]
  rintro rfl
  have hoffset : (ptr + BitVec.ofNat 64 j - ptr).toNat ≤ j := by
    rw [show ptr + BitVec.ofNat 64 j - ptr = BitVec.ofNat 64 j by ring, BitVec.toNat_ofNat]
    exact Nat.mod_le ..
  omega

/-- Bits that are set in the first byte are set in the number. -/
theorem readLE_update_or (dram : Reg → BitVec 8) (ptr : Reg) {n : Nat} (hn : n < 2 ^ 64)
    (b : BitVec 8) :
    readLE (Function.update dram ptr (dram ptr ||| b)) ptr (n + 1) =
      readLE dram ptr (n + 1) ||| b.setWidth 64 := by
  have hrest : readLE (Function.update dram ptr (dram ptr ||| b)) (ptr + 1) n =
      readLE dram (ptr + 1) n := by
    refine readLE_update_of_le _ ?_
    rw [show ptr - (ptr + 1) = -1 by ring, show (-1 : Reg).toNat = 2 ^ 64 - 1 from by decide]
    omega
  rw [readLE, readLE, hrest, Function.update_self, BitVec.setWidth_or, BitVec.or_assoc,
    BitVec.or_comm (b.setWidth 64), ← BitVec.or_assoc]

/-- **A walk keeps the tables.** Marking an entry changes nothing else of any entry. -/
theorem sameTables_markAccessed {h : Hart} {dram : Reg → BitVec 8} {shape : VmShape} {q : Reg}
    (hentry : TableEntry P h dram shape q) (type : AccessType) :
    SameTables P h dram (markAccessed dram q type) := by
  intro shape' ppte hppte
  rw [markAccessed_eq]
  by_cases heq : ppte = q
  · subst heq
    obtain ⟨n, hn⟩ : ∃ n < 2 ^ 64, shape'.ptesize = n + 1 := by
      rcases vmShape_ptesize hppte.1 with hsize | hsize
      · exact ⟨3, by decide, hsize⟩
      · exact ⟨7, by decide, hsize⟩
    rw [hn.2, readLE_update_or _ _ hn.1]
    refine AgreeOn.or ?_
    cases type <;> decide
  · rw [readLE_update_of_le _ (tableEntry_disjoint hppte hentry heq)]

/-- The leaf entry of a translation, if it had one, is marked without harm. -/
theorem sameTables_markLeaf {h : Hart} {dram : Reg → BitVec 8} {addr : Reg} {type : AccessType}
    {paddr : Reg} {leaf : Option Reg}
    (htr : translation P h dram addr type = some (paddr, leaf)) :
    SameTables P h dram (markLeaf dram type leaf) := by
  cases leaf with
  | none => exact SameTables.refl _ _
  | some ppte =>
      obtain ⟨shape, hentry⟩ := tableEntry_of_translation htr
      exact sameTables_markAccessed hentry type

theorem keepsMarks_markAccessed (h : Hart) (dram : Reg → BitVec 8) (q : Reg)
    (type : AccessType) : KeepsMarks P h dram (markAccessed dram q type) := by
  intro shape ppte _
  rw [markAccessed_eq]
  by_cases heq : ppte = q
  · subst heq
    rw [Function.update_self]
    exact (SubMask.and_left ..).trans (.or_left ..)
  · rw [Function.update_of_ne heq]
    exact .and_left ..

theorem KeepsMarks.refl (h : Hart) (dram : Reg → BitVec 8) : KeepsMarks P h dram dram :=
  fun _ _ _ => .and_left ..

theorem KeepsMarks.trans {h : Hart} {dram₁ dram₂ dram₃ : Reg → BitVec 8}
    (htables : SameTables P h dram₁ dram₂) (hfirst : KeepsMarks P h dram₁ dram₂)
    (hrest : KeepsMarks P h dram₂ dram₃) : KeepsMarks P h dram₁ dram₃ := by
  intro shape ppte hentry
  refine SubMask.trans ?_ (hrest shape ppte (htables.tableEntry hentry))
  exact .and (hfirst shape ppte hentry) (.and_right ..)

theorem keepsMarks_markLeaf (h : Hart) (dram : Reg → BitVec 8) (type : AccessType)
    (leaf : Option Reg) : KeepsMarks P h dram (markLeaf dram type leaf) := by
  cases leaf with
  | none => exact KeepsMarks.refl _ _
  | some ppte => exact keepsMarks_markAccessed _ _ _ _

/-- A marked entry stays marked. -/
theorem KeepsMarks.markLeaf {h : Hart} {dram dram' : Reg → BitVec 8} {addr : Reg}
    {type : AccessType} {paddr : Reg} {leaf : Option Reg} (hkeeps : KeepsMarks P h dram dram')
    (htr : translation P h dram addr type = some (paddr, leaf))
    (hmarked : Riscv.markLeaf dram type leaf = dram) :
    Riscv.markLeaf dram' type leaf = dram' := by
  cases leaf with
  | none => rfl
  | some ppte =>
      obtain ⟨shape, hentry⟩ := tableEntry_of_translation htr
      have hbits := markAccessed_eq_self_iff.mp hmarked
      refine markAccessed_eq_self_iff.mpr ?_
      exact (SubMask.and hbits (accessByte_subMask type)).trans (hkeeps shape ppte hentry)

end SpikeSim.Riscv
