/-
# The configuration of a cache

`construct` reads three numbers from a string with `atoi`, chooses one of the two
classes and runs `init`, which tests two of them and allocates the tags.  A cache that
comes out is used safely exactly if the number that is not tested, `ways`, is not zero:
then no access divides by zero, leaves the array of tags or follows a null pointer.

`atoi` is the one of the GNU C library.  Whether there is memory for the tags is left
open; a size above the address space is always refused.
-/

import SpikeSim.Cache.Residency

namespace SpikeSim.Cache

open TagStore

/-! ## Numbers -/

/-- A `size_t` that was converted from an `int`. -/
structure Size where
  val : BitVec 64
  isInt : val.toNat < 2 ^ 31 ∨ 2 ^ 64 - 2 ^ 31 ≤ val.toNat

/-- The conversion of an `int`. -/
def Size.ofInt (n : BitVec 32) : Size where
  val := n.signExtend 64
  isInt := by
    have hn := n.isLt
    rw [BitVec.toNat_signExtend]
    split
    next hmsb =>
      rw [BitVec.msb_eq_decide, decide_eq_true_eq] at hmsb
      simp only [BitVec.toNat_setWidth]
      omega
    next hmsb =>
      rw [BitVec.msb_eq_decide, decide_eq_true_eq] at hmsb
      simp only [BitVec.toNat_setWidth]
      omega

def isSpace (c : Char) : Bool := c.toNat = 32 ∨ 9 ≤ c.toNat ∧ c.toNat ≤ 13

/-- The number that the leading digits form. -/
def leadingNumber (str : List Char) : Nat :=
  (str.takeWhile Char.isDigit).foldl (fun n c => 10 * n + (c.toNat - 48)) 0

/-- `strtol` in base ten.  A number out of range becomes the nearest `long`. -/
def strtol (str : List Char) : Int :=
  match str.dropWhile isSpace with
  | '-' :: rest => max (-(leadingNumber rest : Int)) (-2 ^ 63)
  | '+' :: rest => min (leadingNumber rest) (2 ^ 63 - 1)
  | rest => min (leadingNumber rest) (2 ^ 63 - 1)

/-- `atoi`, converted to `size_t`. -/
def atoi (str : List Char) : Size := .ofInt (BitVec.ofInt 32 (strtol str))

/-! ## The three fields -/

/-- `strchr`: what begins with the first such character. -/
def strchr (str : List Char) (c : Char) : Option (List Char) :=
  match str.dropWhile (· ≠ c) with
  | [] => none
  | rest => some rest

structure Fields where
  sets : Size
  ways : Size
  linesz : Size

/-- What `construct` reads, `none` if it calls `help`. -/
def fields (config : List Char) : Option Fields := do
  let wp ← (strchr config ':').map List.tail
  let bp ← (strchr wp ':').map List.tail
  some {
    sets := atoi (config.take (config.length - wp.length))
    ways := atoi (wp.take (wp.length - bp.length))
    linesz := atoi bp }

/-! ## The constructors -/

/-- Why there is no cache: `help` ends the program and `new` throws. -/
inductive Refusal
  | help
  | badAlloc
  deriving DecidableEq, Repr

/-- The first test of `init`. -/
def badSets (sets : Size) : Bool := sets.val = 0 ∨ sets.val &&& (sets.val - 1) ≠ 0

/-- The second test of `init`. -/
def badLinesz (linesz : Size) : Bool :=
  linesz.val < 8 ∨ linesz.val &&& (linesz.val - 1) ≠ 0

/-- `new uint64_t[sets*ways]` throws. -/
def badTags (allocates : Nat → Bool) (sets ways : Size) : Bool :=
  2 ^ 64 ≤ (sets.val * ways.val).toNat * 8 ∨ allocates (sets.val * ways.val).toNat = false

/-- A power of two that was an `int` was not negative. -/
theorem Size.powerOfTwo (n : Size) (hzero : n.val ≠ 0) (hpower : n.val &&& (n.val - 1) = 0) :
    n.val.toNat ≤ 2 ^ 30 ∧ n.val.toNat &&& (n.val.toNat - 1) = 0 := by
  have hpos : n.val.toNat ≠ 0 := fun h => hzero (BitVec.eq_of_toNat_eq h)
  have hpred : (n.val - 1).toNat = n.val.toNat - 1 := by bv_omega
  have hand : n.val.toNat &&& (n.val.toNat - 1) = 0 := by
    rw [← hpred, ← BitVec.toNat_and, hpower]
    rfl
  refine ⟨?_, hand⟩
  obtain ⟨k, hk⟩ := (Nat.and_sub_one_eq_zero_iff_isPowerOfTwo hpos).mp hand
  have hlt := n.val.isLt
  rw [hk] at hlt ⊢
  have hk64 : k < 64 := (Nat.pow_lt_pow_iff_right (by decide)).mp hlt
  have hle : 2 ^ k ≤ 2 ^ 63 := Nat.pow_le_pow_right (by decide) (by omega)
  rcases n.isInt with hsmall | hlarge
  · rw [hk] at hsmall
    have hk31 : k < 31 := (Nat.pow_lt_pow_iff_right (by decide)).mp hsmall
    exact Nat.pow_le_pow_right (by decide) (by omega)
  · omega

theorem Size.powerOfTwo_of_badSets {n : Size} (h : badSets n = false) :
    n.val.toNat ≠ 0 ∧ n.val.toNat ≤ 2 ^ 30 ∧ n.val.toNat &&& (n.val.toNat - 1) = 0 := by
  simp only [badSets, decide_eq_false_iff_not, not_or, not_not] at h
  exact ⟨fun hzero => h.1 (BitVec.eq_of_toNat_eq hzero), n.powerOfTwo h.1 h.2⟩

theorem Size.powerOfTwo_of_badLinesz {n : Size} (h : badLinesz n = false) :
    8 ≤ n.val.toNat ∧ n.val.toNat &&& (n.val.toNat - 1) = 0 := by
  simp only [badLinesz, decide_eq_false_iff_not, not_or, not_not] at h
  have hge : 8 ≤ n.val.toNat := by bv_omega
  refine ⟨hge, (n.powerOfTwo ?_ h.2).2⟩
  rintro hzero
  rw [hzero] at hge
  cases hge

/-- The product of the two sizes does not wrap around to a small one. -/
theorem Size.tags_lt {allocates : Nat → Bool} {sets ways : Size} (hsets : badSets sets = false)
    (htags : badTags allocates sets ways = false) :
    ways.val.toNat < 2 ^ 31 ∧ sets.val.toNat * ways.val.toNat * 8 < 2 ^ 64 := by
  obtain ⟨hpos, hle, -⟩ := powerOfTwo_of_badSets hsets
  simp only [badTags, decide_eq_false_iff_not, not_or, not_le, BitVec.toNat_mul] at htags
  rcases ways.isInt with hsmall | hlarge
  · refine ⟨hsmall, ?_⟩
    have hprod : sets.val.toNat * ways.val.toNat < 2 ^ 30 * 2 ^ 31 :=
      Nat.mul_lt_mul_of_le_of_lt hle hsmall (by decide)
    omega
  · -- A negative number of ways makes the size larger than the address space.
    exfalso
    obtain ⟨k, hk⟩ : ∃ k, ways.val.toNat + k = 2 ^ 64 := ⟨_, Nat.add_sub_of_le ways.val.isLt.le⟩
    have hk' : k ≤ 2 ^ 31 := by omega
    have hprod : sets.val.toNat * k ≤ 2 ^ 30 * 2 ^ 31 := Nat.mul_le_mul hle hk'
    have hsum : sets.val.toNat * ways.val.toNat + sets.val.toNat * k = sets.val.toNat * 2 ^ 64 := by
      rw [← Nat.mul_add, hk]
    have hk0 : 0 < sets.val.toNat * k := Nat.mul_pos (by omega) (by
      have := ways.val.isLt
      omega)
    omega

/-- `init`: the tests, then the allocation of the tags. -/
def init (allocates : Nat → Bool) (sets ways linesz : Size) : Except Refusal Geometry :=
  if hsets : badSets sets = true then .error .help
  else if hlinesz : badLinesz linesz = true then .error .help
  else if htags : badTags allocates sets ways = true then .error .badAlloc
  else
    have hsets := Size.powerOfTwo_of_badSets (Bool.eq_false_of_not_eq_true hsets)
    have hlinesz := Size.powerOfTwo_of_badLinesz (Bool.eq_false_of_not_eq_true hlinesz)
    .ok {
      sets := sets.val.toNat
      ways := ways.val.toNat
      linesz := linesz.val.toNat
      sets_accepted := ⟨hsets.1, hsets.2.2⟩
      linesz_accepted := hlinesz
      linesz_lt := linesz.val.isLt
      tags_lt := (Size.tags_lt (Bool.eq_false_of_not_eq_true ‹_›)
        (Bool.eq_false_of_not_eq_true htags)).2 }

/-- `construct`, up to the name of the cache.  `fa_cache_sim_t` passes one set on. -/
def construct (allocates : Nat → Bool) (config : List Char) : Except Refusal (Kind × Geometry) :=
  match fields config with
  | none => .error .help
  | some f =>
    if 4 < f.ways.val ∧ f.sets.val = 1 then
      (init allocates (.ofInt 1) f.ways f.linesz).map (.fullyAssociative, ·)
    else (init allocates f.sets f.ways f.linesz).map (.setAssociative, ·)

section Construct

variable {allocates : Nat → Bool} {config : List Char} {kind : Kind} {g : Geometry}

theorem init_eq_ok {sets ways linesz : Size} (h : init allocates sets ways linesz = .ok g) :
    g.sets = sets.val.toNat ∧ g.ways = ways.val.toNat ∧ g.linesz = linesz.val.toNat ∧
      g.ways < 2 ^ 31 := by
  rw [init] at h
  split at h
  next => cases h
  next hsets =>
    split at h
    next => cases h
    next =>
      split at h
      next => cases h
      next htags =>
        cases h
        exact ⟨rfl, rfl, rfl, (Size.tags_lt (Bool.eq_false_of_not_eq_true hsets)
          (Bool.eq_false_of_not_eq_true htags)).1⟩

/-- The geometry of a cache comes from the three fields, and its class is the one that
`Kind.construct` names. -/
theorem construct_eq_ok (h : construct allocates config = .ok (kind, g)) :
    kind = .construct g ∧ ∃ f, fields config = some f ∧ g.sets = f.sets.val.toNat ∧
      g.ways = f.ways.val.toNat ∧ g.linesz = f.linesz.val.toNat := by
  rw [construct] at h
  cases hf : fields config with
  | none =>
      rw [hf] at h
      cases h
  | some f =>
      rw [hf] at h
      by_cases hfa : 4 < f.ways.val ∧ f.sets.val = 1
      · simp only [if_pos hfa] at h
        cases hinit : init allocates (.ofInt 1) f.ways f.linesz with
        | error refusal =>
            rw [hinit] at h
            cases h
        | ok g' =>
            rw [hinit] at h
            cases h
            obtain ⟨hsets, hways, hlinesz, -⟩ := init_eq_ok hinit
            have hone : g.sets = 1 := hsets
            have hmany : 4 < g.ways := by
              rw [hways]
              exact hfa.1
            refine ⟨(if_pos ⟨hmany, hone⟩).symm, f, rfl, ?_, hways, hlinesz⟩
            rw [hone, hfa.2]
            rfl
      · simp only [if_neg hfa] at h
        cases hinit : init allocates f.sets f.ways f.linesz with
        | error refusal =>
            rw [hinit] at h
            cases h
        | ok g' =>
            rw [hinit] at h
            cases h
            obtain ⟨hsets, hways, hlinesz, -⟩ := init_eq_ok hinit
            refine ⟨(if_neg ?_).symm, f, rfl, hsets, hways, hlinesz⟩
            rintro ⟨hmany, hone⟩
            rw [hways] at hmany
            rw [hsets] at hone
            exact hfa ⟨hmany, BitVec.eq_of_toNat_eq hone⟩

end Construct

/-! ## The elements of the array that are used -/

namespace TagArray

/-- The indices at which `check_tag` reads. -/
def scanned (g : Geometry) (addr : BitVec 64) (store : TagArray) : List Nat :=
  let tag := g.line addr ||| VALID
  ((List.range g.ways).take ((List.range g.ways).findIdx (fun i =>
    tag == (store.tags (g.idx addr * g.ways + i) &&& ~~~DIRTY)) + 1)).map fun i =>
      g.idx addr * g.ways + i

/-- The index that `victimize` overwrites. -/
def replaced (g : Geometry) (addr : BitVec 64) (lfsr : BitVec 32) : Nat :=
  g.idx addr * g.ways + (lfsrNext lfsr).toNat % g.ways

/-- The indices that `access` uses. -/
def touched (g : Geometry) (r : Request) (s : Sim TagArray) : List Nat :=
  scanned g r.addr s.tags ++
    match checkTag g r.addr s.tags with
    | some way => if r.store then [way] else []
    | none =>
      replaced g r.addr s.lfsr ::
        match victimize g r.addr s.lfsr s.tags with
        | some (_, _, tags) =>
          if r.store then scanned g r.addr tags ++ (checkTag g r.addr tags).toList else []
        | none => []

variable {g : Geometry} {addr : BitVec 64} {store : TagArray}

/-- The ways of a set lie inside the array. -/
theorem index_lt {k w : Nat} (hw : w < g.ways) (hk : k = g.idx addr * g.ways + w) :
    k < g.sets * g.ways := by
  have hset : g.idx addr < g.sets := g.setOf_lt (Nat.zero_lt_of_lt hw) (g.line addr)
  calc
    k < g.idx addr * g.ways + g.ways := by omega
    _ = (g.idx addr + 1) * g.ways := (Nat.succ_mul _ _).symm
    _ ≤ g.sets * g.ways := Nat.mul_le_mul_right _ hset

theorem scanned_lt {k : Nat} (hk : k ∈ scanned g addr store) : k < g.sets * g.ways := by
  obtain ⟨w, hw, rfl⟩ := List.mem_map.mp hk
  exact index_lt (List.mem_range.mp (List.mem_of_mem_take hw)) rfl

theorem checkTag_lt {k : Nat} (hk : checkTag g addr store = some k) : k < g.sets * g.ways := by
  obtain ⟨w, hw, -, rfl⟩ := checkTag_eq_some hk
  exact index_lt hw rfl

theorem touched_lt (hways : 0 < g.ways) {r : Request} {s : Sim TagArray} {k : Nat}
    (hk : k ∈ touched g r s) : k < g.sets * g.ways := by
  rw [touched, List.mem_append] at hk
  rcases hk with hk | hk
  · exact scanned_lt hk
  cases hcheck : checkTag g r.addr s.tags with
  | some way =>
      rw [hcheck] at hk
      simp only [List.mem_ite_nil_right, List.mem_singleton] at hk
      rw [hk.2]
      exact checkTag_lt hcheck
  | none =>
      rw [hcheck] at hk
      rcases List.mem_cons.mp hk with rfl | hk
      · exact index_lt (Nat.mod_lt _ hways) rfl
      cases hvictim : victimize g r.addr s.lfsr s.tags with
      | none =>
          rw [hvictim] at hk
          cases hk
      | some out =>
          rw [hvictim] at hk
          simp only [List.mem_ite_nil_right, List.mem_append, Option.mem_toList] at hk
          rcases hk.2 with hk | hk
          · exact scanned_lt hk
          · exact checkTag_lt hk

end TagArray

/-- The indices of the array that `access` uses.  The map has none. -/
def touched : (kind : Kind) → Geometry → Request → Sim (Tags kind) → List Nat
  | .setAssociative => TagArray.touched
  | .fullyAssociative => fun _ _ _ => []

theorem touched_lt {kind : Kind} {g : Geometry} (hways : 0 < g.ways) {r : Request}
    {s : Sim (Tags kind)} {k : Nat} (hk : k ∈ touched kind g r s) : k < g.sets * g.ways := by
  cases kind with
  | setAssociative => exact TagArray.touched_lt hways hk
  | fullyAssociative => cases hk

/-- The accesses complete: no division by zero and no null pointer on the way, and no index
outside of the array. -/
def Completes (kind : Kind) (g : Geometry) (handlers : Handlers) (rs : List Request) : Prop :=
  (∃ t : Trace (Tags kind), run g handlers rs = some t) ∧
    ∀ x ∈ visits (τ := Tags kind) g handlers rs .init, ∀ k ∈ touched kind g x.1 x.2,
      k < g.sets * g.ways

theorem completes_of_ways {g : Geometry} (hways : 0 < g.ways) (kind : Kind) (handlers : Handlers)
    (rs : List Request) : Completes kind g handlers rs := by
  constructor
  · obtain ⟨t, hrun, -⟩ := run_returns (τ := Tags kind) hways handlers rs
    exact ⟨t, hrun⟩
  · intro x _ k hk
    exact touched_lt hways hk

/-- Without ways the first access of a set-associative cache divides by zero. -/
theorem access_of_no_ways {g : Geometry} (hways : g.ways = 0) (handlers : Handlers) (r : Request)
    (s : Sim TagArray) : access g handlers r s = none := by
  have hcheck (store : TagArray) : TagStore.checkTag g r.addr store = none := by
    change TagArray.checkTag g r.addr store = none
    rw [TagArray.checkTag, hways]
    rfl
  have hvictim (lfsr : BitVec 32) (store : TagArray) :
      TagStore.victimize g r.addr lfsr store = none := if_pos hways
  rw [access]
  simp only [hcheck, hvictim]
  rfl

theorem run_of_no_ways {g : Geometry} {kind : Kind} (hways : g.ways = 0)
    (hkind : kind = .construct g) (handlers : Handlers) (r : Request) (t : Trace (Tags kind)) :
    run g handlers [r] ≠ some t := by
  have harray : kind = .setAssociative := by
    rw [hkind, Kind.construct, if_neg]
    rintro ⟨hmany, -⟩
    omega
  subst harray
  intro hrun
  have hnone := access_of_no_ways hways handlers r (.init : Sim TagArray)
  change (Trace.access g handlers (.start : Trace TagArray) r).bind some = some t at hrun
  rw [Trace.access, show (Trace.start : Trace TagArray).sim = .init from rfl, hnone] at hrun
  cases hrun

/-- **Which accepted configurations are safe.**  A cache that `construct` returns completes
every sequence of accesses, with every attached back end, exactly if the second field of the
string is not zero. -/
theorem completes_iff (allocates : Nat → Bool) (config : List Char) {kind : Kind} {g : Geometry}
    (h : construct allocates config = .ok (kind, g)) :
    (∀ handlers rs, Completes kind g handlers rs) ↔
      ∀ f ∈ fields config, f.ways.val ≠ 0 := by
  obtain ⟨hkind, f, hf, -, hways, -⟩ := construct_eq_ok h
  rw [hf]
  simp only [Option.mem_some_iff, forall_eq']
  constructor
  · intro hall hzero
    have hways : g.ways = 0 := by
      rw [hways, hzero]
      rfl
    obtain ⟨⟨t, hrun⟩, -⟩ := hall ⟨false, false⟩ [⟨0, 1, false⟩]
    exact absurd hrun (run_of_no_ways hways hkind _ _ t)
  · intro hne handlers rs
    apply completes_of_ways
    rw [hways]
    exact Nat.pos_of_ne_zero fun hzero => hne (BitVec.eq_of_toNat_eq hzero)

/-- `64:4:64` is a safe cache. -/
theorem four_ways_complete :
    ∃ kind g, construct (fun _ => true) ['6', '4', ':', '4', ':', '6', '4'] = .ok (kind, g) ∧
      ∀ handlers rs, Completes kind g handlers rs := by
  have hok : (construct (fun _ => true) ['6', '4', ':', '4', ':', '6', '4']).isOk = true := by
    decide +kernel
  have hways : (fields ['6', '4', ':', '4', ':', '6', '4']).map (·.ways.val) = some 4 := by
    decide +kernel
  cases h : construct (fun _ => true) ['6', '4', ':', '4', ':', '6', '4'] with
  | error refusal =>
      rw [h] at hok
      cases hok
  | ok cache =>
      refine ⟨cache.1, cache.2, rfl, (completes_iff _ _ h).mpr fun f hf => ?_⟩
      rw [Option.mem_def.mp hf, Option.map_some, Option.some_inj] at hways
      rw [hways]
      decide

/-- `64:0:64` is accepted, and then the first load divides by zero. -/
theorem no_ways_accepted :
    ∃ kind g, construct (fun _ => true) ['6', '4', ':', '0', ':', '6', '4'] = .ok (kind, g) ∧
      ¬ Completes kind g ⟨false, false⟩ [⟨0x80000000, 8, false⟩] := by
  have hok : (construct (fun _ => true) ['6', '4', ':', '0', ':', '6', '4']).isOk = true := by
    decide +kernel
  have hways : (fields ['6', '4', ':', '0', ':', '6', '4']).map (·.ways.val) = some 0 := by
    decide +kernel
  cases h : construct (fun _ => true) ['6', '4', ':', '0', ':', '6', '4'] with
  | error refusal =>
      rw [h] at hok
      cases hok
  | ok cache =>
      obtain ⟨hkind, f, hf, -, hzero, -⟩ := construct_eq_ok h
      rw [hf, Option.map_some, Option.some_inj] at hways
      rw [hways] at hzero
      refine ⟨cache.1, cache.2, rfl, ?_⟩
      rintro ⟨⟨t, hrun⟩, -⟩
      exact absurd hrun (run_of_no_ways hzero hkind _ _ t)

end SpikeSim.Cache
