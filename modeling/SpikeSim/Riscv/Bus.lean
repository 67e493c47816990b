/-
# The dispatch of the bus

`bus_t` keeps its devices in a map keyed by the negated base, so that `lower_bound` of
the negated address finds the nearest base below the address.  Negation reverses the
order of the addresses other than zero.  Zero is its own negation: a device with base
zero has the least key instead of the greatest, and the address zero asks for the least
key instead of nothing.  The main result says exactly which calls go wrong.
-/

import SpikeSim.Riscv.Soc

namespace SpikeSim.Riscv

/-- `abstract_device_t`: what a load and a store of a device do to a state. -/
structure AbstractDevice (σ : Type) where
  load : Reg → Nat → σ → Option Reg × σ
  store : Reg → Nat → Reg → σ → Bool × σ

namespace Bus

variable {δ σ : Type} {calls devices : List (Reg × δ)} {addr key : Reg}

/-! ## Devices of any kind -/

/-- `bus_t::load`. -/
def load (devices : List (Reg × AbstractDevice σ)) (addr : Reg) (len : Nat) (s : σ) :
    Option Reg × σ :=
  match Soc.lowerBound (-addr) devices with
  | none => (none, s)
  | some it => it.2.load (addr - -it.1) len s

/-- `bus_t::store`. -/
def store (devices : List (Reg × AbstractDevice σ)) (addr : Reg) (len : Nat) (data : Reg)
    (s : σ) : Bool × σ :=
  match Soc.lowerBound (-addr) devices with
  | none => (false, s)
  | some it => it.2.store (addr - -it.1) len data s

/-- The devices after a sequence of calls of `add_device`. -/
def added (calls : List (Reg × δ)) : List (Reg × δ) :=
  calls.foldl (fun devices c => Soc.addDevice devices c.1 c.2) []

theorem mem_addDevice {dev : δ} {d : Reg × δ} :
    d ∈ Soc.addDevice devices addr dev ↔ d = (-addr, dev) ∨ d ∈ devices ∧ d.1 ≠ -addr := by
  simp [Soc.addDevice]

/-- With distinct bases no call replaces the device of another one. -/
theorem mem_added (hbases : (calls.map Prod.fst).Nodup) {d : Reg × δ} :
    d ∈ added calls ↔ (-d.1, d.2) ∈ calls := by
  induction calls using List.reverseRecOn generalizing d with
  | nil => simp [added]
  | append_singleton calls c ih =>
      have hsplit : added (calls ++ [c]) = Soc.addDevice (added calls) c.1 c.2 := by
        simp [added]
      rw [List.map_append, List.nodup_append] at hbases
      obtain ⟨hbases, -, hnew⟩ := hbases
      have hkey : d = (-c.1, c.2) ↔ (-d.1, d.2) = c := by
        constructor
        · rintro rfl
          simp
        · rintro rfl
          simp
      rw [hsplit, mem_addDevice, ih hbases, hkey, List.mem_append, List.mem_singleton, or_comm]
      refine or_congr_left ⟨And.left, fun h => ⟨h, fun heq => ?_⟩⟩
      exact hnew _ (List.mem_map_of_mem h) _ (List.mem_singleton_self _) (by simp [heq])

/-- The entry with the least key that is at least the given one, if there is one. -/
def LeastFrom (key : Reg) (devices : List (Reg × δ)) : Option (Reg × δ) → Prop
  | none => ∀ d ∈ devices, d.1 < key
  | some it => it ∈ devices ∧ key ≤ it.1 ∧ ∀ d ∈ devices, key ≤ d.1 → it.1 ≤ d.1

theorem lowerBound_append (d : Reg × δ) :
    Soc.lowerBound key (devices ++ [d]) =
      if key ≤ d.1 ∧ (Soc.lowerBound key devices).all fun b => d.1 < b.1 then some d
      else Soc.lowerBound key devices := by
  rw [Soc.lowerBound, List.foldl_append]
  rfl

theorem leastFrom_lowerBound (key : Reg) (devices : List (Reg × δ)) :
    LeastFrom key devices (Soc.lowerBound key devices) := by
  induction devices using List.reverseRecOn with
  | nil => simp [Soc.lowerBound, LeastFrom]
  | append_singleton devices d ih =>
      rw [lowerBound_append]
      cases hbest : Soc.lowerBound key devices with
      | none =>
          rw [hbest] at ih
          by_cases hkey : key ≤ d.1
          · have hbelow (e : Reg × δ) (he : e ∈ devices) (hle : key ≤ e.1) : d.1 ≤ e.1 :=
              absurd hle (BitVec.not_le.mpr (ih e he))
            simpa [LeastFrom, hkey, or_imp, forall_and] using hbelow
          · have hbelow : d.1 < key := BitVec.not_le.mp hkey
            simpa [LeastFrom, hkey, or_imp, forall_and, hbelow] using ih
      | some b =>
          rw [hbest] at ih
          obtain ⟨hmem, hle, hleast⟩ := ih
          by_cases hkey : key ≤ d.1 ∧ d.1 < b.1
          · have hbelow (e : Reg × δ) (he : e ∈ devices) (hkey' : key ≤ e.1) : d.1 ≤ e.1 :=
              BitVec.le_trans (BitVec.le_of_lt hkey.2) (hleast e he hkey')
            simpa [LeastFrom, hkey, or_imp, forall_and] using hbelow
          · have habove (hkey' : key ≤ d.1) : b.1 ≤ d.1 :=
              BitVec.not_lt.mp fun hlt => hkey ⟨hkey', hlt⟩
            rw [if_neg (by simpa using hkey)]
            refine ⟨List.mem_append_left _ hmem, hle, fun e he hkey' => ?_⟩
            rcases List.mem_append.mp he with he | he
            · exact hleast e he hkey'
            · obtain rfl := List.mem_singleton.mp he
              exact habove hkey'

/-! ## Which device a call reaches -/

/-- The device that a load or a store of the bus calls, and the offset that it passes. -/
def dispatch (devices : List (Reg × δ)) (addr : Reg) : Option (δ × Reg) :=
  (Soc.lowerBound (-addr) devices).map fun it => (it.2, addr - -it.1)

/-- Loads and stores at the address, whatever the devices do, call this device with this
offset, or call none and report a failure. -/
def Reaches (devices : List (Reg × δ)) (addr : Reg) (target : Option (δ × Reg)) : Prop :=
  ∀ (σ : Type) (device : δ → AbstractDevice σ) (len : Nat) (data : Reg) (s : σ),
    load (devices.map (Prod.map id device)) addr len s =
        (match target with
        | none => (none, s)
        | some t => (device t.1).load t.2 len s) ∧
      store (devices.map (Prod.map id device)) addr len data s =
        (match target with
        | none => (false, s)
        | some t => (device t.1).store t.2 len data s)

/-- The device with the greatest base at or below the address, and the distance from it. -/
def Nearest (calls : List (Reg × δ)) (addr : Reg) : Option (δ × Reg) → Prop
  | none => ∀ c ∈ calls, addr < c.1
  | some t => ∃ base, (base, t.1) ∈ calls ∧ base ≤ addr ∧ t.2 = addr - base ∧
      ∀ c ∈ calls, c.1 ≤ addr → c.1 ≤ base

theorem lowerBound_map (device : δ → AbstractDevice σ) :
    Soc.lowerBound key (devices.map (Prod.map id device)) =
      (Soc.lowerBound key devices).map (Prod.map id device) := by
  induction devices using List.reverseRecOn with
  | nil => rfl
  | append_singleton devices d ih =>
      rw [List.map_append, List.map_singleton, lowerBound_append, lowerBound_append, ih]
      cases Soc.lowerBound key devices with
      | none => by_cases h : key ≤ d.1 <;> simp [h]
      | some b => by_cases h : key ≤ d.1 ∧ d.1 < b.1 <;> simp [h]

theorem reaches_dispatch (devices : List (Reg × δ)) (addr : Reg) :
    Reaches devices addr (dispatch devices addr) := by
  intro σ device len data s
  rw [load, store, lowerBound_map, dispatch]
  cases Soc.lowerBound (-addr) devices with
  | none => exact ⟨rfl, rfl⟩
  | some it => exact ⟨rfl, rfl⟩

/-- A device that notes how it was called. -/
def recorder (dev : δ) : AbstractDevice (List (δ × Reg)) where
  load addr _ calls := (none, (dev, addr) :: calls)
  store addr _ _ calls := (true, (dev, addr) :: calls)

theorem Reaches.unique {target : Option (δ × Reg)} (h : Reaches devices addr target) :
    target = dispatch devices addr := by
  have hload := (h _ recorder 0 0 []).1
  rw [((reaches_dispatch devices addr) _ recorder 0 0 []).1] at hload
  cases hd : dispatch devices addr with
  | none =>
      cases target with
      | none => rfl
      | some t => simp [hd, recorder] at hload
  | some d =>
      cases target with
      | none => simp [hd, recorder] at hload
      | some t => simpa [hd, recorder, eq_comm] using hload

/-- Negation reverses the order of the addresses other than zero. -/
theorem neg_le_neg {a b : Reg} (ha : a ≠ 0) (hb : b ≠ 0) : -a ≤ -b ↔ b ≤ a := by
  bv_omega

/-- At the address zero the search finds the least key of all. -/
theorem nearest_zero_iff (hbases : (calls.map Prod.fst).Nodup) :
    Nearest calls 0 (dispatch (added calls) 0) ↔ calls = [] ∨ ∃ c ∈ calls, c.1 = 0 := by
  have hleast := leastFrom_lowerBound (-0) (added calls)
  rw [dispatch]
  cases hfound : Soc.lowerBound (-0) (added calls) with
  | none =>
      rw [hfound] at hleast
      have hnil : calls = [] := by
        rw [List.eq_nil_iff_forall_not_mem]
        intro c hc
        have hlt := hleast (-c.1, c.2) ((mem_added hbases).mpr (by simpa using hc))
        bv_omega
      simp [Nearest, hnil]
  | some it =>
      rw [hfound] at hleast
      obtain ⟨hmem, -, hleast⟩ := hleast
      rw [mem_added hbases] at hmem
      constructor
      · rintro ⟨base, hbase, hle, -⟩
        exact .inr ⟨_, hbase, BitVec.le_zero_iff.mp hle⟩
      · rintro (rfl | ⟨c, hc, hzero⟩)
        · cases hmem
        · have hkey : ((0 : Reg), c.2) ∈ added calls := by
            rw [mem_added hbases, show (-0 : Reg) = c.1 from hzero.symm]
            exact hc
          have hle := hleast _ hkey (by simp)
          have hit : it.1 = 0 := BitVec.le_zero_iff.mp hle
          refine ⟨0, by simpa [hit] using hmem, by simp, by simp [hit], fun c hc hle => hle⟩

/-- At another address the search never finds a device at zero. -/
theorem nearest_iff (hbases : (calls.map Prod.fst).Nodup) (haddr : addr ≠ 0) :
    Nearest calls addr (dispatch (added calls) addr) ↔
      (∀ c ∈ calls, c.1 ≠ 0) ∨ ∃ c ∈ calls, c.1 ≠ 0 ∧ c.1 ≤ addr := by
  have hleast := leastFrom_lowerBound (-addr) (added calls)
  have hmem (c : Reg × δ) (hc : c ∈ calls) : (-c.1, c.2) ∈ added calls :=
    (mem_added hbases).mpr (by simpa using hc)
  rw [dispatch]
  cases hfound : Soc.lowerBound (-addr) (added calls) with
  | none =>
      rw [hfound] at hleast
      have habove (c : Reg × δ) (hc : c ∈ calls) (hne : c.1 ≠ 0) : addr < c.1 := by
        have hlt := hleast _ (hmem c hc)
        rw [← BitVec.not_le, neg_le_neg haddr hne] at hlt
        exact BitVec.not_le.mp hlt
      constructor
      · intro hnone
        refine .inl fun c hc hzero => ?_
        have hlt := hnone c hc
        rw [hzero] at hlt
        exact BitVec.not_lt_zero hlt
      · rintro (hnonzero | ⟨c, hc, hne, hle⟩) c' hc'
        · exact habove c' hc' (hnonzero c' hc')
        · exact absurd hle (BitVec.not_le.mpr (habove c hc hne))
  | some it =>
      rw [hfound] at hleast
      obtain ⟨hit, hle, hleast⟩ := hleast
      rw [mem_added hbases] at hit
      have hbase : -it.1 ≠ 0 := by bv_omega
      have hbelow : -it.1 ≤ addr := by bv_omega
      refine iff_of_true ⟨-it.1, hit, hbelow, rfl, fun c hc hle => ?_⟩
        (.inr ⟨_, hit, hbase, hbelow⟩)
      by_cases hzero : c.1 = 0
      · rw [hzero]
        exact BitVec.not_lt.mp BitVec.not_lt_zero
      · have hkey := hleast _ (hmem c hc) ((neg_le_neg haddr hzero).mpr hle)
        bv_omega

/-- **What the bus gets wrong.** After calls of `add_device` with distinct bases, a load and a
store reach the nearest device below the address, or none if there is none, except in two
cases: the address zero with no device at zero but some device elsewhere, and another address
with no device below it but the one at zero. -/
theorem reaches_nearest_iff (hbases : (calls.map Prod.fst).Nodup) (addr : Reg) :
    (∃ target, Nearest calls addr target ∧ Reaches (added calls) addr target) ↔
      if addr = 0 then calls = [] ∨ ∃ c ∈ calls, c.1 = 0
      else (∀ c ∈ calls, c.1 ≠ 0) ∨ ∃ c ∈ calls, c.1 ≠ 0 ∧ c.1 ≤ addr := by
  have hiff : (∃ target, Nearest calls addr target ∧ Reaches (added calls) addr target) ↔
      Nearest calls addr (dispatch (added calls) addr) := by
    constructor
    · rintro ⟨target, hnearest, hreaches⟩
      rwa [← hreaches.unique]
    · intro hnearest
      exact ⟨_, hnearest, reaches_dispatch _ _⟩
  rw [hiff]
  by_cases hzero : addr = 0
  · subst hzero
    rw [if_pos rfl]
    exact nearest_zero_iff hbases
  · rw [if_neg hzero]
    exact nearest_iff hbases hzero

/-- The bus with a device at `0x100` and one at `0x1000`. -/
theorem reaches_nearest_second :
    ∃ target, Nearest [(0x100, true), (0x1000, false)] 0x1008 target ∧
      Reaches (added [(0x100, true), (0x1000, false)]) 0x1008 target :=
  (reaches_nearest_iff (by decide) 0x1008).mpr (by
    rw [if_neg (by decide)]
    exact .inl (by simp))

/-- The address zero reaches the last device, although it lies above. -/
theorem zero_reaches_last :
    ¬ ∃ target, Nearest [(0x100, true), (0x1000, false)] 0 target ∧
      Reaches (added [(0x100, true), (0x1000, false)]) 0 target := by
  rintro ⟨target, hnearest, hreaches⟩
  have htarget : dispatch (added [(0x100, true), (0x1000, false)]) 0 =
      some (false, 0 - 0x1000) := by
    decide
  rw [hreaches.unique, htarget] at hnearest
  obtain ⟨base, hbase, hle, -⟩ := hnearest
  rw [BitVec.le_zero_iff.mp hle] at hbase
  revert hbase
  decide

/-! ## The bus of the simulator -/

/-- The devices of the simulator.  The hart that runs keeps its `mip` itself. -/
def socDevice {N : Nat} (B : Board) (running : Fin N) :
    Soc.Device N → AbstractDevice (Soc N × Reg)
  | .debugModule =>
      { load := fun addr len s => (Soc.debugLoad B addr len s.1.debugModule, s)
        store := fun addr len data s =>
          let (ok, d) := Soc.debugStore addr len data s.1.debugModule
          (ok, { s.1 with debugModule := d }, s.2) }
  | .rtc =>
      { load := fun addr len s => (Soc.rtcLoad addr len s.1, s)
        store := fun addr len data s => Soc.rtcStore running addr len data s.1 s.2 }
  | .hart target =>
      { load := fun _ _ s => (none, s)
        store := fun addr _ data s => Soc.hartStore running target addr data s.1 s.2 }
  | .bootRom =>
      { load := fun addr len s => (Soc.romLoad B.bootRom addr len, s)
        store := fun _ _ _ s => (false, s) }

/-- The calls of `add_device` of the constructor of `sim_t` and of `make_config_string`. -/
def simCalls (N : Nat) : List (Reg × Soc.Device N) :=
  [(Soc.debugStart, .debugModule), (Soc.extIoBase, .rtc)] ++
    (List.finRange N).map (fun i => (Soc.hartAddr i, .hart i)) ++ [(defaultRstvec, .bootRom)]

theorem devices_eq (N : Nat) : Soc.devices N = added (simCalls N) := by
  simp [Soc.devices, added, simCalls, List.foldl_append, List.foldl_map]

/-- The bus of the simulator is `bus_t` with the devices of the simulator. -/
theorem bus_of_simulator {N : Nat} (B : Board) (running : Fin N) (addr : Reg) (len : Nat)
    (data : Reg) (s : Soc N) (mip : Reg) :
    load ((added (simCalls N)).map (Prod.map id (socDevice B running))) addr len (s, mip) =
        (Soc.busLoad B addr len s, s, mip) ∧
      store ((added (simCalls N)).map (Prod.map id (socDevice B running))) addr len data (s, mip) =
        Soc.busStore running addr len data s mip := by
  rw [load, store, lowerBound_map, ← devices_eq, Soc.busLoad, Soc.busStore]
  cases Soc.lowerBound (-addr) (Soc.devices N) with
  | none => exact ⟨rfl, rfl⟩
  | some it =>
      obtain ⟨key, dev⟩ := it
      cases dev <;> exact ⟨rfl, rfl⟩

theorem hartAddr_toNat {N : Nat} (hN : N < 2 ^ 32) (i : Fin N) :
    (Soc.hartAddr i).toNat =
      0x40000000 + ((8 * (N + 1) - 1) / 0x1000 + 1) * 0x1000 + 0x1000 * i.val := by
  have hi := i.isLt
  have hbase : Soc.extIoBase.toNat = 0x40000000 := rfl
  simp only [Soc.hartAddr, BitVec.toNat_add, BitVec.toNat_ofNat, hbase]
  omega

/-- The bases of the simulator's devices are distinct. -/
theorem nodup_simCalls {N : Nat} (hN : N < 2 ^ 32) : ((simCalls N).map Prod.fst).Nodup := by
  have hharts : ((List.finRange N).map (Soc.hartAddr (N := N))).Nodup := by
    apply List.Nodup.map _ (List.nodup_finRange N)
    intro i j heq
    have htoNat := congrArg BitVec.toNat heq
    rw [hartAddr_toNat hN, hartAddr_toNat hN] at htoNat
    exact Fin.ext (by omega)
  have habove (i : Fin N) (a : Reg) (ha : a.toNat ≤ 0x40000000) : a ≠ Soc.hartAddr i := by
    rintro rfl
    rw [hartAddr_toNat hN] at ha
    omega
  have hstart (i : Fin N) := habove i Soc.debugStart (by decide)
  have hrtc (i : Fin N) := habove i Soc.extIoBase (by decide)
  have hrom (i : Fin N) := habove i defaultRstvec (by decide)
  have hmap : (simCalls N).map Prod.fst = Soc.debugStart :: Soc.extIoBase ::
      ((List.finRange N).map (Soc.hartAddr (N := N)) ++ [defaultRstvec]) := by
    simp [simCalls, Function.comp_def]
  rw [hmap, List.nodup_cons, List.nodup_cons, List.nodup_append]
  refine ⟨?_, ?_, hharts, List.nodup_singleton _, ?_⟩
  · simpa using ⟨by decide, fun i => (hstart i).symm, by decide⟩
  · simpa using ⟨fun i => (hrtc i).symm, by decide⟩
  · simpa using fun i => (hrom i).symm

/-- No device of the simulator lies at zero, so that every other address reaches the nearest
device below it. -/
theorem simulator_reaches_nearest {N : Nat} (hN : N < 2 ^ 32) (haddr : addr ≠ 0) :
    ∃ target, Nearest (simCalls N) addr target ∧ Reaches (Soc.devices N) addr target := by
  have hnonzero (c : Reg × Soc.Device N) (hc : c ∈ simCalls N) : c.1 ≠ 0 := by
    simp only [simCalls, List.mem_append, List.mem_cons, List.mem_map, List.not_mem_nil,
      or_false] at hc
    rcases hc with ((rfl | rfl) | ⟨i, -, rfl⟩) | rfl
    · simp [Soc.debugStart]
    · simp [Soc.extIoBase]
    · intro hzero
      have htoNat := hartAddr_toNat hN i
      rw [show Soc.hartAddr i = 0 from hzero, show (0 : Reg).toNat = 0 from rfl] at htoNat
      omega
    · simp [defaultRstvec]
  rw [devices_eq]
  exact ⟨_, (nearest_iff (nodup_simCalls hN) haddr).mpr (.inl hnonzero), reaches_dispatch _ _⟩

end Bus

end SpikeSim.Riscv
