/-
# The configuration of the memory system

What the ini files set: the widths of the parts of an address, the delays of the devices in
clock cycles, and the policies of the controller.  The delays between two commands are the
macros of `SystemConfiguration.h`; their differences wrap for no delays with which the
controller can work.
-/

import Mathlib

namespace SpikeSim.Dram

inductive AddressMappingScheme
  | scheme1 | scheme2 | scheme3 | scheme4 | scheme5 | scheme6 | scheme7
  deriving DecidableEq

inductive RowBufferPolicy
  | openPage | closePage
  deriving DecidableEq

inductive QueuingStructure
  | perRank | perRankPerBank
  deriving DecidableEq

inductive SchedulingPolicy
  | rankThenBankRoundRobin | bankThenRankRoundRobin
  deriving DecidableEq

/-- The logarithms of the numbers of channels, ranks, banks, rows and columns, which are powers
of two below 2^32.  A column access transfers `2 ^ colLowBitWidth` columns of
`2 ^ byteOffsetWidth` bytes. -/
structure Geometry where
  numChansLog : ℕ
  numRanksLog : ℕ
  numBanksLog : ℕ
  numRowsLog : ℕ
  numColsLog : ℕ
  byteOffsetWidth : ℕ
  colLowBitWidth : ℕ
  chans_narrow : numChansLog ≤ 32 := by decide
  ranks_narrow : numRanksLog ≤ 32 := by decide
  banks_narrow : numBanksLog ≤ 32 := by decide
  rows_narrow : numRowsLog ≤ 32 := by decide
  cols_narrow : numColsLog ≤ 32 := by decide
  colLow_le : colLowBitWidth ≤ numColsLog := by decide
  total_le : byteOffsetWidth + numColsLog + numRowsLog + numBanksLog + numRanksLog +
    numChansLog ≤ 64 := by decide

namespace Geometry

variable (g : Geometry)

def numChans : ℕ := 2 ^ g.numChansLog

def numRanks : ℕ := 2 ^ g.numRanksLog

def numBanks : ℕ := 2 ^ g.numBanksLog

instance : NeZero g.numChans := ⟨(Nat.two_pow_pos _).ne'⟩

instance : NeZero g.numRanks := ⟨(Nat.two_pow_pos _).ne'⟩

instance : NeZero g.numBanks := ⟨(Nat.two_pow_pos _).ne'⟩

end Geometry

/-- The parameters that the controller uses.  `refreshPeriod` is `REFRESH_PERIOD/tCK` as an
`unsigned`, and `refreshStagger` is `(int)((REFRESH_PERIOD/tCK)/NUM_RANKS)`. -/
structure Config extends Geometry where
  addressMappingScheme : AddressMappingScheme
  rowBufferPolicy : RowBufferPolicy
  queuingStructure : QueuingStructure
  schedulingPolicy : SchedulingPolicy
  useLowPower : Bool
  transQueueDepth : ℕ
  cmdQueueDepth : ℕ
  totalRowAccesses : ℕ
  refreshPeriod : ℕ
  refreshStagger : ℕ
  CL : ℕ
  AL : ℕ
  BL : ℕ
  tRAS : ℕ
  tRCD : ℕ
  tRRD : ℕ
  tRC : ℕ
  tRP : ℕ
  tCCD : ℕ
  tRTP : ℕ
  tWTR : ℕ
  tWR : ℕ
  tRTRS : ℕ
  tRFC : ℕ
  tFAW : ℕ
  tCKE : ℕ
  tXP : ℕ
  tCMD : ℕ

namespace Config

variable (cfg : Config)

instance : NeZero cfg.numChans := inferInstanceAs (NeZero cfg.toGeometry.numChans)

instance : NeZero cfg.numRanks := inferInstanceAs (NeZero cfg.toGeometry.numRanks)

instance : NeZero cfg.numBanks := inferInstanceAs (NeZero cfg.toGeometry.numBanks)

def RL : ℕ := cfg.CL + cfg.AL

def WL : ℕ := cfg.RL - 1

def readToPreDelay : ℕ := cfg.AL + cfg.BL / 2 + max cfg.tRTP cfg.tCCD - cfg.tCCD

def writeToPreDelay : ℕ := cfg.WL + cfg.BL / 2 + cfg.tWR

def readToWriteDelay : ℕ := cfg.RL + cfg.BL / 2 + cfg.tRTRS - cfg.WL

def readAutopreDelay : ℕ := cfg.AL + cfg.tRTP + cfg.tRP

def writeAutopreDelay : ℕ := cfg.WL + cfg.BL / 2 + cfg.tWR + cfg.tRP

/-- Between banks of one rank. -/
def writeToReadDelayB : ℕ := cfg.WL + cfg.BL / 2 + cfg.tWTR

/-- Between ranks. -/
def writeToReadDelayR : ℕ := cfg.WL + cfg.BL / 2 + cfg.tRTRS - cfg.RL

/-- `system.ini` with `DDR2_micron_16M_8b_x8_sg3E.ini`, for 2048 megabytes. -/
def ddr2 : Config where
  numChansLog := 0
  numRanksLog := 1
  numBanksLog := 3
  numRowsLog := 14
  numColsLog := 10
  byteOffsetWidth := 3
  colLowBitWidth := 2
  addressMappingScheme := .scheme2
  rowBufferPolicy := .openPage
  queuingStructure := .perRank
  schedulingPolicy := .rankThenBankRoundRobin
  useLowPower := true
  transQueueDepth := 32
  cmdQueueDepth := 32
  totalRowAccesses := 4
  refreshPeriod := 2600
  refreshStagger := 1300
  CL := 4
  AL := 0
  BL := 4
  tRAS := 14
  tRCD := 4
  tRRD := 3
  tRC := 18
  tRP := 4
  tCCD := 2
  tRTP := 3
  tWTR := 3
  tWR := 5
  tRTRS := 1
  tRFC := 43
  tFAW := 13
  tCKE := 3
  tXP := 2
  tCMD := 1

end Config

end SpikeSim.Dram
