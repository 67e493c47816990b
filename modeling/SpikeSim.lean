import SpikeSim.Decode.Transparent
import SpikeSim.Oram.Trace
import SpikeSim.Riscv.Isolation
import SpikeSim.Riscv.Precise
import SpikeSim.Riscv.Step
import SpikeSim.Riscv.TlbAccess
import SpikeSim.Riscv.Interrupt
import SpikeSim.Riscv.Legal
import SpikeSim.Riscv.Walk
import SpikeSim.Riscv.WordRegs
import SpikeSim.Riscv.Debug
import SpikeSim.Cache.Traffic
import SpikeSim.Oram.Servable
import SpikeSim.Riscv.Timer
import SpikeSim.Riscv.DataTrace
import SpikeSim.Gdb.Requests
import SpikeSim.Gdb.Translate
import SpikeSim.Riscv.NextPc
import SpikeSim.Riscv.TriggerActions
import SpikeSim.Riscv.TriggerMatch
import SpikeSim.Riscv.MulDiv
import SpikeSim.Riscv.IsaGrammar
import SpikeSim.Riscv.CsrWriteBack
import SpikeSim.Riscv.Amo
import SpikeSim.Riscv.TriggerPaths
import SpikeSim.Riscv.EvenPc
import SpikeSim.Riscv.Bus
import SpikeSim.Cache.Construct
import SpikeSim.Cache.Eviction
import SpikeSim.Oram.Overflow
import SpikeSim.Gdb.Iterators
import SpikeSim.Gdb.ReadLimits
import SpikeSim.Gdb.Fifo
import SpikeSim.Gdb.HexCodec
import SpikeSim.Gdb.Delivery
import SpikeSim.Gdb.BinaryWrite
import SpikeSim.Gdb.Features
import SpikeSim.Riscv.Schedule
import SpikeSim.Decode.Disasm
import SpikeSim.Decode.Alone
import SpikeSim.Gdb.Encoders
import SpikeSim.Riscv.FieldMacros
import SpikeSim.Riscv.Counting
import SpikeSim.Riscv.Escape
import SpikeSim.Riscv.Reservation
import SpikeSim.Riscv.Atomicity
import SpikeSim.Dram.Safety
import SpikeSim.Dram.ActivateWindow
import SpikeSim.Dram.ClockDomain
import SpikeSim.Dram.MultiChannel
import SpikeSim.Dram.RowOrder
