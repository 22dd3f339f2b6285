import RiscvSoc.Clocked.Trajectory
import RiscvSoc.Cpu.SingleCycle
import RiscvSoc.Cpu.Pipeline
import RiscvSoc.Cpu.PipelineEdge
import RiscvSoc.Memory.ByteLanes
import RiscvSoc.Testbench.TbDiff
import RiscvSoc.Testbench.TrapOrder
import RiscvSoc.Cpu.InterruptEntry
import RiscvSoc.Cpu.TrapWindow
import RiscvSoc.Fpga.BramAccess
import RiscvSoc.Fpga.HaltedCore
import RiscvSoc.Fpga.ReadMmio
import RiscvSoc.Peripherals.DebugRequest
import RiscvSoc.Fpga.DebugSession
import RiscvSoc.Peripherals.UartStream
import RiscvSoc.Peripherals.UartLoopback
import RiscvSoc.Fpga.UartTransmit
import RiscvSoc.Fpga.UartReceive
import RiscvSoc.Fpga.UnhaltKey
import RiscvSoc.Peripherals.DebugIgnore
import RiscvSoc.Host.Upload
import RiscvSoc.Fpga.LoadProgram
import RiscvSoc.Peripherals.VgaSwap
import RiscvSoc.Cpu.ResetRun
import RiscvSoc.Fpga.AddressMap
import RiscvSoc.Fpga.StepSession
import RiscvSoc.Fpga.FramebufferLoad
import RiscvSoc.Cpu.Conformance
import RiscvSoc.Cpu.PcParity
import RiscvSoc.Cpu.UnknownWord
import RiscvSoc.Cpu.MemAccess
import RiscvSoc.Cpu.StoreFrame
import RiscvSoc.Cpu.HazardStall
import RiscvSoc.Cpu.EmptySlots
import RiscvSoc.Peripherals.VgaWindows
import RiscvSoc.Peripherals.VgaScanout
import RiscvSoc.Peripherals.VgaMode
import RiscvSoc.Peripherals.TimerTicks
import RiscvSoc.Fpga.TimerAck
import RiscvSoc.Peripherals.DebugResync
import RiscvSoc.Host.Mif
import RiscvSoc.Testbench.Throughput
import RiscvSoc.Testbench.IsaRun
import RiscvSoc.Testbench.CheckerboardRun
import RiscvSoc.Host.UploadRun
import RiscvSoc.Fpga.CheckerboardScreen
import RiscvSoc.Peripherals.SpiPicture
