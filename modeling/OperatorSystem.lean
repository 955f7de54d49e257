import OperatorSystem.Blk.Discipline
import OperatorSystem.Blk.ReadBlock
import OperatorSystem.Boot.FatTable
import OperatorSystem.Boot.KernelFile
import OperatorSystem.Boot.Retry
import OperatorSystem.Chr.Hanging
import OperatorSystem.Chr.ReadQueue
import OperatorSystem.Fs.BlockStore
import OperatorSystem.Fs.BufferArea
import OperatorSystem.Fs.Pointers
import OperatorSystem.Fs.References
import OperatorSystem.Fs.Victim
import OperatorSystem.Kernel.ClockReading
import OperatorSystem.Kernel.Descriptors
import OperatorSystem.Kernel.ExceptionReport
import OperatorSystem.Kernel.Fairness
import OperatorSystem.Kernel.ForkFailure
import OperatorSystem.Kernel.FreshPid
import OperatorSystem.Kernel.Interrupts
import OperatorSystem.Kernel.MemLib
import OperatorSystem.Kernel.Ownership
import OperatorSystem.Kernel.Protection
import OperatorSystem.Kernel.Selection
import OperatorSystem.Kernel.Sleeping
import OperatorSystem.Kernel.SwitchTo
import OperatorSystem.Kernel.SysCall
import OperatorSystem.Kernel.WaitQueue
import OperatorSystem.Mm.MainMemory
