import TuwaiqOS.FsConcurrency
import TuwaiqOS.TaskSwitching
import TuwaiqOS.AddressSpaceLifetime
import TuwaiqOS.TreeGrammar
import TuwaiqOS.PrivateNamespaces
import TuwaiqOS.ApplicationVolume
import TuwaiqOS.MountResolution
import TuwaiqOS.PathMap
import TuwaiqOS.UserCopies
import TuwaiqOS.UnmapRecords
import TuwaiqOS.InputOrder
import TuwaiqOS.ElfLoad
import TuwaiqOS.FailedCalls
import TuwaiqOS.FatAddressing
import TuwaiqOS.FatLoops
import TuwaiqOS.ChecksumDetection
import TuwaiqOS.InterruptedSync
import TuwaiqOS.KeyTenure
import TuwaiqOS.OwnershipPlan
import TuwaiqOS.ShellHistory
import TuwaiqOS.FramebufferConsole
import TuwaiqOS.MouseStream
