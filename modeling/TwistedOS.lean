import TwistedOS.Data.RadixTree
import TwistedOS.Heap.RejectedPointers
import TwistedOS.Memory.BuddyRuns
import TwistedOS.Logic.FutexRuns
import TwistedOS.Logic.VforkRuns
import TwistedOS.Logic.StopSignals
import TwistedOS.Logic.ProcessGroups
import TwistedOS.Logic.SchedulerFairness
import TwistedOS.Logic.SignalRuns
import TwistedOS.UserMemory.MappingRuns
import TwistedOS.Epoll.EpollRuns
import TwistedOS.Arch.Preemption
import TwistedOS.Files.ConfinedUpdates
import TwistedOS.Files.PathSpecification
import TwistedOS.Files.FileContents
import TwistedOS.Transfer.TransferExactness
import TwistedOS.Memory.BuddyCompleteness
import TwistedOS.Transfer.PipeRuns
import TwistedOS.Memory.MappedPages
import TwistedOS.Boot.HandOver
import TwistedOS.Memory.ArbitraryFrees
import TwistedOS.Terminal.ScreenOutput
import TwistedOS.Terminal.LineDiscipline
import TwistedOS.Logic.RequestedTimes
import TwistedOS.Elf.InitialStack
import TwistedOS.Memory.PageProtection
import TwistedOS.Memory.CopiedTranslation
import TwistedOS.Data.TouchingRanges
import TwistedOS.Elf.CleanUpExactness
import TwistedOS.Elf.LoadBounds
import TwistedOS.Files.DiskBytes
import TwistedOS.Files.BlockMap
import TwistedOS.Sockets.SocketAddresses
import TwistedOS.Sockets.SocketPolling
import TwistedOS.UserMemory.CopyPermissions
import TwistedOS.Data.WaitingConnections
import TwistedOS.Files.DirectoryTraversal
import TwistedOS.Files.DentryPaths
import TwistedOS.Files.PartitionDevices
import TwistedOS.Devices.EventDevices
import TwistedOS.Files.DirectoryListing
import TwistedOS.Transfer.DuplicatedDescriptors
import TwistedOS.Files.PartitionDiscovery
import TwistedOS.Logic.ScriptExecution
import TwistedOS.Files.FileMappings
import TwistedOS.Logic.CloneStart
import TwistedOS.Files.Renaming
import TwistedOS.Logic.IntrusiveQueue
import TwistedOS.Files.CpioArchives
import TwistedOS.Devices.VirtioRandom
import TwistedOS.Devices.InputController
import TwistedOS.UserMemory.FrameBufferRuns
